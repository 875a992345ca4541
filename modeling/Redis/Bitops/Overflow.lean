import Redis.Bitops.Fields

namespace Redis.Bitops

open Redis Redis.BitArray

/-!
# Overflow of a field

* `Owtype.fit` — what an overflow type makes of an integer;
* `checkUnsignedBitfieldOverflow_spec`, `checkSignedBitfieldOverflow_spec` — the value that
  is stored is that one, although the checks compute in 64 bits;
* `storeOp_spec`, `writeOp_spec` — SET and INCRBY.
-/

/-- The integer that is stored for `v`, unless nothing is. -/
def Owtype.fit (t : IntType) (v : Int) : Owtype → Option Int
  | .wrap => some (t.wrap v)
  | .sat  => some (t.clamp v)
  | .fail => if t.Holds v then some v else none

/-- What the result of a check makes of the sum: the new value, unless there is none. -/
def stored (r : Int × BitVec 64) (sum : BitVec 64) (owtype : Owtype) : Option (BitVec 64) :=
  if r.1 ≠ 0 ∧ owtype = .fail then none else some (if r.1 ≠ 0 then r.2 else sum)

/-- An integer of the type is stored as it is. -/
theorem Owtype.fit_of_holds {t : IntType} (hbits : 0 < t.bits) {v : Int} (h : t.Holds v) (owtype : Owtype) :
    owtype.fit t v = some v := by
  cases owtype with
  | wrap => rw [Owtype.fit, IntType.wrap_of_holds hbits h]
  | sat  => rw [Owtype.fit, IntType.clamp_of_holds h]
  | fail => rw [Owtype.fit, if_pos h]

variable {owtype : Owtype} {bits : Nat} {base incr : BitVec 64}

theorem Owtype.holds_of_fit {t : IntType} (hbits : 0 < t.bits) {v w : Int} (h : owtype.fit t v = some w) :
    t.Holds w := by
  cases owtype with
  | wrap =>
    rw [Owtype.fit, Option.some.injEq] at h
    exact h ▸ IntType.holds_wrap hbits v
  | sat =>
    rw [Owtype.fit, Option.some.injEq] at h
    exact h ▸ IntType.holds_clamp v
  | fail =>
    by_cases hv : t.Holds v
    · rw [Owtype.fit, if_pos hv, Option.some.injEq] at h
      exact h ▸ hv
    · rw [Owtype.fit, if_neg hv] at h
      cases h

/-! ### 64-bit arithmetic -/

theorem toInt_sub_of_fits {a b : BitVec 64} (hlo : -2 ^ 63 ≤ a.toInt - b.toInt) (hhi : a.toInt - b.toInt < 2 ^ 63) :
    (a - b).toInt = a.toInt - b.toInt := by
  rw [BitVec.toInt_sub]
  exact Int.bmod_eq_of_le_mul_two (by omega) (by omega)

theorem toInt_neg_of_fits {a : BitVec 64} (hlo : -2 ^ 63 < a.toInt) : (-a).toInt = -a.toInt := by
  have hhi := BitVec.toInt_lt (x := a)
  rw [BitVec.toInt_neg]
  exact Int.bmod_eq_of_le_mul_two (by omega) (by omega)

theorem toInt_add_of_fits {a b : BitVec 64} (hlo : -2 ^ 63 ≤ a.toInt + b.toInt) (hhi : a.toInt + b.toInt < 2 ^ 63) :
    (a + b).toInt = a.toInt + b.toInt := by
  rw [BitVec.toInt_add]
  exact Int.bmod_eq_of_le_mul_two (by omega) (by omega)

/-- The sum of two numbers, of which 64 bits are kept. -/
theorem toNat_add_emod (a b : BitVec 64) {n : Nat} (hn : n ≤ 64) :
    ((a + b).toNat : Int) % 2 ^ n = (a.toInt + b.toInt) % 2 ^ n := by
  have hdvd : (2 : Int) ^ n ∣ 2 ^ 64 := pow_dvd_pow 2 hn
  have h64 : ((a + b).toNat : Int) % 2 ^ 64 = (a.toInt + b.toInt) % 2 ^ 64 := by
    rw [BitVec.toNat_add, BitVec.toInt_eq_toNat_cond, BitVec.toInt_eq_toNat_cond]
    split <;> split <;> omega
  rw [← Int.emod_emod_of_dvd _ hdvd, h64, Int.emod_emod_of_dvd _ hdvd]

theorem toNat_one_shift {n : Nat} (hn : n < 64) : (1#64 <<< n).toNat = 2 ^ n := by
  have hle : 2 ^ n ≤ 2 ^ 63 := Nat.pow_le_pow_right (by omega) (by omega)
  rw [BitVec.toNat_shiftLeft, BitVec.toNat_ofNat, Nat.shiftLeft_eq]
  omega

/-- `(1 << n) - 1`. -/
theorem toNat_max {n : Nat} (hn : n < 64) : ((1#64 <<< n) - 1#64).toNat = 2 ^ n - 1 := by
  have hpos : 0 < 2 ^ n := by positivity
  have hle : 1#64 ≤ 1#64 <<< n := by
    rw [BitVec.le_def, toNat_one_shift hn]
    exact hpos
  rw [BitVec.toNat_sub_of_le hle, toNat_one_shift hn]
  rfl

theorem toInt_max {n : Nat} (hn : n < 64) : ((1#64 <<< n) - 1#64).toInt = 2 ^ n - 1 := by
  have hle : 2 ^ n ≤ 2 ^ 63 := Nat.pow_le_pow_right (by omega) (by omega)
  have hpos : 0 < 2 ^ n := by positivity
  have hnat := toNat_max hn
  rw [BitVec.toInt_eq_toNat_of_lt (by omega), hnat, Nat.cast_sub hpos]
  push_cast
  rfl

theorem toInt_min {n : Nat} (hn : n < 63) : (-((1#64 <<< n) - 1#64) - 1#64).toInt = -2 ^ n := by
  have hmax := toInt_max (show n < 64 by omega)
  have hpos : (0 : Int) < 2 ^ n := by positivity
  have hle : (2 : Int) ^ n ≤ 2 ^ 62 := pow_le_pow_right₀ (by norm_num) (by omega)
  have hneg : (-((1#64 <<< n) - 1#64)).toInt = -(2 ^ n - 1) := by
    rw [toInt_neg_of_fits (by omega), hmax]
  have hint : (1#64).toInt = 1 := by decide
  rw [toInt_sub_of_fits (by omega) (by omega), hneg, hint]
  ring

/-! ### The checks -/

/-- `handle_wrap` for unsigned fields. -/
theorem wrapUnsigned_spec (a b : BitVec 64) (hbits : bits < 64) :
    ((wrapUnsigned a b bits).toNat : Int) = (IntType.mk false bits).wrap (a.toInt + b.toInt) := by
  have hsum := toNat_add_emod a b (show bits ≤ 64 by omega)
  rw [wrapUnsigned, toNat_and_low _ hbits, IntType.wrap, if_neg (by simp), ← hsum]
  push_cast
  rfl

/-- `handle_wrap` for signed fields. -/
theorem wrapSigned_spec (a b : BitVec 64) (hpos : 0 < bits) (hbits : bits < 64) :
    (wrapSigned a b bits).toInt = (IntType.mk true bits).wrap (a.toInt + b.toInt) := by
  have hsum := toNat_add_emod a b (show bits ≤ 64 by omega)
  have hcast : ((2 ^ bits : Nat) : Int) = 2 ^ bits := by push_cast; rfl
  have hmod : ((a + b).toNat : Int).bmod (2 ^ bits) = (a.toInt + b.toInt).bmod (2 ^ bits) := by
    rw [← Int.emod_bmod, hcast, hsum, ← hcast, Int.emod_bmod]
  have hwrap := toInt_signed hpos hbits (toNat_and_low (a + b) hbits)
  rw [wrapSigned, hwrap, hmod, IntType.wrap, if_pos rfl]

/-- The value that is stored in an unsigned field.  The value that is checked is in range,
    or nothing is added to it and it is wrapped. -/
theorem checkUnsignedBitfieldOverflow_spec (hpos : 0 < bits) (hbits : bits < 64) (limit : BitVec 64)
    (h : base.toNat < 2 ^ bits ∨ incr = 0#64 ∧ owtype = .wrap) :
    (stored (checkUnsignedBitfieldOverflow base incr bits owtype limit) (base + incr) owtype).map
        (fun x => (x.toNat : Int))
      = owtype.fit ⟨false, bits⟩ (base.toInt + incr.toInt) := by
  have hle : 2 ^ bits ≤ 2 ^ 63 := Nat.pow_le_pow_right (by omega) (by omega)
  have hone : 0 < 2 ^ bits := by positivity
  have hcast : ((2 ^ bits : Nat) : Int) = 2 ^ bits := by push_cast; rfl
  have hmaxnat := toNat_max hbits
  have hmax := toInt_max hbits
  have hwrap := wrapUnsigned_spec base incr hbits
  have hne : bits ≠ 64 := by omega
  by_cases hin : base.toNat < 2 ^ bits
  · have hbase : base.toInt = base.toNat := BitVec.toInt_eq_toNat_of_lt (by omega)
    -- neither difference overflows, for the value is in range
    have hmaxincr : ((1#64 <<< bits) - 1#64 - base).toInt = 2 ^ bits - 1 - base.toInt := by
      rw [toInt_sub_of_fits (by omega) (by omega), hmax]
    have hminincr : (-base).toInt = -base.toInt := toInt_neg_of_fits (by omega)
    have hover : (((1#64 <<< bits) - 1#64).ult base = true ∨ (0#64).slt incr = true
        ∧ ((1#64 <<< bits) - 1#64 - base).slt incr = true) ↔ 2 ^ bits - 1 < base.toInt + incr.toInt := by
      simp only [BitVec.ult, BitVec.slt, hmaxnat, hmaxincr, decide_eq_true_eq, BitVec.toInt_zero]
      omega
    have hunder : (incr.slt 0#64 = true ∧ incr.slt (-base) = true) ↔ base.toInt + incr.toInt < 0 := by
      simp only [BitVec.slt, hminincr, decide_eq_true_eq, BitVec.toInt_zero]
      omega
    rw [checkUnsignedBitfieldOverflow.eq_def]
    simp only [if_neg hne, hover, hunder]
    by_cases h1 : 2 ^ bits - 1 < base.toInt + incr.toInt
    · have hout : ¬(IntType.mk false bits).Holds (base.toInt + incr.toInt) := by
        simp only [IntType.Holds, IntType.max, Bool.false_eq_true, if_false]
        omega
      rw [if_pos h1]
      cases owtype with
      | wrap => simp [stored, Owtype.fit, hwrap]
      | sat =>
        have hclamp : (IntType.mk false bits).clamp (base.toInt + incr.toInt) = 2 ^ bits - 1 := by
          rw [IntType.clamp, if_pos (by simpa [IntType.max] using h1)]
          simp [IntType.max]
        simp [stored, Owtype.fit, hclamp, hmaxnat]
      | fail => simp [stored, Owtype.fit, hout]
    · rw [if_neg h1]
      by_cases h2 : base.toInt + incr.toInt < 0
      · have hout : ¬(IntType.mk false bits).Holds (base.toInt + incr.toInt) := by
          simp only [IntType.Holds, IntType.min, Bool.false_eq_true, if_false]
          omega
        rw [if_pos h2]
        cases owtype with
        | wrap => simp [stored, Owtype.fit, hwrap]
        | sat =>
          have hclamp : (IntType.mk false bits).clamp (base.toInt + incr.toInt) = 0 := by
            rw [IntType.clamp, if_neg (by simpa [IntType.max] using h1), if_pos (by simpa [IntType.min] using h2)]
            simp [IntType.min]
          simp [stored, Owtype.fit, hclamp]
        | fail => simp [stored, Owtype.fit, hout]
      · have hholds : (IntType.mk false bits).Holds (base.toInt + incr.toInt) := by
          simp only [IntType.Holds, IntType.min, IntType.max, Bool.false_eq_true, if_false]
          omega
        have hsum : ((base + incr).toNat : Int) = base.toInt + incr.toInt := by
          have hmod := toNat_add_emod base incr (Nat.le_refl 64)
          omega
        rw [if_neg h2, Owtype.fit_of_holds hpos hholds]
        simp only [stored, ne_eq, not_true_eq_false, false_and, if_false, Option.map_some, hsum]
  · obtain ⟨hincr, how⟩ := h.resolve_left hin
    have hover : (((1#64 <<< bits) - 1#64).ult base = true ∨ (0#64).slt incr = true
        ∧ ((1#64 <<< bits) - 1#64 - base).slt incr = true) := by
      left
      simp only [BitVec.ult, hmaxnat, decide_eq_true_eq]
      omega
    rw [checkUnsignedBitfieldOverflow.eq_def]
    simp only [if_neg hne, if_pos hover]
    subst how
    simp [stored, Owtype.fit, hwrap]

/-- The value that is stored fits a signed integer of 64 bits too. -/
theorem checkUnsignedBitfieldOverflow_toInt (hpos : 0 < bits) (hbits : bits < 64) (limit : BitVec 64)
    (h : base.toNat < 2 ^ bits ∨ incr = 0#64 ∧ owtype = .wrap) :
    (stored (checkUnsignedBitfieldOverflow base incr bits owtype limit) (base + incr) owtype).map BitVec.toInt
      = owtype.fit ⟨false, bits⟩ (base.toInt + incr.toInt) := by
  have hspec := checkUnsignedBitfieldOverflow_spec hpos hbits limit h
  have hle : (2 : Int) ^ bits ≤ 2 ^ 63 := pow_le_pow_right₀ (by omega) (by omega)
  rw [← hspec]
  cases hstored : stored (checkUnsignedBitfieldOverflow base incr bits owtype limit) (base + incr) owtype with
  | none => rfl
  | some x =>
    rw [hstored] at hspec
    have hholds := Owtype.holds_of_fit hpos hspec.symm
    have hlt : (x.toNat : Int) ≤ 2 ^ bits - 1 := by simpa [IntType.max] using hholds.2
    rw [Option.map_some, Option.map_some, BitVec.toInt_eq_toNat_of_lt (by omega)]

/-- The value that is stored in a signed field. -/
theorem checkSignedBitfieldOverflow_spec (hpos : 0 < bits) (hbits : bits < 64) (limit : BitVec 64)
    (h : (IntType.mk true bits).Holds base.toInt ∨ incr = 0#64 ∧ owtype = .wrap) :
    (stored (checkSignedBitfieldOverflow base incr bits owtype limit) (base + incr) owtype).map BitVec.toInt
      = owtype.fit ⟨true, bits⟩ (base.toInt + incr.toInt) := by
  have hle : 2 ^ (bits - 1) ≤ 2 ^ 62 := Nat.pow_le_pow_right (by omega) (by omega)
  have hone : 0 < 2 ^ (bits - 1) := by positivity
  have hcast : ((2 ^ (bits - 1) : Nat) : Int) = 2 ^ (bits - 1) := by push_cast; rfl
  have hmax := toInt_max (show bits - 1 < 64 by omega)
  have hmin := toInt_min (show bits - 1 < 63 by omega)
  have hwrap := wrapSigned_spec base incr hpos hbits
  have hne : bits ≠ 64 := by omega
  have hType : (IntType.mk true bits).Holds base.toInt ↔ -2 ^ (bits - 1) ≤ base.toInt ∧ base.toInt ≤ 2 ^ (bits - 1) - 1 := by
    simp [IntType.Holds, IntType.min, IntType.max]
  generalize hM : (1#64 <<< (bits - 1)) - 1#64 = max at hmax hmin
  generalize hm : -max - 1#64 = min at hmin
  by_cases hin : (IntType.mk true bits).Holds base.toInt
  · have hbase := hType.mp hin
    have hmaxincr : (max - base).toInt = 2 ^ (bits - 1) - 1 - base.toInt := by
      rw [toInt_sub_of_fits (by omega) (by omega), hmax]
    have hminincr : (min - base).toInt = -2 ^ (bits - 1) - base.toInt := by
      rw [toInt_sub_of_fits (by omega) (by omega), hmin]
    have hover : (max.slt base = true ∨ (bits ≠ 64 ∧ (max - base).slt incr = true)
        ∨ ((0#64).sle base = true ∧ (0#64).slt incr = true ∧ (max - base).slt incr = true))
        ↔ 2 ^ (bits - 1) - 1 < base.toInt + incr.toInt := by
      simp only [BitVec.slt, BitVec.sle, hmax, hmaxincr, decide_eq_true_eq, BitVec.toInt_zero]
      omega
    have hunder : (base.slt min = true ∨ (bits ≠ 64 ∧ incr.slt (min - base) = true)
        ∨ (base.slt 0#64 = true ∧ incr.slt 0#64 = true ∧ incr.slt (min - base) = true))
        ↔ base.toInt + incr.toInt < -2 ^ (bits - 1) := by
      simp only [BitVec.slt, hmin, hminincr, decide_eq_true_eq, BitVec.toInt_zero]
      omega
    rw [checkSignedBitfieldOverflow.eq_def]
    simp only [if_neg hne, hM, hm, hover, hunder]
    by_cases h1 : 2 ^ (bits - 1) - 1 < base.toInt + incr.toInt
    · have hout : ¬(IntType.mk true bits).Holds (base.toInt + incr.toInt) := by
        simp only [IntType.Holds, IntType.max, if_true]
        omega
      rw [if_pos h1]
      cases owtype with
      | wrap => simp [stored, Owtype.fit, hwrap]
      | sat =>
        have hclamp : (IntType.mk true bits).clamp (base.toInt + incr.toInt) = 2 ^ (bits - 1) - 1 := by
          rw [IntType.clamp, if_pos (by simpa [IntType.max] using h1)]
          simp [IntType.max]
        simp [stored, Owtype.fit, hclamp, hmax]
      | fail => simp [stored, Owtype.fit, hout]
    · rw [if_neg h1]
      by_cases h2 : base.toInt + incr.toInt < -2 ^ (bits - 1)
      · have hout : ¬(IntType.mk true bits).Holds (base.toInt + incr.toInt) := by
          simp only [IntType.Holds, IntType.min, if_true]
          omega
        rw [if_pos h2]
        cases owtype with
        | wrap => simp [stored, Owtype.fit, hwrap]
        | sat =>
          have hclamp : (IntType.mk true bits).clamp (base.toInt + incr.toInt) = -2 ^ (bits - 1) := by
            rw [IntType.clamp, if_neg (by simpa [IntType.max] using h1), if_pos (by simpa [IntType.min] using h2)]
            simp [IntType.min]
          simp [stored, Owtype.fit, hclamp, hmin]
        | fail => simp [stored, Owtype.fit, hout]
      · have hholds : (IntType.mk true bits).Holds (base.toInt + incr.toInt) := by
          simp only [IntType.Holds, IntType.min, IntType.max, if_true]
          omega
        have hsum := toInt_add_of_fits (a := base) (b := incr) (by omega) (by omega)
        rw [if_neg h2, Owtype.fit_of_holds hpos hholds]
        simp [stored, hsum]
  · obtain ⟨hincr, how⟩ := h.resolve_left hin
    have hbase : ¬(-2 ^ (bits - 1) ≤ base.toInt ∧ base.toInt ≤ 2 ^ (bits - 1) - 1) := by
      rw [← hType]
      exact hin
    subst how
    rw [checkSignedBitfieldOverflow.eq_def]
    simp only [if_neg hne, hM, hm]
    -- one of the first comparisons finds the value out of range; both wrap it
    by_cases h1 : max.slt base = true ∨ (bits ≠ 64 ∧ (max - base).slt incr = true)
        ∨ ((0#64).sle base = true ∧ (0#64).slt incr = true ∧ (max - base).slt incr = true)
    · rw [if_pos h1]
      simp [stored, Owtype.fit, hwrap]
    · have h2 : base.slt min = true := by
        have hmaxbase : ¬max.slt base = true := fun hslt => h1 (Or.inl hslt)
        simp only [BitVec.slt, hmax, hmin, decide_eq_true_eq] at hmaxbase ⊢
        omega
      rw [if_neg h1, if_pos (Or.inl h2)]
      simp [stored, Owtype.fit, hwrap]

/-! ### SET and INCRBY -/

/-- The integer type of an operation. -/
def BitfieldOp.type (op : BitfieldOp) : IntType := ⟨op.sign, op.bits⟩

/-- What an operation stores in a field that holds `old`, unless it stores nothing. -/
def BitfieldOp.new (op : BitfieldOp) (old : Int) : Option Int :=
  op.owtype.fit op.type (if op.opcode = .incrby then old + op.i64.toInt else op.i64.toInt)

/-- SET and INCRBY on a bit array: the bits afterwards and the reply. -/
def BitfieldOp.store (op : BitfieldOp) (f : Nat → Bool) : (Nat → Bool) × Reply :=
  let old := op.type.get f op.offset
  ((op.new old).elim f (op.type.set f op.offset),
    (op.new old).elim .nullbulk (fun new => .longLong (if op.opcode = .incrby then new else old)))

/-- The operation is on a field that is narrower than 64 bits, and what it sets is
    wrapped. -/
structure BitfieldOp.Covered (op : BitfieldOp) : Prop where
  pos : 0 < op.bits
  lt : op.bits < 64
  wrap : op.opcode = .set → op.owtype = .wrap

section
variable {get : Bytes → Nat → Nat → Except Fault (BitVec 64)}
  {check : BitVec 64 → BitVec 64 → Nat → Owtype → BitVec 64 → Int × BitVec 64}
  {set : Bytes → Nat → Nat → BitVec 64 → Except Fault Bytes} {p : Bytes} {op : BitfieldOp}

/-- What the check is called with: the value, and what is added to it. -/
def BitfieldOp.operands (op : BitfieldOp) (oldval : BitVec 64) : BitVec 64 × BitVec 64 :=
  if op.opcode = .incrby then (oldval, op.i64) else (op.i64, 0#64)

variable (check) in
/-- SET and INCRBY store what the check makes of the sum. -/
theorem storeOp_run (wrapped : BitVec 64) {oldval : BitVec 64} (hget : get p op.offset op.bits = .ok oldval)
    (hset : Sets set p op.offset op.bits)
    (new : Option (BitVec 64))
    (hnew : stored (check (op.operands oldval).1 (op.operands oldval).2 op.bits op.owtype wrapped)
      ((op.operands oldval).1 + (op.operands oldval).2) op.owtype = new) :
    ∃ p', storeOp get check set wrapped p op
        = .ok (p', new.elim .nullbulk
            (fun x => .longLong (if op.opcode = .incrby then x.toInt else oldval.toInt))) ∧
      p'.length = p.length ∧
      bitAt p' = new.elim (bitAt p) (fun x => write (bitAt p) op.offset op.bits x.toNat) := by
  obtain ⟨base, hbase⟩ : ∃ base, base = if op.opcode = .incrby then oldval else op.i64 := ⟨_, rfl⟩
  obtain ⟨incr, hincr⟩ : ∃ incr, incr = if op.opcode = .incrby then op.i64 else 0#64 := ⟨_, rfl⟩
  have hoperands : op.operands oldval = (base, incr) := by
    rw [BitfieldOp.operands, hbase, hincr]
    by_cases hopcode : op.opcode = .incrby
    · simp only [if_pos hopcode]
    · simp only [if_neg hopcode]
  rw [hoperands] at hnew
  rw [storeOp, hget, Outcome.ok_bind]
  simp only [← hbase, ← hincr]
  by_cases hfail : (check base incr op.bits op.owtype wrapped).1 ≠ 0 ∧ op.owtype = .fail
  · -- nothing is written
    rw [stored, if_pos hfail] at hnew
    subst hnew
    exact ⟨p, by rw [if_pos hfail]; rfl, rfl, rfl⟩
  · obtain ⟨newval, hnewval⟩ : ∃ newval, newval = if (check base incr op.bits op.owtype wrapped).1 ≠ 0
      then (check base incr op.bits op.owtype wrapped).2 else base + incr := ⟨_, rfl⟩
    rw [stored, if_neg hfail, ← hnewval] at hnew
    subst hnew
    obtain ⟨p', hp', hlen, hbits⟩ := hset newval
    refine ⟨p', ?_, hlen, hbits⟩
    rw [if_neg hfail, ← hnewval, hp', Outcome.ok_bind]
    by_cases hopcode : op.opcode = .incrby
    · simp [hopcode]
    · simp [hopcode]

/-- The bits of a word are those of its integer. -/
theorem write_toInt (f : Nat → Bool) (off : Nat) {bits : Nat} (hbits : bits ≤ 64) (x : BitVec 64) :
    write f off bits x.toNat = write f off bits (x.toInt % 2 ^ bits).toNat := by
  have hmod := toNat_add_emod x 0#64 hbits
  have hnat : (x.toInt % 2 ^ bits).toNat = x.toNat % 2 ^ bits := by
    simp only [BitVec.add_zero, BitVec.toInt_zero, add_zero] at hmod
    rw [← hmod]
    norm_cast
  rw [hnat, write_mod]

/-- The common path of signed and unsigned fields. -/
theorem storeOp_spec (hop : op.Covered) (hwrite : op.opcode ≠ .get) (wrapped : BitVec 64)
    (hget : ∃ v, get p op.offset op.bits = .ok v ∧ v.toInt = op.type.get (bitAt p) op.offset)
    (hcheck : ∀ base incr, (op.type.Holds base.toInt ∨ incr = 0#64 ∧ op.owtype = .wrap) →
      (stored (check base incr op.bits op.owtype wrapped) (base + incr) op.owtype).map BitVec.toInt
        = op.owtype.fit op.type (base.toInt + incr.toInt))
    (hset : Sets set p op.offset op.bits) :
    ∃ p', storeOp get check set wrapped p op = .ok (p', (op.store (bitAt p)).2) ∧ p'.length = p.length ∧
      bitAt p' = (op.store (bitAt p)).1 := by
  obtain ⟨oldval, hold, hval⟩ := hget
  have hnew : op.new (op.type.get (bitAt p) op.offset)
      = op.owtype.fit op.type ((op.operands oldval).1.toInt + (op.operands oldval).2.toInt) := by
    rw [BitfieldOp.new, ← hval, BitfieldOp.operands]
    by_cases hopcode : op.opcode = .incrby
    · simp only [if_pos hopcode]
    · simp only [if_neg hopcode, BitVec.toInt_zero, add_zero]
  have hin : op.type.Holds (op.operands oldval).1.toInt ∨ (op.operands oldval).2 = 0#64 ∧ op.owtype = .wrap := by
    rw [BitfieldOp.operands]
    by_cases hopcode : op.opcode = .incrby
    · left
      rw [if_pos hopcode, hval]
      exact IntType.holds_get hop.pos _ _
    · right
      refine ⟨by rw [if_neg hopcode], hop.wrap ?_⟩
      cases h : op.opcode with
      | get => exact absurd h hwrite
      | set => rfl
      | incrby => exact absurd h hopcode
  have hspec := hcheck _ _ hin
  rw [← hnew] at hspec
  obtain ⟨p', hrun, hlen, hbits⟩ := storeOp_run _ wrapped hold hset _ rfl
  refine ⟨p', ?_, hlen, ?_⟩
  · rw [hrun, BitfieldOp.store, ← hspec, ← hval]
    congr 2
    cases stored (check (op.operands oldval).1 (op.operands oldval).2 op.bits op.owtype wrapped)
      ((op.operands oldval).1 + (op.operands oldval).2) op.owtype <;> rfl
  · rw [hbits, BitfieldOp.store, ← hspec]
    cases stored (check (op.operands oldval).1 (op.operands oldval).2 op.bits op.owtype wrapped)
      ((op.operands oldval).1 + (op.operands oldval).2) op.owtype with
    | none => rfl
    | some x => exact write_toInt (bitAt p) op.offset (by have := hop.lt; omega) x

end

/-- A field of less than 64 bits is read as the integer of its type. -/
theorem getBitfield_type {p : Bytes} {op : BitfieldOp} (hpos : 0 < op.bits) (hlt : op.bits < 64)
    (h : op.offset + op.bits ≤ 8 * p.length) :
    (op.sign = true → ∃ v, getSignedBitfield p op.offset op.bits = .ok v ∧
      v.toInt = op.type.get (bitAt p) op.offset) ∧
    (op.sign = false → ∃ v, getUnsignedBitfield p op.offset op.bits = .ok v ∧
      v.toInt = op.type.get (bitAt p) op.offset) := by
  constructor
  · intro hsign
    obtain ⟨v, hv, hint⟩ := getSignedBitfield_spec hpos hlt h
    exact ⟨v, hv, by rw [hint, BitfieldOp.type, hsign, IntType.get, IntType.wrap, if_pos rfl]⟩
  · intro hsign
    obtain ⟨v, hv, hnat⟩ := getUnsignedBitfield_spec (show op.bits ≤ 64 by omega) h
    have hfield := field_lt (bitAt p) op.offset op.bits
    have hle : 2 ^ op.bits ≤ 2 ^ 63 := Nat.pow_le_pow_right (by omega) (by omega)
    refine ⟨v, hv, ?_⟩
    rw [BitVec.toInt_eq_toNat_of_lt (by omega), hnat, BitfieldOp.type, hsign, IntType.get, IntType.wrap,
      if_neg (by simp)]
    norm_cast
    rw [Nat.mod_eq_of_lt hfield]

/-- SET and INCRBY in a string that is long enough. -/
theorem writeOp_spec {p : Bytes} {op : BitfieldOp} (hop : op.Covered) (hwrite : op.opcode ≠ .get)
    (wrapped : BitVec 64) (h : op.offset + op.bits ≤ 8 * p.length) :
    ∃ p', writeOp wrapped p op = .ok (p', (op.store (bitAt p)).2) ∧ p'.length = p.length ∧
      bitAt p' = (op.store (bitAt p)).1 := by
  have hlt := hop.lt
  have hset := setUnsignedBitfield_spec hlt.le h
  rw [writeOp]
  cases hsign : op.sign with
  | true =>
    have htype : op.type = ⟨true, op.bits⟩ := by rw [BitfieldOp.type, hsign]
    rw [if_pos rfl]
    refine storeOp_spec hop hwrite wrapped ((getBitfield_type hop.pos hlt h).1 hsign) ?_ hset
    intro base incr hin
    rw [htype] at hin ⊢
    exact checkSignedBitfieldOverflow_spec hop.pos hlt wrapped hin
  | false =>
    have htype : op.type = ⟨false, op.bits⟩ := by rw [BitfieldOp.type, hsign]
    have hle : 2 ^ op.bits ≤ 2 ^ 63 := Nat.pow_le_pow_right (by omega) (by omega)
    rw [if_neg (by simp)]
    refine storeOp_spec hop hwrite wrapped ((getBitfield_type hop.pos hlt h).2 hsign) ?_ hset
    intro base incr hin
    rw [htype] at hin ⊢
    refine checkUnsignedBitfieldOverflow_toInt hop.pos hlt wrapped (hin.imp_left ?_)
    intro hholds
    have hlo : 0 ≤ base.toInt := by simpa [IntType.min] using hholds.1
    have hhi : base.toInt ≤ 2 ^ op.bits - 1 := by simpa [IntType.max] using hholds.2
    have hcast : ((2 ^ op.bits : Nat) : Int) = 2 ^ op.bits := by push_cast; rfl
    rw [BitVec.toInt_eq_toNat_cond] at hlo hhi
    split at hlo <;> omega

end Redis.Bitops
