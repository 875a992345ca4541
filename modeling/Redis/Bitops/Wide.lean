import Redis.Bitops.Frame

namespace Redis.Bitops

open Redis Redis.BitArray

/-!
# Signed fields of 64 bits

A shift of a word by 64 is a shift by zero, so the masks of the high bits are all ones.  A
negative field is then read as -1, and a sum that is wrapped becomes -1 or zero.

* `getSignedBitfield_wide`, `checkSignedBitfieldOverflow_wide` — what the code makes of them;
* `writeOp_wide`, `readOp_wide` — the operations;
* `wide_iff` — when SET, GET and INCRBY do what they do for narrower fields.
-/

/-- `int64_t`. -/
def i64 : IntType := ⟨true, 64⟩

/-- What a field of 64 bits that holds `v` is read as. -/
def seen (v : Int) : Int := if v < 0 then -1 else v

/-- What is stored for a sum, unless nothing is. -/
def Owtype.fitWide (s : Int) (owtype : Owtype) : Option Int :=
  if i64.Holds s then some s
  else
    match owtype with
    | .wrap => some (if s < 0 then 0 else -1)
    | .sat  => some (i64.clamp s)
    | .fail => none

theorem i64_holds {v : Int} : i64.Holds v ↔ -2 ^ 63 ≤ v ∧ v < 2 ^ 63 := by
  simp only [i64, IntType.Holds, IntType.min, IntType.max, if_true]
  omega

theorem i64_clamp (v : Int) : i64.clamp v = if 2 ^ 63 ≤ v then 2 ^ 63 - 1 else if v < -2 ^ 63 then -2 ^ 63 else v := by
  simp only [i64, IntType.clamp, IntType.min, IntType.max, if_true]
  split <;> split <;> omega

theorem i64_get (f : Nat → Bool) (off : Nat) : i64.Holds (i64.get f off) := IntType.holds_get (by decide) f off

theorem highBits_wide : highBits 64 = BitVec.allOnes 64 := by decide

/-- The highest bit of a word is its sign. -/
theorem and_msb (x : BitVec 64) : x &&& (1#64 <<< (64 - 1)) ≠ 0#64 ↔ x.toInt < 0 := by
  rw [and_bit_ne_zero x (by omega)]
  have hmsb : x.getLsbD (64 - 1) = x.msb := by rw [BitVec.msb_eq_getLsbD_last]
  have hneg := BitVec.msb_eq_toInt (x := x)
  rw [hmsb, hneg]
  simp

/-! ### Reading -/

theorem getSignedBitfield_wide {p : Bytes} {offset : Nat} (h : offset + 64 ≤ 8 * p.length) :
    ∃ w, getSignedBitfield p offset 64 = .ok w ∧ w.toInt = seen (i64.get (bitAt p) offset) := by
  obtain ⟨v, hv, hnat⟩ := getUnsignedBitfield_spec (Nat.le_refl 64) h
  have hint : v.toInt = i64.get (bitAt p) offset := by
    rw [BitVec.toInt_eq_toNat_bmod, hnat, IntType.get, i64, IntType.wrap, if_pos rfl]
  refine ⟨_, by rw [getSignedBitfield, hv, Outcome.ok_bind], ?_⟩
  rw [seen, ← hint]
  by_cases hneg : v.toInt < 0
  · -- the sign is propagated to every bit
    have hall : v ||| BitVec.allOnes 64 = BitVec.allOnes 64 := BitVec.or_allOnes
    rw [if_pos ((and_msb v).mpr hneg), if_pos hneg, highBits_wide, hall]
    decide
  · rw [if_neg (by rw [and_msb]; exact hneg), if_neg hneg]

theorem readOp_wide (o : Option Robj) (op : BitfieldOp) (hsign : op.sign = true) (hbits : op.bits = 64) :
    readOp o op = .ok (.longLong (seen (i64.get (bitsOf o) op.offset))) := by
  obtain ⟨buf, hlen, hfield, hread⟩ := readOp_copy o op
  obtain ⟨v, hv, hint⟩ := getSignedBitfield_wide
    (show op.offset - op.offset / 8 * 8 + 64 ≤ 8 * buf.length by omega)
  have hget : i64.get (bitAt buf) (op.offset - op.offset / 8 * 8) = i64.get (bitsOf o) op.offset :=
    congrArg (fun n : Nat => i64.wrap n) (hfield 64 le_rfl)
  rw [hread, if_pos hsign, hbits, hv, Outcome.ok_bind, hint, hget]

/-! ### Writing -/

/-- `handle_wrap` of a sum beyond the range. -/
theorem wrapSigned_wide (base incr : BitVec 64) (h : ¬i64.Holds (base.toInt + incr.toInt)) :
    (wrapSigned base incr 64).toInt = if base.toInt + incr.toInt < 0 then 0 else -1 := by
  have hsum := BitVec.toInt_add base incr
  have hlo := BitVec.le_toInt (x := base)
  have hhi := BitVec.toInt_lt (x := base)
  have hlo' := BitVec.le_toInt (x := incr)
  have hhi' := BitVec.toInt_lt (x := incr)
  rw [i64_holds] at h
  rw [wrapSigned]
  by_cases hneg : base.toInt + incr.toInt < 0
  · -- below the range the sum has lost its sign
    have hpos : ¬(base + incr).toInt < 0 := by
      have hbmod : (base.toInt + incr.toInt).bmod (2 ^ 64) = base.toInt + incr.toInt + 2 ^ 64 := by
        rw [show base.toInt + incr.toInt = base.toInt + incr.toInt + (2 ^ 64 : Nat) - (2 ^ 64 : Nat) by omega,
          Int.sub_bmod_right, Int.bmod_eq_of_le_mul_two (by omega) (by omega)]
        omega
      rw [hsum, hbmod]
      omega
    have hzero : (base + incr) &&& ~~~(BitVec.allOnes 64) = 0#64 := by simp
    rw [if_neg (by rw [and_msb]; exact hpos), if_pos hneg, highBits_wide, hzero]
    rfl
  · have hbmod : (base.toInt + incr.toInt).bmod (2 ^ 64) = base.toInt + incr.toInt - 2 ^ 64 := by
      rw [show base.toInt + incr.toInt = base.toInt + incr.toInt - (2 ^ 64 : Nat) + (2 ^ 64 : Nat) by omega,
        Int.add_bmod_right, Int.bmod_eq_of_le_mul_two (by omega) (by omega)]
      omega
    have hminus : (base + incr).toInt < 0 := by
      rw [hsum, hbmod]
      omega
    have hall : (base + incr) ||| BitVec.allOnes 64 = BitVec.allOnes 64 := BitVec.or_allOnes
    rw [if_pos ((and_msb _).mpr hminus), if_neg hneg, highBits_wide, hall]
    decide

/-- The value that is stored for a sum. -/
theorem checkSignedBitfieldOverflow_wide (base incr : BitVec 64) (owtype : Owtype) (limit : BitVec 64) :
    (stored (checkSignedBitfieldOverflow base incr 64 owtype limit) (base + incr) owtype).map BitVec.toInt
      = owtype.fitWide (base.toInt + incr.toInt) := by
  have hlo := BitVec.le_toInt (x := base)
  have hhi := BitVec.toInt_lt (x := base)
  have hlo' := BitVec.le_toInt (x := incr)
  have hhi' := BitVec.toInt_lt (x := incr)
  have hmax : (BitVec.intMax 64).toInt = 2 ^ 63 - 1 := by decide
  have hmin : (-BitVec.intMax 64 - 1#64).toInt = -2 ^ 63 := by decide
  generalize hM : BitVec.intMax 64 = max at hmax hmin
  generalize hm : -max - 1#64 = min at hmin
  -- a difference is looked at only where it cannot overflow
  have hover : (max.slt base = true ∨ (64 ≠ 64 ∧ (max - base).slt incr = true)
      ∨ ((0#64).sle base = true ∧ (0#64).slt incr = true ∧ (max - base).slt incr = true))
      ↔ 2 ^ 63 ≤ base.toInt + incr.toInt := by
    simp only [BitVec.slt, BitVec.sle, hmax, decide_eq_true_eq, BitVec.toInt_zero]
    by_cases hpos : 0 ≤ base.toInt
    · have hmaxincr : (max - base).toInt = 2 ^ 63 - 1 - base.toInt := by
        rw [toInt_sub_of_fits (by omega) (by omega), hmax]
      rw [hmaxincr]
      omega
    · omega
  have hunder : (base.slt min = true ∨ (64 ≠ 64 ∧ incr.slt (min - base) = true)
      ∨ (base.slt 0#64 = true ∧ incr.slt 0#64 = true ∧ incr.slt (min - base) = true))
      ↔ base.toInt + incr.toInt < -2 ^ 63 := by
    simp only [BitVec.slt, hmin, decide_eq_true_eq, BitVec.toInt_zero]
    by_cases hneg : base.toInt < 0
    · have hminincr : (min - base).toInt = -2 ^ 63 - base.toInt := by
        rw [toInt_sub_of_fits (by omega) (by omega), hmin]
      rw [hminincr]
      omega
    · omega
  rw [checkSignedBitfieldOverflow.eq_def, Owtype.fitWide.eq_def]
  simp only [if_pos, hM, hm, hover, hunder, i64_holds]
  by_cases h1 : 2 ^ 63 ≤ base.toInt + incr.toInt
  · have hwrap := wrapSigned_wide base incr (by rw [i64_holds]; omega)
    rw [if_neg (show ¬base.toInt + incr.toInt < 0 by omega)] at hwrap
    have hclamp := i64_clamp (base.toInt + incr.toInt)
    rw [if_pos h1] at hclamp
    rw [if_pos h1, if_neg (by omega)]
    cases owtype with
    | wrap => simp [stored, hwrap, show ¬base.toInt + incr.toInt < 0 by omega]
    | sat  => simp [stored, hclamp, hmax]
    | fail => simp [stored]
  · rw [if_neg h1]
    by_cases h2 : base.toInt + incr.toInt < -2 ^ 63
    · have hwrap := wrapSigned_wide base incr (by rw [i64_holds]; omega)
      rw [if_pos (show base.toInt + incr.toInt < 0 by omega)] at hwrap
      have hclamp := i64_clamp (base.toInt + incr.toInt)
      rw [if_neg h1, if_pos h2] at hclamp
      rw [if_pos h2, if_neg (by omega)]
      cases owtype with
      | wrap => simp [stored, hwrap, show base.toInt + incr.toInt < 0 by omega]
      | sat  => simp [stored, hclamp, hmin]
      | fail => simp [stored]
    · have hsum := toInt_add_of_fits (a := base) (b := incr) (by omega) (by omega)
      rw [if_neg h2, if_pos (by omega)]
      simp [stored, hsum]

/-- The sum that is checked, of what is seen in the field. -/
def BitfieldOp.sumWide (op : BitfieldOp) (old : Int) : Int :=
  if op.opcode = .incrby then seen old + op.i64.toInt else op.i64.toInt

/-- SET and INCRBY in a string that is long enough. -/
theorem writeOp_wide {p : Bytes} (op : BitfieldOp) (hsign : op.sign = true) (hbits : op.bits = 64)
    (wrapped : BitVec 64) (h : op.offset + op.bits ≤ 8 * p.length) (new : Option Int)
    (hnew : op.owtype.fitWide (op.sumWide (i64.get (bitAt p) op.offset)) = new) :
    ∃ p', writeOp wrapped p op = .ok (p', new.elim .nullbulk (fun x =>
        .longLong (if op.opcode = .incrby then x else seen (i64.get (bitAt p) op.offset)))) ∧
      bitAt p' = new.elim (bitAt p) (i64.set (bitAt p) op.offset) := by
  rw [hbits] at h
  obtain ⟨oldval, hold, hval⟩ := getSignedBitfield_wide h
  have hset : Sets setSignedBitfield p op.offset op.bits := by
    rw [hbits]
    exact setUnsignedBitfield_spec (Nat.le_refl 64) h
  have hsum : (op.operands oldval).1.toInt + (op.operands oldval).2.toInt
      = op.sumWide (i64.get (bitAt p) op.offset) := by
    rw [BitfieldOp.operands, BitfieldOp.sumWide, ← hval]
    by_cases hopcode : op.opcode = .incrby
    · simp only [if_pos hopcode]
    · simp only [if_neg hopcode, BitVec.toInt_zero, add_zero]
  have hcheck := checkSignedBitfieldOverflow_wide (op.operands oldval).1 (op.operands oldval).2 op.owtype wrapped
  rw [hsum, hnew] at hcheck
  obtain ⟨p', hrun, -, hp'⟩ := storeOp_run checkSignedBitfieldOverflow wrapped
    (show getSignedBitfield p op.offset op.bits = .ok oldval by rw [hbits]; exact hold) hset _ rfl
  rw [hbits] at hrun hp'
  refine ⟨p', ?_, ?_⟩
  · rw [writeOp, if_pos hsign, hrun, ← hcheck, ← hval]
    congr 2
    cases stored (checkSignedBitfieldOverflow (op.operands oldval).1 (op.operands oldval).2 64 op.owtype wrapped)
      ((op.operands oldval).1 + (op.operands oldval).2) op.owtype <;> rfl
  · rw [hp', ← hcheck]
    cases stored (checkSignedBitfieldOverflow (op.operands oldval).1 (op.operands oldval).2 64 op.owtype wrapped)
      ((op.operands oldval).1 + (op.operands oldval).2) op.owtype with
    | none => rfl
    | some x => exact write_toInt (bitAt p) op.offset (Nat.le_refl 64) x

/-! ### Commands -/

/-- The arguments that set the overflow type, if any do. -/
def overflowArgs : Option Owtype → List Bytes
  | none        => []
  | some owtype => [OVERFLOW, owtype.name]

/-- SET to `v` succeeds, and GET then replies `v`. -/
def SetGet (wrapped : BitVec 64) (o : Option Robj) (how : Option Owtype) (cmd key t a x : Bytes) (v : Int) : Prop :=
  ∃ o' old, bitfieldCommand wrapped o (cmd :: key :: (overflowArgs how ++ [SET, t, a, x]))
      = .ok { object := some o', replies := [.multiBulkLen 1, .longLong old], dirty := 1 } ∧
    bitfieldCommand wrapped (some o') [cmd, key, GET, t, a]
      = .ok { object := some o', replies := [.multiBulkLen 1, .longLong v], dirty := 0 }

/-- INCRBY replies and stores what the overflow type makes of the exact sum: the integer
    that is congruent to it, the one nearest to it, or none unless it is in the range. -/
def Increments (wrapped : BitVec 64) (o : Option Robj) (how : Option Owtype) (cmd key t a x : Bytes) (T : IntType)
    (off : Nat) (v : Int) : Prop :=
  ∃ o', bitfieldCommand wrapped o (cmd :: key :: (overflowArgs how ++ [INCRBY, t, a, x])) = .ok
      { object := some o', dirty := 1,
        replies := [.multiBulkLen 1, ((how.getD .wrap).fit T (T.get (bitsOf o) off + v)).elim .nullbulk .longLong] } ∧
    bitsOf (some o') = ((how.getD .wrap).fit T (T.get (bitsOf o) off + v)).elim (bitsOf o) (T.set (bitsOf o) off)

/-- The old values and the increments for which INCRBY of 64 bits is exact. -/
def Exact (owtype : Owtype) (old incr : Int) : Prop :=
  (-1 ≤ old ∧ (owtype = .wrap → i64.Holds (old + incr))) ∨
  (old < -1 ∧ ((owtype = .wrap ∧ old = -2 ^ 63 ∧ incr = -2 ^ 63) ∨ (owtype = .sat ∧ incr ≤ -2 ^ 63 + 1) ∨
    (owtype = .fail ∧ incr = -2 ^ 63)))

theorem bitfieldOps_overflowArgs (how : Option Owtype) (b : Bytes) (rest : List Bytes) :
    bitfieldOps .wrap (overflowArgs how ++ b :: rest) = bitfieldOps (how.getD .wrap) (b :: rest) := by
  cases how with
  | none        => rfl
  | some owtype => exact bitfieldOps_overflow owtype .wrap b rest

/-- What was read as it is: the values that are not negative, and -1. -/
theorem seen_eq {v : Int} : seen v = v ↔ 0 ≤ v ∨ v = -1 := by
  rw [seen]
  by_cases hneg : v < 0
  · rw [if_pos hneg]
    omega
  · rw [if_neg hneg]
    omega

/-- What is stored is what should be stored, in these cases only. -/
theorem fitWide_seen {old incr : Int} (hold : i64.Holds old) (hincr : i64.Holds incr) (owtype : Owtype) :
    owtype.fitWide (seen old + incr) = owtype.fit i64 (old + incr) ↔ Exact owtype old incr := by
  have hbits : 0 < i64.bits := by decide
  have hwrap_holds := IntType.holds_wrap hbits (old + incr)
  have hwrap : ∃ q : Int, i64.wrap (old + incr) = old + incr + 2 ^ 64 * q := by
    obtain ⟨q, hq⟩ := Int.dvd_of_emod_eq_zero
      (Int.emod_eq_emod_iff_emod_sub_eq_zero.mp (IntType.wrap_emod (t := i64) (old + incr)))
    have hpow : (2 : Int) ^ i64.bits = 2 ^ 64 := rfl
    rw [hpow] at hq
    exact ⟨q, by omega⟩
  obtain ⟨q, hq⟩ := hwrap
  have hclamp := i64_clamp (old + incr)
  have hclamp' := i64_clamp (seen old + incr)
  rw [i64_holds] at hold hincr hwrap_holds
  rw [Owtype.fitWide.eq_def, Exact]
  simp only [i64_holds]
  by_cases hneg : old < 0
  · have hseen : seen old = -1 := by rw [seen, if_pos hneg]
    rw [hseen] at hclamp' ⊢
    rw [if_neg (by omega)] at hclamp hclamp'
    by_cases hin : -2 ^ 63 ≤ -1 + incr ∧ -1 + incr < 2 ^ 63
    · rw [if_pos hin]
      cases owtype with
      | wrap =>
        rw [Owtype.fit, Option.some.injEq]
        simp
        omega
      | sat =>
        rw [Owtype.fit, Option.some.injEq, hclamp]
        simp
        split <;> omega
      | fail =>
        rw [Owtype.fit]
        simp only [i64_holds]
        by_cases hsum : -2 ^ 63 ≤ old + incr ∧ old + incr < 2 ^ 63
        · rw [if_pos hsum, Option.some.injEq]
          simp
          omega
        · rw [if_neg hsum]
          simp
          omega
    · rw [if_neg hin]
      cases owtype with
      | wrap =>
        rw [Owtype.fit]
        simp only [Option.some.injEq]
        rw [if_pos (by omega)]
        simp
        omega
      | sat =>
        rw [Owtype.fit]
        simp only [Option.some.injEq, hclamp, hclamp']
        rw [if_pos (by omega)]
        simp
        omega
      | fail =>
        rw [Owtype.fit]
        simp only [i64_holds]
        rw [if_neg (by omega)]
        simp
        omega
  · have hseen : seen old = old := by rw [seen, if_neg hneg]
    rw [hseen]
    by_cases hin : -2 ^ 63 ≤ old + incr ∧ old + incr < 2 ^ 63
    · have hholds : i64.Holds (old + incr) := i64_holds.mpr hin
      rw [if_pos hin, Owtype.fit_of_holds hbits hholds]
      simp
      omega
    · rw [if_neg hin]
      cases owtype with
      | wrap =>
        rw [Owtype.fit]
        simp only [Option.some.injEq]
        rw [if_neg (by omega)]
        simp
        omega
      | sat =>
        rw [Owtype.fit]
        simp
        omega
      | fail =>
        rw [Owtype.fit]
        simp only [i64_holds]
        rw [if_neg hin]
        simp
        omega

section
variable {t a x : Bytes} {off : Nat} {v : Int} {o : Option Robj}

/-- GET of a field of 64 bits. -/
theorem bitfieldCommand_get_wide (h : Names t a i64 off) (ho : IsString o) (wrapped : BitVec 64) (cmd key : Bytes) :
    bitfieldCommand wrapped o [cmd, key, GET, t, a]
      = .ok { object := o, replies := [.multiBulkLen 1, .longLong (seen (i64.get (bitsOf o) off))], dirty := 0 } := by
  have hparsed := bitfieldOps_get h .wrap (show bitfieldOps .wrap [] = .ok ⟨[], true, 0⟩ by rw [bitfieldOps])
  have hcons : Parsed.cons (fieldOp .get .wrap i64 off 0) ⟨[], true, 0⟩
      = { ops := [fieldOp .get .wrap i64 off 0], readonly := true, higest_write_offset := 0 } := rfl
  have hdrop : [cmd, key, GET, t, a].drop 2 = [GET, t, a] := rfl
  have hread := readOp_wide o (fieldOp .get .wrap i64 off 0) rfl rfl
  rw [hcons] at hparsed
  rw [bitfieldCommand, hdrop, hparsed]
  dsimp only
  rw [if_pos rfl, if_neg ho, replyOps, runOps, runOp.eq_def, if_pos (show (fieldOp .get .wrap i64 off 0).opcode = .get from rfl),
    hread]
  rfl

/-- SET or INCRBY of a field of 64 bits. -/
theorem bitfieldCommand_write_wide (hx : string2ll x = some v) (ho : IsString o)
    {opcode : Opcode} {owtype : Owtype} {args : List Bytes} (hwrite : opcode ≠ .get)
    (hparsed : bitfieldOps .wrap args = .ok (Parsed.cons (fieldOp opcode owtype i64 off v) ⟨[], true, 0⟩))
    {new : Option Int}
    (hnew : owtype.fitWide (if opcode = .incrby then seen (i64.get (bitsOf o) off) + v else v) = new)
    (wrapped : BitVec 64) (cmd key : Bytes) :
    ∃ o', bitfieldCommand wrapped o (cmd :: key :: args) = .ok
        { object := some o', dirty := 1,
          replies := [.multiBulkLen 1, new.elim .nullbulk (fun y =>
            .longLong (if opcode = .incrby then y else seen (i64.get (bitsOf o) off)))] } ∧
      IsString (some o') ∧ bitsOf (some o') = new.elim (bitsOf o) (i64.set (bitsOf o) off) := by
  obtain ⟨p, hp, hroom, hcommand⟩ := bitfieldCommand_one ho hwrite hparsed cmd key wrapped
  have hsum : (fieldOp opcode owtype i64 off v).sumWide (i64.get (bitAt p) off)
      = if opcode = .incrby then seen (i64.get (bitsOf o) off) + v else v := by
    rw [← hp, BitfieldOp.sumWide]
    change (if opcode = .incrby then seen (i64.get (bitAt p) off) + (BitVec.ofInt 64 v).toInt
      else (BitVec.ofInt 64 v).toInt) = _
    rw [toInt_ofInt hx]
  obtain ⟨p', hrun, hbits⟩ := writeOp_wide (fieldOp opcode owtype i64 off v) rfl rfl wrapped hroom
    new (by rw [← hnew, ← hsum]; rfl)
  refine ⟨.sds p', ?_, by simp [IsString], ?_⟩
  · rw [hcommand p' _ hrun, hp]
    rfl
  · rw [hp] at hbits
    exact hbits

theorem setGet_iff (h : Names t a i64 off) (hx : string2ll x = some v) (ho : IsString o) (wrapped : BitVec 64)
    (how : Option Owtype) (cmd key : Bytes) : SetGet wrapped o how cmd key t a x v ↔ 0 ≤ v ∨ v = -1 := by
  obtain ⟨hlo, hhi, -⟩ := string2ll_eq hx
  have hholds : i64.Holds v := i64_holds.mpr ⟨by omega, by omega⟩
  have hparsed : bitfieldOps .wrap (overflowArgs how ++ [SET, t, a, x])
      = .ok (Parsed.cons (fieldOp .set (how.getD .wrap) i64 off v) ⟨[], true, 0⟩) := by
    rw [bitfieldOps_overflowArgs]
    exact bitfieldOps_set h hx (how.getD .wrap) (by rw [bitfieldOps])
  have hnew : (how.getD .wrap).fitWide (if Opcode.set = .incrby then seen (i64.get (bitsOf o) off) + v else v)
      = some v := by
    rw [if_neg (by simp), Owtype.fitWide.eq_def, if_pos hholds]
  obtain ⟨o', hset, hstring, hbits⟩ := bitfieldCommand_write_wide hx ho (by simp) hparsed hnew wrapped cmd key
  have hget := bitfieldCommand_get_wide h hstring wrapped cmd key
  rw [hbits, Option.elim_some, IntType.get_set, IntType.wrap_of_holds (by decide) hholds] at hget
  rw [← seen_eq]
  constructor
  · rintro ⟨o'', old, hset', hget'⟩
    have hsame := hset.symm.trans hset'
    simp only [Except.ok.injEq, Ran.mk.injEq, Option.some.injEq] at hsame
    rw [← hsame.1, hget] at hget'
    simpa using hget'
  · intro hseen
    rw [hseen] at hget
    exact ⟨o', _, hset, hget⟩

theorem increments_iff (h : Names t a i64 off) (hx : string2ll x = some v) (ho : IsString o) (wrapped : BitVec 64)
    (how : Option Owtype) (cmd key : Bytes) :
    Increments wrapped o how cmd key t a x i64 off v ↔ Exact (how.getD .wrap) (i64.get (bitsOf o) off) v := by
  obtain ⟨hlo, hhi, -⟩ := string2ll_eq hx
  have hparsed : bitfieldOps .wrap (overflowArgs how ++ [INCRBY, t, a, x])
      = .ok (Parsed.cons (fieldOp .incrby (how.getD .wrap) i64 off v) ⟨[], true, 0⟩) := by
    rw [bitfieldOps_overflowArgs]
    have hincrby := bitfieldOps_incrby h hx (how.getD .wrap) .wrap
    rwa [bitfieldOps_overflow] at hincrby
  obtain ⟨o', hrun, -, hbits⟩ := bitfieldCommand_write_wide hx ho (by simp) hparsed rfl wrapped cmd key
  simp only [if_true] at hrun hbits
  rw [← fitWide_seen (i64_get (bitsOf o) off) (i64_holds.mpr ⟨by omega, by omega⟩)]
  constructor
  · rintro ⟨o'', hrun', -⟩
    have hsame := hrun.symm.trans hrun'
    simp only [Except.ok.injEq, Ran.mk.injEq, List.cons.injEq, and_true, true_and] at hsame
    -- the reply tells what was stored
    generalize (how.getD .wrap).fitWide (seen (i64.get (bitsOf o) off) + v) = new at hsame ⊢
    generalize (how.getD .wrap).fit i64 (i64.get (bitsOf o) off + v) = new' at hsame ⊢
    cases new with
    | none =>
      cases new' with
      | none => rfl
      | some y => simp at hsame
    | some y =>
      cases new' with
      | none => simp at hsame
      | some y' => simpa using hsame.2
  · intro hsame
    rw [hsame] at hrun hbits
    exact ⟨o', hrun, hbits⟩

/-- Signed fields of 64 bits, anywhere in a value that is absent or a string.  What is SET
    is got if and only if it is not negative, or -1; INCRBY replies and stores what the
    overflow type makes of the exact sum if and only if the field holds -1 or more and the
    sum is not wrapped, or one of three accidents happens. -/
theorem wide_iff (h : Names t a i64 off) (hx : string2ll x = some v) (ho : IsString o) (wrapped : BitVec 64)
    (how : Option Owtype) (cmd key : Bytes) :
    (SetGet wrapped o how cmd key t a x v ↔ 0 ≤ v ∨ v = -1) ∧
    (Increments wrapped o how cmd key t a x i64 off v ↔ Exact (how.getD .wrap) (i64.get (bitsOf o) off) v) :=
  ⟨setGet_iff h hx ho wrapped how cmd key, increments_iff h hx ho wrapped how cmd key⟩

/-- 5 is set in the field at zero of an absent key. -/
theorem wide_iff_five : SetGet 0#64 none none [] [] [105, 54, 52] [48] [53] 5 :=
  (wide_iff (show Names [105, 54, 52] [48] i64 0 from ⟨by decide, by decide⟩) (by decide) (by decide) 0#64 none [] []).1.mpr (by decide)

/-- -5 is set in the field at zero of an absent key, and -1 is got. -/
theorem wide_negative : ¬∀ (t a x : Bytes) (off : Nat) (v : Int) (o : Option Robj) (wrapped : BitVec 64)
    (how : Option Owtype) (cmd key : Bytes), Names t a i64 off → string2ll x = some v → IsString o →
    SetGet wrapped o how cmd key t a x v ∧ Increments wrapped o how cmd key t a x i64 off v := by
  intro hall
  have hset := (hall [105, 54, 52] [48] [45, 53] 0 (-5) none 0#64 none [] [] ⟨by decide, by decide⟩ (by decide)
    (by decide)).1
  rw [setGet_iff (show Names [105, 54, 52] [48] i64 0 from ⟨by decide, by decide⟩) (by decide) (by decide)] at hset
  revert hset
  decide

end

end Redis.Bitops
