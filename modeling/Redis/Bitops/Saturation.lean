import Redis.Bitops.Frame

namespace Redis.Bitops

open Redis Redis.BitArray

/-!
# SET under OVERFLOW SAT

The checks subtract the value from the maximum before they know its range.  For a signed
field and the least values of 64 bits the difference overflows, and the value counts as too
large.

* `checkUnsignedBitfieldOverflow_sat`, `checkSignedBitfieldOverflow_sat` — what is stored;
* `writeOp_sat` — SET in a string that is long enough;
* `setSat_iff` — when it is the nearest value of the type.
-/

/-- The value that SET is given, which is a `uint64_t` for an unsigned field. -/
def given (T : IntType) (v : Int) : Int := if T.signed then v else v % 2 ^ 64

/-- The value that SET stores. -/
def saturated (T : IntType) (v : Int) : Int :=
  if T.signed ∧ v < 2 ^ (T.bits - 1) - 2 ^ 63 then T.max else T.clamp (given T v)

theorem saturated_holds (T : IntType) (v : Int) (hpos : 0 < T.bits) : T.Holds (saturated T v) := by
  rw [saturated]
  split
  · -- the maximum is a value of the type
    have hclamp := IntType.holds_clamp (t := T) T.max
    have hself : T.clamp T.max = T.max := by
      have hle : T.min ≤ T.max := le_trans (IntType.holds_get hpos (fun _ => false) 0).1
        (IntType.holds_get hpos (fun _ => false) 0).2
      rw [IntType.clamp, if_neg (by omega), if_neg (by omega)]
    rwa [hself] at hclamp
  · exact IntType.holds_clamp _

/-! ### The checks -/

theorem checkUnsignedBitfieldOverflow_sat (v : BitVec 64) {bits : Nat} (hbits : bits < 64) (limit : BitVec 64) :
    (stored (checkUnsignedBitfieldOverflow v 0#64 bits .sat limit) (v + 0#64) .sat).map BitVec.toInt
      = some (saturated ⟨false, bits⟩ v.toInt) := by
  have hmaxnat := toNat_max hbits
  have hmaxint := toInt_max hbits
  have hle : 2 ^ bits ≤ 2 ^ 63 := Nat.pow_le_pow_right (by omega) (by omega)
  have hpos : 0 < 2 ^ bits := by positivity
  have hcast : ((2 ^ bits : Nat) : Int) = 2 ^ bits := by push_cast; rfl
  have hgiven : given ⟨false, bits⟩ v.toInt = v.toNat := by
    rw [given, if_neg (by simp), BitVec.toInt_eq_toNat_cond]
    split <;> omega
  have hover : (((1#64 <<< bits) - 1#64).ult v = true ∨ (0#64).slt 0#64 = true
      ∧ ((1#64 <<< bits) - 1#64 - v).slt 0#64 = true) ↔ 2 ^ bits - 1 < (v.toNat : Int) := by
    simp only [BitVec.ult, BitVec.slt, hmaxnat, decide_eq_true_eq, lt_self_iff_false, false_and, or_false]
    omega
  have hsat : saturated ⟨false, bits⟩ v.toInt = if 2 ^ bits - 1 < (v.toNat : Int) then 2 ^ bits - 1 else (v.toNat : Int) := by
    have hnonneg : ¬(v.toNat : Int) < 0 := by omega
    rw [saturated, if_neg (by simp), hgiven]
    simp [IntType.clamp, IntType.max, IntType.min, hnonneg]
  have hne : bits ≠ 64 := by omega
  rw [checkUnsignedBitfieldOverflow.eq_def, hsat]
  simp only [if_neg hne, hover]
  by_cases hmax : 2 ^ bits - 1 < (v.toNat : Int)
  · rw [if_pos hmax, if_pos hmax]
    simp [stored, hmaxint]
  · have hsmall : v.toInt = v.toNat := BitVec.toInt_eq_toNat_of_lt (by omega)
    rw [if_neg hmax, if_neg hmax]
    simp [stored, hsmall]

theorem checkSignedBitfieldOverflow_sat (v : BitVec 64) {bits : Nat} (hpos : 0 < bits) (hbits : bits < 64)
    (limit : BitVec 64) :
    (stored (checkSignedBitfieldOverflow v 0#64 bits .sat limit) (v + 0#64) .sat).map BitVec.toInt
      = some (saturated ⟨true, bits⟩ v.toInt) := by
  have hle : 2 ^ (bits - 1) ≤ 2 ^ 62 := Nat.pow_le_pow_right (by omega) (by omega)
  have hone : 0 < 2 ^ (bits - 1) := by positivity
  have hcast : ((2 ^ (bits - 1) : Nat) : Int) = 2 ^ (bits - 1) := by push_cast; rfl
  have hlo := BitVec.le_toInt (x := v)
  have hhi := BitVec.toInt_lt (x := v)
  have hmax := toInt_max (show bits - 1 < 64 by omega)
  have hmin := toInt_min (show bits - 1 < 63 by omega)
  have hsat : saturated ⟨true, bits⟩ v.toInt = if v.toInt < 2 ^ (bits - 1) - 2 ^ 63 then 2 ^ (bits - 1) - 1
      else if 2 ^ (bits - 1) - 1 < v.toInt then 2 ^ (bits - 1) - 1
      else if v.toInt < -2 ^ (bits - 1) then -2 ^ (bits - 1) else v.toInt := by
    simp [saturated, given, IntType.clamp, IntType.max, IntType.min]
  have hne : bits ≠ 64 := by omega
  have hslt : (0#64).slt 0#64 = false := by decide
  generalize hM : (1#64 <<< (bits - 1)) - 1#64 = max at hmax hmin
  generalize hm : -max - 1#64 = min at hmin
  rw [checkSignedBitfieldOverflow.eq_def, hsat]
  simp only [if_neg hne, hM, hm, hslt, Bool.false_eq_true, false_and, and_false, or_false]
  by_cases hleast : v.toInt < 2 ^ (bits - 1) - 2 ^ 63
  · -- the difference overflows
    have hmaxincr : (max - v).slt 0#64 = true := by
      have hsub := BitVec.toInt_sub (x := max) (y := v)
      have hbmod : (max.toInt - v.toInt).bmod (2 ^ 64) = max.toInt - v.toInt - 2 ^ 64 := by
        rw [show max.toInt - v.toInt = max.toInt - v.toInt - (2 ^ 64 : Nat) + (2 ^ 64 : Nat) by omega,
          Int.add_bmod_right, Int.bmod_eq_of_le_mul_two (by omega) (by omega)]
        omega
      simp only [BitVec.slt, hsub, hbmod, BitVec.toInt_zero, decide_eq_true_eq]
      omega
    rw [if_pos (Or.inr ⟨hne, hmaxincr⟩), if_pos hleast]
    simp [stored, hmax]
  · rw [if_neg hleast]
    have hover : (max.slt v = true ∨ bits ≠ 64 ∧ (max - v).slt 0#64 = true) ↔ 2 ^ (bits - 1) - 1 < v.toInt := by
      have hmaxincr : (max - v).toInt = 2 ^ (bits - 1) - 1 - v.toInt := by
        rw [toInt_sub_of_fits (by omega) (by omega), hmax]
      simp only [BitVec.slt, hmax, hmaxincr, BitVec.toInt_zero, decide_eq_true_eq]
      omega
    rw [if_congr hover rfl rfl]
    by_cases hlarge : 2 ^ (bits - 1) - 1 < v.toInt
    · rw [if_pos hlarge, if_pos hlarge]
      simp [stored, hmax]
    · have hunder : (v.slt min = true ∨ bits ≠ 64 ∧ (0#64).slt (min - v) = true) ↔ v.toInt < -2 ^ (bits - 1) := by
        have hminincr : (min - v).toInt = -2 ^ (bits - 1) - v.toInt := by
          rw [toInt_sub_of_fits (by omega) (by omega), hmin]
        simp only [BitVec.slt, hmin, hminincr, BitVec.toInt_zero, decide_eq_true_eq]
        omega
      rw [if_neg hlarge, if_neg hlarge, if_congr hunder rfl rfl]
      by_cases hsmall : v.toInt < -2 ^ (bits - 1)
      · rw [if_pos hsmall, if_pos hsmall]
        simp [stored, hmin]
      · rw [if_neg hsmall, if_neg hsmall]
        simp [stored]

/-! ### SET -/

/-- The path of signed and of unsigned fields. -/
theorem storeOp_sat {get : Bytes → Nat → Nat → Except Fault (BitVec 64)}
    {check : BitVec 64 → BitVec 64 → Nat → Owtype → BitVec 64 → Int × BitVec 64}
    {set : Bytes → Nat → Nat → BitVec 64 → Except Fault Bytes} {p : Bytes} {op : BitfieldOp} (wrapped : BitVec 64)
    (hlt : op.bits < 64) (hset : op.opcode = .set) (hsat : op.owtype = .sat)
    (hget : ∃ v, get p op.offset op.bits = .ok v ∧ v.toInt = op.type.get (bitAt p) op.offset)
    (hcheck : (stored (check op.i64 0#64 op.bits .sat wrapped) (op.i64 + 0#64) .sat).map BitVec.toInt
      = some (saturated op.type op.i64.toInt))
    (hwrite : Sets set p op.offset op.bits) :
    ∃ p', storeOp get check set wrapped p op = .ok (p', .longLong (op.type.get (bitAt p) op.offset)) ∧
      bitAt p' = op.type.set (bitAt p) op.offset (saturated op.type op.i64.toInt) := by
  obtain ⟨oldval, hold, hval⟩ := hget
  have hoperands : op.operands oldval = (op.i64, 0#64) := by
    rw [BitfieldOp.operands, hset, if_neg (by simp)]
  obtain ⟨new, hnew, hint⟩ := Option.map_eq_some_iff.mp hcheck
  obtain ⟨p', hrun, -, hbits⟩ := storeOp_run check wrapped hold hwrite
    (some new) (by rw [hoperands, hsat]; exact hnew)
  refine ⟨p', ?_, ?_⟩
  · rw [hrun, Option.elim_some, hset, if_neg (by simp), hval]
  · rw [hbits, Option.elim_some, write_toInt _ _ (by omega), hint]
    rfl

/-- SET under SAT in a string that is long enough. -/
theorem writeOp_sat {p : Bytes} (op : BitfieldOp) (hpos : 0 < op.bits) (hlt : op.bits < 64) (hset : op.opcode = .set)
    (hsat : op.owtype = .sat) (wrapped : BitVec 64) (h : op.offset + op.bits ≤ 8 * p.length) :
    ∃ p', writeOp wrapped p op = .ok (p', .longLong (op.type.get (bitAt p) op.offset)) ∧
      bitAt p' = op.type.set (bitAt p) op.offset (saturated op.type op.i64.toInt) := by
  have hwrite := setUnsignedBitfield_spec hlt.le h
  rw [writeOp]
  cases hsign : op.sign with
  | true =>
    have htype : op.type = ⟨true, op.bits⟩ := by rw [BitfieldOp.type, hsign]
    rw [if_pos rfl]
    refine storeOp_sat wrapped hlt hset hsat ((getBitfield_type hpos hlt h).1 hsign) ?_ hwrite
    rw [htype]
    exact checkSignedBitfieldOverflow_sat op.i64 hpos hlt wrapped
  | false =>
    have htype : op.type = ⟨false, op.bits⟩ := by rw [BitfieldOp.type, hsign]
    rw [if_neg (by simp)]
    refine storeOp_sat wrapped hlt hset hsat ((getBitfield_type hpos hlt h).2 hsign) ?_ hwrite
    rw [htype]
    exact checkUnsignedBitfieldOverflow_sat op.i64 hlt wrapped

/-- What is stored is the nearest value of the type, in these cases only. -/
theorem saturated_eq {T : IntType} (hlt : T.bits < 64) (v : Int) :
    saturated T v = T.clamp (given T v) ↔ T.signed = false ∨ 2 ^ (T.bits - 1) - 2 ^ 63 ≤ v := by
  have hle : 2 ^ (T.bits - 1) ≤ 2 ^ 62 := Nat.pow_le_pow_right (by omega) (by omega)
  have hone : 0 < 2 ^ (T.bits - 1) := by positivity
  have hcast : ((2 ^ (T.bits - 1) : Nat) : Int) = 2 ^ (T.bits - 1) := by push_cast; rfl
  rw [saturated]
  cases hsigned : T.signed with
  | false => simp
  | true =>
    by_cases hleast : v < 2 ^ (T.bits - 1) - 2 ^ 63
    · -- far below the minimum, and the maximum is stored
      have hclamp : T.clamp (given T v) = T.min := by
        rw [given, if_pos hsigned, IntType.clamp]
        simp only [IntType.max, IntType.min, hsigned, if_true]
        rw [if_neg (by omega), if_pos (by omega)]
      have hne : T.max ≠ T.min := by
        simp only [IntType.max, IntType.min, hsigned, if_true]
        omega
      rw [if_pos ⟨rfl, hleast⟩, hclamp]
      simp only [hne, false_iff, Bool.true_eq_false, false_or]
      omega
    · rw [if_neg (fun hand => hleast hand.2)]
      simp only [Bool.true_eq_false, false_or, true_iff]
      omega

section
variable {t a x : Bytes} {T : IntType} {off : Nat} {v : Int} {o : Option Robj}

/-- SET to `v` under OVERFLOW SAT stores the value of the type that is nearest to what is
    given, replies the old one and changes no other bit. -/
def SetSat (wrapped : BitVec 64) (o : Option Robj) (cmd key t a x : Bytes) (T : IntType) (off : Nat) (v : Int) : Prop :=
  ∃ o', bitfieldCommand wrapped o [cmd, key, OVERFLOW, Owtype.sat.name, SET, t, a, x]
      = .ok { object := some o', replies := [.multiBulkLen 1, .longLong (T.get (bitsOf o) off)], dirty := 1 } ∧
    T.get (bitsOf (some o')) off = T.clamp (given T v) ∧
    ∀ i, ¬(off ≤ i ∧ i < off + T.bits) → bitsOf (some o') i = bitsOf o i

theorem setSat_saturated (h : FieldArgs t a T off) (hx : string2ll x = some v) (ho : IsString o)
    (wrapped : BitVec 64) (cmd key : Bytes) :
    SetSat wrapped o cmd key t a x T off v ↔ saturated T v = T.clamp (given T v) := by
  have hpos : 0 < T.bits := (getBitfieldTypeFromArgument_spec h.type).1
  have hparsed : bitfieldOps .wrap [OVERFLOW, Owtype.sat.name, SET, t, a, x]
      = .ok (Parsed.cons (fieldOp .set .sat T off v) ⟨[], true, 0⟩) := by
    rw [bitfieldOps_overflow]
    exact bitfieldOps_set h.names hx .sat (by rw [bitfieldOps])
  obtain ⟨p, hp, hroom, hcommand⟩ := bitfieldCommand_one ho (by simp [fieldOp]) hparsed cmd key wrapped
  obtain ⟨p', hrun, hbits⟩ := writeOp_sat (fieldOp .set .sat T off v) hpos h.narrow rfl rfl wrapped hroom
  have hint : (fieldOp .set .sat T off v).i64.toInt = v := toInt_ofInt hx
  have hset := hcommand p' _ hrun
  have hafter : bitsOf (some (.sds p')) = T.set (bitsOf o) off (saturated T v) := by
    rw [← hp]
    rw [hint] at hbits
    exact hbits
  have hget : T.get (bitsOf (some (.sds p'))) off = saturated T v := by
    rw [hafter, IntType.get_set, IntType.wrap_of_holds hpos (saturated_holds T v hpos)]
  rw [hp] at hset
  constructor
  · rintro ⟨o', hset', hget', -⟩
    have hsame := hset.symm.trans hset'
    simp only [Except.ok.injEq, Ran.mk.injEq, Option.some.injEq] at hsame
    rw [← hget, hsame.1, hget']
  · intro hsame
    refine ⟨.sds p', hset, hget.trans hsame, ?_⟩
    intro i hi
    rw [hafter, IntType.set_outside _ _ hi]

/-- Fields of 1 to 63 bits, signed or not, anywhere in a value that is absent or a string:
    the nearest value is stored if and only if the type is unsigned, or the value is not one
    of the least `2 ^ (bits - 1)` integers of 64 bits. -/
theorem setSat_iff (h : FieldArgs t a T off) (hx : string2ll x = some v) (ho : IsString o) (wrapped : BitVec 64)
    (cmd key : Bytes) : SetSat wrapped o cmd key t a x T off v ↔ T.signed = false ∨ 2 ^ (T.bits - 1) - 2 ^ 63 ≤ v := by
  rw [setSat_saturated h hx ho, saturated_eq h.narrow]

/-- -129 in a field of 8 bits becomes -128. -/
theorem setSat_iff_eight : SetSat 0#64 none [] [] [105, 56] [48] [45, 49, 50, 57] ⟨true, 8⟩ 0 (-129) :=
  (setSat_iff ⟨by decide, by decide, by decide⟩ (by decide) (by decide) 0#64 [] []).mpr (by decide)

/-- The least integer of 64 bits does not, in a signed field of 8 bits. -/
theorem setSat_least : ¬∀ (t a x : Bytes) (T : IntType) (off : Nat) (v : Int) (o : Option Robj) (wrapped : BitVec 64)
    (cmd key : Bytes), FieldArgs t a T off → string2ll x = some v → IsString o →
    SetSat wrapped o cmd key t a x T off v := by
  intro hall
  have hset := hall [105, 56] [48] (ll2string 32 (-2 ^ 63)) ⟨true, 8⟩ 0 (-2 ^ 63) none 0#64 [] []
    ⟨by decide, by decide, by decide⟩ (string2ll_ll2string (by decide) (by decide)) (by decide)
  rw [setSat_saturated ⟨by decide, by decide, by decide⟩ (string2ll_ll2string (by decide) (by decide)) (by decide)] at hset
  revert hset
  decide

end

end Redis.Bitops
