import Redis.Bitops.Bitfield
import Redis.Lib.BitArray
import Redis.Lib.Outcome
import Mathlib.Tactic.IntervalCases

namespace Redis.Bitops

open Redis Redis.BitArray

/-!
# Strings as bit arrays

* `bitAt` — the bits of a string, which is followed by zeros;
* `getUnsignedBitfield_spec`, `setUnsignedBitfield_spec` — the loops read and write a
  field, one bit at each step;
* `toNat_and_low`, `toNat_or_high`, `toInt_signed` — the masks;
* `getSignedBitfield_spec` — the sign of a field.
-/

/-- Bit `i` of a string. -/
def bitAt (p : Bytes) (i : Nat) : Bool := (p.getD (i / 8) 0).toBitVec.getLsbD (7 - i % 8)

/-! ### One bit -/

theorem byte_eq (offset : Nat) : offset >>> 3 = offset / 8 := Nat.shiftRight_eq_div_pow offset 3

theorem bit_eq (offset : Nat) : 7 - (offset &&& 7) = 7 - offset % 8 := by
  have h := Nat.and_two_pow_sub_one_eq_mod offset 3
  rw [show (2 ^ 3 - 1 : Nat) = 7 from rfl, show (2 ^ 3 : Nat) = 8 from rfl] at h
  rw [h]

variable {p : Bytes} {offset : Nat} {bits : Nat}

theorem getElem?_byte (h : offset < 8 * p.length) :
    p[offset / 8]? = some (p.getD (offset / 8) 0) := by
  have hlt : offset / 8 < p.length := by omega
  simp [List.getD_eq_getElem?_getD, List.getElem?_eq_getElem hlt]

/-- `(byteval >> bit) & 1`. -/
theorem bitval_eq (b : BitVec 8) (bit : Nat) :
    (b.setWidth 64 >>> bit) &&& 1#64 = BitVec.ofNat 64 (b.getLsbD bit).toNat := by
  rw [BitVec.and_one_eq_setWidth_ofBool_getLsbD]
  cases h : b.getLsbD bit with
  | true =>
    have hbit : bit < 8 := BitVec.lt_of_getLsbD h
    simp [h, show bit < 64 by omega]
  | false => simp [h]

/-- `(value<<1) | bitval`. -/
theorem toNat_shift_or (value : BitVec 64) (b : Bool) :
    ((value <<< 1) ||| BitVec.ofNat 64 b.toNat).toNat = (value.toNat * 2 + b.toNat) % 2 ^ 64 := by
  have hb : b.toNat < 2 ^ 1 := Bool.toNat_lt b
  have hhalf : value.toNat <<< 1 % 2 ^ 64 = (value.toNat % 2 ^ 63) <<< 1 := by
    simp only [Nat.shiftLeft_eq]
    omega
  have hsmall : b.toNat % 2 ^ 64 = b.toNat := Nat.mod_eq_of_lt (by omega)
  rw [BitVec.toNat_or, BitVec.toNat_shiftLeft, BitVec.toNat_ofNat, hsmall, hhalf,
    ← Nat.shiftLeft_add_eq_or_of_lt hb, Nat.shiftLeft_eq]
  omega

theorem and_bit_ne_zero (x : BitVec 64) {j : Nat} (hj : j < 64) :
    x &&& (1#64 <<< j) ≠ 0#64 ↔ x.getLsbD j = true := by
  rw [← BitVec.twoPow_eq, BitVec.and_twoPow]
  cases x.getLsbD j with
  | true =>
    have hne : BitVec.twoPow 64 j ≠ 0#64 := by
      intro hzero
      have h := congrArg (BitVec.getLsbD · j) hzero
      simp [hj] at h
    simp [hne]
  | false => simp

/-- One bit of a byte replaced. -/
theorem getLsbD_store (b : BitVec 8) (v : Bool) {bit k : Nat} (hbit : bit < 8) (hk : k < 8) :
    ((((b.setWidth 64 &&& ~~~(1#64 <<< bit)) ||| (BitVec.ofNat 64 v.toNat <<< bit)) &&& 0xff).setWidth 8).getLsbD k
      = if k = bit then v else b.getLsbD k := by
  have hmask : (0xff#64).getLsbD k = true := by
    interval_cases k <;> decide
  have hone : (1#64 <<< bit).getLsbD k = decide (k = bit) := by
    rw [← BitVec.twoPow_eq, BitVec.getLsbD_twoPow]
    simp [show bit < 64 by omega, eq_comm]
  have hval : (BitVec.ofNat 64 v.toNat <<< bit).getLsbD k = (decide (k = bit) && v) := by
    cases v with
    | true => simpa using hone
    | false => simp
  have hmask' : (0xff : BitVec 64) = 0xff#64 := rfl
  rw [BitVec.getLsbD_setWidth, BitVec.getLsbD_and, BitVec.getLsbD_or, BitVec.getLsbD_and, BitVec.getLsbD_not, hone, hval,
    hmask', hmask, BitVec.getLsbD_setWidth]
  by_cases hkb : k = bit
  · simp [hkb, hbit]
  · simp [hkb, hk, show k < 64 by omega]

/-! ### Reading a field -/

theorem getUnsignedBitfieldLoop_spec (j : Nat) (v : BitVec 64) (h : offset + j ≤ 8 * p.length) :
    ∃ w, getUnsignedBitfieldLoop p j offset v = .ok w ∧
      w.toNat = (v.toNat * 2 ^ j + field (bitAt p) offset j) % 2 ^ 64 := by
  induction j generalizing offset v with
  | zero => exact ⟨v, rfl, by simp [field, Nat.mod_eq_of_lt v.isLt]⟩
  | succ j ih =>
    have hbyte := getElem?_byte (show offset < 8 * p.length by omega)
    obtain ⟨w, hw, hnat⟩ := ih
      ((v <<< 1) ||| BitVec.ofNat 64 (bitAt p offset).toNat) (show offset + 1 + j ≤ 8 * p.length by omega)
    refine ⟨w, ?_, ?_⟩
    · rw [getUnsignedBitfieldLoop]
      simp only [byte_eq, bit_eq, hbyte, bitval_eq]
      exact hw
    · rw [hnat, toNat_shift_or, field_succ', pow_succ]
      rw [Nat.add_mod, Nat.mul_mod, Nat.mod_mod, ← Nat.mul_mod, ← Nat.add_mod]
      congr 1
      ring

/-- A field of up to 64 bits is read as its number. -/
theorem getUnsignedBitfield_spec (hbits : bits ≤ 64) (h : offset + bits ≤ 8 * p.length) :
    ∃ w, getUnsignedBitfield p offset bits = .ok w ∧ w.toNat = field (bitAt p) offset bits := by
  obtain ⟨w, hw, hnat⟩ := getUnsignedBitfieldLoop_spec bits 0#64 h
  have hlt : field (bitAt p) offset bits < 2 ^ 64 :=
    lt_of_lt_of_le (field_lt _ _ _) (Nat.pow_le_pow_right (by omega) hbits)
  refine ⟨w, hw, ?_⟩
  rw [hnat]
  simpa using Nat.mod_eq_of_lt hlt

/-! ### Writing a field -/

/-- One bit of a string replaced. -/
theorem bitAt_set (h : offset < 8 * p.length) (v : Bool) :
    bitAt (p.set (offset / 8)
      ⟨(((((p.getD (offset / 8) 0).toBitVec.setWidth 64) &&& ~~~(1#64 <<< (7 - offset % 8)))
        ||| (BitVec.ofNat 64 v.toNat <<< (7 - offset % 8))) &&& 0xff).setWidth 8⟩)
      = fun i => if i = offset then v else bitAt p i := by
  ext i
  have hlt : offset / 8 < p.length := by omega
  rw [bitAt]
  by_cases hbyte : offset / 8 = i / 8
  · rw [← hbyte, List.getD_eq_getElem?_getD, List.getElem?_set_self hlt, Option.getD_some,
      getLsbD_store _ _ (by omega) (by omega)]
    by_cases hi : i = offset
    · simp [hi]
    · rw [if_neg (by omega), if_neg hi, bitAt, hbyte]
  · have hne : i ≠ offset := by rintro rfl; exact hbyte rfl
    rw [List.getD_eq_getElem?_getD, List.getElem?_set_ne hbyte, ← List.getD_eq_getElem?_getD, if_neg hne, bitAt]

theorem setUnsignedBitfieldLoop_spec {j : Nat} (v : BitVec 64) (hj : j ≤ 64) (h : offset + j ≤ 8 * p.length) :
    ∃ p', setUnsignedBitfieldLoop j p offset v = .ok p' ∧ p'.length = p.length ∧
      bitAt p' = write (bitAt p) offset j v.toNat := by
  induction j generalizing p offset with
  | zero =>
    refine ⟨p, rfl, rfl, ?_⟩
    ext i
    rw [write_outside _ (by omega)]
  | succ j ih =>
    have hbyte := getElem?_byte (show offset < 8 * p.length by omega)
    have hbitval : (if v &&& (1#64 <<< j) ≠ 0#64 then 1#64 else 0#64) = BitVec.ofNat 64 (v.getLsbD j).toNat := by
      have hiff := and_bit_ne_zero v (show j < 64 by omega)
      cases hv : v.getLsbD j with
      | true => rw [if_pos (hiff.mpr hv)]; rfl
      | false => rw [if_neg (by simp [hiff, hv])]; rfl
    have hset := bitAt_set (show offset < 8 * p.length by omega) (v.getLsbD j)
    obtain ⟨w, hw⟩ : ∃ w, w = p.set (offset / 8)
      ⟨(((((p.getD (offset / 8) 0).toBitVec.setWidth 64) &&& ~~~(1#64 <<< (7 - offset % 8)))
        ||| (BitVec.ofNat 64 (v.getLsbD j).toNat <<< (7 - offset % 8))) &&& 0xff).setWidth 8⟩ := ⟨_, rfl⟩
    have hlen : w.length = p.length := by rw [hw, List.length_set]
    rw [← hw] at hset
    obtain ⟨p', hrun, hlen', hbits⟩ := ih (by omega)
      (show offset + 1 + j ≤ 8 * w.length by omega)
    refine ⟨p', ?_, by omega, ?_⟩
    · rw [setUnsignedBitfieldLoop]
      simp only [byte_eq, bit_eq, hbyte, hbitval]
      rw [← hw]
      exact hrun
    · rw [hbits, hset, ← write_succ]
      rfl

/-- `set` writes the field. -/
def Sets (set : Bytes → Nat → Nat → BitVec 64 → Except Fault Bytes) (p : Bytes) (offset bits : Nat) : Prop :=
  ∀ v, ∃ p', set p offset bits v = .ok p' ∧ p'.length = p.length ∧
    bitAt p' = write (bitAt p) offset bits v.toNat

theorem setUnsignedBitfield_spec (hbits : bits ≤ 64) (h : offset + bits ≤ 8 * p.length) :
    Sets setUnsignedBitfield p offset bits :=
  fun v => setUnsignedBitfieldLoop_spec v hbits h

/-! ### Masks -/

theorem getLsbD_highBits {bits i : Nat} (hbits : bits < 64) (hi : i < 64) :
    (highBits bits).getLsbD i = decide (bits ≤ i) := by
  rw [highBits, Nat.mod_eq_of_lt hbits, BitVec.getLsbD_shiftLeft, BitVec.getLsbD_allOnes]
  by_cases hlow : i < bits
  · simp [hi, hlow]
  · have hin : i - bits < 64 := by omega
    simp [hi, hlow, hin]
    omega

theorem toNat_highBits (hbits : bits < 64) : (highBits bits).toNat = 2 ^ 64 - 2 ^ bits := by
  have hle : 2 ^ bits ≤ 2 ^ 63 := Nat.pow_le_pow_right (by omega) (by omega)
  have hpos : 0 < 2 ^ bits := by positivity
  rw [highBits, Nat.mod_eq_of_lt hbits, BitVec.toNat_shiftLeft, BitVec.toNat_allOnes, Nat.shiftLeft_eq]
  generalize 2 ^ bits = B at hle hpos ⊢
  omega

/-- `value & ~mask`. -/
theorem toNat_and_low (x : BitVec 64) (hbits : bits < 64) :
    (x &&& ~~~(highBits bits)).toNat = x.toNat % 2 ^ bits := by
  apply Nat.eq_of_testBit_eq
  intro i
  rw [Nat.testBit_mod_two_pow, BitVec.testBit_toNat, BitVec.testBit_toNat, BitVec.getLsbD_and, BitVec.getLsbD_not]
  by_cases hi : i < 64
  · rw [getLsbD_highBits hbits hi]
    by_cases hlow : i < bits
    · simp [hi, hlow]
    · simp [hlow, show bits ≤ i by omega]
  · simp [hi, BitVec.getLsbD_of_ge x i (by omega)]

/-- `value | mask`. -/
theorem toNat_or_high (x : BitVec 64) (hbits : bits < 64) :
    (x ||| highBits bits).toNat = x.toNat % 2 ^ bits + (2 ^ 64 - 2 ^ bits) := by
  have hdisjoint : (x &&& ~~~(highBits bits)) &&& highBits bits = 0#64 := by
    ext i hi
    simp
  have hor : x ||| highBits bits = (x &&& ~~~(highBits bits)) ||| highBits bits := by
    ext i hi
    simp only [BitVec.getElem_or, BitVec.getElem_and, BitVec.getElem_not]
    cases (highBits bits)[i] <;> simp
  have hle : 2 ^ bits ≤ 2 ^ 63 := Nat.pow_le_pow_right (by omega) (by omega)
  have hmod : x.toNat % 2 ^ bits < 2 ^ bits := Nat.mod_lt _ (by positivity)
  rw [hor, ← BitVec.add_eq_or_of_and_eq_zero _ _ hdisjoint, BitVec.toNat_add, toNat_and_low x hbits,
    toNat_highBits hbits, Nat.mod_eq_of_lt (by omega)]

/-- The sign bit is propagated to all the higher bits. -/
theorem toInt_signed {c c' : BitVec 64} (hpos : 0 < bits) (hbits : bits < 64)
    (hlow : c'.toNat = c.toNat % 2 ^ bits) :
    (if c &&& (1#64 <<< (bits - 1)) ≠ 0#64 then c ||| highBits bits else c').toInt
      = (c.toNat : Int).bmod (2 ^ bits) := by
  have hpow : 2 ^ bits = 2 * 2 ^ (bits - 1) := by rw [← pow_succ', Nat.sub_add_cancel hpos]
  have hle : 2 ^ bits ≤ 2 ^ 63 := Nat.pow_le_pow_right (by omega) (by omega)
  have hmod : c.toNat % 2 ^ bits < 2 ^ bits := Nat.mod_lt _ (by positivity)
  -- the sign bit tells whether the low bits are at least half of the range
  have hsign : c &&& (1#64 <<< (bits - 1)) ≠ 0#64 ↔ 2 ^ (bits - 1) ≤ c.toNat % 2 ^ bits := by
    rw [and_bit_ne_zero c (by omega), ← BitVec.testBit_toNat]
    have hbit : c.toNat.testBit (bits - 1) = (c.toNat % 2 ^ bits).testBit (bits - 1) := by
      rw [Nat.testBit_mod_two_pow]
      simp [hpos]
    rw [hbit]
    constructor
    · exact Nat.ge_two_pow_of_testBit
    · intro hge
      rw [Nat.testBit_eq_decide_div_mod_eq, Nat.div_eq_of_lt_le (k := 1) (by omega) (by omega)]
      rfl
  have hcast : (c.toNat : Int) % (2 ^ bits : Nat) = (c.toNat % 2 ^ bits : Nat) := by push_cast; rfl
  have hbmod : (c.toNat : Int).bmod (2 ^ bits) = ((c.toNat % 2 ^ bits : Nat) : Int).bmod (2 ^ bits) := by
    rw [← hcast, Int.emod_bmod]
  rw [hbmod]
  by_cases hge : 2 ^ (bits - 1) ≤ c.toNat % 2 ^ bits
  · rw [if_pos (hsign.mpr hge), BitVec.toInt_eq_toNat_cond, toNat_or_high c hbits, if_neg (by omega)]
    rw [show ((c.toNat % 2 ^ bits : Nat) : Int) = ((c.toNat % 2 ^ bits : Nat) : Int) - (2 ^ bits : Nat) + (2 ^ bits : Nat) by omega,
      Int.add_bmod_right, Int.bmod_eq_of_le_mul_two (by omega) (by omega)]
    omega
  · rw [if_neg (by rw [hsign]; exact hge), BitVec.toInt_eq_toNat_cond, hlow, if_pos (by omega),
      Int.bmod_eq_of_le_mul_two (by omega) (by omega)]

/-- A signed field of less than 64 bits is read as its number. -/
theorem getSignedBitfield_spec (hpos : 0 < bits) (hbits : bits < 64) (h : offset + bits ≤ 8 * p.length) :
    ∃ w, getSignedBitfield p offset bits = .ok w ∧
      w.toInt = (field (bitAt p) offset bits : Int).bmod (2 ^ bits) := by
  obtain ⟨w, hw, hnat⟩ := getUnsignedBitfield_spec (show bits ≤ 64 by omega) h
  refine ⟨_, by rw [getSignedBitfield, hw, Outcome.ok_bind], ?_⟩
  rw [toInt_signed hpos hbits (by rw [hnat, Nat.mod_eq_of_lt (field_lt _ _ _)]), hnat]

end Redis.Bitops
