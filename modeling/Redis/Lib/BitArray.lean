import Mathlib.Data.Int.DivMod
import Mathlib.Data.Nat.Bitwise
import Mathlib.Tactic.Positivity
import Mathlib.Tactic.Ring

/-!
# Arrays of bits and the integers in them

A bit array is a function from bit numbers to bits.  A field is a run of its bits read
as a number, the first bit being the most significant one.

* `field`, `write` — a field read and written;
* `field_succ'`, `field_lt`, `testBit_field`, `field_congr` — how a field is made up;
* `field_write`, `write_outside` — what is written is read, and nothing else changes;
* `IntType` — the integers of a width, signed or not: `wrap`, `Holds`, `clamp`;
* `IntType.get`, `IntType.set`, `IntType.get_set` — a field as an integer of its type.
-/

namespace Redis.BitArray

/-- The number in the `n` bits from `off` on. -/
def field (f : Nat → Bool) (off : Nat) : Nat → Nat
  | 0     => 0
  | n + 1 => 2 * field f off n + (f (off + n)).toNat

/-- The `n` bits from `off` on replaced by those of `v`. -/
def write (f : Nat → Bool) (off n v : Nat) : Nat → Bool := fun i =>
  if off ≤ i ∧ i < off + n then v.testBit (off + n - 1 - i) else f i

/-! ### Reading -/

variable (f : Nat → Bool)

theorem field_zero (off : Nat) : field f off 0 = 0 := rfl

theorem field_succ (off n : Nat) :
    field f off (n + 1) = 2 * field f off n + (f (off + n)).toNat := rfl

theorem field_lt (off n : Nat) : field f off n < 2 ^ n := by
  induction n with
  | zero => simp [field_zero]
  | succ n ih =>
    have hbit := Bool.toNat_lt (f (off + n))
    rw [field_succ, pow_succ]
    omega

/-- Taking the first bit off instead of the last. -/
theorem field_succ' (off n : Nat) :
    field f off (n + 1) = (f off).toNat * 2 ^ n + field f (off + 1) n := by
  induction n with
  | zero => simp [field_succ, field_zero]
  | succ n ih =>
    have hlast : off + (n + 1) = off + 1 + n := by omega
    rw [field_succ, ih, field_succ, hlast]
    ring

theorem field_congr {f g : Nat → Bool} {off off' n : Nat} (h : ∀ i < n, f (off + i) = g (off' + i)) :
    field f off n = field g off' n := by
  induction n with
  | zero => simp [field_zero]
  | succ n ih => rw [field_succ, field_succ, ih (fun i hi => h i (by omega)), h n (by omega)]

theorem testBit_field (off : Nat) {n i : Nat} (hi : i < n) :
    (field f off n).testBit i = f (off + (n - 1 - i)) := by
  induction n generalizing i with
  | zero => omega
  | succ n ih =>
    rw [field_succ]
    cases i with
    | zero =>
      rw [Nat.testBit_zero]
      have hplace : off + (n + 1 - 1 - 0) = off + n := by omega
      rw [hplace]
      cases f (off + n) <;> simp [Nat.add_mod]
    | succ i =>
      have hhalf : (2 * field f off n + (f (off + n)).toNat) / 2 = field f off n := by
        have hbit := Bool.toNat_lt (f (off + n))
        omega
      have hplace : n + 1 - 1 - (i + 1) = n - 1 - i := by omega
      rw [Nat.testBit_succ, hhalf, ih (by omega), hplace]

/-! ### Writing -/

theorem write_outside {off n v i : Nat} (h : ¬(off ≤ i ∧ i < off + n)) :
    write f off n v i = f i := by
  rw [write, if_neg h]

theorem write_inside {off n v i : Nat} (hi : i < n) :
    write f off n v (off + i) = v.testBit (n - 1 - i) := by
  have hplace : off + n - 1 - (off + i) = n - 1 - i := by omega
  rw [write, if_pos (by omega), hplace]

/-- A field that was written is read back, as far as it fits. -/
theorem field_write (off n v : Nat) : field (write f off n v) off n = v % 2 ^ n := by
  apply Nat.eq_of_testBit_eq
  intro i
  rw [Nat.testBit_mod_two_pow]
  by_cases hi : i < n
  · have hplace : n - 1 - (n - 1 - i) = i := by omega
    simp only [testBit_field _ _ hi, write_inside f (show n - 1 - i < n by omega), hplace, hi, decide_true,
      Bool.true_and]
  · have hlt : field (write f off n v) off n < 2 ^ i :=
      lt_of_lt_of_le (field_lt _ _ _) (Nat.pow_le_pow_right (by omega) (by omega))
    simp [Nat.testBit_lt_two_pow hlt, hi]

/-- Only the low bits of a number are written. -/
theorem write_mod (off n v : Nat) : write f off n (v % 2 ^ n) = write f off n v := by
  ext i
  by_cases hi : off ≤ i ∧ i < off + n
  · rw [write, write, if_pos hi, if_pos hi, Nat.testBit_mod_two_pow]
    have hlow : off + n - 1 - i < n := by omega
    simp [hlow]
  · rw [write_outside f hi, write_outside f hi]

/-- A field is written one bit after the other. -/
theorem write_succ (off n v : Nat) :
    write (fun i => if i = off then v.testBit n else f i) (off + 1) n v = write f off (n + 1) v := by
  ext i
  by_cases hfirst : i = off
  · subst hfirst
    simp [write]
  · by_cases hin : off + 1 ≤ i ∧ i < off + 1 + n
    · have hin' : off ≤ i ∧ i < off + (n + 1) := by omega
      have hplace : off + 1 + n - 1 - i = off + (n + 1) - 1 - i := by omega
      rw [write, if_pos hin, write, if_pos hin', hplace]
    · have hout : ¬(off ≤ i ∧ i < off + (n + 1)) := by omega
      rw [write_outside _ hin, write_outside f hout, if_neg hfirst]

/-- Congruent numbers have the same low bits. -/
theorem ediv_two_pow_emod_two {v w : Int} {n k : Nat} (hk : k < n) (h : v % 2 ^ n = w % 2 ^ n) :
    v / 2 ^ k % 2 = w / 2 ^ k % 2 := by
  obtain ⟨q, hq⟩ : (2 : Int) ^ n ∣ v - w := 
    Int.dvd_of_emod_eq_zero (Int.emod_eq_emod_iff_emod_sub_eq_zero.mp h)
  have hpow : (2 : Int) ^ n = 2 ^ k * (2 * 2 ^ (n - k - 1)) := by
    rw [← pow_succ', ← pow_add]
    congr 1
    omega
  have hv : v = w + 2 ^ k * (2 * 2 ^ (n - k - 1) * q) := by
    rw [← mul_assoc, ← hpow, ← hq]
    ring
  rw [hv, Int.add_mul_ediv_left _ _ (by positivity), mul_assoc, Int.add_mul_emod_self_left]

/-! ### Integer types -/

/-- The integers of a width. -/
structure IntType where
  signed : Bool
  bits   : Nat
deriving DecidableEq, Repr

namespace IntType
variable (t : IntType)

/-- The integer of the type that `v` is congruent to. -/
def wrap (v : Int) : Int := if t.signed then v.bmod (2 ^ t.bits) else v % 2 ^ t.bits

def min : Int := if t.signed then -2 ^ (t.bits - 1) else 0

def max : Int := if t.signed then 2 ^ (t.bits - 1) - 1 else 2 ^ t.bits - 1

/-- `v` is an integer of the type. -/
def Holds (v : Int) : Prop := t.min ≤ v ∧ v ≤ t.max

instance (v : Int) : Decidable (t.Holds v) := inferInstanceAs (Decidable (_ ∧ _))

/-- The integer of the type that is nearest to `v`. -/
def clamp (v : Int) : Int := if t.max < v then t.max else if v < t.min then t.min else v

/-- The integer in the field at `off`. -/
def get (f : Nat → Bool) (off : Nat) : Int := t.wrap (field f off t.bits)

/-- The field at `off` made `v`. -/
def set (f : Nat → Bool) (off : Nat) (v : Int) : Nat → Bool := write f off t.bits (v % 2 ^ t.bits).toNat

variable {t}

theorem two_pow_pred (hbits : 0 < t.bits) : (2 : Int) ^ t.bits = 2 * 2 ^ (t.bits - 1) := by
  rw [← pow_succ', Nat.sub_add_cancel hbits]

theorem holds_wrap (hbits : 0 < t.bits) (v : Int) : t.Holds (t.wrap v) := by
  have hpow := two_pow_pred hbits
  have hpos : (0 : Int) < 2 ^ (t.bits - 1) := by positivity
  have hcast : (((2 ^ t.bits : Nat)) : Int) = 2 ^ t.bits := by push_cast; rfl
  rw [Holds, wrap, min, max]
  cases t.signed with
  | true =>
    have hlo := Int.le_bmod (x := v) (m := 2 ^ t.bits) (by positivity)
    have hhi := Int.bmod_lt (x := v) (m := 2 ^ t.bits) (by positivity)
    rw [hcast] at hlo hhi
    simp only [if_true]
    omega
  | false =>
    have hlo := Int.emod_nonneg v (show (2 : Int) ^ t.bits ≠ 0 by positivity)
    have hhi := Int.emod_lt_of_pos v (show (0 : Int) < 2 ^ t.bits by positivity)
    simp only [Bool.false_eq_true, if_false]
    omega

theorem wrap_of_holds (hbits : 0 < t.bits) {v : Int} (h : t.Holds v) : t.wrap v = v := by
  have hpow := two_pow_pred hbits
  have hcast : (((2 ^ t.bits : Nat)) : Int) = 2 ^ t.bits := by push_cast; rfl
  rw [Holds, min, max] at h
  rw [wrap]
  cases hsigned : t.signed with
  | true =>
    simp only [hsigned, if_true] at h
    rw [if_pos rfl]
    apply Int.bmod_eq_of_le_mul_two
    · rw [hcast]; omega
    · rw [hcast]; omega
  | false =>
    simp only [hsigned, Bool.false_eq_true, if_false] at h
    rw [if_neg (by simp)]
    exact Int.emod_eq_of_lt h.1 (by omega)

/-- Congruent numbers wrap to the same one. -/
theorem wrap_congr {v w : Int} (h : v % 2 ^ t.bits = w % 2 ^ t.bits) : t.wrap v = t.wrap w := by
  have hcast : (((2 ^ t.bits : Nat)) : Int) = 2 ^ t.bits := by push_cast; rfl
  rw [wrap, wrap, h]
  have hbmod : v.bmod (2 ^ t.bits) = w.bmod (2 ^ t.bits) := by
    rw [← Int.emod_bmod v, ← Int.emod_bmod w, hcast, h]
  rw [hbmod]

theorem clamp_of_holds {v : Int} (h : t.Holds v) : t.clamp v = v := by
  rw [clamp, if_neg (by have := h.2; omega), if_neg (by have := h.1; omega)]

theorem holds_clamp (v : Int) : t.Holds (t.clamp v) := by
  have hpos : (0 : Int) < 2 ^ (t.bits - 1) := by positivity
  have hpos' : (0 : Int) < 2 ^ t.bits := by positivity
  have hle : t.min ≤ t.max := by
    rw [min, max]
    cases t.signed with
    | true => simp only [if_true]; omega
    | false => simp only [Bool.false_eq_true, if_false]; omega
  rw [Holds, clamp]
  split
  · omega
  · split <;> omega

theorem wrap_emod (v : Int) : t.wrap v % 2 ^ t.bits = v % 2 ^ t.bits := by
  have hcast : (((2 ^ t.bits : Nat)) : Int) = 2 ^ t.bits := by push_cast; rfl
  rw [wrap]
  cases t.signed with
  | true =>
    have h := Int.bmod_emod (x := v) (m := 2 ^ t.bits)
    rw [hcast] at h
    simpa using h
  | false => simp

variable (f : Nat → Bool)

/-- What is set is got, wrapped. -/
theorem get_set (off : Nat) (v : Int) : t.get (t.set f off v) off = t.wrap v := by
  have hnonneg := Int.emod_nonneg v (show (2 : Int) ^ t.bits ≠ 0 by positivity)
  rw [get, set, field_write]
  apply wrap_congr
  push_cast
  rw [Int.toNat_of_nonneg hnonneg]
  simp

theorem set_wrap (off : Nat) (v : Int) : t.set f off (t.wrap v) = t.set f off v := by
  rw [set, set, wrap_emod]

theorem set_outside {off i : Nat} (v : Int) (h : ¬(off ≤ i ∧ i < off + t.bits)) :
    t.set f off v i = f i :=
  write_outside f h

theorem holds_get (hbits : 0 < t.bits) (f : Nat → Bool) (off : Nat) : t.Holds (t.get f off) :=
  holds_wrap hbits _

/-- The bits of the integer are those of the field. -/
theorem bit_get (off : Nat) {i : Nat} (hi : i < t.bits) :
    t.get f off / 2 ^ (t.bits - 1 - i) % 2 = if f (off + i) then 1 else 0 := by
  have hplace : t.bits - 1 - (t.bits - 1 - i) = i := by omega
  have hfield := testBit_field f off (show t.bits - 1 - i < t.bits by omega)
  rw [hplace, Nat.testBit_eq_decide_div_mod_eq] at hfield
  have hcongr : t.get f off % 2 ^ t.bits = (field f off t.bits : Int) % 2 ^ t.bits := wrap_emod _
  rw [ediv_two_pow_emod_two (show t.bits - 1 - i < t.bits by omega) hcongr]
  have hmod := Nat.mod_two_eq_zero_or_one (field f off t.bits / 2 ^ (t.bits - 1 - i))
  rw [← hfield]
  norm_cast
  obtain hzero | hone := hmod
  · simp [hzero]
  · simp [hone]

end IntType

end Redis.BitArray
