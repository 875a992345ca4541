import Mathlib.Data.Nat.Bitwise
import Mathlib.Tactic.Ring
import Mathlib.Tactic.Positivity

/-!
# Buffers of bytes

A block of memory is a list; reads and writes name an offset and are checked against the
length of the block.  The lemmas take the block apart where the access happens, so that a
proof works with `A ++ (B ++ C)` and never with indices.

* `slice?`, `overwrite?` — read and write a run of cells;
* `memmove?` — copy a run, reading all of it before writing;
* `leBytes`, `leNat` — little-endian numbers;
* `intBytes`, `bytesInt` — the same with a sign.
-/

namespace Redis.Buffer

variable {α : Type}

/-! ### Checked access -/

/-- The `n` cells from `off` on, if they are inside the block. -/
def slice? (buf : List α) (off n : Nat) : Option (List α) :=
  if off + n ≤ buf.length then some ((buf.drop off).take n) else none

/-- Write the cells `bs` from `off` on, if they fit. -/
def overwrite? (buf : List α) (off : Nat) (bs : List α) : Option (List α) :=
  if off + bs.length ≤ buf.length then
    some (buf.take off ++ (bs ++ buf.drop (off + bs.length)))
  else none

/-- Copy `n` cells from `src` to `dst`; the two runs may overlap. -/
def memmove? (buf : List α) (dst src n : Nat) : Option (List α) :=
  (slice? buf src n).bind (overwrite? buf dst)

theorem slice?_append {A B C : List α} {p n : Nat} (hoff : p = A.length)
    (hn : n = B.length) : slice? (A ++ (B ++ C)) p n = some B := by
  subst hoff hn
  rw [slice?, if_pos (by simp), List.drop_left, List.take_left]

theorem overwrite?_append {A B C B' : List α} {off : Nat} (hoff : off = A.length)
    (hlen : B'.length = B.length) :
    overwrite? (A ++ (B ++ C)) off B' = some (A ++ (B' ++ C)) := by
  subst hoff
  rw [overwrite?, if_pos (by simp [hlen]), List.take_left, hlen, ← List.drop_drop, List.drop_left,
    List.drop_left]

theorem memmove?_append {A B C M : List α} {dst src n : Nat} (hsrc : slice? (A ++ (B ++ C)) src n = some M)
    (hdst : dst = A.length) (hlen : M.length = B.length) :
    memmove? (A ++ (B ++ C)) dst src n = some (A ++ (M ++ C)) := by
  rw [memmove?, hsrc, Option.bind_some, overwrite?_append hdst hlen]

/-! ### Little-endian numbers -/

/-- The `w` low bytes of `n`, least significant first. -/
def leBytes : Nat → Nat → List UInt8
  | 0, _ => []
  | w + 1, n => UInt8.ofNat n :: leBytes w (n / 256)

/-- The number with these bytes. -/
def leNat : List UInt8 → Nat
  | [] => 0
  | b :: bs => b.toNat + 256 * leNat bs

@[simp] theorem length_leBytes (w n : Nat) : (leBytes w n).length = w := by
  induction w generalizing n with
  | zero => rfl
  | succ w ih => rw [leBytes, List.length_cons, ih]

theorem leNat_leBytes (w n : Nat) : leNat (leBytes w n) = n % 256 ^ w := by
  induction w generalizing n with
  | zero => rw [leBytes, leNat, pow_zero, Nat.mod_one]
  | succ w ih =>
    rw [leBytes, leNat, ih, UInt8.toNat_ofNat', show 2 ^ 8 = 256 from rfl, pow_succ', Nat.mod_mul]

theorem leNat_leBytes_of_lt {w n : Nat} (h : n < 256 ^ w) : leNat (leBytes w n) = n := by
  rw [leNat_leBytes, Nat.mod_eq_of_lt h]

/-! ### Signed numbers -/

/-- The two's complement bytes of an integer. -/
def intBytes (w : Nat) (value : Int) : List UInt8 := leBytes w (value % 256 ^ w).toNat

/-- The integer with these two's complement bytes. -/
def bytesInt (bs : List UInt8) : Int :=
  if 2 * leNat bs < 256 ^ bs.length then leNat bs else (leNat bs : Int) - 256 ^ bs.length

@[simp] theorem length_intBytes (w : Nat) (v : Int) : (intBytes w v).length = w :=
  length_leBytes _ _

/-- Two's complement numbers in their range survive storage. -/
theorem bytesInt_intBytes {w : Nat} {v : Int} (hlo : -256 ^ w ≤ 2 * v) (hhi : 2 * v < 256 ^ w) :
    bytesInt (intBytes w v) = v := by
  have hM : (0 : Int) < 256 ^ w := by positivity
  have hcast : ((256 ^ w : Nat) : Int) = 256 ^ w := by push_cast; rfl
  have hmod0 := Int.emod_nonneg v hM.ne'
  have hmod1 := Int.emod_lt_of_pos v hM
  have hn : leNat (intBytes w v) = (v % 256 ^ w).toNat := by
    rw [intBytes, leNat_leBytes_of_lt]
    have : ((v % 256 ^ w).toNat : Int) < ((256 ^ w : Nat) : Int) := by rw [hcast]; omega
    exact_mod_cast this
  rw [bytesInt, length_intBytes, hn]
  by_cases hv : 0 ≤ v
  · rw [Int.emod_eq_of_lt hv (by omega)]
    rw [if_pos (by
      have : (2 * v.toNat : Int) < ((256 ^ w : Nat) : Int) := by rw [hcast]; omega
      exact_mod_cast this)]
    omega
  · have hmod : v % 256 ^ w = v + 256 ^ w := by
      rw [← Int.add_emod_right, Int.emod_eq_of_lt (by omega) (by omega)]
    rw [hmod]
    rw [if_neg (by
      intro hcon
      have : (2 * (v + 256 ^ w).toNat : Int) < ((256 ^ w : Nat) : Int) := by exact_mod_cast hcon
      rw [hcast] at this
      omega)]
    omega

end Redis.Buffer
