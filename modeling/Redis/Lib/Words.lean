import Mathlib.Data.List.GetD
import Mathlib.Data.BitVec

/-!
# Words in buffers

A buffer is a list.  A run of its elements is replaced by `splice`; a run of bytes is read
as a word, the first byte being the lowest one.  An operation that works bit by bit does
the same on a word as on each of its bytes.

* `splice`, `length_splice`, `getD_splice` — a run replaced;
* `load`, `unload` — a word and its bytes;
* `Bitwise` — the operations on words of any width that work bit by bit;
* `getD_splice_bitwise` — a word of one buffer combined with that of another.
-/

namespace Redis.Words

section
variable {α : Type*}

/-- The elements from `off` on replaced by those of `v`. -/
def splice (p : List α) (off : Nat) (v : List α) : List α := p.take off ++ v ++ p.drop (off + v.length)

theorem length_splice {p v : List α} {off : Nat} (h : off + v.length ≤ p.length) : (splice p off v).length = p.length := by
  simp only [splice, List.length_append, List.length_take, List.length_drop]
  omega

theorem getD_splice {p v : List α} {off : Nat} (h : off + v.length ≤ p.length) (i : Nat) (d : α) :
    (splice p off v).getD i d = if off ≤ i ∧ i < off + v.length then v.getD (i - off) d else p.getD i d := by
  have hlen : (p.take off).length = off := by rw [List.length_take]; omega
  rw [splice, List.append_assoc]
  by_cases hbefore : i < off
  · rw [List.getD_append _ _ _ _ (by omega), if_neg (by omega)]
    simp [List.getD_eq_getElem?_getD, hbefore]
  · rw [List.getD_append_right _ _ _ _ (by omega), hlen]
    by_cases hin : i - off < v.length
    · rw [List.getD_append _ _ _ _ hin, if_pos (by omega)]
    · -- behind the elements that are replaced
      have hplace : off + v.length + (i - off - v.length) = i := by omega
      rw [List.getD_append_right _ _ _ _ (by omega), if_neg (by omega)]
      simp [List.getD_eq_getElem?_getD, List.getElem?_drop, hplace]

end

/-! ### Words -/

/-- The word in the `n` bytes from `off` on. -/
def load (p : List UInt8) : Nat → (n : Nat) → BitVec (8 * n)
  | _, 0       => 0#0
  | off, n + 1 => load p (off + 1) n ++ (p.getD off 0).toBitVec

/-- The bytes of a word. -/
def unload {n : Nat} (w : BitVec (8 * n)) : List UInt8 := (List.range n).map (fun k => ⟨w.extractLsb' (8 * k) 8⟩)

theorem getLsbD_load (p : List UInt8) (off : Nat) {n i : Nat} (hi : i < 8 * n) :
    (load p off n).getLsbD i = (p.getD (off + i / 8) 0).toBitVec.getLsbD (i % 8) := by
  induction n generalizing off i with
  | zero => omega
  | succ n ih =>
    rw [load, BitVec.getLsbD_append]
    by_cases hlow : i < 8
    · have hbyte : i / 8 = 0 := by omega
      rw [if_pos hlow, hbyte, Nat.add_zero, Nat.mod_eq_of_lt hlow]
    · have hbyte : off + 1 + (i - 8) / 8 = off + i / 8 := by omega
      have hbit : (i - 8) % 8 = i % 8 := by omega
      rw [if_neg hlow, ih (off + 1) (by omega), hbyte, hbit]

theorem length_unload {n : Nat} (w : BitVec (8 * n)) : (unload w).length = n := by
  simp [unload]

theorem getD_unload {n : Nat} (w : BitVec (8 * n)) {k : Nat} (hk : k < n) :
    (unload w).getD k 0 = ⟨w.extractLsb' (8 * k) 8⟩ := by
  simp [unload, List.getD_eq_getElem?_getD, hk]

/-- A binary operation on words of every width works bit by bit. -/
def Bitwise (f : (w : Nat) → BitVec w → BitVec w → BitVec w) : Prop :=
  ∃ g : Bool → Bool → Bool, ∀ w (x y : BitVec w) i, i < w → (f w x y).getLsbD i = g (x.getLsbD i) (y.getLsbD i)

/-- The operation on bytes. -/
def onBytes (f : (w : Nat) → BitVec w → BitVec w → BitVec w) (a b : UInt8) : UInt8 := ⟨f 8 a.toBitVec b.toBitVec⟩

variable {f : (w : Nat) → BitVec w → BitVec w → BitVec w}

/-- A byte of the combined word is the combination of the bytes. -/
theorem getD_unload_bitwise (hf : Bitwise f) (p q : List UInt8) (off off' : Nat) {n k : Nat} (hk : k < n) :
    (unload (f (8 * n) (load p off n) (load q off' n))).getD k 0
      = onBytes f (p.getD (off + k) 0) (q.getD (off' + k) 0) := by
  obtain ⟨g, hg⟩ := hf
  rw [getD_unload _ hk, onBytes]
  congr 1
  apply BitVec.eq_of_getLsbD_eq
  intro i hi
  have hin : 8 * k + i < 8 * n := by omega
  have hbyte : (8 * k + i) / 8 = k := by omega
  have hbit : (8 * k + i) % 8 = i := by omega
  rw [BitVec.getLsbD_extractLsb', decide_eq_true hi, Bool.true_and, hg _ _ _ _ hin, hg _ _ _ _ hi, getLsbD_load _ _ hin,
    getLsbD_load _ _ hin, hbyte, hbit]

/-- A word of `p` replaced by its combination with the word of `q` at the same place. -/
theorem getD_splice_bitwise (hf : Bitwise f) {p : List UInt8} (q : List UInt8) {off n : Nat}
    (h : off + n ≤ p.length) (i : Nat) :
    (splice p off (unload (f (8 * n) (load p off n) (load q off n)))).getD i 0
      = if off ≤ i ∧ i < off + n then onBytes f (p.getD i 0) (q.getD i 0) else p.getD i 0 := by
  have hlen := length_unload (f (8 * n) (load p off n) (load q off n))
  rw [getD_splice (by omega), hlen]
  by_cases hin : off ≤ i ∧ i < off + n
  · have hplace : off + (i - off) = i := by omega
    rw [if_pos hin, if_pos hin, getD_unload_bitwise hf p q off off (by omega), hplace]
  · rw [if_neg hin, if_neg hin]

end Redis.Words
