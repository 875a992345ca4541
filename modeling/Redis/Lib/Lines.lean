import Mathlib.Data.List.Basic

/-!
# Lines of a stream

A stream of elements in which lines are told apart by a terminator, and a reader with a
buffer of limited size.

* `takeLine` — one line out of the stream, or what fits into the buffer;
* `unlines`, `arrived` — the stream of some lines, and those of them that a part of it holds in full;
* `takeLine_next`, `takeLine_cut` — lines that fit into the buffer are read one by one.
-/

namespace Redis.Lines

variable {α : Type} {nl : α}

/-- What a reader finds that has room for `n` elements: the elements before the terminator, and whether it
    has come; `none` when the stream ends first.  The second part is the rest of the stream. -/
def takeLine [DecidableEq α] (nl : α) : Nat → List α → Option (List α × Bool) × List α
  | 0, input => (some ([], false), input)
  | _ + 1, [] => (none, [])
  | n + 1, c :: input =>
      if c = nl then (some ([], true), input)
      else
        let r := takeLine nl n input
        (r.1.map fun l => (c :: l.1, l.2), r.2)

/-- The stream of some lines. -/
def unlines (nl : α) (ls : List (List α)) : List α := ls.flatMap (· ++ [nl])

/-- The lines of which the first `d` elements of the stream hold all. -/
def arrived : Nat → List (List α) → List (List α)
  | _, [] => []
  | d, l :: ls => if l.length < d then l :: arrived (d - (l.length + 1)) ls else []

@[simp] theorem unlines_nil : unlines nl [] = [] := rfl

@[simp] theorem unlines_cons (l : List α) (ls : List (List α)) :
    unlines nl (l :: ls) = l ++ nl :: unlines nl ls := by
  rw [unlines, List.flatMap_cons, List.append_assoc]
  rfl

section Reader

variable [DecidableEq α]

/-- A line that fits is read as it is. -/
theorem takeLine_line {l : List α} (hl : nl ∉ l) {n : Nat} (hn : l.length < n) (rest : List α) :
    takeLine nl n (l ++ nl :: rest) = (some (l, true), rest) := by
  induction l generalizing n with
  | nil =>
    obtain ⟨n, rfl⟩ : ∃ m, n = m + 1 := ⟨n - 1, by simp at hn; omega⟩
    simp [takeLine]
  | cons c l ih =>
    rw [List.mem_cons, not_or] at hl
    rw [List.length_cons] at hn
    obtain ⟨n, rfl⟩ : ∃ m, n = m + 1 := ⟨n - 1, by omega⟩
    rw [List.cons_append, takeLine, if_neg (Ne.symm hl.1), ih hl.2 (by omega)]
    rfl

/-- The stream ends inside of a line. -/
theorem takeLine_partial {l : List α} (hl : nl ∉ l) {n : Nat} (hn : l.length < n) : takeLine nl n l = (none, []) := by
  induction l generalizing n with
  | nil =>
    obtain ⟨n, rfl⟩ : ∃ m, n = m + 1 := ⟨n - 1, by simp at hn; omega⟩
    rfl
  | cons c l ih =>
    rw [List.mem_cons, not_or] at hl
    rw [List.length_cons] at hn
    obtain ⟨n, rfl⟩ : ∃ m, n = m + 1 := ⟨n - 1, by omega⟩
    rw [takeLine, if_neg (Ne.symm hl.1), ih hl.2 (by omega)]
    rfl

variable {l : List α} {ls : List (List α)} {n d : Nat}

/-- The next line has arrived. -/
theorem takeLine_next (hl : nl ∉ l) (hn : l.length < n) (hd : l.length < d) :
    takeLine nl n ((unlines nl (l :: ls)).take d) = (some (l, true), (unlines nl ls).take (d - (l.length + 1))) := by
  have hsplit : (unlines nl (l :: ls)).take d = l ++ nl :: (unlines nl ls).take (d - (l.length + 1)) := by
    obtain ⟨m, rfl⟩ : ∃ m, d = l.length + 1 + m := ⟨d - (l.length + 1), by omega⟩
    rw [unlines_cons, List.take_append, List.take_of_length_le (by omega)]
    congr 1
    rw [show l.length + 1 + m - l.length = m + 1 by omega, List.take_succ_cons]
    congr 2
    omega
  rw [hsplit, takeLine_line hl hn]

/-- The next line has not arrived, or not all of it. -/
theorem takeLine_cut (hl : nl ∉ l) (hn : l.length < n) (hd : ¬ l.length < d) :
    takeLine nl n ((unlines nl (l :: ls)).take d) = (none, []) := by
  have htake : (unlines nl (l :: ls)).take d = l.take d := by
    rw [unlines_cons, List.take_append_of_le_length (by omega)]
  rw [htake]
  refine takeLine_partial (fun hmem => hl (List.mem_of_mem_take hmem)) ?_
  rw [List.length_take]
  omega

end Reader

end Redis.Lines
