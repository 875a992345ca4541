import Redis.Lib.Buffer
import Mathlib.Data.List.Rotate

/-!
# Circular buffers

A block with a write position `idx` is read as its rotation by `idx`: the oldest cell
first, the newest one last.  In that order a write pushes cells in at the end and out at the
front, wherever the block wraps.

* `rotate_overwrite` — a write that does not cross the end of the block;
* `rotate_wrap` — the position at the end is the position at the beginning;
* `take_rotate`, `take_rotate_eq_drop` — a read in at most two runs;
* `drop_push` — what two writes push out together.
-/

namespace Redis.RingBuffer

open Buffer

variable {α : Type}

/-- A write at the position, seen from the position after it. -/
theorem rotate_overwrite (buf d : List α) (idx : Nat) (hfit : idx + d.length ≤ buf.length) :
    ∃ buf', overwrite? buf idx d = some buf' ∧ buf'.length = buf.length ∧
      buf'.rotate (idx + d.length) = (buf.rotate idx ++ d).drop d.length := by
  have htake : (buf.take idx ++ d).length = idx + d.length := by
    rw [List.length_append, List.length_take]
    omega
  refine ⟨buf.take idx ++ (d ++ buf.drop (idx + d.length)), if_pos hfit, ?_, ?_⟩
  · simp only [List.length_append, List.length_take, List.length_drop]
    omega
  · -- both sides are the cells behind the write, the cells before it and the new cells
    rw [← List.append_assoc, ← htake, List.rotate_append_length_eq, htake,
      List.rotate_eq_drop_append_take (by omega), List.append_assoc,
      List.drop_append_of_le_length (by rw [List.length_drop]; omega), List.drop_drop]

theorem rotate_wrap {buf : List α} {idx : Nat} (h : idx = buf.length) :
    buf.rotate 0 = buf.rotate idx := by
  rw [h, List.rotate_length, List.rotate_zero]

/-- The cells from `start` on, read up to the end of the block and from its beginning. -/
theorem take_rotate {buf : List α} {start n : Nat} (hstart : start ≤ buf.length) (hn : n ≤ buf.length) :
    (buf.rotate start).take n = (buf.drop start).take n ++ buf.take (n - (buf.length - start)) := by
  rw [List.rotate_eq_drop_append_take hstart, List.take_append, List.length_drop, List.take_take]
  congr 2
  omega

/-- The cells behind the first `k`. -/
theorem take_rotate_eq_drop {view : List α} {k : Nat} (hk : k ≤ view.length) :
    (view.rotate k).take (view.length - k) = view.drop k := by
  rw [List.rotate_eq_drop_append_take hk, ← List.length_drop, List.take_left]

/-- Pushing `d` and then `e` into a view is pushing both. -/
theorem drop_push (view d e : List α) :
    ((view ++ d).drop d.length ++ e).drop e.length = (view ++ (d ++ e)).drop (d ++ e).length := by
  have hlen : d.length ≤ (view ++ d).length := by
    rw [List.length_append]
    omega
  rw [← List.drop_append_of_le_length hlen, List.drop_drop, List.append_assoc, List.length_append]

end Redis.RingBuffer
