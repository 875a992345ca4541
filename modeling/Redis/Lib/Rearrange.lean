import Mathlib.Algebra.Group.End
import Mathlib.Data.Fintype.Card
import Mathlib.Order.Interval.Finset.Nat

/-!
# Rearrangements of memory

A sequence in memory is a function from positions.  A program that only exchanges cells of
`[a, b)` rearranges them; comparisons are functions with the sign of `memcmp`.

* `exchange`, `Rearranged` — two cells are exchanged, or many of one region;
* `placed`, `Rearranged.of_perm` — a list in memory, and a permutation of it;
* `Preordered` — a comparison that is a total preorder;
* `Rearranged.same_class` — a cell that has its region's smaller cells before it and the greater
  ones behind it holds what the sorted region has there, up to the order.
-/

namespace Redis.Rearrange

variable {α : Type*}

/-- The cells `i` and `j` exchanged. -/
def exchange (m : Nat → α) (i j : Nat) : Nat → α := fun k => if k = i then m j else if k = j then m i else m k

theorem exchange_left (m : Nat → α) (i j : Nat) : exchange m i j i = m j := if_pos rfl

theorem exchange_right (m : Nat → α) (i j : Nat) : exchange m i j j = m i := by
  unfold exchange
  by_cases h : j = i
  · rw [if_pos h, h]
  · rw [if_neg h, if_pos rfl]

theorem exchange_of_ne (m : Nat → α) {i j k : Nat} (hi : k ≠ i) (hj : k ≠ j) : exchange m i j k = m k := by
  unfold exchange
  rw [if_neg hi, if_neg hj]

/-- The cells of `[a, b)` have changed their places. -/
def Rearranged (a b : Nat) (m m' : Nat → α) : Prop :=
  ∃ σ : Equiv.Perm Nat, (∀ k, ¬ (a ≤ k ∧ k < b) → σ k = k) ∧ ∀ k, m' k = m (σ k)

namespace Rearranged

variable {a b : Nat} {m m' m'' : Nat → α}

theorem refl (a b : Nat) (m : Nat → α) : Rearranged a b m m := ⟨1, fun _ _ => rfl, fun _ => rfl⟩

theorem trans (h : Rearranged a b m m') (h' : Rearranged a b m' m'') : Rearranged a b m m'' := by
  obtain ⟨σ, hfix, hσ⟩ := h
  obtain ⟨τ, hfix', hτ⟩ := h'
  refine ⟨σ * τ, fun k hk => ?_, fun k => ?_⟩
  · rw [Equiv.Perm.mul_apply, hfix' k hk, hfix k hk]
  · rw [hτ, hσ, Equiv.Perm.mul_apply]

theorem mono {a' b' : Nat} (h : Rearranged a b m m') (ha : a' ≤ a) (hb : b ≤ b') : Rearranged a' b' m m' := by
  obtain ⟨σ, hfix, hσ⟩ := h
  exact ⟨σ, fun k hk => hfix k (fun h => hk ⟨ha.trans h.1, h.2.trans_le hb⟩), hσ⟩

theorem exchange {i j : Nat} (hi : a ≤ i ∧ i < b) (hj : a ≤ j ∧ j < b) : Rearranged a b m (exchange m i j) := by
  refine ⟨Equiv.swap i j, fun k hk => ?_, fun k => ?_⟩
  · exact Equiv.swap_apply_of_ne_of_ne (fun h => hk (h ▸ hi)) (fun h => hk (h ▸ hj))
  · unfold Rearrange.exchange
    rw [Equiv.swap_apply_def]
    split
    · rfl
    · split <;> rfl

/-- The other cells stay. -/
theorem outside (h : Rearranged a b m m') {k : Nat} (hk : ¬ (a ≤ k ∧ k < b)) : m' k = m k := by
  obtain ⟨σ, hfix, hσ⟩ := h
  rw [hσ, hfix k hk]

/-- A permutation that moves nothing outside moves nothing there. -/
theorem maps_to {σ : Equiv.Perm Nat} (hfix : ∀ k, ¬ (a ≤ k ∧ k < b) → σ k = k) {k : Nat} (hk : a ≤ k ∧ k < b) :
    a ≤ σ k ∧ σ k < b := by
  by_contra h
  exact h (by rwa [σ.injective (hfix (σ k) h)])

/-- What is true of all cells stays true. -/
theorem forall_mem {P : α → Prop} (h : Rearranged a b m m') (hP : ∀ k, a ≤ k → k < b → P (m k)) :
    ∀ k, a ≤ k → k < b → P (m' k) := by
  obtain ⟨σ, hfix, hσ⟩ := h
  intro k ha hb
  obtain ⟨ha', hb'⟩ := maps_to hfix ⟨ha, hb⟩
  rw [hσ]
  exact hP (σ k) ha' hb'

theorem symm (h : Rearranged a b m m') : Rearranged a b m' m := by
  obtain ⟨σ, hfix, hσ⟩ := h
  refine ⟨σ⁻¹, fun k hk => ?_, fun k => ?_⟩
  · rw [Equiv.Perm.inv_eq_iff_eq, hfix k hk]
  · rw [hσ]
    exact congrArg m (σ.apply_symm_apply k).symm

/-- The cells as a list are a permutation. -/
theorem perm {n : Nat} (h : Rearranged 0 n m m') : ((List.range n).map m').Perm ((List.range n).map m) := by
  obtain ⟨σ, hfix, hσ⟩ := h
  have hrange : ((List.range n).map σ).Perm (List.range n) := by
    rw [List.perm_ext_iff_of_nodup (List.nodup_range.map σ.injective) List.nodup_range]
    intro k
    rw [List.mem_map, List.mem_range]
    constructor
    · rintro ⟨j, hj, rfl⟩
      exact (maps_to hfix ⟨Nat.zero_le j, List.mem_range.mp hj⟩).2
    · intro hk
      have hfix' : ∀ j, ¬ (0 ≤ j ∧ j < n) → σ⁻¹ j = j := fun j hj => by rw [Equiv.Perm.inv_eq_iff_eq, hfix j hj]
      exact ⟨σ⁻¹ k, List.mem_range.mpr (maps_to hfix' ⟨Nat.zero_le k, hk⟩).2,
        σ.apply_symm_apply k⟩
  have hmap := hrange.map m
  rw [List.map_map] at hmap
  rwa [show m' = m ∘ σ from funext hσ]

end Rearranged

/-- The memory `m` with the elements of a list from the cell `a` on. -/
def placed (m : Nat → α) (a : Nat) : List α → Nat → α
  | [], k => m k
  | x :: l, k => if k = a then x else placed m (a + 1) l k

theorem placed_const (x : α) (l : List α) {a k : Nat} (ha : a ≤ k) : placed (fun _ => x) a l k = l.getD (k - a) x := by
  induction l generalizing a with
  | nil => rfl
  | cons y l ih =>
    unfold placed
    by_cases h : k = a
    · rw [if_pos h, h, Nat.sub_self, List.getD_cons_zero]
    · rw [if_neg h, ih (by omega), show k - a = k - (a + 1) + 1 by omega, List.getD_cons_succ]

theorem Rearranged.of_perm {l l' : List α} (h : l.Perm l') (m : Nat → α) (a : Nat) :
    Rearranged a (a + l.length) (placed m a l) (placed m a l') := by
  induction h generalizing a with
  | nil => exact Rearranged.refl _ _ _
  | cons x h ih =>
    obtain ⟨σ, hfix, hσ⟩ := ih (a + 1)
    simp only [List.length_cons]
    refine ⟨σ, fun k hk => hfix k (fun h => hk (by omega)), fun k => ?_⟩
    have ha : σ a = a := hfix a (by omega)
    unfold placed
    by_cases hk : k = a
    · rw [hk, ha, if_pos rfl, if_pos rfl]
    · rw [if_neg hk, if_neg (fun h => hk (σ.injective (h.trans ha.symm))), hσ]
  | swap x y l =>
    have hex : placed m a (x :: y :: l) = Rearrange.exchange (placed m a (y :: x :: l)) a (a + 1) := by
      funext k
      simp only [placed, Rearrange.exchange]
      by_cases hk : k = a
      · simp [hk]
      · by_cases hk' : k = a + 1 <;> simp [hk, hk']
    rw [hex]
    simp only [List.length_cons]
    exact Rearranged.exchange (by omega) (by omega)
  | trans h h' ih ih' =>
    have ih' := ih' a
    rw [← h.length_eq] at ih'
    exact (ih a).trans ih'

/-- The comparison is a total preorder. -/
structure Preordered (cmp : α → α → Int) : Prop where
  swapped : ∀ x y, cmp x y < 0 ↔ 0 < cmp y x
  trans : ∀ x y z, cmp x y ≤ 0 → cmp y z ≤ 0 → cmp x z ≤ 0

namespace Preordered

variable {cmp : α → α → Int} {x y z : α}

theorem refl (h : Preordered cmp) (x : α) : cmp x x ≤ 0 := by
  have hx := h.swapped x x
  omega

theorem of_pos (h : Preordered cmp) (hxy : 0 < cmp x y) : cmp y x ≤ 0 := ((h.swapped y x).mpr hxy).le

theorem of_zero (h : Preordered cmp) (hxy : cmp x y = 0) : cmp y x = 0 := by
  have h₁ := h.swapped x y
  have h₂ := h.swapped y x
  omega

/-- Above what is above. -/
theorem not_lt (h : Preordered cmp) : ¬ cmp x y < 0 ↔ cmp y x ≤ 0 := by
  rw [h.swapped]
  omega

theorem lt_of_le_of_lt (h : Preordered cmp) (hxy : cmp x y ≤ 0) (hyz : cmp y z < 0) : cmp x z < 0 := by
  by_contra hxz
  exact h.not_lt.mpr (h.trans z x y (h.not_lt.mp hxz) hxy) hyz

theorem lt_of_lt_of_le (h : Preordered cmp) (hxy : cmp x y < 0) (hyz : cmp y z ≤ 0) : cmp x z < 0 := by
  by_contra hxz
  exact h.not_lt.mpr (h.trans y z x hyz (h.not_lt.mp hxz)) hxy

end Preordered

/-- More places than there are to go to. -/
theorem exists_of_injective {τ : Equiv.Perm Nat} {s t : Finset Nat} (hcard : t.card < s.card) :
    ∃ k ∈ s, τ k ∉ t := by
  by_contra hall
  simp only [not_exists, not_and, not_not] at hall
  obtain ⟨k, _, j, _, hne, heq⟩ := Finset.exists_ne_map_eq_of_card_lt_of_maps_to hcard hall
  exact hne (τ.injective heq)

/-- The cell `i` has the smaller ones before it and the greater ones behind it: then it holds what `f`, the
    same region sorted, has there. -/
theorem Rearranged.same_class {cmp : α → α → Int} (hcmp : Preordered cmp) {n i : Nat} {m f : Nat → α}
    (h : Rearranged 0 n m f) (hf : ∀ j k, j ≤ k → k < n → cmp (f j) (f k) ≤ 0) (hi : i < n)
    (hbefore : ∀ j, j ≤ i → cmp (m j) (m i) ≤ 0) (hbehind : ∀ j, i ≤ j → j < n → cmp (m i) (m j) ≤ 0) :
    cmp (f i) (m i) = 0 := by
  obtain ⟨τ, hfix, hτ⟩ := h
  have hle : ¬ cmp (f i) (m i) < 0 := by
    intro hlt
    -- the first cells of `f` come from before `i`, and there are too many of them
    obtain ⟨k, hk, hout⟩ := exists_of_injective (τ := τ) (s := Finset.range (i + 1)) (t := Finset.range i) (by simp)
    rw [Finset.mem_range] at hk hout
    have hk' := (Rearranged.maps_to hfix ⟨Nat.zero_le k, by omega⟩).2
    have hsmall := hcmp.lt_of_le_of_lt (hf k i (by omega) hi) hlt
    rw [hτ] at hsmall
    exact hcmp.not_lt.mpr (hbehind (τ k) (by omega) hk') hsmall
  have hge : ¬ cmp (m i) (f i) < 0 := by
    intro hlt
    obtain ⟨k, hk, hout⟩ := exists_of_injective (τ := τ) (s := Finset.Ico i n) (t := Finset.Ico (i + 1) n)
      (by simp; omega)
    rw [Finset.mem_Ico] at hk hout
    have hk' := (Rearranged.maps_to hfix ⟨Nat.zero_le k, hk.2⟩).2
    have hgreat := hcmp.lt_of_lt_of_le hlt (hf i k hk.1 hk.2)
    rw [hτ] at hgreat
    exact hcmp.not_lt.mpr (hbefore (τ k) (by omega)) hgreat
  have hsigns := hcmp.swapped (m i) (f i)
  omega

end Redis.Rearrange
