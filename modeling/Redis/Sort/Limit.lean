import Redis.Sort.Scores

namespace Redis.Sort

open Outcome Object Rearrange

/-!
# `LIMIT`

The range that `LIMIT` asks for is a slice of what the command replies without it, unless its end
does not fit into a `long`.

* `limited`, `Overflows` — the slice, and the ranges whose end wraps around;
* `Shows` — the loop over `start` to `end` sends these elements;
* `loadVector_unsorted`, `sortVector_limited` — the vector if nothing is sorted, and if it is;
* `delivered`, `sortWith_delivers` — the reply and the list that is stored;
* `sort_limit_iff` — when the range is the slice.
-/

/-- What `LIMIT` asks for. -/
def limited {α : Type} (start count : Int) (l : List α) : List α :=
  if count < 0 then l.drop start.toNat else (l.drop start.toNat).take count.toNat

/-- The end of the range is a `long` that wraps around. -/
def Overflows (start count vectorlen : Int) : Prop :=
  max start 0 < vectorlen ∧ 0 ≤ count ∧ 2 ^ 63 ≤ max start 0 + count - 1

/-- `start` to `end` are the places of `w`. -/
structure Shows {α : Type} (l : List α) (start fin : Int) (w : List α) : Prop where
  length : fin - start + 1 = w.length
  slice : start ≤ fin → 0 ≤ start ∧ fin < l.length ∧ (l.drop start.toNat).take (fin - start + 1).toNat = w

/-! ### The range -/

section Range

variable {α β : Type} {start count vectorlen : Int}

theorem map_limited (f : α → β) (l : List α) : (limited start count l).map f = limited start count (l.map f) := by
  unfold limited
  split <;> simp only [List.map_take, List.map_drop]

theorem length_limited_le (start count : Int) (l : List α) : (limited start count l).length ≤ l.length := by
  unfold limited
  split <;> simp

theorem limited_whole (l : List α) : limited 0 (-1) l = l := rfl

theorem not_overflows_whole (vectorlen : Int) : ¬ Overflows 0 (-1) vectorlen := fun h => absurd h.2.1 (by decide)

theorem sortRange_eq (h : ¬ Overflows start count vectorlen) :
    sortRange start count vectorlen
      = if vectorlen ≤ max start 0 then (vectorlen - 1, vectorlen - 2)
        else (max start 0, min (vectorlen - 1) (if count < 0 then vectorlen - 1 else max start 0 + count - 1)) := by
  have hstart : (if start < 0 then 0 else start) = max start 0 := by split <;> omega
  unfold sortRange
  simp only [hstart, ge_iff_le]
  by_cases hlast : vectorlen ≤ max start 0
  · simp only [if_pos hlast]
    rw [if_neg (by omega)]
  · simp only [if_neg hlast]
    by_cases hcount : count < 0
    · simp only [if_pos hcount]
      rw [if_neg (by omega), min_self]
    · simp only [if_neg hcount]
      have hwrap : wrap64 (wrap64 (max start 0 + count) - 1) = max start 0 + count - 1 := by
        unfold Overflows at h
        rw [sub_eq_add_neg, wrap64_add, ← sub_eq_add_neg, wrap64_eq_iff]
        omega
      rw [hwrap, Prod.mk.injEq]
      split <;> omega

/-- The range shows what `LIMIT` asks for. -/
theorem shows_limited {l : List α} (h : ¬ Overflows start count l.length) :
    Shows l (sortRange start count l.length).1 (sortRange start count l.length).2 (limited start count l) := by
  have hlength : (limited start count l).length
      = if count < 0 then l.length - start.toNat else min count.toNat (l.length - start.toNat) := by
    unfold limited
    split <;> simp
  rw [sortRange_eq h]
  by_cases hlast : (l.length : Int) ≤ max start 0
  · simp only [if_pos hlast]
    refine ⟨?_, fun h => by omega⟩
    rw [hlength]
    split <;> omega
  · simp only [if_neg hlast]
    have hto : (max start 0).toNat = start.toNat := by omega
    refine ⟨?_, fun h => ⟨by omega, by omega, ?_⟩⟩
    · rw [hlength]
      split <;> omega
    · rw [hto]
      unfold limited
      by_cases hcount : count < 0
      · simp only [if_pos hcount, min_self]
        exact List.take_of_length_le (by rw [List.length_drop]; omega)
      · simp only [if_neg hcount]
        by_cases hend : max start 0 + count - 1 ≤ l.length - 1
        · rw [min_eq_right hend, show max start 0 + count - 1 - max start 0 + 1 = count by omega]
        · rw [min_eq_left (by omega), List.take_of_length_le (by rw [List.length_drop]; omega),
            List.take_of_length_le (by rw [List.length_drop]; omega)]

/-- A range that overflows ends before it starts. -/
theorem sortRange_overflows (h : Overflows start count vectorlen) (hlen : vectorlen < 2 ^ 31) (hstart : start < 2 ^ 63)
    (hcount : count < 2 ^ 63) :
    sortRange start count vectorlen = (max start 0, max start 0 + count - 1 - 2 ^ 64) := by
  obtain ⟨hlast, hpos, hend⟩ := h
  have hwrap : wrap64 (wrap64 (max start 0 + count) - 1) = max start 0 + count - 1 - 2 ^ 64 := by
    rw [sub_eq_add_neg, wrap64_add, ← sub_eq_add_neg]
    have hrange := wrap64_range (max start 0 + count - 1)
    have hmod := Int.bmod_emod (x := max start 0 + count - 1) (m := 18446744073709551616)
    unfold wrap64 at hrange ⊢
    omega
  have hstart' : (if start < 0 then 0 else start) = max start 0 := by split <;> omega
  unfold sortRange
  simp only [hstart', ge_iff_le, if_neg (show ¬ count < 0 by omega), hwrap,
    if_neg (show ¬ vectorlen ≤ max start 0 by omega)]
  rw [if_neg (by omega)]

theorem Shows.map {l w : List α} {fin : Int} (h : Shows l start fin w) (f : α → β) :
    Shows (l.map f) start fin (w.map f) := by
  refine ⟨by rw [List.length_map]; exact h.length, fun hle => ?_⟩
  obtain ⟨hlo, hhi, hslice⟩ := h.slice hle
  rw [List.length_map]
  exact ⟨hlo, hhi, by rw [← List.map_drop, ← List.map_take, hslice]⟩

/-- A list that is shown from its first to its last element. -/
theorem shows_whole (l : List α) : Shows l 0 ((l.length : Int) - 1) l :=
  ⟨by omega, fun h => ⟨le_rfl, by omega, List.take_of_length_le (by rw [List.length_drop]; omega)⟩⟩

end Range

/-! ### The vector -/

namespace Collection

/-- A sorted set has the same members by rank and in its dictionary. -/
def Consistent : Collection → Prop
  | zset ranked elements => ranked.Perm elements
  | _ => True

/-- What is shown if nothing is sorted. -/
def unsorted (desc : Bool) (v : Collection) : List StringObject :=
  match v with
  | list elements => (elementsFrom desc 0 elements).take (vectorLength v).toNat
  | set elements => elements
  | zset ranked _ => (elementsFrom desc 0 ranked).take (vectorLength v).toNat

end Collection

section Load

variable {o : SortOptions} {v : Collection} {start count : Int}

theorem wrap32_of_range {n : Int} (hlo : -2 ^ 31 ≤ n) (hhi : n < 2 ^ 31) : wrap32 n = n :=
  Int.bmod_eq_of_le (by omega) (by omega)

theorem length_elementsFrom (desc : Bool) (elements : List StringObject) :
    (elementsFrom desc 0 elements).length = elements.length := by
  unfold elementsFrom
  cases desc <;> simp

theorem vectorLength_eq (v : Collection) : vectorLength v = wrap32 v.elements.length := by cases v <;> rfl

/-- The length is an `int`, and not above the number of elements. -/
theorem vectorLength_bounds (v : Collection) : vectorLength v ≤ v.elements.length ∧ vectorLength v < 2 ^ 31 := by
  have hmod := Int.bmod_emod (x := (v.elements.length : Int)) (m := 4294967296)
  have hlt := Int.bmod_lt (x := (v.elements.length : Int)) (m := 4294967296) (by decide)
  rw [vectorLength_eq]
  unfold wrap32
  omega

/-- A range alone, from elements in an order. -/
theorem loadRange_shows {desc : Bool} {elements w : List StringObject} {m : Int} (hlt : m < 2 ^ 31)
    (hle : m ≤ elements.length) (h : ¬ Overflows start count m)
    (hw : w = limited start count ((elementsFrom desc 0 elements).take m.toNat)) {r : Int × Int}
    (hr : r = sortRange start count m) :
    (if r.1 ≠ 0 ∨ r.2 ≠ m - 1 then wrap32 (r.2 - r.1 + 1) else m) = w.length ∧ r.2 - r.1 + 1 = w.length ∧
      (w.length : Int) < 2 ^ 31 ∧ loadRange desc elements w.length r.1 = .ok w := by
  by_cases hm : m < 0
  · -- a length that is negative: no range is shown
    have hempty : w = [] := by
      rw [hw, show m.toNat = 0 by omega]
      unfold limited
      split <;> simp
    rw [sortRange_eq h, if_pos (by omega)] at hr
    subst hr hempty
    refine ⟨?_, ?_, by decide, rfl⟩
    · rw [if_pos (by simp only; omega)]
      simp only [show m - 2 - (m - 1) + 1 = 0 by omega]
      rfl
    · simp only [List.length_nil, Nat.cast_zero]
      omega
  have hlen : ((elementsFrom desc 0 elements).take m.toNat).length = m := by
    rw [List.length_take, length_elementsFrom]
    omega
  have hshows := shows_limited (l := (elementsFrom desc 0 elements).take m.toNat) (by rwa [hlen])
  rw [hlen, ← hr, ← hw] at hshows
  have hlength := hshows.length
  have hwm : (w.length : Int) ≤ m := by
    rw [← hlen, hw]
    exact_mod_cast length_limited_le _ _ _
  refine ⟨?_, hlength, by omega, ?_⟩
  · by_cases hall : r.1 ≠ 0 ∨ r.2 ≠ m - 1
    · rw [if_pos hall, hlength, wrap32_of_range (by omega) (by omega)]
    · rw [if_neg hall]
      omega
  · have htake : (elementsFrom desc r.1 elements).take w.length = w := by
      by_cases hempty : w.length = 0
      · rw [hempty, List.take_zero, List.length_eq_zero_iff.mp hempty]
      · obtain ⟨hlo, hhi, hslice⟩ := hshows.slice (by omega)
        rw [hlen] at hhi
        have hfrom : elementsFrom desc r.1 elements = (elementsFrom desc 0 elements).drop r.1.toNat := rfl
        rw [hlength, Int.toNat_natCast, List.drop_take, List.take_take, min_eq_left (by omega)] at hslice
        rw [hfrom, hslice]
    have hnonneg : ¬ (w.length : Int) < 0 := by omega
    unfold loadRange
    simp only [if_neg hnonneg, Int.toNat_natCast, htake, if_true]

/-- If nothing is sorted, the vector shows what is asked for. -/
theorem loadVector_unsorted (hsort : o.dontsort = true) (hv : v.Consistent)
    (hall : (v.elements.length : Int) = vectorLength v ∨ v.Ordered) (h : ¬ Overflows start count (vectorLength v))
    {r : Int × Int} (hr : r = sortRange start count (vectorLength v)) {w : List StringObject}
    (hw : w = limited start count (v.unsorted o.desc)) :
    ∃ l st fi, loadVector o v r.1 r.2 = .ok (l, st, fi) ∧ Shows l st fi w := by
  obtain ⟨hle, hlt⟩ := vectorLength_bounds v
  have hwhole : Shows w 0 (r.2 - r.1) w ↔ r.2 - r.1 + 1 = w.length :=
    ⟨fun h => by have := h.length; omega, fun h => by
      rw [show r.2 - r.1 = (w.length : Int) - 1 by omega]
      exact shows_whole w⟩
  unfold loadVector
  cases v with
  | list elements =>
    have hw' : w = limited start count
        ((elementsFrom o.desc 0 elements).take (vectorLength (.list elements)).toNat) := hw
    obtain ⟨hshorter, hlength, hwm, hload⟩ := loadRange_shows hlt hle h hw' hr
    simp only [hsort, hshorter, if_true]
    by_cases hfin : r.2 ≥ r.1
    · rw [if_pos hfin, if_pos hfin]
      exact ⟨w, 0, r.2 - r.1, congrArg (· >>= fun l => pure (l, 0, r.2 - r.1)) hload, hwhole.mpr hlength⟩
    · -- nothing is shown, and nothing is loaded
      rw [if_neg hfin, if_neg hfin]
      have hempty : w = [] := List.length_eq_zero_iff.mp (by omega)
      subst hempty
      exact ⟨[], r.1, r.2, rfl, ⟨hlength, fun h => absurd h hfin⟩⟩
  | set elements =>
    rcases hall with hall | hall
    · have hall' : (elements.length : Int) = vectorLength (.set elements) := hall
      have hload : loadAll elements (vectorLength (.set elements)) = .ok elements := by
        unfold loadAll
        rw [if_neg (by omega), if_neg (by omega), if_pos hall']
      simp only [hload]
      refine ⟨elements, r.1, r.2, rfl, ?_⟩
      have hshows := shows_limited (l := elements) (show ¬ Overflows start count elements.length by rwa [hall'])
      rw [hall', ← hr] at hshows
      exact hw ▸ hshows
    · exact hall.elim
  | zset ranked elements =>
    have hperm : ranked.length = elements.length := List.Perm.length_eq hv
    have hle' : vectorLength (.zset ranked elements) ≤ ranked.length := by rw [hperm]; exact hle
    have hw' : w = limited start count
        ((elementsFrom o.desc 0 ranked).take (vectorLength (.zset ranked elements)).toNat) := hw
    obtain ⟨hshorter, hlength, hwm, hload⟩ := loadRange_shows hlt hle' h hw' hr
    have hwrap : wrap64 (r.2 - r.1) = r.2 - r.1 := (wrap64_eq_iff _).mpr (by omega)
    simp only [hsort, hshorter, hload, hwrap, if_true]
    exact ⟨w, 0, r.2 - r.1, rfl, hwhole.mpr hlength⟩

end Load

/-! ### Sorting -/

section Sorting

variable {α : Type} {cmp : α → α → Int}

/-- The range of a vector that `pqsort` sorts, against the vector sorted in full. -/
theorem pqsortVector_window {l : List α} (hcmp : Preordered (fun x y : {x // x ∈ l} => cmp x y)) (base : Nat)
    {start fin : Int} (hstart : 0 ≤ start) (hle : start ≤ fin) (hfin : fin < l.length) :
    ∃ P, pqsortVector cmp base l start fin = some P ∧ P.length = l.length ∧
      ∀ Q : List α, Q.Perm l → Q.Pairwise (fun x y => cmp x y ≤ 0) →
        ∀ k : Nat, start ≤ k → k ≤ fin → ∀ x y, Q[k]? = some x → P[k]? = some y →
          cmp x y = 0 ∧ x ∈ l ∧ y ∈ l := by
  cases l with
  | nil => simp only [List.length_nil] at hfin; omega
  | cons x l =>
    set L := x :: l
    have hmem : ∀ {Q : List α} (i : Nat), Q.Perm L → Q.getD i x ∈ L := by
      intro Q i hQ
      by_cases hi : i < Q.length
      · rw [List.getD_eq_getElem _ _ hi]
        exact hQ.mem_iff.mp (List.getElem_mem hi)
      · rw [List.getD_eq_default _ _ (by omega)]
        exact List.mem_cons_self
    let m : Nat → {x // x ∈ L} := fun i => ⟨L.getD i x, hmem i (List.Perm.refl L)⟩
    obtain ⟨lo, rfl⟩ := Int.eq_ofNat_of_zero_le hstart
    obtain ⟨hi, rfl⟩ := Int.eq_ofNat_of_zero_le (hstart.trans hle)
    obtain ⟨m', hrun, -, -, -, -, hwindow⟩ := pqsort_window hcmp base (show 0 < 16 by decide) m (n := L.length) (l := lo)
      (r := hi) (by omega)
    refine ⟨(List.range L.length).map (Subtype.val ∘ m'), ?_, by rw [List.length_map, List.length_range], ?_⟩
    · have hcomp := pqsortLoop_comp Subtype.val cmp base 16 (base + (lo : Int) * 16).toNat
        (base + ((hi : Int) + 1) * 16 - 1).toNat (L.length + 1) m 0 L.length
      have hsub := hrun (L.length + 1) (Nat.lt_succ_self _)
      unfold pqsort at hsub
      have hloop : pqsortLoop cmp base 16 (base + (lo : Int) * 16).toNat (base + ((hi : Int) + 1) * 16 - 1).toNat
          (L.length + 1) (fun i => L.getD i x) 0 L.length = some (Subtype.val ∘ m') :=
        hcomp.trans (congrArg (Option.map (Subtype.val ∘ ·)) hsub)
      exact congrArg (Option.map fun m => (List.range L.length).map m) hloop
    · intro Q hQ hsorted k hlo hhi y z hy hz
      let f : Nat → {x // x ∈ L} := fun i => ⟨Q.getD i x, hmem i hQ⟩
      have hplaced : ∀ Q' : List α, placed (fun _ => x) 0 Q' = fun i => Q'.getD i x :=
        fun Q' => funext fun i => placed_const x Q' (Nat.zero_le i)
      have hre : Rearranged 0 L.length m f := by
        obtain ⟨σ, hfix, hσ⟩ := Rearranged.of_perm hQ.symm (fun _ => x) 0
        rw [zero_add] at hfix
        simp only [hplaced] at hσ
        exact ⟨σ, hfix, fun i => Subtype.ext (hσ i)⟩
      have hf : ∀ i j, i ≤ j → j < L.length → cmp (f i) (f j) ≤ 0 := by
        intro i j hij hj
        rcases Nat.eq_or_lt_of_le hij with rfl | hlt
        · exact hcmp.refl (f i)
        · rw [← hQ.length_eq] at hj
          have hpair := List.pairwise_iff_getElem.mp hsorted i j (by omega) hj hlt
          rwa [← List.getD_eq_getElem Q x, ← List.getD_eq_getElem Q x] at hpair
      have hzero := hwindow f hre hf k (by omega) (by omega)
      have hky : f k = y := by
        show Q.getD k x = y
        rw [List.getD_eq_getElem?_getD, hy]
        rfl
      have hkz : m' k = z := by
        rw [List.getElem?_map, List.getElem?_range (by omega)] at hz
        exact Option.some.inj hz
      rw [hky, hkz] at hzero
      exact ⟨hzero, hky ▸ (f k).2, hkz ▸ (m' k).2⟩

variable {D : Type} {env : SortEnv D} {o : SortOptions} {start count : Int}

/-- What is shown of an entry. -/
def SortObject.text (x : SortObject D) : Bytes := getDecodedObject x.obj

/-- The comparison is a total order on the entries, as far as their elements are concerned. -/
structure TotalOrder (env : SortEnv D) (o : SortOptions) (l : List (SortObject D)) : Prop where
  preordered : Preordered (fun x y : {x // x ∈ l} => sortCompare env o x y)
  antisymm : ∀ x ∈ l, ∀ y ∈ l, sortCompare env o x y = 0 → x.text = y.text

/-- `qsort` sorts if the comparison is a total preorder of the elements. -/
def Qsorts (env : SortEnv D) : Prop :=
  ∀ (cmp : SortObject D → SortObject D → Int) (l : List (SortObject D)),
    Preordered (fun x y : {x // x ∈ l} => cmp x y) →
      (env.qsort cmp l).Perm l ∧ (env.qsort cmp l).Pairwise (fun x y => cmp x y ≤ 0)

/-- The sorted vector shows the slice of the vector that is sorted in full. -/
theorem sortVector_limited (hsort : o.dontsort = false) (hqsort : Qsorts env) {l : List (SortObject D)}
    (htotal : TotalOrder env o l) (h : ¬ Overflows start count l.length) {r : Int × Int}
    (hr : r = sortRange start count l.length) :
    ∃ P, sortVector env o l r.1 r.2 = some P ∧ Shows P r.1 r.2 (limited start count P) ∧
      (limited start count P).map SortObject.text
        = limited start count ((env.qsort (sortCompare env o) l).map SortObject.text) := by
  obtain ⟨hperm, hsorted⟩ := hqsort (sortCompare env o) l htotal.preordered
  have hshows : ∀ P : List (SortObject D), P.length = l.length → Shows P r.1 r.2 (limited start count P) := by
    intro P hP
    rw [hr, ← hP]
    exact shows_limited (by rwa [hP])
  have hQ := hshows _ hperm.length_eq
  unfold sortVector
  rw [if_neg (by rw [hsort]; exact Bool.false_ne_true)]
  by_cases hpart : o.sortby.isSome = true ∧ (r.1 ≠ 0 ∨ r.2 ≠ (l.length : Int) - 1)
  · rw [if_pos hpart]
    by_cases hle : r.1 ≤ r.2
    · obtain ⟨hlo, hhi, hslice⟩ := hQ.slice hle
      rw [hperm.length_eq] at hhi
      obtain ⟨P, hrun, hP, hwindow⟩ := pqsortVector_window htotal.preordered env.vector hlo hle hhi
      obtain ⟨-, -, hslice'⟩ := (hshows P hP).slice hle
      refine ⟨P, hrun, hshows P hP, ?_⟩
      rw [← map_limited, ← hslice, ← hslice']
      ext1 i
      rw [List.getElem?_map, List.getElem?_map, List.getElem?_take, List.getElem?_take, List.getElem?_drop,
        List.getElem?_drop]
      by_cases hi : i < (r.2 - r.1 + 1).toNat
      · rw [if_pos hi, if_pos hi, List.getElem?_eq_getElem (by omega), List.getElem?_eq_getElem (by
          rw [hperm.length_eq]; omega)]
        obtain ⟨hzero, hx, hy⟩ := hwindow _ hperm hsorted (r.1.toNat + i) (by omega) (by omega) _ _
          (List.getElem?_eq_getElem (by rw [hperm.length_eq]; omega)) (List.getElem?_eq_getElem (by omega))
        exact congrArg some (htotal.antisymm _ hx _ hy hzero).symm
      · rw [if_neg hi, if_neg hi]
    · -- the range is empty, whatever `pqsort` makes of the vector
      obtain ⟨P, hrun, hP⟩ := pqsortVector_ends (sortCompare env o) env.vector l r.1 r.2
      refine ⟨P, hrun, hshows P hP, ?_⟩
      have hempty := (hshows P hP).length
      have hempty' := hQ.length
      rw [← map_limited, List.length_eq_zero_iff.mp (show (limited start count P).length = 0 by omega),
        List.length_eq_zero_iff.mp (show (limited start count (env.qsort _ l)).length = 0 by omega)]
  · rw [if_neg hpart]
    exact ⟨_, rfl, hQ, map_limited _ _⟩

end Sorting

/-! ### The command -/

section Command

variable {D : Type} {env : SortEnv D} {kenv : KeyEnv} {s : Server (Value Collection)} {d : DbId} {v : Collection}
  {o : SortOptions} {erange : Bool} {read : Bytes → Option (Value Collection)} {start count : Int}

/-- The error of the conversion is replied. -/
def Refused (env : SortEnv D) (read : Bytes → Option (Value Collection)) (o : SortOptions) (erange : Bool)
    (l : List StringObject) : Prop :=
  o.dontsort = false ∧ o.alpha = false ∧
    ((erange = true ∧ ∃ w ∈ weights read o l, IsText w) ∨ ∃ w ∈ weights read o l, ¬ Accepted env w)

theorem loadScores_refused (l : List StringObject) :
    (loadScores env read o erange l).2.2 = true ↔ Refused env read o erange l := by
  unfold Refused
  cases hsort : o.dontsort with
  | true => simp [loadScores, hsort]
  | false =>
    cases halpha : o.alpha with
    | false => simp [loadScores_error env read halpha hsort]
    | true =>
      have hflag : ∀ st : List (SortObject D) × Bool × Bool, (l.foldl (loadScore env read o) st).2.2 = st.2.2 := by
        induction l with
        | nil => exact fun st => rfl
        | cons obj l ih =>
          intro st
          rw [List.foldl_cons, ih]
          unfold loadScore
          split
          · rfl
          · rw [if_pos halpha]
      simp [loadScores, hsort, hflag]

/-- There is an entry for each element. -/
theorem length_loadScores (l : List StringObject) : (loadScores env read o erange l).1.length = l.length := by
  unfold loadScores
  split
  · exact List.length_map _
  · have hlen : ∀ st : List (SortObject D) × Bool × Bool,
        (l.foldl (loadScore env read o) st).1.length = st.1.length + l.length := by
      induction l with
      | nil => exact fun st => rfl
      | cons obj l ih =>
        intro st
        have hone : (loadScore env read o st obj).1.length = st.1.length + 1 := by
          unfold loadScore
          split
          · rw [List.length_append, List.length_singleton]
          · split
            · rw [List.length_append, List.length_singleton]
            · split <;> rw [List.length_append, List.length_singleton]
        rw [List.foldl_cons, ih, hone, List.length_cons]
        omega
    rw [hlen]
    exact Nat.zero_add _

/-- The reply, or the list that is stored and its length, for these elements. -/
def delivered (s : Server (Value Collection)) (d : DbId) (storekey : Option Bytes) (elements : List Bytes) :
    Server (Value Collection) × SortReply :=
  match storekey with
  | none => (s, .multibulk elements.length (elements.map some))
  | some key =>
      (if elements ≠ [] then
        (s.setDb d ((s.dbs d).put key (.other (.list (elements.map .sds))) none)).tell d key
      else if ((s.dbs d).dict key).isSome then (s.setDb d ((s.dbs d).erase key)).tell d key
      else s.setDb d ((s.dbs d).erase key), .int elements.length)

/-- The length that a reply announces. -/
def SortReply.announced : SortReply → Nat
  | error _ => 0
  | multibulk len _ => len
  | int n => n

theorem announced_delivered (s : Server (Value Collection)) (d : DbId) (storekey : Option Bytes) (elements : List Bytes) :
    (delivered s d storekey elements).2.announced = elements.length := by
  cases storekey <;> rfl

variable (kenv d read) in
/-- The output, without `GET`. -/
theorem sortOutput_eq (hinv : KeyspaceInv s) (hgets : o.gets = []) {l w : List (SortObject D)} {fin : Int}
    (h : Shows l start fin w) (hlen : w.length < 2 ^ 31) :
    sortOutput kenv s d read o l start fin = .ok (delivered s d o.storekey (w.map SortObject.text)) := by
  have houtput : outputLength o start fin = w.length := by
    unfold outputLength
    rw [if_pos hgets, h.length]
    omega
  have helements : sortElements read o l start fin = .ok (w.map (fun x => some x.text)) := by
    have hone : ∀ l : List (SortObject D), l.flatMap (sortElement read o) = l.map (fun x => some x.text) := by
      intro l
      rw [List.map_eq_flatMap]
      exact congrArg (l.flatMap ·) (funext fun x => if_pos hgets)
    unfold sortElements
    by_cases hle : start ≤ fin
    · obtain ⟨hlo, hhi, hslice⟩ := h.slice hle
      rw [if_pos hle, if_neg (by omega), hslice, hone]
    · have hempty := h.length
      rw [if_neg hle, List.length_eq_zero_iff.mp (show w.length = 0 by omega)]
      rfl
  unfold sortOutput
  simp only [helements, houtput, ok_bind]
  unfold delivered
  cases o.storekey with
  | none => simp only [List.length_map, List.map_map]; rfl
  | some key =>
    have hstored : (w.map (fun x => some x.text)).map (fun e : Option Bytes => StringObject.sds (e.getD []))
        = (w.map SortObject.text).map .sds := by simp
    simp only [hstored, List.length_map]
    by_cases hempty : w.length = 0
    · rw [if_neg (not_not.mpr hempty)]
      obtain rfl := List.length_eq_zero_iff.mp hempty
      unfold dbDelete
      by_cases hkey : ((s.dbs d).dict key).isSome = true
      · simp only [hkey, if_true, List.map_nil, ne_eq, not_true_eq_false, if_false]
        rw [signal_setDb_eq hinv ((hinv.consistent d).erase key) rfl key]
        rfl
      · simp only [hkey, if_false, List.map_nil, ne_eq, not_true_eq_false]
        rfl
    · have hne : w.map SortObject.text ≠ [] := by
        rw [ne_eq, List.map_eq_nil_iff, ← List.length_eq_zero_iff]
        exact hempty
      rw [if_pos hempty, setKey_eq hinv, if_pos hne]
      rfl

/-- The command with another range, or without one. -/
def SortOptions.limit (o : SortOptions) (start count : Int) : SortOptions :=
  { o with limitStart := start, limitCount := count }

theorem forceAlpha_limit_eq (lua : Bool) (v : Collection) (o : SortOptions) (start count : Int) :
    forceAlpha lua v (o.limit start count) = (forceAlpha lua v o).limit start count := by
  unfold forceAlpha SortOptions.limit
  cases v with
  | list elements | zset ranked elements => rfl
  | set elements => simp only; split <;> rfl

variable {p : SortOptions}

/-- The command once the vector is loaded and sorted. -/
theorem sortWith_eq (hp : forceAlpha env.lua v o = p) {l : List StringObject} {st fi : Int}
    (hload : loadVector p v (sortRange start count (vectorLength v)).1 (sortRange start count (vectorLength v)).2
      = .ok (l, st, fi)) {vec : List (SortObject D)}
    (hvec : sortVector env p (loadScores env (readValue kenv 0 (s.dbs d)) p erange l).1 st fi = some vec) :
    sortWith env kenv s d v (o.limit start count) erange
      = if (loadScores env (readValue kenv 0 (s.dbs d)) p erange l).2.2 then
          .ok (s, .error scoreError, (loadScores env (readValue kenv 0 (s.dbs d)) p erange l).2.1)
        else sortOutput kenv s d (readValue kenv 0 (s.dbs d)) p vec st fi >>= fun r =>
          .ok (r.1, r.2, (loadScores env (readValue kenv 0 (s.dbs d)) p erange l).2.1) := by
  have hp' : forceAlpha env.lua v (o.limit start count) = p.limit start count := by rw [forceAlpha_limit_eq, hp]
  have hload' : loadVector (p.limit start count) v (sortRange start count (vectorLength v)).1
      (sortRange start count (vectorLength v)).2 = .ok (l, st, fi) := hload
  have hvec' : sortVector env (p.limit start count)
      (loadScores env (readValue kenv 0 (s.dbs d)) (p.limit start count) erange l).1 st fi = some vec := hvec
  unfold sortWith
  simp only [hp', (show (p.limit start count).limitStart = start from rfl),
    (show (p.limit start count).limitCount = count from rfl), hload', ok_bind, hvec']
  rfl

/-- A sorted vector is loaded and its weights are refused whatever the range is. -/
theorem sortWith_refused (hp : forceAlpha env.lua v o = p) (hn : v.elements.length < 2 ^ 31)
    (h : Refused env (readValue kenv 0 (s.dbs d)) p erange v.elements) (start count : Int) :
    sortWith env kenv s d v (o.limit start count) erange
      = .ok (s, .error scoreError, (loadScores env (readValue kenv 0 (s.dbs d)) p erange v.elements).2.1) := by
  have hload := loadVector_all v (fun hall => Bool.false_ne_true (h.1.symm.trans hall.1))
    (sortRange start count (vectorLength v)).1 (sortRange start count (vectorLength v)).2
  rw [if_pos hn] at hload
  obtain ⟨vec, hvec⟩ := sortVector_ends env p (loadScores env (readValue kenv 0 (s.dbs d)) p erange v.elements).1
    (sortRange start count (vectorLength v)).1 (sortRange start count (vectorLength v)).2
  rw [sortWith_eq hp hload hvec, if_pos ((loadScores_refused _).mpr h)]

variable (kenv d) in
/-- Without an overflow, the command shows the slice of a list that does not depend on the range. -/
theorem sortWith_delivers (hp : forceAlpha env.lua v o = p) (hinv : KeyspaceInv s) (hv : v.Consistent)
    (hgets : p.gets = []) (hqsort : Qsorts env) (htotal : p.dontsort = false →
      TotalOrder env p (loadScores env (readValue kenv 0 (s.dbs d)) p erange v.elements).1)
    (hall : v.elements.length < 2 ^ 31 ∨ (p.dontsort = true ∧ v.Ordered)) :
    ∃ full : List Bytes, full.length < 2 ^ 31 ∧ ∃ e, ∀ start count, ¬ Overflows start count (vectorLength v) →
      sortWith env kenv s d v (o.limit start count) erange
        = if (loadScores env (readValue kenv 0 (s.dbs d)) p erange v.elements).2.2 then .ok (s, .error scoreError, e)
          else .ok ((delivered s d p.storekey (limited start count full)).1,
            (delivered s d p.storekey (limited start count full)).2, e) := by
  obtain ⟨hle, hlt⟩ := vectorLength_bounds v
  have hwrap : v.elements.length < 2 ^ 31 → (v.elements.length : Int) = vectorLength v := by
    intro h
    rw [vectorLength_eq, wrap32_of_range (by omega) (by omega)]
  cases hsort : p.dontsort with
  | true =>
    have hscores : ∀ l, loadScores env (readValue kenv 0 (s.dbs d)) p erange l
        = (l.map (fun obj => ⟨obj, env.zero, none⟩), erange, false) := fun l => if_pos hsort
    have hunsorted : (v.unsorted p.desc).length < 2 ^ 31 := by
      cases v with
      | list elements =>
        show ((elementsFrom p.desc 0 elements).take _).length < _
        rw [List.length_take]
        omega
      | zset ranked elements =>
        show ((elementsFrom p.desc 0 ranked).take _).length < _
        rw [List.length_take]
        omega
      | set elements => exact hall.resolve_right (fun h => h.2)
    refine ⟨(v.unsorted p.desc).map getDecodedObject, by rwa [List.length_map], erange, fun start count h => ?_⟩
    obtain ⟨l, st, fi, hload, hshows⟩ := loadVector_unsorted hsort hv (hall.imp hwrap (fun h => h.2)) h rfl rfl
    have hvec : sortVector env p (loadScores env (readValue kenv 0 (s.dbs d)) p erange l).1 st fi
        = some (l.map (fun obj => ⟨obj, env.zero, none⟩)) := by
      rw [hscores]
      exact if_pos hsort
    have houtput := sortOutput_eq kenv d (readValue kenv 0 (s.dbs d)) hinv hgets
      (hshows.map (fun obj => (⟨obj, env.zero, none⟩ : SortObject D))) (by
        rw [List.length_map, ← List.length_map (f := getDecodedObject), map_limited]
        refine (length_limited_le _ _ _).trans_lt ?_
        rwa [List.length_map])
    rw [List.map_map, show (SortObject.text ∘ fun obj => (⟨obj, env.zero, none⟩ : SortObject D)) = getDecodedObject from rfl,
      map_limited] at houtput
    rw [sortWith_eq hp hload hvec, hscores, hscores, houtput]
    rfl
  | false =>
    have hn := hall.resolve_right (fun h => absurd h.1 (by rw [hsort]; exact Bool.false_ne_true))
    set scores := loadScores env (readValue kenv 0 (s.dbs d)) p erange v.elements with hscores
    have hlen : (scores.1.length : Int) = vectorLength v := by
      rw [hscores, length_loadScores, hwrap hn]
    have hQ := (hqsort (sortCompare env p) scores.1 (htotal hsort).preordered).1.length_eq
    have hfull : ((env.qsort (sortCompare env p) scores.1).map SortObject.text).length < 2 ^ 31 := by
      rw [List.length_map]
      omega
    refine ⟨_, hfull, scores.2.1, fun start count h => ?_⟩
    have hload := loadVector_all v (fun h => Bool.false_ne_true (hsort.symm.trans h.1)) (sortRange start count (vectorLength v)).1 (sortRange start count (vectorLength v)).2
    rw [if_pos hn] at hload
    rw [← hlen] at h
    obtain ⟨P, hvec, hshows, htext⟩ := sortVector_limited hsort hqsort (htotal hsort) h rfl
    have houtput := sortOutput_eq kenv d (readValue kenv 0 (s.dbs d)) hinv hgets hshows (by
      rw [← List.length_map (f := SortObject.text), htext]
      exact (length_limited_le _ _ _).trans_lt hfull)
    rw [htext] at houtput
    rw [hlen] at hvec houtput
    rw [sortWith_eq hp hload hvec, houtput]
    rfl

/-- A range that overflows ends the process, or announces more elements than there are. -/
theorem sortWith_overflows (hp : forceAlpha env.lua v o = p) (hgets : p.gets = [])
    (hall : v.elements.length < 2 ^ 31 ∨ (p.dontsort = true ∧ v.Ordered))
    (h : Overflows start count (vectorLength v)) (hstart : start < 2 ^ 63) (hcount : count < 2 ^ 63)
    (hflag : (loadScores env (readValue kenv 0 (s.dbs d)) p erange v.elements).2.2 = false)
    {t : Server (Value Collection)} {reply : SortReply} {e : Bool}
    (hrun : sortWith env kenv s d v (o.limit start count) erange = .ok (t, reply, e)) :
    2 ^ 31 ≤ reply.announced := by
  obtain ⟨hle, hlt⟩ := vectorLength_bounds v
  have hr := sortRange_overflows h hlt hstart hcount
  obtain ⟨hlast, hpos, hend⟩ := h
  set fin := max start 0 + count - 1 - 2 ^ 64 with hfin
  have hempty : ¬ max start 0 ≤ fin := by omega
  by_cases hordered : p.dontsort = true ∧ v.Ordered
  · -- the length of the range is negative
    exfalso
    have hrange : ∀ elements, loadRange p.desc elements
        (if max start 0 ≠ 0 ∨ fin ≠ vectorLength v - 1 then wrap32 (fin - max start 0 + 1) else vectorLength v)
          (max start 0) = .error .outOfMemory := by
      intro elements
      have hmod := Int.bmod_emod (x := fin - max start 0 + 1) (m := 4294967296)
      have hhi := Int.bmod_lt (x := fin - max start 0 + 1) (m := 4294967296) (by decide)
      have hlo := Int.le_bmod (x := fin - max start 0 + 1) (m := 4294967296) (by decide)
      unfold loadRange
      rw [if_pos (show max start 0 ≠ 0 ∨ fin ≠ vectorLength v - 1 by omega), if_pos (by unfold wrap32; omega)]
    have hload : loadVector p v (max start 0) fin = .error .outOfMemory := by
      unfold loadVector
      cases v with
      | set elements => exact hordered.2.elim
      | list elements | zset ranked elements => simp only [hordered.1, if_true, hrange]; rfl
    have hload' : loadVector (p.limit start count) v (max start 0) fin = .error .outOfMemory := hload
    unfold sortWith at hrun
    simp only [forceAlpha_limit_eq, hp, (show (p.limit start count).limitStart = start from rfl),
      (show (p.limit start count).limitCount = count from rfl), hr, hload'] at hrun
    cases hrun
  · have hn := hall.resolve_right hordered
    have hload := loadVector_all v hordered (sortRange start count (vectorLength v)).1
      (sortRange start count (vectorLength v)).2
    rw [if_pos hn] at hload
    obtain ⟨vec, hvec⟩ := sortVector_ends env p (loadScores env (readValue kenv 0 (s.dbs d)) p erange v.elements).1
      (sortRange start count (vectorLength v)).1 (sortRange start count (vectorLength v)).2
    rw [sortWith_eq hp hload hvec, hflag, if_neg Bool.false_ne_true, hr] at hrun
    obtain ⟨r, hout, hrun⟩ := bind_eq_ok.mp hrun
    obtain ⟨-, hreply⟩ := Prod.mk.inj (Except.ok.inj hrun)
    obtain ⟨rfl, -⟩ := Prod.mk.inj hreply
    -- nothing is sent
    have hlength : 2 ^ 31 ≤ outputLength p (max start 0) fin := by
      unfold outputLength
      rw [if_pos hgets]
      omega
    unfold sortOutput sortElements at hout
    simp only [if_neg hempty, ok_bind] at hout
    cases hstore : p.storekey with
    | none =>
      simp only [hstore] at hout
      obtain rfl := Except.ok.inj hout
      exact hlength
    | some key =>
      simp only [hstore] at hout
      obtain ⟨s', -, hout⟩ := bind_eq_ok.mp hout
      obtain rfl := Except.ok.inj hout
      exact hlength

/-- The options hold `long` values. -/
theorem parseOptions_long {clusterEnabled : Bool} {argv : List Bytes} {o o' : SortOptions}
    (h : parseOptions clusterEnabled argv o = .ok o') (hstart : o.limitStart < 2 ^ 63) (hcount : o.limitCount < 2 ^ 63) :
    o'.limitStart < 2 ^ 63 ∧ o'.limitCount < 2 ^ 63 := by
  have hlong : ∀ {x : Bytes} {n : Int}, string2ll x = some n → n < 2 ^ 63 := fun h => (string2ll_eq_some_iff.mp h).1.2
  fun_induction parseOptions clusterEnabled argv o
  case case7 =>
    rename_i hy hx ih
    exact ih h (hlong hx) (hlong hy)
  -- an error, the end, or another option
  all_goals first
    | (cases h; done)
    | (cases h; exact ⟨hstart, hcount⟩)
    | (rename_i ih; exact ih h hstart hcount)

/-- The command with a range against the command without: the same error, or the slice of what is shown. -/
def LimitExact (s : Server (Value Collection)) (d : DbId) (storekey : Option Bytes) (start count : Int)
    (whole run : Except SortFault (Server (Value Collection) × SortReply × Bool)) : Prop :=
  ∃ e, (whole = .ok (s, .error scoreError, e) ∧ run = .ok (s, .error scoreError, e)) ∨
    ∃ full : List Bytes, whole = .ok ((delivered s d storekey full).1, (delivered s d storekey full).2, e) ∧
      run = .ok ((delivered s d storekey (limited start count full)).1,
        (delivered s d storekey (limited start count full)).2, e)

end Command

/-! ### Short lists -/

/-- The list of the strings `1`, `2`, `3`. -/
def threeList : Collection := .list [.sds [49], .sds [50], .sds [51]]

/-- The key `a` holds the list. -/
def threeAtA : Server (Value Collection) := { fiveAtA with
  dbs := fun _ => ⟨fun key => if key = [97] then some (.other threeList) else none, fun _ => none, fun _ => none⟩ }

/-- `BY x LIMIT 2 9223372036854775807` -/
def limitHuge : List Bytes := [byName, [120], limitName, [50],
  [57, 50, 50, 51, 51, 55, 50, 48, 51, 54, 56, 53, 52, 55, 55, 53, 56, 48, 55]]

/-- Insertion sort is a `qsort`. -/
theorem qsorts_integers : Qsorts integers := by
  intro cmp l hcmp
  refine ⟨List.perm_insertionSort _ l, ?_⟩
  let r : {x // x ∈ l} → {x // x ∈ l} → Prop := fun x y => cmp x y ≤ 0
  have htotal : Std.Total r := ⟨fun x y => by
    have hswap := hcmp.swapped x y
    simp only [r]
    omega⟩
  have htrans : IsTrans {x // x ∈ l} r := ⟨fun x y z => hcmp.trans x y z⟩
  have hsorted := List.pairwise_insertionSort r l.attach
  have hmap := List.map_insertionSort r (fun x y => cmp x y ≤ 0) Subtype.val l.attach (fun x _ y _ => Iff.rfl)
  rw [List.attach_map_subtype_val] at hmap
  show (l.insertionSort fun x y => cmp x y ≤ 0).Pairwise _
  rw [← hmap, List.pairwise_map]
  exact hsorted

theorem keyspaceInv_fiveAtA : KeyspaceInv fiveAtA :=
  KeyspaceInv.of_unwatched (fun _ => rfl) rfl (fun _ => rfl) (fun d k h => by cases h)

end Redis.Sort
