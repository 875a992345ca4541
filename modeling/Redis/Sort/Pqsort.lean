import Redis.Lib.Rearrange

namespace Redis.Sort

open Rearrange

/-!
# The partial quicksort of `pqsort.c`

The quicksort of Bentley and McIlroy, which leaves out the parts that do not meet the range it
is asked for.  Pointers are numbers of elements from the start of the array; where the code
compares addresses, the array is at the address `base`.

* `insertionSort`, `med3`, `partitionLoop`, `vecswap` — the parts of `_pqsort`;
* `pqsortLoop`, `pqsort` — the function; the fuel bounds the depth of recursion and jumps;
* `pqsortLoop_comp` — sorting commutes with a function on the elements;
* `Split` — the four regions of the partition around the pivot;
* `Windowed` — all pairs with an element of the range are in order;
* `pqsort_window` — the range is sorted, between the smaller and the greater elements.
-/

section Model

variable {α : Type} (cmp : α → α → Int)

/-- The inner loop of the insertion sort, for the element at `a + k`. -/
def insertionStep (a : Nat) : Nat → (Nat → α) → (Nat → α)
  | 0, m => m
  | k + 1, m =>
      if cmp (m (a + k)) (m (a + k + 1)) > 0 then insertionStep a k (exchange m (a + k + 1) (a + k)) else m

/-- The insertion sort of `n` elements. -/
def insertionSort (a : Nat) : Nat → (Nat → α) → (Nat → α)
  | 0, m => m
  | n + 1, m => insertionStep cmp a n (insertionSort a n m)

/-- `med3`. -/
def med3 (m : Nat → α) (a b c : Nat) : Nat :=
  if cmp (m a) (m b) < 0 then (if cmp (m b) (m c) < 0 then b else if cmp (m a) (m c) < 0 then c else a)
  else if cmp (m b) (m c) > 0 then b else if cmp (m a) (m c) < 0 then a else c

/-- The pivot: the middle, the median of three, or the pseudo-median of nine. -/
def choosePivot (m : Nat → α) (a n : Nat) : Nat :=
  let pl := a
  let pm := a + n / 2
  let pn := a + (n - 1)
  if n > 7 then
    if n > 40 then
      let d := n / 8
      med3 cmp m (med3 cmp m pl (pl + d) (pl + 2 * d)) (med3 cmp m (pm - d) pm (pm + d))
        (med3 cmp m (pn - 2 * d) (pn - d) pn)
    else med3 cmp m pl pm pn
  else pm

/-- The array and the pointers of the partition. -/
structure Pointers (α : Type) where
  m : Nat → α
  pa : Nat
  pb : Nat
  pc : Nat
  pd : Nat

/-- The loop that moves `pb` up; `pc + 1 - pb` elements are left. -/
def scanUp (a : Nat) : Nat → Pointers α → Pointers α
  | 0, s => s
  | k + 1, s =>
      let cmp_result := cmp (s.m s.pb) (s.m a)
      if cmp_result ≤ 0 then
        scanUp a k (if cmp_result = 0 then ⟨exchange s.m s.pa s.pb, s.pa + 1, s.pb + 1, s.pc, s.pd⟩
          else ⟨s.m, s.pa, s.pb + 1, s.pc, s.pd⟩)
      else s

/-- The loop that moves `pc` down. -/
def scanDown (a : Nat) : Nat → Pointers α → Pointers α
  | 0, s => s
  | k + 1, s =>
      let cmp_result := cmp (s.m s.pc) (s.m a)
      if cmp_result ≥ 0 then
        scanDown a k (if cmp_result = 0 then ⟨exchange s.m s.pc s.pd, s.pa, s.pb, s.pc - 1, s.pd - 1⟩
          else ⟨s.m, s.pa, s.pb, s.pc - 1, s.pd⟩)
      else s

/-- The loop of the partition. -/
def partitionLoop (a : Nat) : Nat → Pointers α → Option (Pointers α)
  | 0, _ => none
  | fuel + 1, s =>
      let s := scanUp cmp a (s.pc + 1 - s.pb) s
      let s := scanDown cmp a (s.pc + 1 - s.pb) s
      if s.pb > s.pc then some s
      else partitionLoop a fuel ⟨exchange s.m s.pb s.pc, s.pa, s.pb + 1, s.pc - 1, s.pd⟩

/-- `vecswap` of `r` elements. -/
def vecswap (i j : Nat) : Nat → (Nat → α) → (Nat → α)
  | 0, m => m
  | r + 1, m => vecswap (i + 1) (j + 1) r (exchange m i j)

/-- The part from `l` to `r` does not meet the range. -/
def outOfRange (lrange rrange l r : Nat) : Bool :=
  (lrange < l && rrange < l) || (lrange > r && rrange > r)

/-- `_pqsort` of the `n` elements at `a`; the range is given by addresses. -/
def pqsortLoop (base es lrange rrange : Nat) : Nat → (Nat → α) → Nat → Nat → Option (Nat → α)
  | 0, _, _, _ => none
  | fuel + 1, m, a, n =>
      if n < 7 then some (insertionSort cmp a n m)
      else do
        let s ← partitionLoop cmp a n
          ⟨exchange m a (choosePivot cmp m a n), a + 1, a + 1, a + (n - 1), a + (n - 1)⟩
        let pn := a + n
        let r := if s.pa - a < s.pb - s.pa then s.pa - a else s.pb - s.pa
        let m := vecswap a (s.pb - r) r s.m
        let r := if s.pd - s.pc < pn - s.pd - 1 then s.pd - s.pc else pn - s.pd - 1
        let m := vecswap s.pb (pn - r) r m
        let r := (s.pb - s.pa) * es
        let m ← (if r > es ∧ outOfRange lrange rrange (base + a * es) (base + a * es + r - 1) = false
          then pqsortLoop base es lrange rrange fuel m a (r / es) else some m)
        let r := (s.pd - s.pc) * es
        -- iterate rather than recurse
        let a := pn * es - r
        if r > es ∧ outOfRange lrange rrange (base + a) (base + a + r - 1) = false
          then pqsortLoop base es lrange rrange fuel m (a / es) (r / es) else some m

/-- `pqsort`.  A range that ends before the first element has the last element `-1`. -/
def pqsort (fuel base : Nat) (m : Nat → α) (n es : Nat) (lrange rrange : Int) : Option (Nat → α) :=
  pqsortLoop cmp base es (base + lrange * es).toNat (base + (rrange + 1) * es - 1).toNat fuel m 0 n

end Model

/-! ### The elements behind a function

Nothing but the comparisons depends on the elements. -/

section Comp

variable {α β : Type} (f : β → α) (cmp : α → α → Int)

theorem exchange_comp (m : Nat → β) (i j : Nat) : exchange (f ∘ m) i j = f ∘ exchange m i j := by
  funext k
  simp only [exchange, Function.comp_apply, apply_ite f]

/-- The comparison of what `f` makes of two elements. -/
def compareBy (f : β → α) (cmp : α → α → Int) (x y : β) : Int := cmp (f x) (f y)

theorem insertionStep_comp (a k : Nat) (m : Nat → β) :
    insertionStep cmp a k (f ∘ m) = f ∘ insertionStep (compareBy f cmp) a k m := by
  induction k generalizing m with
  | zero => rfl
  | succ k ih =>
    simp only [insertionStep, exchange_comp, ih]
    exact (apply_ite (f ∘ ·) _ _ _).symm

theorem insertionSort_comp (a n : Nat) (m : Nat → β) :
    insertionSort cmp a n (f ∘ m) = f ∘ insertionSort (compareBy f cmp) a n m := by
  induction n with
  | zero => rfl
  | succ n ih => rw [insertionSort, ih, insertionStep_comp, insertionSort]

/-- The elements replaced by what `f` makes of them. -/
def Pointers.map (s : Pointers β) : Pointers α := ⟨f ∘ s.m, s.pa, s.pb, s.pc, s.pd⟩

@[simp] theorem Pointers.map_pb (s : Pointers β) : (s.map f).pb = s.pb := rfl

@[simp] theorem Pointers.map_pc (s : Pointers β) : (s.map f).pc = s.pc := rfl

theorem scanUp_comp (a k : Nat) (s : Pointers β) :
    scanUp cmp a k (s.map f) = (scanUp (compareBy f cmp) a k s).map f := by
  induction k generalizing s with
  | zero => rfl
  | succ k ih =>
    simp only [scanUp, apply_ite (Pointers.map f), ← ih]
    simp only [Pointers.map, exchange_comp]
    rfl

theorem scanDown_comp (a k : Nat) (s : Pointers β) :
    scanDown cmp a k (s.map f) = (scanDown (compareBy f cmp) a k s).map f := by
  induction k generalizing s with
  | zero => rfl
  | succ k ih =>
    simp only [scanDown, apply_ite (Pointers.map f), ← ih]
    simp only [Pointers.map, exchange_comp]
    rfl

theorem partitionLoop_comp (a fuel : Nat) (s : Pointers β) :
    partitionLoop cmp a fuel (s.map f) = (partitionLoop (compareBy f cmp) a fuel s).map (Pointers.map f) := by
  induction fuel generalizing s with
  | zero => rfl
  | succ fuel ih =>
    simp only [partitionLoop, Pointers.map_pb, Pointers.map_pc, scanUp_comp, scanDown_comp]
    rw [apply_ite (Option.map (Pointers.map f)), ← ih]
    simp only [Pointers.map, exchange_comp]
    rfl

theorem vecswap_comp (i j r : Nat) (m : Nat → β) : vecswap i j r (f ∘ m) = f ∘ vecswap i j r m := by
  induction r generalizing i j m with
  | zero => rfl
  | succ r ih => rw [vecswap, exchange_comp, ih, vecswap]

/-- `_pqsort` of what `f` makes of the elements. -/
theorem pqsortLoop_comp (base es lrange rrange fuel : Nat) (m : Nat → β) (a n : Nat) :
    pqsortLoop cmp base es lrange rrange fuel (f ∘ m) a n
      = (pqsortLoop (compareBy f cmp) base es lrange rrange fuel m a n).map (f ∘ ·) := by
  induction fuel generalizing m a n with
  | zero => rfl
  | succ fuel ih =>
    unfold pqsortLoop
    by_cases hn : n < 7
    · rw [if_pos hn, if_pos hn, insertionSort_comp]
      rfl
    · rw [if_neg hn, if_neg hn, exchange_comp]
      have hstart := partitionLoop_comp f cmp a n
        ⟨exchange m a (choosePivot (compareBy f cmp) m a n), a + 1, a + 1, a + (n - 1), a + (n - 1)⟩
      unfold Pointers.map at hstart
      have hpivot : choosePivot cmp (f ∘ m) a n = choosePivot (compareBy f cmp) m a n := rfl
      rw [hpivot, hstart]
      cases partitionLoop (compareBy f cmp) a n
          ⟨exchange m a (choosePivot (compareBy f cmp) m a n), a + 1, a + 1, a + (n - 1), a + (n - 1)⟩ with
      | none => rfl
      | some s =>
        simp only [Option.map_some, Option.bind_eq_bind, Option.bind_some, vecswap_comp, ih]
        split_ifs
        all_goals simp only [Option.map_some, Option.bind_some, Option.map_bind, Option.bind_map]
        all_goals first | rfl | exact ih _ _ _ | exact congrArg _ (funext fun x => ih x _ _)

end Comp

/-! ### The insertion sort -/

section Proofs

variable {α : Type} {cmp : α → α → Int}

/-- All pairs of `[a, b)` that have an element of the window are in order. -/
def Windowed (cmp : α → α → Int) (m : Nat → α) (a b l r : Nat) : Prop :=
  ∀ i j, a ≤ i → i ≤ j → j < b → (l ≤ i ∧ i ≤ r ∨ l ≤ j ∧ j ≤ r) → cmp (m i) (m j) ≤ 0

/-- All pairs of `[a, b)` are in order but those whose second element is at `p`. -/
def SortedBut (cmp : α → α → Int) (m : Nat → α) (a b p : Nat) : Prop :=
  ∀ i j, a ≤ i → i < j → j < b → j ≠ p → cmp (m i) (m j) ≤ 0

variable {m : Nat → α} {s : Pointers α}

/-- The element at `a + k` moves down to its place. -/
theorem insertionStep_spec (hcmp : Preordered cmp) {a b k : Nat} (hk : a + k < b)
    (hm : SortedBut cmp m a b (a + k)) :
    Rearranged a b m (insertionStep cmp a k m) ∧
      ∀ i j, a ≤ i → i < j → j < b → cmp (insertionStep cmp a k m i) (insertionStep cmp a k m j) ≤ 0 := by
  induction k generalizing m with
  | zero =>
    refine ⟨Rearranged.refl a b m, fun i j hi hij hj => hm i j hi hij hj ?_⟩
    omega
  | succ k ih =>
    rw [insertionStep]
    by_cases hgt : cmp (m (a + k)) (m (a + k + 1)) > 0
    · rw [if_pos hgt]
      have hm' : SortedBut cmp (exchange m (a + k + 1) (a + k)) a b (a + k) := by
        intro i j hi hij hj hne
        by_cases hj' : j = a + k + 1
        · -- the greater element, now behind
          subst hj'
          rw [exchange_left]
          by_cases hi' : i = a + k
          · rw [hi', exchange_right]
            exact hcmp.of_pos hgt
          · rw [exchange_of_ne m (by omega) hi']
            exact hm i (a + k) hi (by omega) (by omega) (by omega)
        · rw [exchange_of_ne m hj' hne]
          by_cases hi' : i = a + k + 1
          · subst hi'
            rw [exchange_left]
            exact hm (a + k) j (by omega) (by omega) hj hj'
          · by_cases hi'' : i = a + k
            · subst hi''
              rw [exchange_right]
              exact hm (a + k + 1) j (by omega) (by omega) hj hj'
            · rw [exchange_of_ne m hi' hi'']
              exact hm i j hi hij hj hj'
      obtain ⟨hre, hsorted⟩ := ih (by omega) hm'
      exact ⟨(Rearranged.exchange (by omega) (by omega)).trans hre, hsorted⟩
    · rw [if_neg hgt]
      refine ⟨Rearranged.refl a b m, fun i j hi hij hj => ?_⟩
      by_cases hj' : j = a + k + 1
      · subst hj'
        by_cases hi' : i = a + k
        · rw [hi']
          omega
        · exact hcmp.trans _ _ _ (hm i (a + k) hi (by omega) (by omega) (by omega)) (by omega)
      · exact hm i j hi hij hj hj'

theorem insertionSort_spec (hcmp : Preordered cmp) (a n : Nat) (m : Nat → α) :
    Rearranged a (a + n) m (insertionSort cmp a n m) ∧
      ∀ i j, a ≤ i → i < j → j < a + n → cmp (insertionSort cmp a n m i) (insertionSort cmp a n m j) ≤ 0 := by
  induction n with
  | zero => exact ⟨Rearranged.refl _ _ _, fun i j hi hij hj => by omega⟩
  | succ n ih =>
    obtain ⟨hre, hsorted⟩ := ih
    have hbut : SortedBut cmp (insertionSort cmp a n m) a (a + (n + 1)) (a + n) :=
      fun i j hi hij hj hne => hsorted i j hi hij (by omega)
    obtain ⟨hre', hsorted'⟩ := insertionStep_spec hcmp (by omega) hbut
    exact ⟨(hre.mono le_rfl (by omega)).trans hre', hsorted'⟩

/-! ### The partition -/

/-- Any of three pointers into the array. -/
theorem med3_mem {P : Nat → Prop} {a b c : Nat} (ha : P a) (hb : P b) (hc : P c) :
    P (med3 cmp m a b c) := by
  unfold med3
  split_ifs <;> assumption

variable (cmp) in
theorem choosePivot_mem (m : Nat → α) {a n : Nat} (hn : 7 ≤ n) :
    a ≤ choosePivot cmp m a n ∧ choosePivot cmp m a n < a + n := by
  have hd : 8 * (n / 8) ≤ n := Nat.mul_div_le n 8
  have hmed : ∀ {x y z : Nat}, (a ≤ x ∧ x < a + n) → (a ≤ y ∧ y < a + n) → (a ≤ z ∧ z < a + n) →
      a ≤ med3 cmp m x y z ∧ med3 cmp m x y z < a + n := fun hx hy hz => med3_mem (P := fun p => a ≤ p ∧ p < a + n) hx hy hz
  unfold choosePivot
  simp only
  by_cases h7 : n > 7
  · rw [if_pos h7]
    by_cases h40 : n > 40
    · rw [if_pos h40]
      exact hmed (hmed (by omega) (by omega) (by omega)) (hmed (by omega) (by omega) (by omega))
        (hmed (by omega) (by omega) (by omega))
    · rw [if_neg h40]
      exact hmed (by omega) (by omega) (by omega)
  · rw [if_neg h7]
    omega

/-- The regions of the partition of `[a, b)`: what equals the pivot at both ends, what is less before `pb`,
    what is greater behind `pc`. -/
structure Split (cmp : α → α → Int) (v : α) (a b : Nat) (s : Pointers α) : Prop where
  pivot : s.m a = v
  lt_pa : a < s.pa
  pa_le : s.pa ≤ s.pb
  pb_le : s.pb ≤ s.pc + 1
  pc_le : s.pc ≤ s.pd
  pd_lt : s.pd < b
  equalLeft : ∀ k, a < k → k < s.pa → cmp (s.m k) v = 0
  less : ∀ k, s.pa ≤ k → k < s.pb → cmp (s.m k) v < 0
  greater : ∀ k, s.pc < k → k ≤ s.pd → 0 < cmp (s.m k) v
  equalRight : ∀ k, s.pd < k → k < b → cmp (s.m k) v = 0

variable {v : α} {a b : Nat}

/-- `pb` stops at an element that is greater, or behind `pc`. -/
theorem scanUp_spec {k : Nat} (hs : Split cmp v a b s) (hk : k = s.pc + 1 - s.pb) :
    Split cmp v a b (scanUp cmp a k s) ∧ Rearranged a b s.m (scanUp cmp a k s).m ∧
      (scanUp cmp a k s).pc = s.pc ∧ s.pb ≤ (scanUp cmp a k s).pb ∧
      ((scanUp cmp a k s).pb ≤ s.pc → 0 < cmp ((scanUp cmp a k s).m (scanUp cmp a k s).pb) v) := by
  obtain ⟨hpivot, hpa, hpab, hpbc, hpcd, hpd, heqL, hless, hgreater, heqR⟩ := hs
  induction k generalizing s with
  | zero =>
    refine ⟨⟨hpivot, hpa, hpab, hpbc, hpcd, hpd, heqL, hless, hgreater, heqR⟩, Rearranged.refl a b _, rfl, le_rfl, ?_⟩
    intro hle
    have hle' : s.pb ≤ s.pc := hle
    omega
  | succ k ih =>
    rw [scanUp, hpivot]
    by_cases hle : cmp (s.m s.pb) v ≤ 0
    · rw [if_pos hle]
      by_cases hzero : cmp (s.m s.pb) v = 0
      · -- an equal element goes to the left end
        rw [if_pos hzero]
        have hlow : ∀ k, k < s.pa → exchange s.m s.pa s.pb k = s.m k :=
          fun k hk => exchange_of_ne s.m (by omega) (by omega)
        obtain ⟨hsplit, hre, hpc, hpb, hstop⟩ := ih (s := ⟨exchange s.m s.pa s.pb, s.pa + 1, s.pb + 1, s.pc, s.pd⟩)
          (by simp only; omega) (by simp only; rw [hlow a hpa, hpivot]) (by simp only; omega) (by simp only; omega)
          (by simp only; omega) hpcd hpd
          (by
            simp only
            intro k hak hk
            by_cases hk' : k = s.pa
            · rw [hk', exchange_left, hzero]
            · rw [hlow k (by omega), heqL k hak (by omega)])
          (by
            simp only
            intro k hpk hk
            by_cases hk' : k = s.pb
            · rw [hk', exchange_right]
              exact hless s.pa le_rfl (by omega)
            · rw [exchange_of_ne s.m (by omega) hk']
              exact hless k (by omega) (by omega))
          (by
            simp only
            intro k hpk hk
            rw [exchange_of_ne s.m (by omega) (by omega)]
            exact hgreater k hpk hk)
          (by
            simp only
            intro k hpk hk
            rw [exchange_of_ne s.m (by omega) (by omega)]
            exact heqR k hpk hk)
        exact ⟨hsplit, (Rearranged.exchange (by omega) (by omega)).trans hre, hpc, by simp only at hpb; omega, hstop⟩
      · rw [if_neg hzero]
        obtain ⟨hsplit, hre, hpc, hpb, hstop⟩ := ih (s := ⟨s.m, s.pa, s.pb + 1, s.pc, s.pd⟩)
          (by simp only; omega) hpivot hpa (by simp only; omega) (by simp only; omega) hpcd hpd heqL
          (by
            simp only
            intro k hpk hk
            by_cases hk' : k = s.pb
            · rw [hk']
              omega
            · exact hless k hpk (by omega))
          hgreater heqR
        exact ⟨hsplit, hre, hpc, by simp only at hpb; omega, hstop⟩
    · rw [if_neg hle]
      exact ⟨⟨hpivot, hpa, hpab, hpbc, hpcd, hpd, heqL, hless, hgreater, heqR⟩, Rearranged.refl a b _, rfl, le_rfl,
        fun _ => by omega⟩

/-- `pc` stops at an element that is less, or before `pb`; what is not behind it stays. -/
theorem scanDown_spec {k : Nat} (hs : Split cmp v a b s) (hk : k = s.pc + 1 - s.pb) :
    Split cmp v a b (scanDown cmp a k s) ∧ Rearranged a b s.m (scanDown cmp a k s).m ∧
      (scanDown cmp a k s).pb = s.pb ∧ (scanDown cmp a k s).pc ≤ s.pc ∧
      (∀ i, i ≤ (scanDown cmp a k s).pc → (scanDown cmp a k s).m i = s.m i) ∧
      (s.pb ≤ (scanDown cmp a k s).pc → cmp ((scanDown cmp a k s).m (scanDown cmp a k s).pc) v < 0) := by
  obtain ⟨hpivot, hpa, hpab, hpbc, hpcd, hpd, heqL, hless, hgreater, heqR⟩ := hs
  induction k generalizing s with
  | zero =>
    refine ⟨⟨hpivot, hpa, hpab, hpbc, hpcd, hpd, heqL, hless, hgreater, heqR⟩, Rearranged.refl a b _, rfl, le_rfl,
      fun _ _ => rfl, ?_⟩
    intro hle
    have hle' : s.pb ≤ s.pc := hle
    omega
  | succ k ih =>
    rw [scanDown, hpivot]
    by_cases hge : cmp (s.m s.pc) v ≥ 0
    · rw [if_pos hge]
      by_cases hzero : cmp (s.m s.pc) v = 0
      · -- an equal element goes to the right end
        rw [if_pos hzero]
        have hlow : ∀ k, k < s.pc → exchange s.m s.pc s.pd k = s.m k :=
          fun k hk => exchange_of_ne s.m (by omega) (by omega)
        obtain ⟨hsplit, hre, hpb, hpc, hsame, hstop⟩ :=
          ih (s := ⟨exchange s.m s.pc s.pd, s.pa, s.pb, s.pc - 1, s.pd - 1⟩)
          (by simp only; omega) (by simp only; rw [hlow a (by omega), hpivot]) hpa hpab (by simp only; omega)
          (by simp only; omega) (by simp only; omega)
          (by
            simp only
            intro k hak hk
            rw [hlow k (by omega)]
            exact heqL k hak hk)
          (by
            simp only
            intro k hpk hk
            rw [hlow k (by omega)]
            exact hless k hpk hk)
          (by
            simp only
            intro k hpk hk
            by_cases hk' : k = s.pc
            · rw [hk', exchange_left]
              exact hgreater s.pd (by omega) le_rfl
            · rw [exchange_of_ne s.m hk' (by omega)]
              exact hgreater k (by omega) (by omega))
          (by
            simp only
            intro k hpk hk
            by_cases hk' : k = s.pd
            · rw [hk', exchange_right, hzero]
            · rw [exchange_of_ne s.m (by omega) hk']
              exact heqR k (by omega) hk)
        refine ⟨hsplit, (Rearranged.exchange (by omega) (by omega)).trans hre, hpb, by simp only at hpc; omega,
          fun i hi => ?_, hstop⟩
        rw [hsame i hi]
        exact hlow i (by simp only at hpc; omega)
      · rw [if_neg hzero]
        obtain ⟨hsplit, hre, hpb, hpc, hsame, hstop⟩ := ih (s := ⟨s.m, s.pa, s.pb, s.pc - 1, s.pd⟩)
          (by simp only; omega) hpivot hpa hpab (by simp only; omega) (by simp only; omega) hpd heqL hless
          (by
            simp only
            intro k hpk hk
            by_cases hk' : k = s.pc
            · rw [hk']
              omega
            · exact hgreater k (by omega) hk)
          heqR
        exact ⟨hsplit, hre, hpb, by simp only at hpc; omega, hsame, hstop⟩
    · rw [if_neg hge]
      exact ⟨⟨hpivot, hpa, hpab, hpbc, hpcd, hpd, heqL, hless, hgreater, heqR⟩, Rearranged.refl a b _, rfl, le_rfl,
        fun _ _ => rfl, fun _ => by omega⟩

/-- The partition ends, and nothing is left between `pc` and `pb`. -/
theorem partitionLoop_spec {fuel : Nat} (hs : Split cmp v a b s) (hfuel : s.pc + 1 - s.pb < fuel) :
    ∃ s', partitionLoop cmp a fuel s = some s' ∧ Split cmp v a b s' ∧ Rearranged a b s.m s'.m ∧
      s'.pb = s'.pc + 1 := by
  induction fuel generalizing s with
  | zero => omega
  | succ fuel ih =>
    obtain ⟨hs₁, hre₁, hpc₁, hpb₁, hstop₁⟩ := scanUp_spec hs rfl
    set s₁ := scanUp cmp a (s.pc + 1 - s.pb) s with hdef₁
    obtain ⟨hs₂, hre₂, hpb₂, hpc₂, hsame₂, hstop₂⟩ := scanDown_spec hs₁ rfl
    set s₂ := scanDown cmp a (s₁.pc + 1 - s₁.pb) s₁ with hdef₂
    rw [partitionLoop, ← hdef₁]
    rw [← hdef₂]
    by_cases hdone : s₂.pb > s₂.pc
    · rw [if_pos hdone]
      have hle := hs₂.pb_le
      exact ⟨s₂, rfl, hs₂, hre₁.trans hre₂, by omega⟩
    · -- the two that stopped the scans change places
      rw [if_neg hdone]
      have hgreater : 0 < cmp (s₂.m s₂.pb) v := by
        rw [hpb₂, hsame₂ s₁.pb (by omega)]
        exact hstop₁ (by omega)
      have hless : cmp (s₂.m s₂.pc) v < 0 := hstop₂ (by omega)
      have hne : s₂.pb ≠ s₂.pc := by
        intro h
        rw [h] at hgreater
        omega
      have hpa₂ := hs₂.lt_pa
      have hpab₂ := hs₂.pa_le
      have hpcd₂ := hs₂.pc_le
      have hpd₂ := hs₂.pd_lt
      have hsplit : Split cmp v a b ⟨exchange s₂.m s₂.pb s₂.pc, s₂.pa, s₂.pb + 1, s₂.pc - 1, s₂.pd⟩ := by
        refine ⟨?_, hpa₂, ?_, ?_, ?_, hpd₂, ?_, ?_, ?_, ?_⟩
        · simp only
          rw [exchange_of_ne s₂.m (by omega) (by omega), hs₂.pivot]
        · simp only
          omega
        · simp only
          omega
        · simp only
          omega
        · simp only
          intro k hak hk
          rw [exchange_of_ne s₂.m (by omega) (by omega)]
          exact hs₂.equalLeft k hak hk
        · simp only
          intro k hpk hk
          by_cases hk' : k = s₂.pb
          · rw [hk', exchange_left]
            exact hless
          · rw [exchange_of_ne s₂.m hk' (by omega)]
            exact hs₂.less k hpk (by omega)
        · simp only
          intro k hpk hk
          by_cases hk' : k = s₂.pc
          · rw [hk', exchange_right]
            exact hgreater
          · rw [exchange_of_ne s₂.m (by omega) hk']
            exact hs₂.greater k (by omega) hk
        · simp only
          intro k hpk hk
          rw [exchange_of_ne s₂.m (by omega) (by omega)]
          exact hs₂.equalRight k hpk hk
      obtain ⟨s', hs', hsplit', hre', hend⟩ := ih hsplit (by simp only; omega)
      exact ⟨s', hs', hsplit', (hre₁.trans hre₂).trans ((Rearranged.exchange (by omega) (by omega)).trans hre'), hend⟩

/-- The partition as `_pqsort` starts it, whatever is compared. -/
theorem partitionLoop_start (cmp : α → α → Int) (m : Nat → α) (a : Nat) {n : Nat} (hn : 2 ≤ n) :
    ∃ s, partitionLoop cmp a n ⟨m, a + 1, a + 1, a + (n - 1), a + (n - 1)⟩ = some s ∧
      Split cmp (m a) a (a + n) s ∧ Rearranged a (a + n) m s.m ∧ s.pb = s.pc + 1 := by
  refine partitionLoop_spec ⟨rfl, by simp, le_rfl, by simp only; omega, le_rfl, by simp only; omega,
    ?_, ?_, ?_, ?_⟩ (by simp only; omega)
  · simp only
    intro k hak hk
    omega
  · simp only
    intro k hak hk
    omega
  · simp only
    intro k hak hk
    omega
  · simp only
    intro k hak hk
    omega

/-! ### The equal elements come to the middle -/

/-- Two regions of `r` elements change places. -/
theorem vecswap_spec {i j r : Nat} (hij : i + r ≤ j) :
    Rearranged i (j + r) m (vecswap i j r m) ∧
      (∀ k, i ≤ k → k < i + r → vecswap i j r m k = m (k + (j - i))) ∧
      (∀ k, j ≤ k → k < j + r → vecswap i j r m k = m (k - (j - i))) ∧
      ∀ k, ¬ (i ≤ k ∧ k < i + r) → ¬ (j ≤ k ∧ k < j + r) → vecswap i j r m k = m k := by
  induction r generalizing i j m with
  | zero => exact ⟨Rearranged.refl _ _ _, fun k _ _ => by omega, fun k _ _ => by omega, fun k _ _ => rfl⟩
  | succ r ih =>
    obtain ⟨hre, hleft, hright, hother⟩ := ih (i := i + 1) (j := j + 1) (m := exchange m i j) (by omega)
    rw [vecswap]
    refine ⟨(Rearranged.exchange (by omega) (by omega)).trans (hre.mono (by omega) (by omega)), ?_, ?_, ?_⟩
    · intro k hik hk
      by_cases hk' : k = i
      · rw [hother k (by omega) (by omega), hk', exchange_left]
        congr 1
        omega
      · rw [hleft k (by omega) (by omega), exchange_of_ne m (by omega) (by omega)]
        congr 1
        omega
    · intro k hjk hk
      by_cases hk' : k = j
      · rw [hother k (by omega) (by omega), hk', exchange_right]
        congr 1
        omega
      · rw [hright k (by omega) (by omega), exchange_of_ne m (by omega) (by omega)]
        congr 1
        omega
    · intro k hk hk'
      rw [hother k (by omega) (by omega), exchange_of_ne m (by omega) (by omega)]

/-- The shorter of two neighbouring regions is exchanged with the end of the other: they change places. -/
theorem vecswap_regions {P Q : α → Prop} {a c b r : Nat} (hlo : a ≤ c) (hhi : c ≤ b)
    (hr : r = min (c - a) (b - c)) (hP : ∀ k, a ≤ k → k < c → P (m k)) (hQ : ∀ k, c ≤ k → k < b → Q (m k)) :
    Rearranged a b m (vecswap a (b - r) r m) ∧
      (∀ k, a ≤ k → k < a + (b - c) → Q (vecswap a (b - r) r m k)) ∧
      ∀ k, a + (b - c) ≤ k → k < b → P (vecswap a (b - r) r m k) := by
  obtain ⟨hre, hleft, hright, hother⟩ := vecswap_spec (i := a) (j := b - r) (r := r) (m := m) (by omega)
  refine ⟨hre.mono le_rfl (by omega), fun k hk hk' => ?_, fun k hk hk' => ?_⟩
  · by_cases hkr : k < a + r
    · rw [hleft k hk hkr]
      exact hQ _ (by omega) (by omega)
    · rw [hother k (by omega) (by omega)]
      exact hQ k (by omega) (by omega)
  · by_cases hkr : b - r ≤ k
    · rw [hright k hkr (by omega)]
      exact hP _ (by omega) (by omega)
    · rw [hother k (by omega) (by omega)]
      exact hP k (by omega) (by omega)

/-! ### The whole array -/

/-- A part that is left out has no position of the range. -/
theorem outOfRange_elim {base es l r p c : Nat} (hes : 0 < es) (hc : 0 < c)
    (h : outOfRange (base + l * es) (base + (r + 1) * es - 1) (base + p * es) (base + p * es + c * es - 1) = true) :
    r < p ∨ p + c ≤ l := by
  have hpos : 0 < c * es := Nat.mul_pos hc hes
  simp only [outOfRange, Bool.or_eq_true, Bool.and_eq_true, decide_eq_true_eq] at h
  rcases h with ⟨-, h⟩ | ⟨h, -⟩
  · left
    have hle : (r + 1) * es ≤ p * es := by omega
    exact Nat.le_of_mul_le_mul_right hle hes
  · right
    have hle : (p + c) * es ≤ l * es := by
      rw [Nat.add_mul]
      omega
    exact Nat.le_of_mul_le_mul_right hle hes

/-- The function sorts a region as far as the window asks for. -/
def SortsWindow (cmp : α → α → Int) (l r : Nat) (m : Nat → α) (a b : Nat) (run : Option (Nat → α)) : Prop :=
  ∃ m', run = some m' ∧ Rearranged a b m m' ∧ Windowed cmp m' a b l r

/-- The step that sorts a part, if it has two elements and meets the range. -/
theorem sorts_part (hcmp : Preordered cmp) {base es l r p c : Nat} {run : Option (Nat → α)} (hes : 0 < es)
    (hrun : SortsWindow cmp l r m p (p + c) run) :
    SortsWindow cmp l r m p (p + c) (if c * es > es ∧
      outOfRange (base + l * es) (base + (r + 1) * es - 1) (base + p * es) (base + p * es + c * es - 1) = false
        then run else some m) := by
  by_cases hcond : c * es > es ∧
    outOfRange (base + l * es) (base + (r + 1) * es - 1) (base + p * es) (base + p * es + c * es - 1) = false
  · rw [if_pos hcond]
    exact hrun
  · rw [if_neg hcond]
    refine ⟨m, rfl, Rearranged.refl _ _ _, fun i j hi hij hj hwindow => ?_⟩
    by_cases hone : c ≤ 1
    · obtain rfl : i = j := by omega
      exact hcmp.refl _
    · have hgt : c * es > es := by
        have hmul := Nat.mul_le_mul_right es (show 2 ≤ c by omega)
        omega
      have hout := outOfRange_elim hes (by omega) (Bool.of_not_eq_false fun h => hcond ⟨hgt, h⟩)
      omega

/-- Two sorted parts around what equals the pivot. -/
theorem windowed_join (hcmp : Preordered cmp) {a b p q l r : Nat} (hless : ∀ k, a ≤ k → k < p → cmp (m k) v < 0)
    (hequal : ∀ k, p ≤ k → k < q → cmp (m k) v = 0) (hgreater : ∀ k, q ≤ k → k < b → 0 < cmp (m k) v)
    (hleft : Windowed cmp m a p l r) (hright : Windowed cmp m q b l r) : Windowed cmp m a b l r := by
  intro i j hi hij hj hwindow
  by_cases hjp : j < p
  · exact hleft i j hi hij hjp hwindow
  by_cases hiq : q ≤ i
  · exact hright i j hiq hij hj hwindow
  -- the pivot lies between the two
  have hiv : cmp (m i) v ≤ 0 := by
    by_cases hip : i < p
    · exact (hless i hi hip).le
    · exact (hequal i (by omega) (by omega)).le
  have hvj : cmp v (m j) ≤ 0 := by
    by_cases hjq : j < q
    · exact (hcmp.of_zero (hequal j (by omega) hjq)).le
    · exact hcmp.of_pos (hgreater j (by omega) hj)
  exact hcmp.trans _ _ _ hiv hvj

/-- **`_pqsort`** returns when the fuel exceeds the number of elements, and sorts what the range asks for. -/
theorem pqsortLoop_spec (hcmp : Preordered cmp) (base : Nat) {es : Nat} (hes : 0 < es) (l r : Nat) {fuel n : Nat}
    (hfuel : n < fuel) (m : Nat → α) (a : Nat) :
    SortsWindow cmp l r m a (a + n)
      (pqsortLoop cmp base es (base + l * es) (base + (r + 1) * es - 1) fuel m a n) := by
  induction fuel generalizing n m a with
  | zero => omega
  | succ fuel ih =>
    rw [pqsortLoop]
    by_cases hn : n < 7
    · rw [if_pos hn]
      obtain ⟨hre, hsorted⟩ := insertionSort_spec hcmp a n m
      refine ⟨_, rfl, hre, fun i j hi hij hj _ => ?_⟩
      by_cases hne : i = j
      · rw [hne]
        exact hcmp.refl _
      · exact hsorted i j hi (by omega) hj
    rw [if_neg hn]
    -- the pivot comes to the front
    obtain ⟨hplo, hphi⟩ := choosePivot_mem cmp m (a := a) (n := n) (by omega)
    set m₀ := exchange m a (choosePivot cmp m a n) with hm₀
    have hre₀ : Rearranged a (a + n) m m₀ := Rearranged.exchange (by omega) ⟨hplo, hphi⟩
    obtain ⟨s, hrun, hs, hre₁, hend⟩ := partitionLoop_start cmp m₀ a (n := n) (by omega)
    set v := m₀ a
    have hself : cmp v v = 0 := by
      have hle := hcmp.refl v
      have hsigns := hcmp.swapped v v
      omega
    rw [hrun]
    simp only [Option.bind_eq_bind, Option.bind_some]
    have hlt_pa := hs.lt_pa
    have hpa_le := hs.pa_le
    have hpc_le := hs.pc_le
    have hpd_lt := hs.pd_lt
    -- the equal elements of the left end go behind the lesser ones
    set r₁ := if s.pa - a < s.pb - s.pa then s.pa - a else s.pb - s.pa with hr₁
    obtain ⟨hre₂, hless₂, heqL₂⟩ := vecswap_regions (P := fun x => cmp x v = 0) (Q := fun x => cmp x v < 0)
      (a := a) (c := s.pa) (b := s.pb) (r := r₁) (m := s.m) (by omega) hpa_le
      (by rw [hr₁]; split_ifs <;> omega)
      (fun k hk hk' => by
        by_cases hka : k = a
        · rw [hka, hs.pivot]
          exact hself
        · exact hs.equalLeft k (by omega) hk')
      hs.less
    set m₂ := vecswap a (s.pb - r₁) r₁ s.m
    -- and those of the right end before the greater ones
    set r₂ := if s.pd - s.pc < a + n - s.pd - 1 then s.pd - s.pc else a + n - s.pd - 1 with hr₂
    obtain ⟨hre₃, heqR₃, hgreater₃⟩ := vecswap_regions (P := fun x => 0 < cmp x v) (Q := fun x => cmp x v = 0)
      (a := s.pb) (c := s.pd + 1) (b := a + n) (r := r₂) (m := m₂) (by omega) (by omega)
      (by rw [hr₂]; split_ifs <;> omega)
      (fun k hk hk' => by
        rw [hre₂.outside (by omega)]
        exact hs.greater k (by omega) (by omega))
      (fun k hk hk' => by
        rw [hre₂.outside (by omega)]
        exact hs.equalRight k (by omega) hk')
    set m₃ := vecswap s.pb (a + n - r₂) r₂ m₂
    -- the two parts
    set b := s.pb - s.pa with hb
    set c := s.pd - s.pc with hc
    have hless₃ : ∀ k, a ≤ k → k < a + b → cmp (m₃ k) v < 0 := by
      intro k hk hk'
      rw [hre₃.outside (by omega)]
      exact hless₂ k hk hk'
    have hequal₃ : ∀ k, a + b ≤ k → k < a + n - c → cmp (m₃ k) v = 0 := by
      intro k hk hk'
      by_cases hkb : k < s.pb
      · rw [hre₃.outside (by omega)]
        exact heqL₂ k hk hkb
      · exact heqR₃ k (by omega) (by omega)
    have hgreater₃' : ∀ k, a + n - c ≤ k → k < a + n → 0 < cmp (m₃ k) v :=
      fun k hk hk' => hgreater₃ k (by omega) hk'
    have hdiv : ∀ c' : Nat, c' * es / es = c' := fun c' => Nat.mul_div_cancel c' hes
    obtain ⟨m₄, hrun₄, hre₄, hwin₄⟩ := sorts_part hcmp (p := a) (c := b) (m := m₃) hes (ih (n := b) (by omega) m₃ a)
    rw [hdiv b, hrun₄, Option.bind_some]
    have hstart : (a + n) * es - c * es = (a + n - c) * es := (Nat.sub_mul _ _ _).symm
    obtain ⟨m₅, hrun₅, hre₅, hwin₅⟩ := sorts_part hcmp (p := a + n - c) (c := c) (m := m₄) hes
      (ih (n := c) (by omega) m₄ (a + n - c))
    rw [hstart, hdiv (a + n - c), hdiv c, hrun₅]
    rw [show a + n - c + c = a + n by omega] at hre₅ hwin₅
    refine ⟨m₅, rfl, ?_, windowed_join hcmp (p := a + b) (q := a + n - c) (v := v) ?_ ?_ ?_ ?_ hwin₅⟩
    · refine (hre₀.trans (hre₁.trans ?_)).trans ((hre₄.mono le_rfl (by omega)).trans (hre₅.mono (by omega) le_rfl))
      exact (hre₂.mono le_rfl (by omega)).trans (hre₃.mono (by omega) le_rfl)
    · intro k hk hk'
      rw [hre₅.outside (by omega)]
      exact hre₄.forall_mem (P := fun x => cmp x v < 0) hless₃ k hk hk'
    · intro k hk hk'
      rw [hre₅.outside (by omega), hre₄.outside (by omega)]
      exact hequal₃ k hk hk'
    · refine hre₅.forall_mem (P := fun x => 0 < cmp x v) fun k hk hk' => ?_
      rw [hre₄.outside (by omega)]
      exact hgreater₃' k hk hk'
    · intro i j hi hij hj hwindow
      rw [hre₅.outside (k := i) (by omega), hre₅.outside (k := j) (by omega)]
      exact hwin₄ i j hi hij hj hwindow

/-- It ends for any comparison. -/
theorem pqsortLoop_ends (cmp : α → α → Int) (base : Nat) {es : Nat} (hes : 0 < es) (lrange rrange : Nat)
    {fuel n : Nat} (hfuel : n < fuel) (m : Nat → α) (a : Nat) :
    ∃ m', pqsortLoop cmp base es lrange rrange fuel m a n = some m' := by
  induction fuel generalizing n m a with
  | zero => omega
  | succ fuel ih =>
    rw [pqsortLoop]
    by_cases hn : n < 7
    · rw [if_pos hn]
      exact ⟨_, rfl⟩
    rw [if_neg hn]
    obtain ⟨s, hrun, hs, -, hend⟩ := partitionLoop_start cmp (exchange m a (choosePivot cmp m a n)) a (n := n) (by omega)
    have hlt_pa := hs.lt_pa
    have hpa_le := hs.pa_le
    have hpc_le := hs.pc_le
    have hpd_lt := hs.pd_lt
    -- the parts are smaller, and a part that is left out needs no fuel
    have hpart : ∀ {c : Prop} [Decidable c] (m : Nat → α) (a k : Nat), k < n → ∃ m',
        (if c then pqsortLoop cmp base es lrange rrange fuel m a (k * es / es) else some m) = some m' := by
      intro c hc m a k hk
      by_cases hcond : c
      · rw [if_pos hcond, Nat.mul_div_cancel k hes]
        exact ih (by omega) m a
      · rw [if_neg hcond]
        exact ⟨m, rfl⟩
    simp only [hrun, Option.bind_eq_bind, Option.bind_some]
    obtain ⟨m₁, hm₁⟩ := hpart (c := (s.pb - s.pa) * es > es ∧ outOfRange lrange rrange (base + a * es)
      (base + a * es + (s.pb - s.pa) * es - 1) = false) _ a (s.pb - s.pa) (by omega)
    rw [hm₁, Option.bind_some]
    exact hpart _ _ _ (by omega)

/-- More fuel gives the same result. -/
theorem pqsortLoop_mono {base es lrange rrange fuel a n : Nat} {m m' : Nat → α}
    (h : pqsortLoop cmp base es lrange rrange fuel m a n = some m') :
    pqsortLoop cmp base es lrange rrange (fuel + 1) m a n = some m' := by
  induction fuel generalizing m a n m' with
  | zero => cases h
  | succ fuel ih =>
    -- a part that is sorted, or left out, is so with more fuel
    have hpart : ∀ {c : Prop} [Decidable c] {m m' : Nat → α} {a n : Nat},
        (if c then pqsortLoop cmp base es lrange rrange fuel m a n else some m) = some m' →
          (if c then pqsortLoop cmp base es lrange rrange (fuel + 1) m a n else some m) = some m' := by
      intro c hc m m' a n h
      by_cases hcond : c
      · rw [if_pos hcond] at h ⊢
        exact ih h
      · rwa [if_neg hcond] at h ⊢
    rw [pqsortLoop] at h ⊢
    by_cases hn : n < 7
    · rwa [if_pos hn] at h ⊢
    · rw [if_neg hn] at h ⊢
      obtain ⟨s, hs, h⟩ := Option.bind_eq_some_iff.mp h
      obtain ⟨m₄, hleft, hright⟩ := Option.bind_eq_some_iff.mp h
      refine Option.bind_eq_some_iff.mpr ⟨s, hs, Option.bind_eq_some_iff.mpr ⟨m₄, hpart hleft, hpart hright⟩⟩

theorem pqsortLoop_mono_le {base es lrange rrange fuel fuel' a n : Nat} {m m' : Nat → α} (hle : fuel ≤ fuel')
    (h : pqsortLoop cmp base es lrange rrange fuel m a n = some m') :
    pqsortLoop cmp base es lrange rrange fuel' m a n = some m' := by
  induction hle with
  | refl => exact h
  | step _ ih => exact pqsortLoop_mono ih

/-- The addresses of a range of elements. -/
theorem pqsort_range (fuel base : Nat) (m : Nat → α) (n es l r : Nat) : pqsort cmp fuel base m n es l r
    = pqsortLoop cmp base es (base + l * es) (base + (r + 1) * es - 1) fuel m 0 n := by
  have hl : (base : Int) + l * es = ((base + l * es : Nat) : Int) := by simp
  have hr : (base : Int) + (r + 1) * es - 1 = ((base + (r + 1) * es : Nat) : Int) - 1 := by simp
  have hsub : (((base + (r + 1) * es : Nat) : Int) - 1).toNat = base + (r + 1) * es - 1 := by omega
  rw [pqsort, hl, hr, Int.toNat_natCast, hsub]

/-- **`pqsort`** ends.  The array is rearranged; the range is sorted, nothing before it is greater and nothing
    behind it is less, and it holds what the sorted array has there, up to the order. -/
theorem pqsort_window (hcmp : Preordered cmp) (base : Nat) {es : Nat} (hes : 0 < es) (m : Nat → α) {n l r : Nat} (hr : r < n) :
    ∃ m', (∀ fuel, n < fuel → pqsort cmp fuel base m n es l r = some m') ∧
      ((List.range n).map m').Perm ((List.range n).map m) ∧
      (∀ i j, l ≤ i → i ≤ j → j ≤ r → cmp (m' i) (m' j) ≤ 0) ∧
      (∀ i k, i < l → l ≤ k → k ≤ r → cmp (m' i) (m' k) ≤ 0) ∧
      (∀ k j, l ≤ k → k ≤ r → r < j → j < n → cmp (m' k) (m' j) ≤ 0) ∧
      ∀ f, Rearranged 0 n m f → (∀ i j, i ≤ j → j < n → cmp (f i) (f j) ≤ 0) →
        ∀ k, l ≤ k → k ≤ r → cmp (f k) (m' k) = 0 := by
  obtain ⟨m', hrun, hre, hwindow⟩ := pqsortLoop_spec hcmp base hes l r (Nat.lt_succ_self n) m 0
  rw [zero_add] at hre hwindow
  refine ⟨m', fun fuel hfuel => ?_, hre.perm, ?_, ?_, ?_, ?_⟩
  · rw [pqsort_range]
    exact pqsortLoop_mono_le hfuel hrun
  · intro i j hi hij hj
    exact hwindow i j (Nat.zero_le i) hij (by omega) (Or.inl ⟨hi, by omega⟩)
  · intro i k hi hk hkr
    exact hwindow i k (Nat.zero_le i) (by omega) (by omega) (Or.inr ⟨hk, hkr⟩)
  · intro k j hk hkr hj hjn
    exact hwindow k j (Nat.zero_le k) (by omega) hjn (Or.inl ⟨hk, hkr⟩)
  · intro f hf hsorted k hk hkr
    refine (hre.symm.trans hf).same_class hcmp hsorted (by omega) (fun j hj => ?_) (fun j hj hjn => ?_)
    · exact hwindow j k (Nat.zero_le j) hj (by omega) (Or.inr ⟨hk, hkr⟩)
    · exact hwindow k j (Nat.zero_le k) hj hjn (Or.inl ⟨hk, hkr⟩)

/-- Numbers are compared by their difference. -/
theorem preordered_sub : Preordered (fun x y : Int => x - y) where
  swapped := fun x y => by omega
  trans := fun x y z hxy hyz => by omega

/-- The first two of nine numbers. -/
theorem pqsort_window_nine :
    ∃ m', (∀ fuel, 9 < fuel → pqsort (fun x y : Int => x - y) fuel 64 (fun i => (3 - i) * (i - 5)) 9 8 0 1
        = some m') ∧
      ((List.range 9).map m').Perm ((List.range 9).map (fun i : Nat => (3 - i : Int) * (i - 5))) ∧
      (∀ i j, 0 ≤ i → i ≤ j → j ≤ 1 → m' i - m' j ≤ 0) ∧
      (∀ i k, i < 0 → 0 ≤ k → k ≤ 1 → m' i - m' k ≤ 0) ∧
      (∀ k j, 0 ≤ k → k ≤ 1 → 1 < j → j < 9 → m' k - m' j ≤ 0) ∧
      ∀ f, Rearranged 0 9 (fun i : Nat => (3 - i : Int) * (i - 5)) f → (∀ i j, i ≤ j → j < 9 → f i - f j ≤ 0) →
        ∀ k, 0 ≤ k → k ≤ 1 → f k - m' k = 0 :=
  pqsort_window preordered_sub 64 (by decide) _ (by decide)

end Proofs

end Redis.Sort
