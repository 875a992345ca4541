import Redis.Sort.Command

namespace Redis.Sort

open Outcome Object

/-!
# The weights of a numeric `SORT`

Whether `SORT` finds that a weight is no number depends on the weights and on `errno`.

* `Accepted`, `Parses` — what the code takes for a number, and what is one;
* `loadScores_error` — when the flag is set;
* `ErrorExact` — the error is replied for the weights that are no numbers, and for no others;
* `sort_error_iff` — when this is so.
-/

variable {D : Type} {env : SortEnv D}

namespace Collection

/-- The elements that are sorted, in the order in which they are loaded. -/
def elements : Collection → List StringObject
  | list elements | set elements | zset _ elements => elements

/-- There are ranks: then the range alone is loaded if nothing is sorted. -/
def Ordered : Collection → Prop
  | set _ => False
  | list _ | zset _ _ => True

end Collection

/-- The weight is a string, for `strtod`. -/
def IsText : StringObject → Prop
  | .sds _ => True
  | .int _ _ => False

/-- The weight passes the check, `errno` apart. -/
def Accepted (env : SortEnv D) : StringObject → Prop
  | .sds ptr => ptr.getD (env.strtod ptr).endptr 0 = 0 ∧ (env.strtod ptr).erange = false ∧
      env.isnan (env.strtod ptr).value = false
  | .int _ _ => True

/-- All of the weight, and not nothing, is a number that is in range. -/
def Parses (env : SortEnv D) : StringObject → Prop
  | .sds ptr => ((env.strtod ptr).endptr = ptr.length ∧ ptr ≠ []) ∧ (env.strtod ptr).erange = false ∧
      env.isnan (env.strtod ptr).value = false
  | .int _ _ => True

theorem Parses.accepted {w : StringObject} (h : Parses env w) : Accepted env w := by
  cases w with
  | sds ptr =>
    obtain ⟨⟨hend, -⟩, hrange, hnan⟩ := h
    refine ⟨?_, hrange, hnan⟩
    rw [hend, List.getD_eq_default _ _ le_rfl]
  | int ptr shared => trivial

/-- The weights of a command. -/
def weights (read : Bytes → Option (Value Collection)) (o : SortOptions) (l : List StringObject) : List StringObject :=
  l.filterMap (weightOf read o)

variable (env) in
/-- One weight: `errno` and the flag after it. -/
theorem loadScore_error (read : Bytes → Option (Value Collection)) {o : SortOptions} (halpha : o.alpha = false)
    (st : List (SortObject D) × Bool × Bool) (obj : StringObject) :
    ((loadScore env read o st obj).2.1 = true → st.2.1 = true ∨ (loadScore env read o st obj).2.2 = true) ∧
      (st.2.1 = true → (loadScore env read o st obj).2.1 = true) ∧
      ((loadScore env read o st obj).2.2 = true ↔ st.2.2 = true ∨
        ∃ w, weightOf read o obj = some w ∧ (st.2.1 = true ∧ IsText w ∨ ¬ Accepted env w)) := by
  unfold loadScore
  cases hw : weightOf read o obj with
  | none => simpa using fun h => Or.inl h
  | some w =>
    cases w with
    | int ptr shared => simpa [halpha, IsText, Accepted] using fun h => Or.inl h
    | sds ptr =>
      cases hrange : (env.strtod ptr).erange <;> cases herrno : st.2.1 <;>
        simp [halpha, IsText, Accepted, hrange, or_comm, imp_iff_not_or]

variable (env) in
/-- **The flag** is set by a weight that does not pass, and by any string if `errno` is `ERANGE` before. -/
theorem loadScores_error (read : Bytes → Option (Value Collection)) {o : SortOptions} (halpha : o.alpha = false)
    (hsort : o.dontsort = false) (erange : Bool) (l : List StringObject) :
    (loadScores env read o erange l).2.2 = true ↔
      (erange = true ∧ ∃ w ∈ weights read o l, IsText w) ∨ ∃ w ∈ weights read o l, ¬ Accepted env w := by
  suffices h : ∀ st : List (SortObject D) × Bool × Bool, (l.foldl (loadScore env read o) st).2.2 = true ↔
      st.2.2 = true ∨ (st.2.1 = true ∧ ∃ w ∈ weights read o l, IsText w) ∨
        ∃ w ∈ weights read o l, ¬ Accepted env w by
    rw [loadScores, if_neg (by simp [hsort]), h]
    simp
  induction l with
  | nil => simp [weights]
  | cons obj l ih =>
    intro st
    obtain ⟨herrno, hstays, hflag⟩ := loadScore_error env read halpha st obj
    have hmem : ∀ w, w ∈ weights read o (obj :: l) ↔ weightOf read o obj = some w ∨ w ∈ weights read o l := by
      intro w
      simp only [weights, List.mem_filterMap, List.mem_cons, or_and_right, exists_or, exists_eq_left]
    rw [List.foldl_cons, ih, hflag]
    simp only [hmem]
    constructor
    · rintro ((h | ⟨w, hw, ⟨h, ht⟩ | h⟩) | ⟨h, w, hw, ht⟩ | ⟨w, hw, h⟩)
      · exact Or.inl h
      · exact Or.inr (Or.inl ⟨h, w, Or.inl hw, ht⟩)
      · exact Or.inr (Or.inr ⟨w, Or.inl hw, h⟩)
      · -- `ERANGE` from before, or from this weight
        rcases herrno h with h | h
        · exact Or.inr (Or.inl ⟨h, w, Or.inr hw, ht⟩)
        · rcases hflag.mp h with h | ⟨w', hw', ⟨h, ht'⟩ | h⟩
          · exact Or.inl h
          · exact Or.inr (Or.inl ⟨h, w', Or.inl hw', ht'⟩)
          · exact Or.inr (Or.inr ⟨w', Or.inl hw', h⟩)
      · exact Or.inr (Or.inr ⟨w, Or.inr hw, h⟩)
    · rintro (h | ⟨h, w, hw | hw, ht⟩ | ⟨w, hw | hw, h⟩)
      · exact Or.inl (Or.inl h)
      · exact Or.inl (Or.inr ⟨w, hw, Or.inl ⟨h, ht⟩⟩)
      · exact Or.inr (Or.inl ⟨hstays h, w, hw, ht⟩)
      · exact Or.inl (Or.inr ⟨w, hw, Or.inr h⟩)
      · exact Or.inr (Or.inr ⟨w, hw, h⟩)

/-! ### The command -/

section Command

variable {kenv : KeyEnv} {s : Server (Value Collection)} {d : DbId} {v : Collection} {o : SortOptions} {erange : Bool}

theorem forceAlpha_limit (lua : Bool) (v : Collection) (o : SortOptions) :
    (forceAlpha lua v o).limitStart = o.limitStart ∧ (forceAlpha lua v o).limitCount = o.limitCount := by
  unfold forceAlpha
  split
  · split <;> exact ⟨rfl, rfl⟩
  · exact ⟨rfl, rfl⟩

/-- The vector of all elements can be loaded if there are fewer than `2^31`. -/
theorem loadVector_all (v : Collection) (hall : ¬ (o.dontsort = true ∧ v.Ordered)) (start fin : Int) :
    if v.elements.length < 2 ^ 31 then loadVector o v start fin = .ok (v.elements, start, fin)
    else ∃ fault, loadVector o v start fin = .error fault := by
  have hload : loadVector o v start fin
      = (loadAll v.elements (wrap32 v.elements.length) >>= fun l => .ok (l, start, fin)) := by
    unfold loadVector
    cases v with
    | set elements => rfl
    | list elements | zset ranked elements => exact if_neg (fun h => hall ⟨h, trivial⟩)
  rw [hload]
  by_cases hlt : v.elements.length < 2 ^ 31
  · have hwrap : wrap32 v.elements.length = v.elements.length := Int.bmod_eq_of_le (by omega) (by omega)
    rw [if_pos hlt, loadAll, hwrap, if_neg (by omega), if_neg (by omega), if_pos rfl]
    rfl
  · have hwrap : wrap32 v.elements.length < v.elements.length := by
      have hlt' := Int.bmod_lt (x := v.elements.length) (m := 4294967296) (by decide)
      unfold wrap32
      omega
    rw [if_neg hlt, loadAll]
    by_cases hneg : wrap32 v.elements.length < 0
    · rw [if_pos hneg]
      exact ⟨_, rfl⟩
    · rw [if_neg hneg, if_pos hwrap]
      exact ⟨_, rfl⟩

/-- `pqsort` ends for any comparison and range. -/
theorem pqsortVector_ends {α : Type} (cmp : α → α → Int) (base : Nat) (l : List α) (start fin : Int) :
    ∃ l', pqsortVector cmp base l start fin = some l' ∧ l'.length = l.length := by
  cases l with
  | nil => exact ⟨[], rfl, rfl⟩
  | cons x l =>
    obtain ⟨m, hm⟩ := pqsortLoop_ends cmp base (show 0 < 16 by decide) _ _ (Nat.lt_succ_self (x :: l).length)
      (fun i => (x :: l).getD i x) 0
    exact ⟨_, congrArg (Option.map _) hm, by rw [List.length_map, List.length_range]⟩

variable (env) in
theorem sortVector_ends (o : SortOptions) (l : List (SortObject D)) (start fin : Int) :
    ∃ l', sortVector env o l start fin = some l' := by
  unfold sortVector
  split
  · exact ⟨l, rfl⟩
  · split
    · obtain ⟨l', hl', -⟩ := pqsortVector_ends (sortCompare env o) env.vector l start fin
      exact ⟨l', hl'⟩
    · exact ⟨_, rfl⟩

/-- The output is no error. -/
theorem sortOutput_reply {read : Bytes → Option (Value Collection)} {l : List (SortObject D)} {start fin : Int}
    {r : Server (Value Collection) × SortReply} (h : sortOutput kenv s d read o l start fin = .ok r) (text : String) :
    r.2 ≠ .error text := by
  obtain ⟨elements, -, h⟩ := bind_eq_ok.mp h
  cases hstore : o.storekey with
  | none =>
    simp only [hstore] at h
    obtain rfl := Except.ok.inj h
    simp
  | some storekey =>
    simp only [hstore] at h
    obtain ⟨s', -, h⟩ := bind_eq_ok.mp h
    obtain rfl := Except.ok.inj h
    simp

variable (kenv s d erange) in
/-- The error is replied exactly if the flag is set, and then nothing else happens. -/
theorem sortWith_error (hsort : (forceAlpha env.lua v o).dontsort = false) (hlt : v.elements.length < 2 ^ 31) :
    ((loadScores env (readValue kenv 0 (s.dbs d)) (forceAlpha env.lua v o) erange v.elements).2.2 = true →
      ∃ e, sortWith env kenv s d v o erange = .ok (s, .error scoreError, e)) ∧
    ((loadScores env (readValue kenv 0 (s.dbs d)) (forceAlpha env.lua v o) erange v.elements).2.2 = false →
      ¬ ∃ s' e, sortWith env kenv s d v o erange = .ok (s', .error scoreError, e)) := by
  have hload := loadVector_all v (fun h => Bool.false_ne_true (hsort.symm.trans h.1)) (sortRange o.limitStart o.limitCount (vectorLength v)).1
    (sortRange o.limitStart o.limitCount (vectorLength v)).2
  rw [if_pos hlt] at hload
  unfold sortWith
  simp only [(forceAlpha_limit env.lua v o).1, (forceAlpha_limit env.lua v o).2, hload, ok_bind]
  set scores := loadScores env (readValue kenv 0 (s.dbs d)) (forceAlpha env.lua v o) erange v.elements
  obtain ⟨l, hl⟩ := sortVector_ends env (forceAlpha env.lua v o) scores.1
    (sortRange o.limitStart o.limitCount (vectorLength v)).1 (sortRange o.limitStart o.limitCount (vectorLength v)).2
  simp only [hl]
  constructor
  · intro hbad
    rw [if_pos hbad]
    exact ⟨_, rfl⟩
  · intro hgood
    rw [hgood, if_neg Bool.false_ne_true]
    rintro ⟨s', e, h⟩
    obtain ⟨r, hr, h⟩ := bind_eq_ok.mp h
    exact sortOutput_reply hr scoreError (Prod.mk.inj (Prod.mk.inj (Except.ok.inj h)).2).1

variable (env kenv s d erange) in
/-- The process ends before anything is replied. -/
theorem sortWith_fault (hall : ¬ ((forceAlpha env.lua v o).dontsort = true ∧ v.Ordered))
    (hlt : ¬ v.elements.length < 2 ^ 31) : ∃ fault, sortWith env kenv s d v o erange = .error fault := by
  have hload := loadVector_all v hall (sortRange o.limitStart o.limitCount (vectorLength v)).1
    (sortRange o.limitStart o.limitCount (vectorLength v)).2
  rw [if_neg hlt] at hload
  obtain ⟨fault, hfault⟩ := hload
  refine ⟨fault, ?_⟩
  unfold sortWith
  simp only [(forceAlpha_limit env.lua v o).1, (forceAlpha_limit env.lua v o).2, hfault]
  rfl

/-- The conversion error depends on the data: it is not replied if all weights are finite numbers, and it is
    replied, and nothing else is done, if some weight is no number. -/
structure ErrorExact (env : SortEnv D) (kenv : KeyEnv) (finite : D → Prop) (s : Server (Value Collection)) (d : DbId)
    (ws : List StringObject) (run : Except SortFault (Server (Value Collection) × SortReply × Bool)) : Prop where
  accepts : (∀ w ∈ ws, Parses env w ∧ ∀ ptr, w = .sds ptr → finite (env.strtod ptr).value) →
    ¬ ∃ s' e, run = .ok (s', .error scoreError, e)
  refuses : (∃ w ∈ ws, ¬ Parses env w) → ∃ e, run = .ok (s, .error scoreError, e)

/-- The collection that `SORT` finds under a key. -/
def Sorts (kenv : KeyEnv) (s : Server (Value Collection)) (d : DbId) (key : Bytes) (v : Collection) : Prop :=
  readValue kenv 0 (s.dbs d) key = some (.other v) ∨ (readValue kenv 0 (s.dbs d) key = none ∧ v = .list [])

theorem sortCommand_eq {key : Bytes} {argv : List Bytes} (hkey : Sorts kenv s d key v)
    (hopts : parseOptions env.clusterEnabled argv .start = .ok o) :
    sortCommand env kenv s d key argv erange = sortWith env kenv s d v o erange := by
  unfold sortCommand
  rcases hkey with hread | ⟨hread, rfl⟩ <;> simp only [hread, hopts]

end Command

/-! ### A list of one element -/

/-- Numbers are integers. -/
def integers : SortEnv Int where
  strtod ptr := ⟨(string2ll ptr).getD 0, if (string2ll ptr).isSome then ptr.length else 0, false⟩
  ofLong n := n
  zero := 0
  isnan _ := false
  gt a b := decide (b < a)
  strcoll a b := compareBytes a b
  qsort cmp l := l.insertionSort (fun a b => cmp a b ≤ 0)
  vector := 16
  clusterEnabled := false
  lua := false

/-- The list of the string `5`. -/
def fiveList : Collection := .list [.sds [53]]

/-- The key `a` holds the list. -/
def fiveAtA : Server (Value Collection) where
  dbs := fun _ => ⟨fun key => if key = [97] then some (.other fiveList) else none, fun _ => none, fun _ => none⟩
  clients := fun _ => none
  clientList := []
  log := []

end Redis.Sort
