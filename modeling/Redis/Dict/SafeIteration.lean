import Redis.Dict.Iterator
import Mathlib.Logic.Relation

namespace Redis

open Outcome

/-!
# Safe iterations

While a safe iterator is open no bucket moves between the tables, so a modification is an
edit of single chains: a key is linked in front of its chain, or unlinked from it.

* `Dict.Edited` — what one operation does to the chains, and its instances for
  `dictFind`, `dictAdd`, `dictReplace` and `dictDelete`;
* `IterStep` — the steps of a safe iteration;
* `IterInv` — a key is returned at most once for each time it got into the dictionary,
  and every key of the start is returned or still ahead;
* `safeIteration_exact` — the guarantee over whole runs.
-/

variable {K V : Type} [DecidableEq K] {hash : K → BitVec 32}

/-! ### Edits of single chains -/

/-- The chains of `d'` are those of `d`, except that the key `ins` may have been linked in
    front of a chain and the key `del` unlinked from its chain. -/
structure Dict.Edited (d d' : Dict K V) (ins del : Option K) : Prop where
  iterators : d'.iterators = d.iterators
  rehashing : d.isRehashing = true → d'.isRehashing = true
  chains : ∀ t i, t ≤ 1 → d'.chainKeys t i = d.chainKeys t i ∨
    (∃ k, ins = some k ∧ d'.chainKeys t i = k :: d.chainKeys t i) ∨
    (∃ k, del = some k ∧ d'.chainKeys t i = (d.chainKeys t i).erase k)

/-- The same chains, up to values and the start of a rehash into an empty table. -/
structure Dict.SameChains (d d' : Dict K V) : Prop where
  iterators : d'.iterators = d.iterators
  rehashing : d.isRehashing = true → d'.isRehashing = true
  chains : ∀ t i, t ≤ 1 → d'.chainKeys t i = d.chainKeys t i

omit [DecidableEq K] in
theorem Dict.SameChains.trans {d d' d'' : Dict K V} (h : d.SameChains d')
    (h' : d'.SameChains d'') : d.SameChains d'' :=
  ⟨h'.iterators.trans h.iterators, fun hre => h'.rehashing (h.rehashing hre),
    fun t i ht => (h'.chains t i ht).trans (h.chains t i ht)⟩

theorem Dict.SameChains.edited {d d' : Dict K V} (h : d.SameChains d') (ins del : Option K) :
    d.Edited d' ins del :=
  ⟨h.iterators, h.rehashing, fun t i ht => Or.inl (h.chains t i ht)⟩

omit [DecidableEq K] in
/-- Starting a rehash leaves the chains: the new table is empty. -/
theorem Dict.Expanded.sameChains {d d' : Dict K V} {size : Nat} {st : DictStatus}
    (h : d.Inv hash) (hex : d.Expanded size st d') (hk : @Dict.Kept K V hash d d') :
    d.SameChains d' := by
  have hempty : ∀ (t : DictHt K V) (i : Nat), t.entries = [] → t.bucket i = [] := by
    intro t i ht
    by_contra hne
    obtain ⟨e, he⟩ := List.exists_mem_of_ne_nil _ hne
    have hmem := DictHt.mem_entries_iff.mpr ⟨i, he⟩
    rw [ht] at hmem
    simp at hmem
  cases hex with
  | refused => exact ⟨rfl, id, fun _ _ _ => rfl⟩
  | first n hidle h0 hn =>
    have hold := h.wf0.entries_eq_nil_of_size h0
    have hnew : n.entries = [] := by
      have he := hk.entries
      rw [Dict.entries, Dict.entries, hold, List.nil_append] at he
      simpa using he
    refine ⟨rfl, id, fun t i ht => ?_⟩
    rcases Nat.le_one_iff_eq_zero_or_eq_one.mp ht with rfl | rfl
    · show (n.bucket i).map _ = (d.ht0.bucket i).map _
      rw [hempty n i hnew, hempty _ i hold]
    · rfl
  | started n hidle h0 hn =>
    have hold : d.ht1.entries = [] := by rw [h.idle hidle]; rfl
    have hnew : n.entries = [] := by
      have he := hk.entries
      rw [Dict.entries, Dict.entries, hold, List.append_nil] at he
      simpa using he
    refine ⟨rfl, fun _ => by simp, fun t i ht => ?_⟩
    rcases Nat.le_one_iff_eq_zero_or_eq_one.mp ht with rfl | rfl
    · rfl
    · show (n.bucket i).map _ = (d.ht1.bucket i).map _
      rw [hempty n i hnew, hempty _ i hold]

omit [DecidableEq K] in
theorem dictExpandIfNeeded_sameChains {d : Dict K V} (h : d.Inv hash) (can : Bool) :
    Sat (dictExpandIfNeeded can d) (fun r => d.SameChains r.2) (fun _ => True) := by
  have hsame : d.SameChains d := ⟨rfl, id, fun _ _ _ => rfl⟩
  have hexpand : ∀ size, Sat (dictExpand d size) (fun r => d.SameChains r.2) (fun _ => True) :=
    fun size => (dictExpand_spec h size).mono (fun r hr => hr.2.1.sameChains h hr.1)
      (fun _ _ => trivial)
  rw [dictExpandIfNeeded]
  exact Sat.ite (fun _ => hsame) (fun _ => Sat.ite (fun _ => hexpand _)
    (fun _ => Sat.ite (fun _ => hexpand _) (fun _ => hsame)))

theorem dictKeyIndex_sameChains {d : Dict K V} (h : d.Inv hash) (can : Bool) (key : K) :
    Sat (dictKeyIndex hash can d key) (fun r => d.SameChains r.2) (fun _ => True) := by
  rw [dictKeyIndex]
  refine Sat.bind (dictExpandIfNeeded_sameChains h can) ?_
  rintro ⟨st, d'⟩ hd'
  refine Sat.ite (fun _ => hd') (fun _ => Sat.ite (fun _ => hd') (fun _ => ?_))
  exact Sat.ite (fun _ => hd') (fun _ => Sat.ite (fun _ => hd') (fun _ => hd'))

/-- Writing a value leaves the chains. -/
theorem dictSetVal_sameChains (d : Dict K V) (r : DictEntryRef K) (val : V) :
    d.SameChains (dictSetVal d r val) := by
  have hkeys : ∀ (t : DictHt K V) (i : Nat),
      ((t.setBucket r.index ((t.bucket r.index).map
        (fun e => if e.key = r.key then { e with v := some val } else e))).bucket i).map
        DictEntry.key = (t.bucket i).map DictEntry.key := by
    intro t i
    by_cases hlt : r.index < t.table.length
    · rw [t.bucket_setBucket hlt]
      split
      · rename_i hi
        subst hi
        exact keys_map_setV r.key val _
      · rfl
    · have hset : t.setBucket r.index ((t.bucket r.index).map
          (fun e => if e.key = r.key then { e with v := some val } else e)) = t := by
        rw [DictHt.setBucket, List.set_eq_of_length_le (by omega)]
      rw [hset]
  by_cases h0 : r.table = 0
  · refine ⟨by simp [dictSetVal, Dict.setHt, h0], by simp [dictSetVal, Dict.setHt, h0],
      fun t i ht => ?_⟩
    rcases Nat.le_one_iff_eq_zero_or_eq_one.mp ht with rfl | rfl
    · simpa [dictSetVal, Dict.setHt, h0, Dict.chainKeys, Dict.ht] using hkeys d.ht0 i
    · simp [dictSetVal, Dict.setHt, h0, Dict.chainKeys, Dict.ht]
  · refine ⟨by simp [dictSetVal, Dict.setHt, h0], by simp [dictSetVal, Dict.setHt, h0],
      fun t i ht => ?_⟩
    rcases Nat.le_one_iff_eq_zero_or_eq_one.mp ht with rfl | rfl
    · simp [dictSetVal, Dict.setHt, h0, Dict.chainKeys, Dict.ht]
    · simpa [dictSetVal, Dict.setHt, h0, Dict.chainKeys, Dict.ht] using hkeys d.ht1 i

omit [DecidableEq K] in
/-- The chains after writing one of the tables back. -/
theorem Dict.chainKeys_setHt (d : Dict K V) {t t' : Nat} (ht : t ≤ 1) (ht' : t' ≤ 1)
    (u : DictHt K V) (i : Nat) :
    (d.setHt t u).chainKeys t' i
      = if t' = t then (u.bucket i).map DictEntry.key else d.chainKeys t' i := by
  rcases Nat.le_one_iff_eq_zero_or_eq_one.mp ht with rfl | rfl <;>
    rcases Nat.le_one_iff_eq_zero_or_eq_one.mp ht' with rfl | rfl <;> rfl

omit [DecidableEq K] in
theorem Dict.setHt_iterators (d : Dict K V) (t : Nat) (u : DictHt K V) :
    (d.setHt t u).iterators = d.iterators ∧ (d.setHt t u).isRehashing = d.isRehashing := by
  rw [Dict.setHt]
  split <;> exact ⟨rfl, rfl⟩

omit [DecidableEq K] in
/-- Linking an entry in front of a chain. -/
theorem DictHt.bucket_push (u : DictHt K V) (index : Nat) (e : DictEntry K V) (i : Nat) :
    (u.push index e).bucket i = u.bucket i ∨ (u.push index e).bucket i = e :: u.bucket i := by
  have hset : (u.push index e).bucket i = (u.setBucket index (e :: u.bucket index)).bucket i := rfl
  rw [hset]
  by_cases hlt : index < u.table.length
  · rw [u.bucket_setBucket hlt]
    split
    · rename_i hi
      exact Or.inr (hi ▸ rfl)
    · exact Or.inl rfl
  · left
    rw [DictHt.setBucket, List.set_eq_of_length_le (by omega)]

/-- Unlinking an entry from a chain, seen on the keys. -/
theorem map_key_eraseP (l : List (DictEntry K V)) (key : K) :
    (l.eraseP (fun e => e.key = key)).map DictEntry.key = (l.map DictEntry.key).erase key := by
  rw [List.erase_eq_eraseP', List.eraseP_map]
  congr 1

section Suppressed

variable {d : Dict K V} (hit : d.iterators ≠ 0)
include hit

theorem dictFind_eq_self (key : K) :
    Sat (dictFind hash d key) (fun r => r.2 = d) (fun _ => True) := by
  rw [dictFind, dictRehashStepIfNeeded_of_iterators hit]
  refine Sat.ite (fun _ => rfl) (fun _ => Sat.ite (fun _ => rfl) (fun _ => ?_))
  exact Sat.ite (fun _ => rfl) (fun _ => Sat.ite (fun _ => rfl) (fun _ => rfl))

/-- `dictAddRaw` with the rehash step suppressed: nothing, or one key linked. -/
theorem dictAddRaw_edited (h : d.Inv hash) (can : Bool) (key : K) :
    Sat (dictAddRaw hash can d key)
      (fun r => match r.1 with
        | none => d.SameChains r.2
        | some _ => d.Edited r.2 (some key) none) (fun _ => True) := by
  rw [dictAddRaw, dictRehashStepIfNeeded_of_iterators hit]
  refine Sat.bind (Q := fun r => r = d) rfl ?_
  intro d₀ hd₀
  rw [show d₀ = d from hd₀]
  refine Sat.bind (dictKeyIndex_sameChains h can key) ?_
  rintro ⟨index, d₁⟩ hsame
  replace hsame : d.SameChains d₁ := hsame
  cases index with
  | none => exact hsame
  | some index =>
    set table : Nat := if d₁.isRehashing then 1 else 0
    set d₂ := d₁.setHt table ((d₁.ht table).push index { key := key, v := none }) with hd₂
    have htable : table ≤ 1 := by
      show (if d₁.isRehashing then 1 else 0) ≤ 1
      split <;> omega
    have h₂ := d₁.setHt_iterators table ((d₁.ht table).push index { key := key, v := none })
    refine ⟨h₂.1.trans hsame.iterators, fun hre => h₂.2.trans (hsame.rehashing hre),
      fun t i ht => ?_⟩
    rw [← hsame.chains t i ht]
    show d₂.chainKeys t i = _ ∨ _
    rw [hd₂, d₁.chainKeys_setHt htable ht]
    split
    · rename_i heq
      subst heq
      rcases (d₁.ht table).bucket_push index { key := key, v := none } i with hc | hc
      · exact Or.inl (by rw [hc]; rfl)
      · exact Or.inr (Or.inl ⟨key, rfl, by rw [hc]; rfl⟩)
    · exact Or.inl rfl

theorem dictAdd_edited (h : d.Inv hash) (can : Bool) (key : K) (val : V) :
    Sat (dictAdd hash can d key val)
      (fun r => match r.1 with
        | .err => d.SameChains r.2
        | .ok => d.Edited r.2 (some key) none) (fun _ => True) := by
  rw [dictAdd]
  refine Sat.bind (dictAddRaw_edited hit h can key) ?_
  rintro ⟨entry, d₁⟩ hadd
  cases entry with
  | none => exact hadd
  | some entry =>
    have hset := dictSetVal_sameChains d₁ entry val
    refine ⟨hset.iterators.trans hadd.iterators, fun hre => hset.rehashing (hadd.rehashing hre),
      fun t i ht => ?_⟩
    rw [hset.chains t i ht]
    exact hadd.chains t i ht

/-- `dictReplace` of a key that is present only writes its value. -/
theorem dictReplace_sameChains (h : d.Inv hash) (can : Bool) {key : K} (hkey : key ∈ d.keys)
    (val : V) :
    Sat (dictReplace hash can d key val) (fun r => d.SameChains r.2) (fun _ => True) := by
  rw [dictReplace]
  refine Sat.bind (((dictAdd_spec h can key val).and (dictAdd_edited hit h can key val)).mono
    (fun _ hr => hr) (fun _ _ => trivial)) ?_
  rintro ⟨st, d₁⟩ ⟨hspec, hed⟩
  cases st with
  | ok => exact absurd hkey hspec.1
  | err =>
    have hsame : d.SameChains d₁ := hed
    have hit₁ : d₁.iterators ≠ 0 := by rw [hsame.iterators]; exact hit
    simp only [reduceCtorEq, if_false]
    refine Sat.bind (dictFind_eq_self hit₁ key) ?_
    rintro ⟨entry, d₂⟩ hd₂
    obtain rfl : d₂ = d₁ := hd₂
    cases entry with
    | none => exact trivial
    | some entry => exact hsame.trans (dictSetVal_sameChains d₂ entry val)

/-- `dictDelete` unlinks the key from its chain. -/
theorem dictDelete_edited (key : K) :
    Sat (dictDelete hash d key) (fun r => d.Edited r.2 none (some key)) (fun _ => True) := by
  have hsame : d.Edited d none (some key) :=
    Dict.SameChains.edited ⟨rfl, id, fun _ _ _ => rfl⟩ _ _
  have hunlink : ∀ {i d'}, i ≤ 1 → dictUnlink hash d i key = some d' →
      d.Edited d' none (some key) := by
    intro i d' hi heq
    rw [dictUnlink] at heq
    simp only at heq
    split at heq
    · rename_i hhas
      obtain rfl := Option.some.inj heq
      have hlt : (d.ht i).index hash key < (d.ht i).table.length := by
        rw [chainHas, List.any_eq_true] at hhas
        obtain ⟨e, he, -⟩ := hhas
        exact DictHt.lt_length_of_mem_bucket he
      refine ⟨(d.setHt_iterators _ _).1, fun hre => (d.setHt_iterators _ _).2.trans hre,
        fun t j ht => ?_⟩
      rw [d.chainKeys_setHt hi ht]
      split
      · rename_i hti
        subst hti
        have hbucket := (d.ht t).bucket_setBucket hlt
          (((d.ht t).bucket ((d.ht t).index hash key)).eraseP (fun e => e.key = key)) j
        rw [DictHt.bucket] at hbucket ⊢
        rw [hbucket]
        split
        · rename_i hij
          subst hij
          exact Or.inr (Or.inr ⟨key, rfl, map_key_eraseP _ key⟩)
        · exact Or.inl rfl
      · exact Or.inl rfl
    · simp at heq
  rw [dictDelete, dictGenericDelete, dictRehashStepIfNeeded_of_iterators hit]
  refine Sat.ite (fun _ => hsame) (fun _ => ?_)
  refine Sat.bind_ok rfl ?_
  cases h0 : dictUnlink hash d 0 key with
  | some d' => exact hunlink (by omega) h0
  | none =>
    refine Sat.ite (fun _ => hsame) (fun _ => ?_)
    cases h1 : dictUnlink hash d 1 key with
    | some d' => exact hunlink (le_refl _) h1
    | none => exact hsame

end Suppressed

/-! ### What an edit does to an iterator -/

/-- No entry has moved: a key that is still there is in the bucket where it was. -/
def Dict.Unmoved (d d' : Dict K V) : Prop :=
  ∀ t i k, t ≤ 1 → k ∈ d.chainKeys t i → k ∈ d'.keys → k ∈ d'.chainKeys t i

theorem Dict.Edited.mem_or {d d' : Dict K V} {ins del : Option K} (hed : d.Edited d' ins del)
    {t i : Nat} {k : K} (ht : t ≤ 1) (hk : k ∈ d'.chainKeys t i) :
    k ∈ d.chainKeys t i ∨ ins = some k := by
  rcases hed.chains t i ht with h | ⟨k₀, hins, h⟩ | ⟨k₀, -, h⟩
  · exact Or.inl (h ▸ hk)
  · rw [h] at hk
    rcases List.mem_cons.mp hk with rfl | hk
    · exact Or.inr hins
    · exact Or.inl hk
  · rw [h] at hk
    exact Or.inl (List.mem_of_mem_erase hk)

theorem Dict.Edited.mem_of_ne {d d' : Dict K V} {ins del : Option K} (hed : d.Edited d' ins del)
    {t i : Nat} {k : K} (ht : t ≤ 1) (hk : k ∈ d.chainKeys t i) (hne : del ≠ some k) :
    k ∈ d'.chainKeys t i := by
  rcases hed.chains t i ht with h | ⟨k₀, -, h⟩ | ⟨k₀, hdel, h⟩
  · exact h ▸ hk
  · rw [h]
    exact List.mem_cons_of_mem _ hk
  · rw [h]
    exact (List.mem_erase_of_ne (by rintro rfl; exact hne hdel)).mpr hk

theorem Dict.Edited.unmoved {d d' : Dict K V} {ins del : Option K} (h : d.Inv hash)
    (hed : d.Edited d' ins del) (hins : ∀ k, ins = some k → k ∉ d.keys) : d.Unmoved d' := by
  intro t i k ht hk hk'
  obtain ⟨t', i', ht', hmem⟩ := Dict.exists_chainKeys hk'
  rcases hed.mem_or ht' hmem with hold | hnew
  · obtain ⟨rfl, rfl⟩ := h.chainKeys_unique ht ht' hk hold
    exact hmem
  · exact absurd (Dict.mem_keys_of_chainKeys hk) (hins k hnew)

/-- **An edit under an iterator.**  The iterator stays valid; the keys ahead of it are the
    same, but for the one linked and the one unlinked. -/
theorem Dict.Edited.ahead {d d' : Dict K V} {ins del : Option K} {iter : DictIterator K}
    (hed : d.Edited d' ins del) (hok : iter.Ok d) (hins : ∀ k, ins = some k → k ∉ d.keys)
    (hdel : ∀ k, del = some k → iter.entry.isSome → ∀ n, iter.nextEntry = some n → n.key ≠ k) :
    iter.Ok d' ∧ (∀ k, iter.Ahead d' k → iter.Ahead d k ∨ ins = some k) ∧
    (∀ k, del ≠ some k → iter.Ahead d k → iter.Ahead d' k) := by
  -- the part of the present chain from the saved entry on
  have hfrom : iter.entry.isSome → ∀ n, iter.nextEntry = some n → ∀ k,
      (k ∈ chainFrom n.key (d'.chainKeys n.table n.index) →
        k ∈ chainFrom n.key (d.chainKeys n.table n.index)) ∧
      (del ≠ some k → k ∈ chainFrom n.key (d.chainKeys n.table n.index) →
        k ∈ chainFrom n.key (d'.chainKeys n.table n.index)) := by
    intro hsome n hn k
    obtain ⟨hnt, -, hnk⟩ := hok.linked hsome n hn
    rcases hed.chains n.table n.index (hnt ▸ hok.table_le) with h | ⟨k₀, hk₀, h⟩ | ⟨k₀, hk₀, h⟩
    · rw [h]
      exact ⟨id, fun _ => id⟩
    · have hne : k₀ ≠ n.key := by
        rintro rfl
        exact hins _ hk₀ (Dict.mem_keys_of_chainKeys hnk)
      rw [h, chainFrom_cons_ne hne]
      exact ⟨id, fun _ => id⟩
    · rw [h]
      have hmem := mem_chainFrom_erase (c := d.chainKeys n.table n.index)
        (Ne.symm (hdel k₀ hk₀ hsome n hn)) (k := k)
      exact ⟨hmem.1, fun hne => hmem.2 (by rintro rfl; exact hne hk₀)⟩
  refine ⟨⟨hok.table_le, hok.index_ge, fun h1 => ?_, hok.started, fun hsome n hn => ?_⟩, ?_, ?_⟩
  · exact ⟨hed.rehashing (hok.rehashing h1).1, (hok.rehashing h1).2⟩
  · obtain ⟨hnt, hni, hnk⟩ := hok.linked hsome n hn
    refine ⟨hnt, hni, hed.mem_of_ne (hnt ▸ hok.table_le) hnk (fun hcon => ?_)⟩
    exact hdel _ hcon hsome n hn rfl
  · rintro k (⟨t, i, ht, hk, hpos⟩ | ⟨hsome, n, hn, hk⟩)
    · rcases hed.mem_or ht hk with hold | hnew
      · exact Or.inl (Or.inl ⟨t, i, ht, hold, hpos⟩)
      · exact Or.inr hnew
    · exact Or.inl (Or.inr ⟨hsome, n, hn, (hfrom hsome n hn k).1 hk⟩)
  · rintro k hne (⟨t, i, ht, hk, hpos⟩ | ⟨hsome, n, hn, hk⟩)
    · exact Or.inl ⟨t, i, ht, hed.mem_of_ne ht hk hne, hpos⟩
    · exact Or.inr ⟨hsome, n, hn, (hfrom hsome n hn k).2 hne hk⟩

/-! ### Whole iterations -/

/-- A safe iteration in progress: `dict_can_resize`, the dictionary, the iterator, the keys
    returned and the keys added so far. -/
structure IterState (K V : Type) where
  can : Bool
  dict : Dict K V
  iter : DictIterator K
  returned : List K
  added : List K

/-- The state right after `dictGetSafeIterator`. -/
def IterState.start (can : Bool) (d : Dict K V) : IterState K V :=
  { can := can, dict := d, iter := dictGetSafeIterator, returned := [], added := [] }

variable (hash) in
/-- The steps of a safe iteration: a call of `dictNext` that returns an entry, and between
    two such calls lookups, additions, replacements of existing keys and the deletion of
    the entry just returned. -/
inductive IterStep : IterState K V → IterState K V → Prop
  | next {σ : IterState K V} {r : DictEntryRef K} {iter' : DictIterator K} {d' : Dict K V}
      (hcall : dictNext σ.dict σ.iter = .ok (some r, iter', d')) :
      IterStep σ { σ with dict := d', iter := iter', returned := σ.returned ++ [r.key] }
  | find {σ : IterState K V} {key : K} {r : Option (DictEntryRef K)} {d' : Dict K V}
      (hstarted : σ.returned ≠ []) (hcall : dictFind hash σ.dict key = .ok (r, d')) :
      IterStep σ { σ with dict := d' }
  | add {σ : IterState K V} {key : K} {val : V} {st : DictStatus} {d' : Dict K V}
      (hstarted : σ.returned ≠ []) (hcall : dictAdd hash σ.can σ.dict key val = .ok (st, d')) :
      IterStep σ
        { σ with dict := d', added := if st = .ok then σ.added ++ [key] else σ.added }
  | replace {σ : IterState K V} {key : K} {val : V} {added : Bool} {d' : Dict K V}
      (hstarted : σ.returned ≠ []) (hkey : key ∈ σ.dict.keys)
      (hcall : dictReplace hash σ.can σ.dict key val = .ok (added, d')) :
      IterStep σ { σ with dict := d' }
  | delete {σ : IterState K V} {key : K} {st : DictStatus} {d' : Dict K V}
      (hlast : σ.returned.getLast? = some key)
      (hcall : dictDelete hash σ.dict key = .ok (st, d')) :
      IterStep σ { σ with dict := d' }

variable (hash) in
/-- The invariant of a safe iteration that started on `d₀`. -/
structure IterInv (d₀ : Dict K V) (σ : IterState K V) : Prop where
  inv : σ.dict.Inv hash
  ok : σ.iter.Ok σ.dict
  safe : σ.iter.safe = true
  suppressed : σ.returned ≠ [] → σ.dict.iterators ≠ 0
  fresh : σ.returned = [] → σ.iter = dictGetSafeIterator
  last : ∀ k, σ.returned.getLast? = some k → σ.iter.entry.isSome →
    ∀ n, σ.iter.nextEntry = some n → n.key ≠ k
  once : ∀ k, σ.returned.count k ≤ d₀.keys.count k + σ.added.count k ∧
    (σ.iter.Ahead σ.dict k → σ.returned.count k + 1 ≤ d₀.keys.count k + σ.added.count k)
  all : ∀ k ∈ d₀.keys, k ∈ σ.returned ∨ σ.iter.Ahead σ.dict k

/-- Right after the creation of the iterator every key is ahead. -/
theorem IterInv.start {d : Dict K V} (h : d.Inv hash) (can : Bool) :
    IterInv hash d (IterState.start can d) := by
  have hahead : ∀ k, DictIterator.Ahead d dictGetSafeIterator k ↔ k ∈ d.keys := by
    intro k
    constructor
    · rintro (⟨t, i, -, hk, -⟩ | ⟨hsome, -⟩)
      · exact Dict.mem_keys_of_chainKeys hk
      · simp [dictGetSafeIterator, dictGetIterator] at hsome
    · intro hk
      obtain ⟨t, i, ht, hmem⟩ := Dict.exists_chainKeys hk
      refine Or.inl ⟨t, i, ht, hmem, ?_⟩
      show 0 < t ∨ (0 = t ∧ (-1 : Int) < i)
      omega
  refine ⟨h, ⟨by simp [IterState.start, dictGetSafeIterator, dictGetIterator],
    by simp [IterState.start, dictGetSafeIterator, dictGetIterator],
    by simp [IterState.start, dictGetSafeIterator, dictGetIterator],
    by simp [IterState.start, dictGetSafeIterator, dictGetIterator],
    by simp [IterState.start, dictGetSafeIterator, dictGetIterator]⟩, rfl,
    fun hne => absurd rfl hne, fun _ => rfl, by simp [IterState.start], ?_, ?_⟩
  · intro k
    refine ⟨by simp [IterState.start], fun hk => ?_⟩
    have hpos := List.count_pos_iff.mpr ((hahead k).mp hk)
    simp only [IterState.start, List.count_nil]
    omega
  · exact fun k hk => Or.inr ((hahead k).mpr hk)

/-- An edit of the dictionary keeps the invariant. -/
theorem IterInv.of_edited {d₀ d' : Dict K V} {σ : IterState K V} {ins del : Option K}
    (hσ : IterInv hash d₀ σ) (hinv' : d'.Inv hash) (hed : σ.dict.Edited d' ins del)
    (hins : ∀ k, ins = some k → k ∉ σ.dict.keys)
    (hdel : ∀ k, del = some k → σ.returned.getLast? = some k) :
    IterInv hash d₀ { σ with dict := d', added := σ.added ++ ins.toList } := by
  obtain ⟨hok, hless, hmore⟩ := hed.ahead hσ.ok hins
    (fun k hk hsome n hn => hσ.last k (hdel k hk) hsome n hn)
  refine ⟨hinv', hok, hσ.safe, fun hne => ?_, hσ.fresh, hσ.last, fun k => ⟨?_, fun hk => ?_⟩,
    fun k hk => ?_⟩
  · show d'.iterators ≠ 0
    rw [hed.iterators]
    exact hσ.suppressed hne
  · have := (hσ.once k).1
    simp only [List.count_append]
    omega
  · simp only [List.count_append]
    rcases hless k hk with hold | hnew
    · have := (hσ.once k).2 hold
      omega
    · have := (hσ.once k).1
      rw [hnew]
      simp
      omega
  · rcases hσ.all k hk with hret | hah
    · exact Or.inl hret
    · by_cases hd : del = some k
      · exact Or.inl (List.mem_of_getLast? (hdel k hd))
      · exact Or.inr (hmore k hd hah)

/-- A call of `dictNext` keeps the invariant. -/
theorem IterInv.of_next {d₀ d' : Dict K V} {σ : IterState K V} {r : DictEntryRef K}
    {iter' : DictIterator K} (hσ : IterInv hash d₀ σ)
    (hcall : dictNext σ.dict σ.iter = .ok (some r, iter', d')) :
    IterInv hash d₀ { σ with dict := d', iter := iter', returned := σ.returned ++ [r.key] } := by
  obtain ⟨hok, hsafe, -, hd', -, hnot, hahead⟩ := (dictNext_spec hσ.inv hσ.ok).of_eq_ok hcall
  replace hd' : d' = _ := hd'
  -- only the count of iterators has changed
  have hsame : ∀ k, DictIterator.Ahead d' iter' k ↔ DictIterator.Ahead σ.dict iter' k := by
    intro k
    rw [hd']
    rfl
  refine ⟨hd' ▸ hσ.inv.withIterators _, ?_, hsafe.trans hσ.safe, fun _ => ?_, by simp,
    fun k hk hsome n hn hnk => ?_, fun k => ?_, fun k hk => ?_⟩
  · rw [hd']
    exact ⟨hok.1, hok.2, hok.3, hok.4, hok.5⟩
  · rw [hd']
    by_cases hne : σ.returned = []
    · have hfresh := hσ.fresh hne
      simp [hfresh, dictGetSafeIterator, dictGetIterator]
    · have := hσ.suppressed hne
      show σ.dict.iterators + _ ≠ 0
      omega
  · -- the saved entry is ahead, the entry returned is not
    obtain rfl : r.key = k := by simpa using hk
    obtain ⟨-, -, hnk'⟩ := hok.linked hsome n hn
    obtain ⟨rest, hrest⟩ := chainFrom_ne_nil hnk'
    exact hnot (Or.inr ⟨hsome, n, hn, by rw [hrest, hnk]; simp⟩)
  · simp only [List.count_append, List.count_singleton, beq_iff_eq]
    by_cases hrk : r.key = k
    · subst hrk
      have hbound := (hσ.once r.key).2 ((hahead r.key).mpr (Or.inl rfl))
      refine ⟨by simpa using hbound, fun hcon => absurd ((hsame _).mp hcon) hnot⟩
    · have hbound := hσ.once k
      rw [if_neg hrk]
      exact ⟨hbound.1, fun hcon =>
        hbound.2 ((hahead k).mpr (Or.inr ((hsame k).mp hcon)))⟩
  · rcases hσ.all k hk with hret | hah
    · exact Or.inl (List.mem_append_left _ hret)
    · rcases (hahead k).mp hah with rfl | hah'
      · exact Or.inl (by simp)
      · exact Or.inr ((hsame k).mpr hah')

/-- One step keeps the invariant, and moves no entry. -/
theorem IterInv.step {d₀ : Dict K V} {σ σ' : IterState K V} (hσ : IterInv hash d₀ σ)
    (hstep : IterStep hash σ σ') : IterInv hash d₀ σ' ∧ σ.dict.Unmoved σ'.dict := by
  have hedit : ∀ {d' : Dict K V} {ins del : Option K}, d'.Inv hash →
      σ.dict.Edited d' ins del → (∀ k, ins = some k → k ∉ σ.dict.keys) →
      (∀ k, del = some k → σ.returned.getLast? = some k) →
      IterInv hash d₀ { σ with dict := d', added := σ.added ++ ins.toList } ∧
        σ.dict.Unmoved d' :=
    fun hinv hed hins hdel => ⟨hσ.of_edited hinv hed hins hdel, hed.unmoved hσ.inv hins⟩
  have hsame : ∀ {d' : Dict K V}, d'.Inv hash → σ.dict.SameChains d' →
      IterInv hash d₀ { σ with dict := d' } ∧ σ.dict.Unmoved d' := by
    intro d' hinv hsc
    simpa using hedit hinv (hsc.edited none none) (by simp) (by simp)
  cases hstep with
  | @next r iter' d' hcall =>
    refine ⟨hσ.of_next hcall, ?_⟩
    obtain ⟨-, -, -, hd', -⟩ := (dictNext_spec hσ.inv hσ.ok).of_eq_ok hcall
    replace hd' : d' = _ := hd'
    intro t i k _ hk _
    show k ∈ d'.chainKeys t i
    rw [hd']
    exact hk
  | find hstarted hcall =>
    have hd' : _ = σ.dict := (dictFind_eq_self (hσ.suppressed hstarted) _).of_eq_ok hcall
    exact hsame ((dictFind_spec hσ.inv _).of_eq_ok hcall).1.inv (hd' ▸ ⟨rfl, id, fun _ _ _ => rfl⟩)
  | @add key val st d' hstarted hcall =>
    have hspec := (dictAdd_spec hσ.inv σ.can key val).of_eq_ok hcall
    have hed := (dictAdd_edited (hσ.suppressed hstarted) hσ.inv σ.can key val).of_eq_ok hcall
    cases st with
    | err => exact hsame hspec.2.inv hed
    | ok =>
      refine hedit hspec.2.inv hed ?_ (by simp)
      intro k hk
      obtain rfl := Option.some.inj hk
      exact hspec.1
  | @replace key val added d' hstarted hkey hcall =>
    have hspec := (dictReplace_spec hσ.inv σ.can key val).of_eq_ok hcall
    have hed := (dictReplace_sameChains (hσ.suppressed hstarted) hσ.inv σ.can hkey val).of_eq_ok
      hcall
    cases added with
    | true => exact absurd hkey (show _ ∧ _ from hspec).1
    | false => exact hsame (show _ ∧ _ from hspec).2.inv hed
  | @delete key st d' hlast hcall =>
    have hne : σ.returned ≠ [] := by
      intro hnil
      rw [hnil] at hlast
      simp at hlast
    have hspec := (dictGenericDelete_spec hσ.inv key).of_eq_ok hcall
    have hed : σ.dict.Edited d' none (some key) := (dictDelete_edited (hσ.suppressed hne) key).of_eq_ok hcall
    have hinv' : d'.Inv hash := by
      cases st with
      | err => exact hspec.2.inv
      | ok =>
        obtain ⟨e, -, -, hb⟩ := hspec
        exact hb.inv
    simpa using hedit hinv' hed (by simp) (fun k hk => by rw [hlast, hk])

/-- The invariant along a whole iteration. -/
theorem IterInv.run {d : Dict K V} {can : Bool} {σ : IterState K V} (h : d.Inv hash)
    (hrun : Relation.ReflTransGen (IterStep hash) (IterState.start can d) σ) :
    IterInv hash d σ := by
  induction hrun with
  | refl => exact IterInv.start h can
  | tail _ hstep ih => exact (ih.step hstep).1

/-- **Safe iteration is exact.**  In every state of a safe iteration, on a dictionary that
    is rehashing or not, where the keys added are new ones: `dictNext` returns; no key has
    been returned twice; when it returns `NULL` every key of the start has been returned
    exactly once; and no step moves an entry to another bucket or table. -/
theorem safeIteration_exact {d : Dict K V} {can : Bool} {σ : IterState K V} (h : d.Inv hash)
    (hrun : Relation.ReflTransGen (IterStep hash) (IterState.start can d) σ)
    (hnew : (d.keys ++ σ.added).Nodup) :
    (∃ r, dictNext σ.dict σ.iter = .ok r) ∧
    σ.returned.Nodup ∧
    (∀ iter' d', dictNext σ.dict σ.iter = .ok (none, iter', d') →
      ∀ k ∈ d.keys, σ.returned.count k = 1) ∧
    (∀ σ', IterStep hash σ σ' → σ.dict.Unmoved σ'.dict) := by
  have hσ := IterInv.run h hrun
  have honce : ∀ k, σ.returned.count k ≤ 1 := by
    intro k
    have hk := List.nodup_iff_count_le_one.mp hnew k
    rw [List.count_append] at hk
    exact (hσ.once k).1.trans hk
  refine ⟨?_, List.nodup_iff_count_le_one.mpr honce, fun iter' d' hnull k hk => ?_,
    fun σ' hstep => (hσ.step hstep).2⟩
  · obtain ⟨r, hr, -⟩ := (dictNext_spec hσ.inv hσ.ok).exists_ok
    exact ⟨r, hr⟩
  · have hend : ∀ k, ¬ σ.iter.Ahead σ.dict k :=
      ((dictNext_spec hσ.inv hσ.ok).of_eq_ok hnull).2.2.2.2
    have hpos := List.count_pos_iff.mpr ((hσ.all k hk).resolve_right (hend k))
    have hle := honce k
    omega

/-- Four buckets, key 1. -/
def iterationStart : Dict Nat Nat :=
  { ht0 := (DictHt.alloc 4).push 1 ⟨1, some 0⟩, ht1 := .reset, rehashidx := -1, iterators := 0 }

/-- The same dictionary under iteration, with another chain in its first table. -/
def iterationWith (t : DictHt Nat Nat) : Dict Nat Nat :=
  { iterationStart with ht0 := t, iterators := 1 }

/-- The only key is returned and deleted, a new one is added in a bucket still ahead and
    returned in its turn. -/
theorem safeIteration_exact_of_delete_add :
    ∃ σ, Relation.ReflTransGen (IterStep (BitVec.ofNat 32)) (IterState.start true iterationStart) σ ∧
      σ.returned = [1, 6] ∧ σ.added = [6] ∧ σ.dict.keys = [6] ∧ σ.returned.count 1 = 1 := by
  have hinv : iterationStart.Inv (BitVec.ofNat 32) :=
    ((dictRun_represents (s := (true, dictCreate)) [.add 1 0] dictCreate_represents).of_eq_ok
      (a := ([.status .ok], true, iterationStart)) rfl).2.inv
  let iter₁ : DictIterator Nat := ⟨0, 1, true, some ⟨0, 1, 1⟩, none⟩
  let iter₂ : DictIterator Nat := ⟨0, 2, true, some ⟨0, 2, 6⟩, none⟩
  have hdel : dictDelete (BitVec.ofNat 32) (iterationWith iterationStart.ht0) 1
      = .ok (.ok, iterationWith (.alloc 4)) := rfl
  have hadd : dictAdd (BitVec.ofNat 32) true (iterationWith (.alloc 4)) 6 7
      = .ok (.ok, iterationWith ((DictHt.alloc 4).push 2 ⟨6, some 7⟩)) := rfl
  let d₁ := iterationWith iterationStart.ht0
  let d₂ := iterationWith (.alloc 4)
  let d₃ := iterationWith ((DictHt.alloc 4).push 2 ⟨6, some 7⟩)
  have hrun : Relation.ReflTransGen (IterStep (BitVec.ofNat 32))
      (IterState.start true iterationStart) ⟨true, d₃, iter₂, [1, 6], [6]⟩ := by
    refine .tail (b := ⟨true, d₃, iter₁, [1], [6]⟩) (.tail (b := ⟨true, d₂, iter₁, [1], []⟩)
      (.tail (b := ⟨true, d₁, iter₁, [1], []⟩) (.single ?_) ?_) ?_) ?_
    · exact .next (r := ⟨0, 1, 1⟩) rfl
    · exact @IterStep.delete _ _ _ _ ⟨true, d₁, iter₁, [1], []⟩ 1 _ _ rfl hdel
    · exact @IterStep.add _ _ _ _ ⟨true, d₂, iter₁, [1], []⟩ 6 _ _ _ (List.cons_ne_nil _ _) hadd
    · exact .next (r := ⟨0, 2, 6⟩) rfl
  refine ⟨_, hrun, rfl, rfl, rfl, ?_⟩
  exact (safeIteration_exact hinv hrun (by decide)).2.2.1
    { iter₂ with index := 4, entry := none } d₃ rfl 1 (by decide)

end Redis
