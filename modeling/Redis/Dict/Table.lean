import Redis.Dict.Basic

namespace Redis

/-!
# One table of `dict.c`

`DictHt.Wf` says what a `dictht` is: a power of two of buckets, the mask that goes with
it, an exact `used` counter, and every entry in the bucket its hash selects.  The lemmas
describe the writes to a table by their effect on the *entries* up to permutation, since
the order inside a table is not observable.

* `Wf.push_wf` / `Wf.push_entries_perm` — linking an entry in front of its chain;
* `Wf.setBucket_wf` / `entries_setBucket_perm` — rewriting one chain;
* `Wf.chainHas_iff` — walking the chain of a key decides whether the table holds it.
-/

variable {K V : Type}

variable (hash : K → BitVec 32)

/-- A well-formed `dictht`. -/
structure DictHt.Wf (t : DictHt K V) : Prop where
  length_eq : t.table.length = t.size
  mask_eq : t.sizemask = t.size - 1
  pow : t.size = 0 ∨ ∃ k, 2 ≤ k ∧ t.size = 2 ^ k
  small : t.size < 2 ^ 31
  used_eq : t.used = t.entries.length
  placed : ∀ i, ∀ e ∈ t.bucket i, t.index hash e.key = i

variable {hash}

namespace DictHt

variable (t : DictHt K V)

/-- Writing one bucket, seen on the entries: the new chain and everything else. -/
theorem entries_setBucket_perm {i : Nat} (hi : i < t.table.length) (b : List (DictEntry K V)) :
    (t.setBucket i b).entries.Perm (b ++ (t.table.eraseIdx i).flatten) := by
  have h := (List.set_perm_cons_eraseIdx hi b).flatten
  rwa [List.flatten_cons] at h

/-- The entries, with the chain at `i` in front. -/
theorem entries_perm_bucket {i : Nat} (hi : i < t.table.length) :
    t.entries.Perm (t.bucket i ++ (t.table.eraseIdx i).flatten) := by
  have h := (List.getElem_cons_eraseIdx_perm hi).flatten
  rw [List.flatten_cons] at h
  have hb : t.bucket i = t.table[i] := by
    rw [bucket, List.getD_eq_getElem?_getD, List.getElem?_eq_getElem hi]; rfl
  rw [hb]
  exact h.symm

theorem bucket_setBucket {i : Nat} (hi : i < t.table.length) (b : List (DictEntry K V)) (j : Nat) :
    (t.setBucket i b).bucket j = if i = j then b else t.bucket j := by
  rw [bucket, setBucket, List.getD_eq_getElem?_getD, List.getElem?_set]
  by_cases hij : i = j
  · subst hij; simp [hi]
  · simp [hij, bucket, List.getD_eq_getElem?_getD]

/-- A non-empty chain lies inside the table. -/
theorem lt_length_of_mem_bucket {t : DictHt K V} {i : Nat} {e : DictEntry K V}
    (he : e ∈ t.bucket i) : i < t.table.length := by
  by_contra h
  have hnone : t.table[i]? = none := List.getElem?_eq_none (by omega)
  rw [bucket, List.getD_eq_getElem?_getD, hnone] at he
  simp at he

theorem mem_entries_iff {t : DictHt K V} {e : DictEntry K V} :
    e ∈ t.entries ↔ ∃ i, e ∈ t.bucket i := by
  constructor
  · intro he
    obtain ⟨b, hb, heb⟩ := List.mem_flatten.mp he
    obtain ⟨i, hi, rfl⟩ := List.getElem_of_mem hb
    exact ⟨i, by rwa [bucket, List.getD_eq_getElem?_getD, List.getElem?_eq_getElem hi]⟩
  · rintro ⟨i, he⟩
    have hi := lt_length_of_mem_bucket he
    exact (t.entries_perm_bucket hi).symm.subset (List.mem_append_left _ he)

@[simp] theorem reset_wf : (reset : DictHt K V).Wf hash where
  length_eq := rfl
  mask_eq := rfl
  pow := Or.inl rfl
  small := Nat.two_pow_pos 31
  used_eq := rfl
  placed := by intro i e he; simp [reset, bucket] at he

@[simp] theorem alloc_entries (n : Nat) : (alloc n : DictHt K V).entries = [] := by
  simp [entries, alloc]

/-- The freshly allocated table of `dictExpand`. -/
theorem alloc_wf {n : Nat} (hpow : ∃ k, 2 ≤ k ∧ n = 2 ^ k) (hsmall : n < 2 ^ 31) :
    (alloc n : DictHt K V).Wf hash where
  length_eq := List.length_replicate
  mask_eq := rfl
  pow := Or.inr hpow
  small := hsmall
  used_eq := by rw [alloc_entries]; rfl
  placed := by
    intro i e he
    rw [bucket, alloc, List.getD_eq_getElem?_getD, List.getElem?_replicate] at he
    split at he <;> simp at he

namespace Wf

variable {t : DictHt K V} (hw : t.Wf hash)
include hw

/-- `h & sizemask` is an index of the table. -/
theorem index_lt (hpos : 0 < t.size) (key : K) : t.index hash key < t.table.length := by
  have h : t.index hash key ≤ t.sizemask := Nat.and_le_right
  rw [hw.mask_eq] at h
  rw [hw.length_eq]
  omega

theorem mem_bucket_index {e : DictEntry K V} (he : e ∈ t.entries) :
    e ∈ t.bucket (t.index hash e.key) := by
  obtain ⟨i, hi⟩ := mem_entries_iff.mp he
  rwa [hw.placed i e hi]

/-- Walking the chain of a key decides whether the table holds the key. -/
theorem chainHas_iff [DecidableEq K] (key : K) :
    chainHas (t.bucket (t.index hash key)) key = true ↔ key ∈ t.entries.map DictEntry.key := by
  rw [chainHas, List.any_eq_true, List.mem_map]
  constructor
  · rintro ⟨e, he, hk⟩
    exact ⟨e, mem_entries_iff.mpr ⟨_, he⟩, by simpa using hk⟩
  · rintro ⟨e, he, rfl⟩
    exact ⟨e, hw.mem_bucket_index he, by simp⟩

theorem entries_eq_nil_of_size (h : t.size = 0) : t.entries = [] := by
  have hl := hw.length_eq
  rw [h, List.length_eq_zero_iff] at hl
  rw [entries, hl]; rfl

/-- Pushing an entry on the bucket its key selects. -/
theorem push_wf (hpos : 0 < t.size) (e : DictEntry K V) :
    (t.push (t.index hash e.key) e).Wf hash := by
  have hi := hw.index_lt hpos e.key
  have hset : t.push (t.index hash e.key) e
      = { t.setBucket (t.index hash e.key) (e :: t.bucket (t.index hash e.key)) with
          used := t.used + 1 } := rfl
  refine ⟨?_, hw.mask_eq, hw.pow, hw.small, ?_, ?_⟩
  · simp [push, hw.length_eq]
  · have hp := (t.entries_setBucket_perm hi (e :: t.bucket (t.index hash e.key))).length_eq
    have hq := (t.entries_perm_bucket hi).length_eq
    have hu := hw.used_eq
    rw [hset]
    show t.used + 1 = (t.setBucket _ _).entries.length
    simp only [List.length_append, List.length_cons] at hp hq
    omega
  · intro j e' he'
    rw [hset] at he'
    replace he' : e' ∈ (t.setBucket (t.index hash e.key)
      (e :: t.bucket (t.index hash e.key))).bucket j := he'
    rw [t.bucket_setBucket hi] at he'
    show t.index hash e'.key = j
    split at he'
    · rename_i hij
      subst hij
      rcases List.mem_cons.mp he' with rfl | hmem
      · rfl
      · exact hw.placed _ _ hmem
    · exact hw.placed _ _ he'

theorem push_entries_perm (hpos : 0 < t.size) (e : DictEntry K V) :
    (t.push (t.index hash e.key) e).entries.Perm (e :: t.entries) := by
  have hi := hw.index_lt hpos e.key
  have h1 := t.entries_setBucket_perm hi (e :: t.bucket (t.index hash e.key))
  have h2 := (t.entries_perm_bucket hi).symm.cons e
  exact h1.trans h2

/-- Replacing a chain by a shorter or relabelled one: the table stays well formed when
    the counter follows and no key moves to this bucket from elsewhere. -/
theorem setBucket_wf {i : Nat} (hi : i < t.table.length) (b : List (DictEntry K V)) (u : Nat)
    (hu : u + (t.bucket i).length = t.used + b.length)
    (hplaced : ∀ e ∈ b, t.index hash e.key = i) :
    ({ t.setBucket i b with used := u } : DictHt K V).Wf hash := by
  refine ⟨?_, hw.mask_eq, hw.pow, hw.small, ?_, ?_⟩
  · simp [setBucket, hw.length_eq]
  · have hp := (t.entries_setBucket_perm hi b).length_eq
    have hq := (t.entries_perm_bucket hi).length_eq
    have hw' := hw.used_eq
    show u = (t.setBucket i b).entries.length
    simp only [List.length_append] at hp hq
    omega
  · intro j e he
    replace he : e ∈ (t.setBucket i b).bucket j := he
    rw [t.bucket_setBucket hi] at he
    show t.index hash e.key = j
    split at he
    · rename_i hij
      rw [← hij]; exact hplaced e he
    · exact hw.placed _ _ he

end Wf

end DictHt

end Redis
