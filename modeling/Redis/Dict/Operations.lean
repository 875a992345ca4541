import Redis.Dict.Expand
import Mathlib.Data.List.Nodup

namespace Redis

open Outcome

/-!
# The operations on keys

One specification per operation of `dict.c`, in terms of the entries: `dictAddRaw` adds
one entry unless the key is there, `dictFind` points at the entry of the key in whichever
table it is, `dictSetVal` changes one value, `dictGenericDelete` removes one entry.  Each
keeps `Dict.Inv`, and none lets the table a scan walks get smaller.
-/

variable {K V : Type} [DecidableEq K] {hash : K → BitVec 32}

/-! ### Entry pointers -/

/-- The pointer leads to an entry with the key it names. -/
def Dict.Linked (d : Dict K V) (r : DictEntryRef K) : Prop :=
  r.table ≤ 1 ∧ ∃ e ∈ (d.ht r.table).bucket r.index, e.key = r.key

/-- The effect of `dictSetVal` on one entry. -/
def DictEntry.setV (key : K) (val : V) (e : DictEntry K V) : DictEntry K V :=
  if e.key = key then { e with v := some val } else e

@[simp] theorem DictEntry.setV_key (key : K) (val : V) (e : DictEntry K V) :
    (e.setV key val).key = e.key := by
  rw [DictEntry.setV]; split <;> rfl

variable {e : DictEntry K V} {d : Dict K V} {r : DictEntryRef K}

theorem DictEntry.setV_of_ne {key : K} (val : V) (h : e.key ≠ key) :
    e.setV key val = e := if_neg h

@[simp] theorem keys_map_setV (key : K) (val : V) (l : List (DictEntry K V)) :
    (l.map (DictEntry.setV key val)).map DictEntry.key = l.map DictEntry.key := by
  rw [List.map_map]
  exact List.map_congr_left (fun e _ => DictEntry.setV_key key val e)

omit [DecidableEq K] in
theorem Dict.mem_entries_of_ht {i : Nat} (he : e ∈ (d.ht i).entries) : e ∈ d.entries := by
  rw [Dict.ht] at he
  split at he
  · exact List.mem_append_left _ he
  · exact List.mem_append_right _ he

omit [DecidableEq K] in
theorem Dict.Linked.exists_mem (h : d.Linked r) :
    ∃ e ∈ d.entries, e.key = r.key := by
  obtain ⟨-, e, he, hk⟩ := h
  exact ⟨e, Dict.mem_entries_of_ht (DictHt.mem_entries_iff.mpr ⟨_, he⟩), hk⟩

omit [DecidableEq K] in
/-- Entries are determined by their keys. -/
theorem Dict.Inv.eq_of_key_eq (h : d.Inv hash) {e e' : DictEntry K V} (he : e ∈ d.entries)
    (he' : e' ∈ d.entries) (hk : e.key = e'.key) : e = e' :=
  List.inj_on_of_nodup_map h.nodup he he' hk

/-- Reading a value through a pointer reads the value of the key. -/
theorem Dict.Inv.dictGetVal_eq (h : d.Inv hash) (hr : d.Linked r) (he : e ∈ d.entries) (hk : e.key = r.key) :
    dictGetVal d r = e.v := by
  obtain ⟨-, e', he', hk'⟩ := hr
  cases hf : ((d.ht r.table).bucket r.index).find? (fun x => x.key = r.key) with
  | none =>
    rw [List.find?_eq_none] at hf
    exact absurd hk' (by simpa using hf e' he')
  | some x =>
    have hx := List.mem_of_find?_eq_some hf
    have hxk : x.key = r.key := by simpa using List.find?_some hf
    have hxe : x = e := h.eq_of_key_eq
      (Dict.mem_entries_of_ht (DictHt.mem_entries_iff.mpr ⟨_, hx⟩)) he (hxk.trans hk.symm)
    rw [dictGetVal, hf, hxe]; rfl

/-- Rewriting the value inside one chain is rewriting it in the whole table: no other
    chain holds the key. -/
theorem DictHt.Wf.setVal_spec {t : DictHt K V} (hw : t.Wf hash) {i : Nat} {key : K}
    (hmem : ∃ e ∈ t.bucket i, e.key = key) (val : V) :
    (t.setBucket i ((t.bucket i).map (DictEntry.setV key val))).Wf hash ∧
    (t.setBucket i ((t.bucket i).map (DictEntry.setV key val))).entries.Perm
      (t.entries.map (DictEntry.setV key val)) := by
  obtain ⟨e₀, he₀, hk₀⟩ := hmem
  have hi := DictHt.lt_length_of_mem_bucket he₀
  have hidx : t.index hash key = i := hk₀ ▸ hw.placed i e₀ he₀
  have hrest : (t.table.eraseIdx i).flatten.map (DictEntry.setV key val)
      = (t.table.eraseIdx i).flatten := by
    refine List.map_congr_left (g := id) (fun e he => DictEntry.setV_of_ne val ?_) |>.trans
      (List.map_id _)
    -- an entry of another chain with this key would sit in bucket `i`
    rintro rfl
    obtain ⟨b, hb, heb⟩ := List.mem_flatten.mp he
    rw [List.mem_eraseIdx_iff_getElem] at hb
    obtain ⟨j, hj, hne, rfl⟩ := hb
    have hej : e ∈ t.bucket j := by
      rw [DictHt.bucket, List.getD_eq_getElem?_getD, List.getElem?_eq_getElem hj]; exact heb
    exact hne ((hw.placed j e hej).symm.trans hidx)
  constructor
  · have h := hw.setBucket_wf hi ((t.bucket i).map (DictEntry.setV key val)) t.used
      (by rw [List.length_map]) (by
        intro e he
        obtain ⟨e', he', rfl⟩ := List.mem_map.mp he
        rw [DictEntry.setV_key]; exact hw.placed i e' he')
    exact h
  · have h1 := t.entries_setBucket_perm hi ((t.bucket i).map (DictEntry.setV key val))
    have h2 := (t.entries_perm_bucket hi).map (DictEntry.setV key val)
    rw [List.map_append, hrest] at h2
    exact h1.trans h2.symm

/-- Relabelling a table in which the key does not occur changes nothing. -/
theorem map_setV_of_not_mem {key : K} (val : V) {l : List (DictEntry K V)}
    (h : key ∉ l.map DictEntry.key) : l.map (DictEntry.setV key val) = l := by
  refine (List.map_congr_left (g := id) (fun e he => DictEntry.setV_of_ne val ?_)).trans
    (List.map_id _)
  rintro rfl
  exact h (List.mem_map_of_mem he)

/-- `dictSetVal` through a valid pointer: the value of that key changes, nothing else. -/
theorem dictSetVal_spec (h : d.Inv hash) (hr : d.Linked r) (val : V) :
    (dictSetVal d r val).Inv hash ∧
    (dictSetVal d r val).entries.Perm (d.entries.map (DictEntry.setV r.key val)) ∧
    (dictSetVal d r val).scanSize = d.scanSize ∧
    (dictSetVal d r val).iterators = d.iterators := by
  obtain ⟨hle, e, he, hk⟩ := hr
  have hnd : (d.ht0.entries.map DictEntry.key ++ d.ht1.entries.map DictEntry.key).Nodup := by
    rw [← List.map_append]; exact h.nodup
  have hdisj := (List.nodup_append.mp hnd).2.2
  have hkeys : ∀ {l : List (DictEntry K V)}, l.Perm (d.entries.map (DictEntry.setV r.key val)) →
      (l.map DictEntry.key).Nodup := by
    intro l hl
    have hm := hl.map DictEntry.key
    rw [keys_map_setV] at hm
    exact hm.nodup_iff.mpr h.nodup
  rcases Nat.le_one_iff_eq_zero_or_eq_one.mp hle with h0 | h1
  · have hht : d.ht r.table = d.ht0 := by rw [Dict.ht, if_pos h0]
    rw [hht] at he
    obtain ⟨hwf, hperm⟩ := h.wf0.setVal_spec ⟨e, he, hk⟩ val
    set t := d.ht0.setBucket r.index ((d.ht0.bucket r.index).map (DictEntry.setV r.key val))
      with ht
    have hres : dictSetVal d r val = { d with ht0 := t } := by
      rw [dictSetVal, hht, Dict.setHt, if_pos h0]; rfl
    have hnot : r.key ∉ d.ht1.entries.map DictEntry.key := fun hcon =>
      hdisj _ (List.mem_map.mpr ⟨e, DictHt.mem_entries_iff.mpr ⟨_, he⟩, hk⟩) _ hcon rfl
    have hp : (dictSetVal d r val).entries.Perm (d.entries.map (DictEntry.setV r.key val)) := by
      rw [hres, Dict.entries, Dict.entries, List.map_append, map_setV_of_not_mem val hnot]
      exact hperm.append_right _
    refine ⟨?_, hp, ?_, ?_⟩
    · rw [hres] at hp ⊢
      refine ⟨hwf, h.wf1, hkeys hp, h.idle, h.busy, ?_⟩
      intro i hi
      show t.bucket i = []
      rw [ht, d.ht0.bucket_setBucket (DictHt.lt_length_of_mem_bucket he)]
      split
      · rename_i hij
        rw [hij, h.below i hi]; rfl
      · exact h.below i hi
    · rw [hres]; rfl
    · rw [hres]
  · have hne : r.table ≠ 0 := by omega
    have hht : d.ht r.table = d.ht1 := by rw [Dict.ht, if_neg hne]
    rw [hht] at he
    obtain ⟨hwf, hperm⟩ := h.wf1.setVal_spec ⟨e, he, hk⟩ val
    set t := d.ht1.setBucket r.index ((d.ht1.bucket r.index).map (DictEntry.setV r.key val))
      with ht
    have hres : dictSetVal d r val = { d with ht1 := t } := by
      rw [dictSetVal, hht, Dict.setHt, if_neg hne]; rfl
    have hnot : r.key ∉ d.ht0.entries.map DictEntry.key := fun hcon =>
      hdisj _ hcon _ (List.mem_map.mpr ⟨e, DictHt.mem_entries_iff.mpr ⟨_, he⟩, hk⟩) rfl
    have hp : (dictSetVal d r val).entries.Perm (d.entries.map (DictEntry.setV r.key val)) := by
      rw [hres, Dict.entries, Dict.entries, List.map_append, map_setV_of_not_mem val hnot]
      exact hperm.append_left _
    refine ⟨?_, hp, ?_, ?_⟩
    · rw [hres] at hp ⊢
      refine ⟨h.wf0, hwf, hkeys hp, fun hidle => ?_, h.busy, h.below⟩
      have hreset := h.idle hidle
      rw [hreset] at he
      simp [DictHt.reset, DictHt.bucket] at he
    · rw [hres]; rfl
    · rw [hres]

/-! ### What an operation does -/

/-- `d` has become `d'`, which holds the entries `l`.  The scanned table did not shrink. -/
structure Dict.Becomes (hash : K → BitVec 32) (d d' : Dict K V) (l : List (DictEntry K V)) :
    Prop where
  inv : d'.Inv hash
  perm : d'.entries.Perm l
  iterators : d'.iterators = d.iterators
  scan : d.scanSize ≤ d'.scanSize

omit [DecidableEq K] in
theorem Dict.Rehashed.becomes {d d' : Dict K V} (h : @Dict.Rehashed K V hash d d') :
    d.Becomes hash d' d.entries :=
  ⟨h.inv, h.perm, h.iterators, h.scanSize_le⟩

omit [DecidableEq K] in
theorem Dict.Becomes.trans {d d' d'' : Dict K V} {l l' : List (DictEntry K V)}
    (h : d.Becomes hash d' l) (h' : d'.Becomes hash d'' l') : d.Becomes hash d'' l' :=
  ⟨h'.inv, h'.perm, h'.iterators.trans h.iterators, h.scan.trans h'.scan⟩

omit [DecidableEq K] in
theorem Dict.Becomes.of_perm {d d' : Dict K V} {l l' : List (DictEntry K V)}
    (h : d.Becomes hash d' l) (hp : l.Perm l') : d.Becomes hash d' l' :=
  ⟨h.inv, h.perm.trans hp, h.iterators, h.scan⟩

omit [DecidableEq K] in
theorem Dict.Becomes.mem_keys {d d' : Dict K V} {l : List (DictEntry K V)}
    (h : d.Becomes hash d' l) (k : K) : k ∈ d'.keys ↔ k ∈ l.map DictEntry.key :=
  (h.perm.map DictEntry.key).mem_iff

omit [DecidableEq K] in
/-- Linking a new entry into the table that receives additions. -/
theorem Dict.Inv.push (h : d.Inv hash) (hpos : 0 < d.ht0.size) (e : DictEntry K V) (hnew : e.key ∉ d.keys) :
    let i := if d.isRehashing then 1 else 0
    d.Becomes hash (d.setHt i ((d.ht i).push ((d.ht i).index hash e.key) e)) (e :: d.entries) := by
  intro i
  have hnd : ∀ {l : List (DictEntry K V)}, l.Perm (e :: d.entries) →
      (l.map DictEntry.key).Nodup := by
    intro l hl
    refine (hl.map DictEntry.key).nodup_iff.mpr ?_
    rw [List.map_cons, List.nodup_cons]
    exact ⟨hnew, h.nodup⟩
  by_cases hre : d.isRehashing = true
  · have hi : i = 1 := if_pos hre
    have hre' : d.rehashidx ≠ -1 := by simpa using hre
    obtain ⟨hnn, hle, hp0, hp1⟩ := h.busy hre'
    have hperm : (d.ht0.entries ++ (d.ht1.push (d.ht1.index hash e.key) e).entries).Perm
        (e :: d.entries) :=
      ((h.wf1.push_entries_perm hp1 e).append_left _).trans List.perm_middle
    rw [hi]
    refine ⟨⟨h.wf0, h.wf1.push_wf hp1 e, hnd hperm, fun hcon => absurd hcon hre',
      fun _ => ⟨hnn, hle, hp0, hp1⟩, h.below⟩, hperm, rfl, le_refl _⟩
  · have hi : i = 0 := if_neg hre
    have hidle : d.rehashidx = -1 := by simpa using hre
    have hperm : ((d.ht0.push (d.ht0.index hash e.key) e).entries ++ d.ht1.entries).Perm
        (e :: d.entries) := (h.wf0.push_entries_perm hpos e).append_right _
    rw [hi]
    refine ⟨⟨h.wf0.push_wf hpos e, h.wf1, hnd hperm, fun _ => h.idle hidle,
      fun hcon => absurd hidle hcon, ?_⟩, hperm, rfl, le_refl _⟩
    intro j hj
    exfalso
    replace hj : (j : Int) < d.rehashidx := hj
    omega

/-! ### Adding -/

/-- `_dictKeyIndex` finds the key in either table, or the bucket where it goes. -/
theorem dictKeyIndex_spec (h : d.Inv hash) (can : Bool) (key : K) :
    Sat (dictKeyIndex hash can d key)
      (fun r => d.Becomes hash r.2 d.entries ∧ 0 < r.2.ht0.size ∧
        match r.1 with
        | none   => key ∈ d.keys
        | some i => key ∉ d.keys ∧
            i = (r.2.ht (if r.2.isRehashing then 1 else 0)).index hash key)
      (fun e => e = .tooManyBuckets) := by
  rw [dictKeyIndex]
  refine Sat.bind (dictExpandIfNeeded_spec h can) ?_
  rintro ⟨st, d'⟩ ⟨rfl, hk, hpos, hscan⟩
  have hb : d.Becomes hash d' d.entries :=
    ⟨hk.inv, by rw [hk.entries], hk.iterators, hscan⟩
  have hkeys : ∀ k, k ∈ d.keys ↔
      k ∈ d'.ht0.entries.map DictEntry.key ∨ k ∈ d'.ht1.entries.map DictEntry.key := by
    intro k
    rw [Dict.keys, ← hk.entries, Dict.entries, List.map_append, List.mem_append]
  simp only [reduceCtorEq, if_false]
  refine Sat.ite (fun h0 => ?_) (fun h0 => ?_)
  · exact ⟨hb, hpos, (hkeys key).mpr (Or.inl ((hk.inv.wf0.chainHas_iff key).mp h0))⟩
  rw [hk.inv.wf0.chainHas_iff key] at h0
  refine Sat.ite (fun hre => ?_) (fun hre => ?_)
  · have hidle : d'.rehashidx = -1 := by simpa using hre
    refine ⟨hb, hpos, ?_, ?_⟩
    · rw [hkeys, hk.inv.idle hidle]
      simpa [DictHt.entries, DictHt.reset] using h0
    · simp [hidle, Dict.ht]
  · have hre' : d'.isRehashing = true := by simpa using hre
    refine Sat.ite (fun h1 => ?_) (fun h1 => ?_)
    · exact ⟨hb, hpos, (hkeys key).mpr (Or.inr ((hk.inv.wf1.chainHas_iff key).mp h1))⟩
    · rw [hk.inv.wf1.chainHas_iff key] at h1
      refine ⟨hb, hpos, ?_, ?_⟩
      · rw [hkeys]; exact fun hcon => hcon.elim h0 h1
      · rw [if_pos hre']; rfl

/-- `dictAddRaw`: one more entry, unless the key is already there. -/
theorem dictAddRaw_spec (h : d.Inv hash) (can : Bool) (key : K) :
    Sat (dictAddRaw hash can d key)
      (fun r => match r.1 with
        | none   => key ∈ d.keys ∧ d.Becomes hash r.2 d.entries
        | some p => key ∉ d.keys ∧ p.key = key ∧ r.2.Linked p ∧
            d.Becomes hash r.2 ({ key := key, v := none } :: d.entries))
      (fun e => e = .tooManyBuckets) := by
  rw [dictAddRaw]
  refine Sat.bind ((dictRehashStepIfNeeded_spec h).mono (fun _ hd => hd) (fun _ hf => hf.elim)) ?_
  intro d₁ h₁
  have hkeys₁ : ∀ k, k ∈ d₁.keys ↔ k ∈ d.keys := h₁.becomes.mem_keys
  refine Sat.bind (dictKeyIndex_spec h₁.inv can key) ?_
  rintro ⟨index, d₂⟩ ⟨hb, hpos, hidx⟩
  have hb' : d.Becomes hash d₂ d.entries := (h₁.becomes.trans hb).of_perm h₁.perm
  cases index with
  | none => exact ⟨(hkeys₁ key).mp hidx, hb'⟩
  | some i =>
    obtain ⟨hnew, hi⟩ := hidx
    replace hi : i = (d₂.ht (if d₂.isRehashing then 1 else 0)).index hash key := hi
    replace hpos : 0 < d₂.ht0.size := hpos
    subst hi
    have hnew₂ : key ∉ d₂.keys := by rw [hb'.mem_keys]; exact fun hc => hnew ((hkeys₁ key).mpr hc)
    have hp := hb.inv.push hpos { key := key, v := none } hnew₂
    refine ⟨fun hc => hnew ((hkeys₁ key).mpr hc), rfl, ⟨?_, ?_⟩,
      (hb'.trans hp).of_perm (hb'.perm.cons _)⟩
    · show (if d₂.isRehashing then 1 else 0) ≤ 1
      split <;> omega
    · -- the new entry is the head of its chain
      refine ⟨{ key := key, v := none }, ?_, rfl⟩
      by_cases hre : d₂.isRehashing = true
      · obtain ⟨-, -, -, hp1⟩ := hb.inv.busy (by simpa using hre)
        have hlt := hb.inv.wf1.index_lt hp1 key
        simp [hre, Dict.ht, Dict.setHt, DictHt.push, DictHt.bucket, List.getD_eq_getElem?_getD, hlt]
      · have hlt := hb.inv.wf0.index_lt hpos key
        simp [hre, Dict.ht, Dict.setHt, DictHt.push, DictHt.bucket, List.getD_eq_getElem?_getD, hlt]

/-- `dictAdd` fails exactly when the key is present. -/
theorem dictAdd_spec (h : d.Inv hash) (can : Bool) (key : K) (val : V) :
    Sat (dictAdd hash can d key val)
      (fun r => match r.1 with
        | .err => key ∈ d.keys ∧ d.Becomes hash r.2 d.entries
        | .ok  => key ∉ d.keys ∧ d.Becomes hash r.2 ({ key := key, v := some val } :: d.entries))
      (fun e => e = .tooManyBuckets) := by
  rw [dictAdd]
  refine Sat.bind (dictAddRaw_spec h can key) ?_
  rintro ⟨entry, d₁⟩ hadd
  cases entry with
  | none => exact hadd
  | some p =>
    obtain ⟨hnew, hpk, hlink, hb⟩ := hadd
    obtain ⟨hinv, hperm, hscan, hit⟩ := dictSetVal_spec hb.inv hlink val
    refine ⟨hnew, hinv, hperm.trans ?_, hit.trans hb.iterators, hscan ▸ hb.scan⟩
    refine (hb.perm.map _).trans ?_
    rw [hpk, List.map_cons, map_setV_of_not_mem val hnew]
    simp [DictEntry.setV]

/-! ### Finding and replacing -/

/-- `dictFind` points at the entry of the key, whichever table holds it. -/
theorem dictFind_spec (h : d.Inv hash) (key : K) :
    Sat (dictFind hash d key)
      (fun r => d.Becomes hash r.2 d.entries ∧ match r.1 with
        | none   => key ∉ d.keys
        | some p => key ∈ d.keys ∧ p.key = key ∧ r.2.Linked p)
      (fun _ => False) := by
  rw [dictFind]
  refine Sat.ite (fun h0 => ?_) (fun _ => ?_)
  · have hlen := h.dictSize_eq
    rw [Dict.dictSize, h0] at hlen
    refine ⟨⟨h, List.Perm.refl _, rfl, le_refl _⟩, ?_⟩
    rw [List.eq_nil_of_length_eq_zero hlen.symm]; simp
  refine Sat.bind (dictRehashStepIfNeeded_spec h) ?_
  intro d₁ h₁
  have hb := h₁.becomes
  have hkeys : ∀ k, k ∈ d.keys ↔
      k ∈ d₁.ht0.entries.map DictEntry.key ∨ k ∈ d₁.ht1.entries.map DictEntry.key := by
    intro k
    rw [← List.mem_append, ← List.map_append]
    exact (hb.mem_keys k).symm
  have hlink : ∀ {i : Nat} {b : Nat}, i ≤ 1 → chainHas ((d₁.ht i).bucket b) key = true →
      d₁.Linked { table := i, index := b, key := key } := by
    intro i b hi hc
    rw [chainHas, List.any_eq_true] at hc
    obtain ⟨e, he, hk⟩ := hc
    exact ⟨hi, e, he, by simpa using hk⟩
  refine Sat.ite (fun h0 => ?_) (fun h0 => Sat.ite (fun hre => ?_) (fun _ => ?_))
  · exact ⟨hb, (hkeys key).mpr (Or.inl ((h₁.inv.wf0.chainHas_iff key).mp h0)), rfl,
      hlink (i := 0) (by omega) h0⟩
  · rw [h₁.inv.wf0.chainHas_iff key] at h0
    have hidle : d₁.rehashidx = -1 := by simpa using hre
    refine ⟨hb, ?_⟩
    rw [hkeys, h₁.inv.idle hidle]
    simpa [DictHt.entries, DictHt.reset] using h0
  · rw [h₁.inv.wf0.chainHas_iff key] at h0
    refine Sat.ite (fun h1 => ?_) (fun h1 => ?_)
    · exact ⟨hb, (hkeys key).mpr (Or.inr ((h₁.inv.wf1.chainHas_iff key).mp h1)), rfl,
        hlink (i := 1) (le_refl _) h1⟩
    · rw [h₁.inv.wf1.chainHas_iff key] at h1
      exact ⟨hb, by rw [hkeys]; exact fun hc => hc.elim h0 h1⟩

/-- `dictReplace` adds the key or changes its value; it never meets a `NULL` entry. -/
theorem dictReplace_spec (h : d.Inv hash) (can : Bool) (key : K) (val : V) :
    Sat (dictReplace hash can d key val)
      (fun r => if r.1 then
          key ∉ d.keys ∧ d.Becomes hash r.2 ({ key := key, v := some val } :: d.entries)
        else key ∈ d.keys ∧ d.Becomes hash r.2 (d.entries.map (DictEntry.setV key val)))
      (fun e => e = .tooManyBuckets) := by
  rw [dictReplace]
  refine Sat.bind (dictAdd_spec h can key val) ?_
  rintro ⟨st, d₁⟩ hadd
  cases st with
  | ok => exact hadd
  | err =>
    obtain ⟨hmem, hb⟩ := hadd
    simp only [reduceCtorEq, if_false]
    refine Sat.bind ((dictFind_spec hb.inv key).mono (fun _ hr => hr) (fun _ hf => hf.elim)) ?_
    rintro ⟨entry, d₂⟩ ⟨hb₂, hent⟩
    cases entry with
    | none => exact absurd ((hb.mem_keys key).mpr hmem) hent
    | some p =>
      obtain ⟨-, hpk, hlink⟩ := hent
      obtain ⟨hinv, hperm, hscan, hit⟩ := dictSetVal_spec hb₂.inv hlink val
      refine ⟨hmem, hinv, ?_, ?_, ?_⟩
      · rw [hpk] at hperm
        exact hperm.trans ((hb₂.perm.trans hb.perm).map _)
      · exact hit.trans (hb₂.iterators.trans hb.iterators)
      · exact hscan ▸ (hb.scan.trans hb₂.scan)

/-- `dictReplaceRaw` returns the entry of the key, new or old, and never `NULL`. -/
theorem dictReplaceRaw_spec (h : d.Inv hash) (can : Bool) (key : K) :
    Sat (dictReplaceRaw hash can d key)
      (fun r => ∃ p, r.1 = some p ∧ p.key = key ∧ r.2.Linked p ∧
        d.Becomes hash r.2
          (if key ∈ d.keys then d.entries else { key := key, v := none } :: d.entries))
      (fun e => e = .tooManyBuckets) := by
  rw [dictReplaceRaw]
  refine Sat.bind ((dictFind_spec h key).mono (fun _ hr => hr) (fun _ hf => hf.elim)) ?_
  rintro ⟨entry, d₁⟩ ⟨hb, hent⟩
  cases entry with
  | some p =>
    obtain ⟨hmem, hpk, hlink⟩ := hent
    exact ⟨p, rfl, hpk, hlink, by rw [if_pos hmem]; exact hb⟩
  | none =>
    refine (dictAddRaw_spec hb.inv can key).weaken ?_
    rintro ⟨entry, d₂⟩ hadd
    cases entry with
    | none => exact absurd ((hb.mem_keys key).mp hadd.1) hent
    | some p =>
      obtain ⟨-, hpk, hlink, hb₂⟩ := hadd
      exact ⟨p, rfl, hpk, hlink, by rw [if_neg hent]; exact (hb.trans hb₂).of_perm (hb.perm.cons _)⟩

/-! ### Deleting -/

/-- Unlinking the entry of a key from the table that holds it. -/
theorem DictHt.Wf.unlink {t : DictHt K V} (hw : t.Wf hash) {key : K}
    (hhas : chainHas (t.bucket (t.index hash key)) key = true) :
    let b := (t.bucket (t.index hash key)).eraseP (fun e => e.key = key)
    let t' : DictHt K V := { t.setBucket (t.index hash key) b with used := t.used - 1 }
    t'.Wf hash ∧ ∃ e, e.key = key ∧ t.entries.Perm (e :: t'.entries) := by
  intro b t'
  rw [chainHas, List.any_eq_true] at hhas
  obtain ⟨e₀, he₀, hk₀⟩ := hhas
  have hi := DictHt.lt_length_of_mem_bucket he₀
  obtain ⟨e, l₁, l₂, -, hek, hsplit, herase⟩ :=
    List.exists_of_eraseP (p := fun e => decide (e.key = key)) he₀ hk₀
  have hb : b = l₁ ++ l₂ := herase
  have hchain : (t.bucket (t.index hash key)).Perm (e :: b) := by
    rw [hsplit, hb]; exact List.perm_middle
  have hpos : 0 < t.used := by
    rw [hw.used_eq]
    exact List.length_pos_of_mem (DictHt.mem_entries_iff.mpr ⟨_, he₀⟩)
  refine ⟨hw.setBucket_wf hi b (t.used - 1) ?_ ?_, e, by simpa using hek, ?_⟩
  · have hl := hchain.length_eq
    rw [List.length_cons] at hl
    omega
  · intro x hx
    exact hw.placed _ x (List.mem_of_mem_eraseP hx)
  · have h1 := t.entries_perm_bucket hi
    have h2 := t.entries_setBucket_perm hi b
    exact h1.trans ((hchain.append_right _).trans (h2.symm.cons e))

/-- `dictUnlink` on a table of a dictionary. -/
theorem dictUnlink_spec (h : d.Inv hash) {i : Nat} (hi : i ≤ 1) (key : K) :
    match dictUnlink hash d i key with
    | none    => key ∉ (d.ht i).entries.map DictEntry.key
    | some d' => ∃ e, e.key = key ∧ d.entries.Perm (e :: d'.entries) ∧
        d.Becomes hash d' d'.entries := by
  have hw : (d.ht i).Wf hash := by
    rw [Dict.ht]; split
    · exact h.wf0
    · exact h.wf1
  rw [dictUnlink]
  by_cases hc : chainHas ((d.ht i).bucket ((d.ht i).index hash key)) key = true
  · simp only [hc, if_true]
    obtain ⟨hwf, e, hek, hperm⟩ := hw.unlink hc
    set t' : DictHt K V := { (d.ht i).setBucket ((d.ht i).index hash key)
      (((d.ht i).bucket ((d.ht i).index hash key)).eraseP (fun e => e.key = key)) with
      used := (d.ht i).used - 1 } with ht'
    show ∃ e, e.key = key ∧ d.entries.Perm (e :: (d.setHt i t').entries) ∧
      d.Becomes hash (d.setHt i t') (d.setHt i t').entries
    have hp : d.entries.Perm (e :: (d.setHt i t').entries) := by
      rcases Nat.le_one_iff_eq_zero_or_eq_one.mp hi with rfl | rfl
      · exact hperm.append_right _
      · exact (hperm.append_left _).trans List.perm_middle
    have hnd : (d.setHt i t').keys.Nodup := by
      have hn := (hp.map DictEntry.key).nodup_iff.mp h.nodup
      rw [List.map_cons] at hn
      exact (List.nodup_cons.mp hn).2
    refine ⟨e, hek, hp, ⟨?_, List.Perm.refl _, ?_, ?_⟩⟩
    · rcases Nat.le_one_iff_eq_zero_or_eq_one.mp hi with rfl | rfl
      · refine ⟨hwf, h.wf1, hnd, h.idle, h.busy, ?_⟩
        intro j hj
        have hbelow : d.ht0.bucket j = [] := h.below j hj
        show t'.bucket j = []
        have hlt : (d.ht 0).index hash key < (d.ht 0).table.length := by
          rw [chainHas, List.any_eq_true] at hc
          obtain ⟨x, hx, -⟩ := hc
          exact DictHt.lt_length_of_mem_bucket hx
        have hset : t'.bucket j = ((d.ht 0).setBucket ((d.ht 0).index hash key)
            (((d.ht 0).bucket ((d.ht 0).index hash key)).eraseP
              (fun e => e.key = key))).bucket j := rfl
        rw [hset, (d.ht 0).bucket_setBucket hlt]
        split
        · rename_i hij
          have hz : (d.ht 0).bucket ((d.ht 0).index hash key) = [] := by rw [hij]; exact hbelow
          rw [hz]; rfl
        · exact hbelow
      · refine ⟨h.wf0, hwf, hnd, fun hidle => ?_, h.busy, h.below⟩
        -- an idle dictionary has nothing in `ht[1]`
        exfalso
        have hz : d.ht 1 = .reset := h.idle hidle
        rw [hz] at hc
        simp [chainHas, DictHt.reset, DictHt.bucket] at hc
    · rcases Nat.le_one_iff_eq_zero_or_eq_one.mp hi with rfl | rfl <;> rfl
    · rcases Nat.le_one_iff_eq_zero_or_eq_one.mp hi with rfl | rfl <;> exact le_refl _
  · simp only [hc]
    rw [← hw.chainHas_iff key]
    exact hc

/-- `dictGenericDelete` removes the entry of the key, if there is one. -/
theorem dictGenericDelete_spec (h : d.Inv hash) (key : K) :
    Sat (dictGenericDelete hash d key)
      (fun r => match r.1 with
        | .err => key ∉ d.keys ∧ d.Becomes hash r.2 d.entries
        | .ok  => ∃ e, e.key = key ∧ d.entries.Perm (e :: r.2.entries) ∧
            d.Becomes hash r.2 r.2.entries)
      (fun _ => False) := by
  rw [dictGenericDelete]
  refine Sat.ite (fun h0 => ?_) (fun _ => ?_)
  · have hidle : d.rehashidx = -1 := by
      by_contra hne
      have hpos := (h.busy hne).2.2.1
      omega
    refine ⟨?_, h, List.Perm.refl _, rfl, le_refl _⟩
    rw [Dict.keys, Dict.entries, h.wf0.entries_eq_nil_of_size h0, h.idle hidle]
    simp [DictHt.entries, DictHt.reset]
  refine Sat.bind (dictRehashStepIfNeeded_spec h) ?_
  intro d₁ h₁
  have hb := h₁.becomes
  have hok : ∀ {d₂ : Dict K V}, (∃ e, e.key = key ∧ d₁.entries.Perm (e :: d₂.entries) ∧
      d₁.Becomes hash d₂ d₂.entries) → ∃ e, e.key = key ∧ d.entries.Perm (e :: d₂.entries) ∧
      d.Becomes hash d₂ d₂.entries := by
    rintro d₂ ⟨e, hek, hp, hb₂⟩
    exact ⟨e, hek, h₁.perm.symm.trans hp, hb.trans hb₂⟩
  have h0 := dictUnlink_spec h₁.inv (i := 0) (by omega) key
  cases hu0 : dictUnlink hash d₁ 0 key with
  | some d₂ =>
    rw [hu0] at h0
    exact hok h0
  | none =>
    rw [hu0] at h0
    refine Sat.ite (fun hre => ?_) (fun hre => ?_)
    · have hidle : d₁.rehashidx = -1 := by simpa using hre
      refine ⟨?_, hb⟩
      refine fun hc => ?_
      rw [Dict.keys, ← hb.mem_keys key, Dict.keys, Dict.entries, h₁.inv.idle hidle] at hc
      exact h0 (by simpa [DictHt.entries, DictHt.reset, Dict.ht] using hc)
    · have h1 := dictUnlink_spec h₁.inv (i := 1) (le_refl _) key
      cases hu1 : dictUnlink hash d₁ 1 key with
      | some d₂ =>
        rw [hu1] at h1
        exact hok h1
      | none =>
        rw [hu1] at h1
        refine ⟨?_, hb⟩
        refine fun hc => ?_
        rw [Dict.keys, ← hb.mem_keys key, Dict.keys, Dict.entries, List.map_append,
          List.mem_append] at hc
        exact hc.elim h0 h1

end Redis
