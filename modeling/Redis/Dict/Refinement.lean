import Redis.Dict.Operations
import Mathlib.Data.Finmap

namespace Redis

open Outcome

/-!
# `dict.c` is a finite map

The abstract state is a `Finmap` from keys to values (a value is `none` for an entry that
`dictReplaceRaw` created and its caller has not filled yet).  `mapStep` says what each
call returns on such a map; calls that only reorganise the tables are invisible there.
`dictStep` runs the same calls on the two-table dictionary.

* `Dict.lookup` — the value a dictionary holds under a key;
* `dictStep_refines` — one call returns the abstract result and keeps the relation;
* `dictRun_refines` — so does every sequence of calls from `dictCreate`.
-/

variable {K V : Type} [DecidableEq K]

/-! ### Looking a key up in a list of entries -/

/-- The value stored under `key` in a list of entries. -/
def entriesLookup (l : List (DictEntry K V)) (key : K) : Option (Option V) :=
  (l.find? (fun e => e.key = key)).map DictEntry.v

/-- The value stored under `key`, in either table. -/
def Dict.lookup (d : Dict K V) (key : K) : Option (Option V) := entriesLookup d.entries key

theorem entriesLookup_cons (e : DictEntry K V) (l : List (DictEntry K V)) (key : K) :
    entriesLookup (e :: l) key = if e.key = key then some e.v else entriesLookup l key := by
  rw [entriesLookup, List.find?_cons]
  by_cases h : e.key = key <;> simp [h, entriesLookup]

theorem entriesLookup_eq_none_iff {l : List (DictEntry K V)} {key : K} :
    entriesLookup l key = none ↔ key ∉ l.map DictEntry.key := by
  rw [entriesLookup, Option.map_eq_none_iff, List.find?_eq_none, List.mem_map]
  constructor
  · rintro h ⟨e, he, rfl⟩
    exact h e he (by simp)
  · intro h e he hk
    exact h ⟨e, he, by simpa using hk⟩

theorem entriesLookup_eq_some_iff {l : List (DictEntry K V)} (hnd : (l.map DictEntry.key).Nodup)
    {key : K} {v : Option V} :
    entriesLookup l key = some v ↔ ∃ e ∈ l, e.key = key ∧ e.v = v := by
  induction l with
  | nil => simp [entriesLookup]
  | cons e l ih =>
    rw [List.map_cons, List.nodup_cons] at hnd
    rw [entriesLookup_cons]
    split
    · rename_i hk
      subst hk
      constructor
      · rintro h
        exact ⟨e, List.mem_cons_self, rfl, Option.some.inj h⟩
      · rintro ⟨e', he', hk', rfl⟩
        rcases List.mem_cons.mp he' with rfl | hmem
        · rfl
        · exact absurd (hk' ▸ List.mem_map_of_mem hmem) hnd.1
    · rename_i hk
      rw [ih hnd.2]
      constructor
      · rintro ⟨e', he', h⟩
        exact ⟨e', List.mem_cons_of_mem _ he', h⟩
      · rintro ⟨e', he', hk', hv⟩
        rcases List.mem_cons.mp he' with rfl | hmem
        · exact absurd hk' hk
        · exact ⟨e', hmem, hk', hv⟩

/-- With distinct keys the order of the entries does not matter. -/
theorem entriesLookup_perm {l l' : List (DictEntry K V)} (hp : l.Perm l')
    (hnd : (l'.map DictEntry.key).Nodup) (key : K) : entriesLookup l key = entriesLookup l' key := by
  have hnd' : (l.map DictEntry.key).Nodup := (hp.map DictEntry.key).nodup_iff.mpr hnd
  cases h : entriesLookup l' key with
  | none =>
    rw [entriesLookup_eq_none_iff] at h ⊢
    rwa [(hp.map DictEntry.key).mem_iff]
  | some v =>
    rw [entriesLookup_eq_some_iff hnd] at h
    rw [entriesLookup_eq_some_iff hnd']
    obtain ⟨e, he, hk⟩ := h
    exact ⟨e, hp.mem_iff.mpr he, hk⟩

theorem entriesLookup_map_setV (l : List (DictEntry K V)) (key : K) (val : V) (k : K) :
    entriesLookup (l.map (DictEntry.setV key val)) k
      = if k = key then (entriesLookup l k).map (fun _ => some val) else entriesLookup l k := by
  induction l with
  | nil => simp [entriesLookup]
  | cons e l ih =>
    rw [List.map_cons, entriesLookup_cons, entriesLookup_cons, DictEntry.setV_key, ih]
    by_cases hek : e.key = k
    · subst hek
      by_cases hk : e.key = key <;> simp [hk, DictEntry.setV]
    · simp [hek]

theorem Dict.Becomes.lookup_eq {hash : K → BitVec 32} {d d' : Dict K V}
    {l : List (DictEntry K V)} (h : d.Becomes hash d' l) (k : K) :
    d'.lookup k = entriesLookup l k :=
  entriesLookup_perm h.perm ((h.perm.map DictEntry.key).nodup_iff.mp h.inv.nodup) k

theorem Dict.lookup_eq_none_iff {d : Dict K V} {k : K} : d.lookup k = none ↔ k ∉ d.keys :=
  entriesLookup_eq_none_iff

/-- Reading a valid pointer is a lookup of its key. -/
theorem Dict.Inv.some_dictGetVal {hash : K → BitVec 32} {d : Dict K V} (h : d.Inv hash)
    {p : DictEntryRef K} (hp : d.Linked p) : some (dictGetVal d p) = d.lookup p.key := by
  obtain ⟨e, he, hk⟩ := hp.exists_mem
  rw [h.dictGetVal_eq hp he hk]
  exact ((entriesLookup_eq_some_iff h.nodup).mpr ⟨e, he, hk, rfl⟩).symm

/-! ### Calls and replies -/

/-- A call of the `dict.c` interface, or a change of the global `dict_can_resize`. -/
inductive DictOp (K V : Type)
  | add (key : K) (val : V)
  | replace (key : K) (val : V)
  | replaceRaw (key : K)
  | delete (key : K)
  | find (key : K)
  | expand (size : Nat)
  | resize
  | rehash (n : Int)
  | setCanResize (b : Bool)
  deriving DecidableEq, Repr

/-- What the caller sees. -/
inductive DictReply (V : Type)
  /-- `DICT_OK` or `DICT_ERR` of `dictAdd` and `dictDelete`. -/
  | status (s : DictStatus)
  /-- 1 or 0 of `dictReplace`. -/
  | replaced (added : Bool)
  /-- `NULL`, or the value in the entry that `dictFind` or `dictReplaceRaw` returned. -/
  | entry (v : Option (Option V))
  /-- Maintenance calls tell nothing about the contents. -/
  | unit
  deriving DecidableEq, Repr

/-- The abstract map. -/
abbrev DictMap (K V : Type) := Finmap (fun _ : K => Option V)

/-- One call on the abstract map. -/
def mapStep (m : DictMap K V) : DictOp K V → DictReply V × DictMap K V
  | .add key val =>
      if (m.lookup key).isSome then (.status .err, m)
      else (.status .ok, m.insert key (some val))
  | .replace key val => (.replaced (m.lookup key).isNone, m.insert key (some val))
  | .replaceRaw key =>
      if (m.lookup key).isSome then (.entry (m.lookup key), m)
      else (.entry (some none), m.insert key none)
  | .delete key =>
      if (m.lookup key).isSome then (.status .ok, m.erase key) else (.status .err, m)
  | .find key => (.entry (m.lookup key), m)
  | .expand _ | .resize | .rehash _ | .setCanResize _ => (.unit, m)

/-- A sequence of calls on the abstract map. -/
def mapRun : List (DictOp K V) → DictMap K V → List (DictReply V) × DictMap K V
  | [], m => ([], m)
  | op :: ops, m =>
      let (reply, m) := mapStep m op
      let (replies, m) := mapRun ops m
      (reply :: replies, m)

variable (hash : K → BitVec 32)

/-- One call on the dictionary; the state is paired with `dict_can_resize`. -/
def dictStep (s : Bool × Dict K V) : DictOp K V → Except DictFault (DictReply V × Bool × Dict K V)
  | .add key val => do
      let (st, d) ← dictAdd hash s.1 s.2 key val
      return (.status st, s.1, d)
  | .replace key val => do
      let (added, d) ← dictReplace hash s.1 s.2 key val
      return (.replaced added, s.1, d)
  | .replaceRaw key => do
      let (p, d) ← dictReplaceRaw hash s.1 s.2 key
      return (.entry (p.map (dictGetVal d)), s.1, d)
  | .delete key => do
      let (st, d) ← dictDelete hash s.2 key
      return (.status st, s.1, d)
  | .find key => do
      let (p, d) ← dictFind hash s.2 key
      return (.entry (p.map (dictGetVal d)), s.1, d)
  | .expand size => do
      let (_, d) ← dictExpand s.2 size
      return (.unit, s.1, d)
  | .resize => do
      let (_, d) ← dictResize s.1 s.2
      return (.unit, s.1, d)
  | .rehash n => do
      let (_, d) ← dictRehash hash s.2 n
      return (.unit, s.1, d)
  | .setCanResize b => return (.unit, b, s.2)

/-- A sequence of calls on the dictionary. -/
def dictRun : List (DictOp K V) → Bool × Dict K V →
    Except DictFault (List (DictReply V) × Bool × Dict K V)
  | [], s => return ([], s)
  | op :: ops, s => do
      let (reply, s) ← dictStep hash s op
      let (replies, s) ← dictRun ops s
      return (reply :: replies, s)

/-! ### Simulation -/

/-- The dictionary satisfies its invariant and holds the map `m`. -/
structure Dict.Represents (d : Dict K V) (m : DictMap K V) : Prop where
  inv : d.Inv hash
  lookup : ∀ k, d.lookup k = m.lookup k

variable {hash}

theorem Dict.Represents.mem_keys {d : Dict K V} {m : DictMap K V} (h : d.Represents hash m)
    (k : K) : k ∈ d.keys ↔ (m.lookup k).isSome := by
  rw [← h.lookup k, ← not_iff_not, ← Dict.lookup_eq_none_iff]
  simp

/-- Every dictionary that satisfies its invariant holds some map. -/
theorem Dict.Inv.exists_represents {d : Dict K V} (h : d.Inv hash) :
    ∃ m, d.Represents hash m := by
  refine ⟨(d.entries.map (fun e => (⟨e.key, e.v⟩ : Sigma fun _ : K => Option V))).toFinmap,
    h, fun k => ?_⟩
  rw [Finmap.dlookup_list_toFinmap, Dict.lookup]
  induction d.entries with
  | nil => rfl
  | cons e l ih =>
    rw [entriesLookup_cons, List.map_cons]
    by_cases hk : e.key = k
    · subst hk
      rw [if_pos rfl, List.dlookup_cons_eq]
    · rw [if_neg hk, List.dlookup_cons_ne _ _ (Ne.symm hk)]
      exact ih

theorem Dict.Represents.card_keys {d : Dict K V} {m : DictMap K V} (h : d.Represents hash m) :
    d.ht0.used + d.ht1.used = m.keys.card := by
  have hk : m.keys = d.keys.toFinset := by
    ext k
    rw [Finmap.mem_keys, List.mem_toFinset, h.mem_keys k, Finmap.lookup_isSome]
  rw [hk, List.toFinset_card_of_nodup h.inv.nodup]
  exact h.inv.dictSize_eq

/-- Reorganising the tables does not change the map. -/
theorem Dict.Represents.of_becomes {d d' : Dict K V} {m : DictMap K V}
    (h : d.Represents hash m) (hb : d.Becomes hash d' d.entries) : d'.Represents hash m :=
  ⟨hb.inv, fun k => (hb.lookup_eq k).trans (h.lookup k)⟩

theorem Dict.Represents.of_kept {d d' : Dict K V} {m : DictMap K V} (h : d.Represents hash m)
    (hk : @Dict.Kept K V hash d d') : d'.Represents hash m :=
  ⟨hk.inv, fun k => by rw [Dict.lookup, hk.entries]; exact h.lookup k⟩

/-- A new entry is an insertion. -/
theorem Dict.Represents.of_cons {d d' : Dict K V} {m : DictMap K V} (h : d.Represents hash m)
    {e : DictEntry K V} (hb : d.Becomes hash d' (e :: d.entries)) :
    d'.Represents hash (m.insert e.key e.v) := by
  refine ⟨hb.inv, fun k => ?_⟩
  rw [hb.lookup_eq k, entriesLookup_cons]
  split
  · rename_i hk
    rw [← hk, Finmap.lookup_insert]
  · rename_i hk
    rw [Finmap.lookup_insert_of_ne _ (Ne.symm hk)]
    exact h.lookup k

/-- **One call.**  The dictionary returns what the map returns and represents the new
    map; the only fault left is a table beyond the limit of the model. -/
theorem dictStep_refines {s : Bool × Dict K V} {m : DictMap K V} (h : s.2.Represents hash m)
    (op : DictOp K V) :
    Sat (dictStep hash s op)
      (fun r => r.1 = (mapStep m op).1 ∧ r.2.2.Represents hash (mapStep m op).2)
      (fun e => e = .tooManyBuckets) := by
  have hnone : ∀ k, k ∉ s.2.keys → (m.lookup k).isSome = false := by
    intro k hk
    rw [h.mem_keys k] at hk
    simpa using hk
  have hsome : ∀ k, k ∈ s.2.keys → (m.lookup k).isSome = true := fun k hk => (h.mem_keys k).mp hk
  cases op with
  | add key val =>
    refine Sat.bind (dictAdd_spec h.inv s.1 key val) ?_
    rintro ⟨st, d⟩ hadd
    cases st with
    | err => simpa [mapStep, hsome key hadd.1] using h.of_becomes hadd.2
    | ok => simpa [mapStep, hnone key hadd.1] using h.of_cons hadd.2
  | replace key val =>
    refine Sat.bind (dictReplace_spec h.inv s.1 key val) ?_
    rintro ⟨added, d⟩ hrep
    cases added with
    | true =>
      have hm := hnone key hrep.1
      exact ⟨by simp [mapStep, Option.isSome_eq_false_iff.mp hm], h.of_cons hrep.2⟩
    | false =>
      obtain ⟨hmem, hb⟩ : key ∈ s.2.keys ∧ _ := hrep
      have hm := hsome key hmem
      refine ⟨by simpa [mapStep] using hm, hb.inv, fun k => ?_⟩
      rw [hb.lookup_eq k, entriesLookup_map_setV]
      show _ = (m.insert key (some val)).lookup k
      by_cases hk : k = key
      · subst hk
        obtain ⟨w, hw⟩ := Option.isSome_iff_exists.mp hm
        have hl : entriesLookup s.2.entries k = some w := (h.lookup k).trans hw
        rw [if_pos rfl, hl, Finmap.lookup_insert]; rfl
      · rw [if_neg hk, Finmap.lookup_insert_of_ne _ hk]
        exact h.lookup k
  | replaceRaw key =>
    refine Sat.bind (dictReplaceRaw_spec h.inv s.1 key) ?_
    rintro ⟨p, d⟩ ⟨q, rfl, hqk, hlink, hb⟩
    have hval : some (dictGetVal d q) = d.lookup key := hqk ▸ hb.inv.some_dictGetVal hlink
    by_cases hmem : key ∈ s.2.keys
    · rw [if_pos hmem] at hb
      have hr := h.of_becomes hb
      refine ⟨?_, by simpa [mapStep, hsome key hmem] using hr⟩
      simpa [mapStep, hsome key hmem] using hval.trans (hr.lookup key)
    · rw [if_neg hmem] at hb
      have hr := h.of_cons hb
      refine ⟨?_, by simpa [mapStep, hnone key hmem] using hr⟩
      have hl := hval.trans (hr.lookup key)
      rw [Finmap.lookup_insert] at hl
      simpa [mapStep, hnone key hmem] using hl
  | delete key =>
    refine Sat.bind ((dictGenericDelete_spec h.inv key).mono (fun _ hr => hr)
      (fun _ hf => hf.elim)) ?_
    rintro ⟨st, d⟩ hdel
    cases st with
    | err => simpa [mapStep, hnone key hdel.1] using h.of_becomes hdel.2
    | ok =>
      obtain ⟨e, hek, hperm, hb⟩ := hdel
      have hmem : key ∈ s.2.keys :=
        (hperm.map DictEntry.key).mem_iff.mpr (by simp [hek])
      refine ⟨by simp [mapStep, hsome key hmem], ?_⟩
      simp only [mapStep, hsome key hmem, if_true]
      refine ⟨hb.inv, fun k => ?_⟩
      have hnd : ((e :: d.entries).map DictEntry.key).Nodup :=
        (hperm.map DictEntry.key).nodup_iff.mp h.inv.nodup
      have hlk := (h.lookup k).symm.trans (entriesLookup_perm hperm hnd k)
      rw [entriesLookup_cons] at hlk
      by_cases hk : k = key
      · subst hk
        rw [Finmap.lookup_erase, Dict.lookup_eq_none_iff]
        rw [List.map_cons, List.nodup_cons, hek] at hnd
        exact hnd.1
      · rw [Finmap.lookup_erase_ne hk, hlk, if_neg (by rw [hek]; exact Ne.symm hk)]; rfl
  | find key =>
    refine Sat.bind ((dictFind_spec h.inv key).mono (fun _ hr => hr) (fun _ hf => hf.elim)) ?_
    rintro ⟨p, d⟩ ⟨hb, hp⟩
    refine ⟨?_, h.of_becomes hb⟩
    cases p with
    | none =>
      have hl : m.lookup key = none := by simpa using hnone key hp
      simp [mapStep, hl]
    | some q =>
      obtain ⟨-, hqk, hlink⟩ := hp
      have hval : some (dictGetVal d q) = d.lookup key := hqk ▸ hb.inv.some_dictGetVal hlink
      simpa [mapStep] using hval.trans ((h.of_becomes hb).lookup key)
  | expand size =>
    exact Sat.bind (dictExpand_spec h.inv size) (fun r hr => ⟨rfl, h.of_kept hr.1⟩)
  | resize => exact Sat.bind (dictResize_spec h.inv s.1) (fun r hr => ⟨rfl, h.of_kept hr.1⟩)
  | rehash n =>
    exact Sat.bind ((dictRehash_spec h.inv n).mono (fun _ hr => hr) (fun _ hf => hf.elim))
      (fun r hr => ⟨rfl, h.of_becomes hr.becomes⟩)
  | setCanResize b => exact ⟨rfl, h⟩

/-- A sequence of calls. -/
theorem dictRun_represents (ops : List (DictOp K V)) {s : Bool × Dict K V} {m : DictMap K V}
    (h : s.2.Represents hash m) :
    Sat (dictRun hash ops s)
      (fun r => r.1 = (mapRun ops m).1 ∧ r.2.2.Represents hash (mapRun ops m).2)
      (fun e => e = .tooManyBuckets) := by
  induction ops generalizing s m with
  | nil => exact ⟨rfl, h⟩
  | cons op ops ih =>
    refine Sat.bind (dictStep_refines h op) ?_
    rintro ⟨reply, s'⟩ ⟨hreply, hs'⟩
    refine Sat.bind (ih hs') ?_
    rintro ⟨replies, s''⟩ ⟨hreplies, hs''⟩
    exact ⟨by rw [mapRun]; exact congrArg₂ _ hreply hreplies, hs''⟩

theorem dictCreate_represents : (dictCreate : Dict K V).Represents hash ∅ :=
  ⟨dictCreate_inv, fun k => by
    rw [Finmap.lookup_empty]; rfl⟩

end Redis
