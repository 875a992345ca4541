import Redis.Dict.Refinement

namespace Redis

open Outcome

/-!
# Iterators

An iterator walks the buckets of `ht[0]` and, if a rehash is running by then, those of
`ht[1]`.  It saves the entry after the one it returns, because the caller may delete the
latter.

* `dictNext` — the loop, with entries named by table, bucket and key;
* `DictIterator.Ahead` — the keys the iterator has still to return;
* `dictNext_spec` — a call returns one of them and leaves the others, or returns `NULL`
  when there are none.
-/

variable {K V : Type}

/-- `dictIterator`, without the fingerprint that only unsafe iterators use. -/
structure DictIterator (K : Type) where
  table : Nat
  index : Int
  safe : Bool
  entry : Option (DictEntryRef K)
  nextEntry : Option (DictEntryRef K)
  deriving DecidableEq, Repr

/-- `dictGetIterator`. -/
def dictGetIterator : DictIterator K :=
  { table := 0, index := -1, safe := false, entry := none, nextEntry := none }

/-- `dictGetSafeIterator`. -/
def dictGetSafeIterator : DictIterator K := { dictGetIterator with safe := true }

/-- `ht->table[i]`: the head of the chain, as a pointer. -/
def dictChainHead (d : Dict K V) (table index : Nat) : Option (DictEntryRef K) :=
  ((d.ht table).bucket index).head?.map (fun e => ⟨table, index, e.key⟩)

section Model

variable [DecidableEq K]

/-- `entry->next`: read from the chain that holds the entry. -/
def dictEntryNext (d : Dict K V) (r : DictEntryRef K) :
    Except DictFault (Option (DictEntryRef K)) :=
  match ((d.ht r.table).bucket r.index).dropWhile (fun e => e.key ≠ r.key) with
  | [] => .error .danglingEntry
  | [_] => .ok none
  | _ :: e :: _ => .ok (some ⟨r.table, r.index, e.key⟩)

/-- The loop body of `dictNext` up to the test of `iter->entry`.  The flag tells a
    `break`. -/
def dictNextAdvance (d : Dict K V) (iter : DictIterator K) : Bool × DictIterator K × Dict K V :=
  if iter.entry.isNone then
    let d := if iter.index = -1 ∧ iter.table = 0 ∧ iter.safe then
      { d with iterators := d.iterators + 1 } else d
    let index := iter.index + 1
    if ((d.ht iter.table).size : Int) ≤ index then
      if d.isRehashing ∧ iter.table = 0 then
        (false, { iter with table := 1, index := 0, entry := dictChainHead d 1 0 }, d)
      else
        (true, { iter with index := index }, d)
    else
      (false, { iter with index := index, entry := dictChainHead d iter.table index.toNat }, d)
  else
    (false, { iter with entry := iter.nextEntry }, d)

/-- `while (1) { ... }`. -/
def dictNextLoop : Nat → Dict K V → DictIterator K →
    Except DictFault (Option (DictEntryRef K) × DictIterator K × Dict K V)
  | 0, _, _ => .error .iterFuel
  | fuel + 1, d, iter =>
      let (stop, iter, d) := dictNextAdvance d iter
      if stop then
        .ok (none, iter, d)
      else match iter.entry with
        | none => dictNextLoop fuel d iter
        | some r => do
            -- saved here: the caller may delete the entry we are returning
            let nextEntry ← dictEntryNext d r
            return (some r, { iter with nextEntry := nextEntry }, d)

/-- `dictNext`: the entry (`none` is `NULL`), the iterator and the dictionary, whose
    count of safe iterators goes up at the first call. -/
def dictNext (d : Dict K V) (iter : DictIterator K) :
    Except DictFault (Option (DictEntryRef K) × DictIterator K × Dict K V) :=
  dictNextLoop (d.ht0.size + d.ht1.size + 4) d iter

/-- `dictReleaseIterator` of a safe iterator. -/
def dictReleaseIterator (d : Dict K V) (iter : DictIterator K) : Dict K V :=
  if ¬ (iter.index = -1 ∧ iter.table = 0) ∧ iter.safe then
    { d with iterators := d.iterators - 1 }
  else d

/-! ### Chains of keys -/

/-- The part of a chain from `n` on. -/
def chainFrom (n : K) (c : List K) : List K := c.dropWhile (fun k => k ≠ n)

theorem chainFrom_cons_self (n : K) (c : List K) : chainFrom n (n :: c) = n :: c := by
  simp [chainFrom]

theorem chainFrom_cons_ne {n k : K} (h : k ≠ n) (c : List K) :
    chainFrom n (k :: c) = chainFrom n c := by
  simp [chainFrom, h]

theorem mem_of_mem_chainFrom {n k : K} {c : List K} (h : k ∈ chainFrom n c) : k ∈ c :=
  (List.dropWhile_sublist _).subset h

theorem chainFrom_ne_nil {n : K} {c : List K} (h : n ∈ c) : ∃ rest, chainFrom n c = n :: rest := by
  induction c with
  | nil => simp at h
  | cons k c ih =>
    by_cases hk : k = n
    · subst hk
      exact ⟨c, chainFrom_cons_self k c⟩
    · rw [chainFrom_cons_ne hk]
      exact ih ((List.mem_cons.mp h).resolve_left (Ne.symm hk))

/-- The tail of a chain starts at its own first key. -/
theorem chainFrom_of_chainFrom_eq {n m : K} {c rest : List K} (hnd : c.Nodup)
    (h : chainFrom n c = n :: m :: rest) : chainFrom m c = m :: rest := by
  induction c with
  | nil => simp [chainFrom] at h
  | cons k c ih =>
    rw [List.nodup_cons] at hnd
    by_cases hk : k = n
    · subst hk
      rw [chainFrom_cons_self] at h
      obtain ⟨-, rfl⟩ := List.cons.inj h
      have hne : k ≠ m := fun hkm => hnd.1 (by simp [hkm])
      rw [chainFrom_cons_ne hne, chainFrom_cons_self]
    · rw [chainFrom_cons_ne hk] at h
      have hkm : k ≠ m := by
        rintro rfl
        exact hnd.1 (mem_of_mem_chainFrom (n := n) (h ▸ by simp))
      rw [chainFrom_cons_ne hkm]
      exact ih hnd.2 h

/-- Unlinking a key other than `n` takes only that key from the part from `n` on. -/
theorem mem_chainFrom_erase {n k₀ : K} {c : List K} (hne : k₀ ≠ n) {k : K} :
    (k ∈ chainFrom n (c.erase k₀) → k ∈ chainFrom n c) ∧
    (k ≠ k₀ → k ∈ chainFrom n c → k ∈ chainFrom n (c.erase k₀)) := by
  induction c with
  | nil => exact ⟨id, fun _ => id⟩
  | cons a c ih =>
    by_cases han : a = n
    · subst han
      rw [List.erase_cons_tail (by simpa using Ne.symm hne), chainFrom_cons_self,
        chainFrom_cons_self]
      refine ⟨fun hk => ?_, fun hkk hk => ?_⟩
      · rcases List.mem_cons.mp hk with rfl | hk
        · exact List.mem_cons_self
        · exact List.mem_cons_of_mem _ (List.mem_of_mem_erase hk)
      · rcases List.mem_cons.mp hk with rfl | hk
        · exact List.mem_cons_self
        · exact List.mem_cons_of_mem _ ((List.mem_erase_of_ne hkk).mpr hk)
    · rw [chainFrom_cons_ne han]
      by_cases hak : a = k₀
      · subst hak
        rw [List.erase_cons_head]
        exact ⟨id, fun _ => id⟩
      · rw [List.erase_cons_tail (by simpa using hak), chainFrom_cons_ne han]
        exact ih

end Model

/-- The keys of a bucket, in chain order. -/
def Dict.chainKeys (d : Dict K V) (table index : Nat) : List K :=
  ((d.ht table).bucket index).map DictEntry.key

variable {hash : K → BitVec 32}

variable {d : Dict K V} {iter j : DictIterator K}

theorem Dict.mem_keys_of_chainKeys {t i : Nat} {k : K} (h : k ∈ d.chainKeys t i) :
    k ∈ d.keys := by
  obtain ⟨e, he, rfl⟩ := List.mem_map.mp h
  refine List.mem_map_of_mem ?_
  have hmem := DictHt.mem_entries_iff.mpr ⟨i, he⟩
  rw [Dict.ht] at hmem
  split at hmem
  · exact List.mem_append_left _ hmem
  · exact List.mem_append_right _ hmem

theorem Dict.exists_chainKeys {k : K} (h : k ∈ d.keys) :
    ∃ t i, t ≤ 1 ∧ k ∈ d.chainKeys t i := by
  obtain ⟨e, he, rfl⟩ := List.mem_map.mp h
  rcases List.mem_append.mp he with he | he
  · obtain ⟨i, hi⟩ := DictHt.mem_entries_iff.mp he
    exact ⟨0, i, by omega, List.mem_map_of_mem hi⟩
  · obtain ⟨i, hi⟩ := DictHt.mem_entries_iff.mp he
    exact ⟨1, i, le_refl _, List.mem_map_of_mem hi⟩

section Placement

variable {d : Dict K V} (h : d.Inv hash)
include h

/-- A chain holds no key twice. -/
theorem Dict.Inv.nodup_chainKeys (t i : Nat) : (d.chainKeys t i).Nodup := by
  have hsub : (d.chainKeys t i).Subperm d.keys := by
    by_cases hi : i < (d.ht t).table.length
    · have h1 : (d.chainKeys t i).Subperm ((d.ht t).entries.map DictEntry.key) := by
        have hp := ((d.ht t).entries_perm_bucket hi).map DictEntry.key
        rw [List.map_append] at hp
        exact (List.sublist_append_left _ _).subperm.trans hp.symm.subperm
      refine h1.trans ?_
      rw [Dict.ht, Dict.keys, Dict.entries, List.map_append]
      split
      · exact (List.sublist_append_left _ _).subperm
      · exact (List.sublist_append_right _ _).subperm
    · have hnil : (d.ht t).bucket i = [] := by
        rw [DictHt.bucket, List.getD_eq_getElem?_getD, List.getElem?_eq_none (by omega)]; rfl
      rw [Dict.chainKeys, hnil]
      exact List.nil_subperm
  obtain ⟨l, hp, hs⟩ := hsub
  exact hp.nodup_iff.mp (h.nodup.sublist hs)

/-- A key lives in one bucket of one table. -/
theorem Dict.Inv.chainKeys_unique {t i t' i' : Nat} {k : K} (ht : t ≤ 1) (ht' : t' ≤ 1)
    (hk : k ∈ d.chainKeys t i) (hk' : k ∈ d.chainKeys t' i') : t = t' ∧ i = i' := by
  have hw : ∀ t, (d.ht t).Wf hash := by
    intro t
    rw [Dict.ht]
    split
    · exact h.wf0
    · exact h.wf1
  have hin : ∀ {t i}, k ∈ d.chainKeys t i → (d.ht t).index hash k = i ∧
      k ∈ (d.ht t).entries.map DictEntry.key := by
    intro t i hmem
    obtain ⟨e, he, rfl⟩ := List.mem_map.mp hmem
    exact ⟨(hw t).placed i e he, List.mem_map_of_mem (DictHt.mem_entries_iff.mpr ⟨i, he⟩)⟩
  obtain ⟨hidx, hmem⟩ := hin hk
  obtain ⟨hidx', hmem'⟩ := hin hk'
  have hnd : (d.ht0.entries.map DictEntry.key ++ d.ht1.entries.map DictEntry.key).Nodup := by
    rw [← List.map_append]
    exact h.nodup
  have hdisj := (List.nodup_append.mp hnd).2.2
  have htt : t = t' := by
    rcases Nat.le_one_iff_eq_zero_or_eq_one.mp ht with rfl | rfl <;>
      rcases Nat.le_one_iff_eq_zero_or_eq_one.mp ht' with rfl | rfl
    · rfl
    · exact absurd rfl (hdisj k hmem k hmem')
    · exact absurd rfl (hdisj k hmem' k hmem)
    · rfl
  subst htt
  exact ⟨rfl, hidx.symm.trans hidx'⟩

/-- Past the end of a table there are no chains. -/
theorem Dict.Inv.chainKeys_eq_nil {t i : Nat} (hi : (d.ht t).size ≤ i) : d.chainKeys t i = [] := by
  have hlen : (d.ht t).table.length = (d.ht t).size := by
    rw [Dict.ht]
    split
    · exact h.wf0.length_eq
    · exact h.wf1.length_eq
  rw [Dict.chainKeys, DictHt.bucket, List.getD_eq_getElem?_getD,
    List.getElem?_eq_none (by omega)]
  rfl

/-- The second table is empty unless a rehash is running. -/
theorem Dict.Inv.chainKeys_one_eq_nil (hidle : d.isRehashing = false) (i : Nat) :
    d.chainKeys 1 i = [] := by
  have hr : d.ht 1 = .reset := h.idle (by simpa using hidle)
  rw [Dict.chainKeys, hr]
  simp [DictHt.reset, DictHt.bucket]

end Placement

/-! ### What an iterator has still to return -/

variable [DecidableEq K]

/-- The keys in the buckets after position `(t, i)`. -/
def Dict.KeyAfter (d : Dict K V) (t : Nat) (i : Int) (k : K) : Prop :=
  ∃ t' i', t' ≤ 1 ∧ k ∈ d.chainKeys t' i' ∧ (t < t' ∨ (t = t' ∧ i < (i' : Int)))

/-- The keys the iterator has still to return: the rest of the present chain from the
    saved entry on, and the buckets after it. -/
def DictIterator.Ahead (d : Dict K V) (iter : DictIterator K) (k : K) : Prop :=
  d.KeyAfter iter.table iter.index k ∨
    (iter.entry.isSome ∧ ∃ n, iter.nextEntry = some n ∧
      k ∈ chainFrom n.key (d.chainKeys n.table n.index))

/-- The positions an iterator can be in: the saved entry is linked in the present chain. -/
structure DictIterator.Ok (d : Dict K V) (iter : DictIterator K) : Prop where
  table_le : iter.table ≤ 1
  index_ge : -1 ≤ iter.index
  rehashing : iter.table = 1 → d.isRehashing = true ∧ 0 ≤ iter.index
  started : iter.entry.isSome → 0 ≤ iter.index
  linked : iter.entry.isSome → ∀ n, iter.nextEntry = some n →
    n.table = iter.table ∧ (n.index : Int) = iter.index ∧ n.key ∈ d.chainKeys n.table n.index

/-- Reading `entry->next` through a linked pointer. -/
theorem dictEntryNext_spec (h : d.Inv hash) {r : DictEntryRef K} (hr : r.key ∈ d.chainKeys r.table r.index) :
    Sat (dictEntryNext d r) (fun next => match next with
      | none => chainFrom r.key (d.chainKeys r.table r.index) = [r.key]
      | some n => n.table = r.table ∧ n.index = r.index ∧
          n.key ∈ d.chainKeys r.table r.index ∧
          chainFrom r.key (d.chainKeys r.table r.index)
            = r.key :: chainFrom n.key (d.chainKeys r.table r.index)) (fun _ => False) := by
  have hmap : chainFrom r.key (d.chainKeys r.table r.index)
      = (((d.ht r.table).bucket r.index).dropWhile (fun e => e.key ≠ r.key)).map DictEntry.key := by
    rw [chainFrom, Dict.chainKeys, List.dropWhile_map]
    rfl
  obtain ⟨rest, hrest⟩ := chainFrom_ne_nil hr
  have hhead := hmap.symm.trans hrest
  rw [dictEntryNext]
  split
  · rename_i hnil
    rw [hnil] at hhead
    simp at hhead
  · rename_i e hone
    rw [hone] at hhead
    rw [hrest]
    obtain ⟨-, rfl⟩ := List.cons.inj hhead
    rfl
  · rename_i e n tl hcons
    rw [hcons] at hhead
    obtain ⟨-, rfl⟩ := List.cons.inj hhead
    have htail := chainFrom_of_chainFrom_eq (h.nodup_chainKeys r.table r.index) hrest
    refine ⟨rfl, rfl, mem_of_mem_chainFrom (n := n.key) (by rw [htail]; simp), ?_⟩
    rw [hrest, htail]
    rfl

/-- What a call of `dictNext` returns. -/
def NextReturns (d : Dict K V) (iter : DictIterator K)
    (r : Option (DictEntryRef K) × DictIterator K × Dict K V) : Prop :=
  r.2.1.Ok d ∧ r.2.1.safe = iter.safe ∧ 0 ≤ r.2.1.index ∧
  r.2.2 = { d with iterators := d.iterators +
    (if iter.index = -1 ∧ iter.table = 0 ∧ iter.safe then 1 else 0) } ∧
  match r.1 with
  | none => ∀ k, ¬ iter.Ahead d k
  | some p => p.key ∈ d.keys ∧ ¬ r.2.1.Ahead d p.key ∧
      ∀ k, iter.Ahead d k ↔ k = p.key ∨ r.2.1.Ahead d k

/-- Returning the entry `r` of the present chain: the keys from `r` on are `r` and what
    its saved successor leads to. -/
theorem nextReturns_of_entry {d e : Dict K V} (h : d.Inv hash) {r : DictEntryRef K}
    {next : Option (DictEntryRef K)} (hnext : dictEntryNext d r = .ok next)
    (hok : j.table ≤ 1 ∧ (j.table = 1 → d.isRehashing = true) ∧ 0 ≤ j.index) (hsafe : j.safe = iter.safe)
    (hentry : j.entry = some r) (htable : r.table = j.table) (hindex : (r.index : Int) = j.index)
    (hr : r.key ∈ d.chainKeys r.table r.index) (hd' : e = { d with iterators := d.iterators +
      (if iter.index = -1 ∧ iter.table = 0 ∧ iter.safe then 1 else 0) })
    (hahead : ∀ k, iter.Ahead d k ↔ d.KeyAfter j.table j.index k ∨
      k ∈ chainFrom r.key (d.chainKeys r.table r.index)) :
    NextReturns d iter (some r, { j with nextEntry := next }, e) := by
  have hspec := (dictEntryNext_spec h hr).of_eq_ok hnext
  have hrt : r.table ≤ 1 := htable ▸ hok.1
  -- the keys from the successor on
  have hsplit : ∀ k, k ∈ chainFrom r.key (d.chainKeys r.table r.index) ↔ k = r.key ∨
      ∃ n, next = some n ∧ k ∈ chainFrom n.key (d.chainKeys n.table n.index) := by
    intro k
    cases next with
    | none =>
      rw [show chainFrom r.key (d.chainKeys r.table r.index) = [r.key] from hspec]
      simp
    | some n =>
      obtain ⟨h1, h2, -, h4⟩ := hspec
      rw [h4, List.mem_cons, ← h1, ← h2]
      simp
  have hnd : ∀ n, next = some n → r.key ∉ chainFrom n.key (d.chainKeys n.table n.index) := by
    rintro n rfl hmem
    obtain ⟨h1, h2, -, h4⟩ := hspec
    have hnodup : (chainFrom r.key (d.chainKeys r.table r.index)).Nodup :=
      (h.nodup_chainKeys _ _).sublist (List.dropWhile_sublist _)
    rw [h4, List.nodup_cons] at hnodup
    rw [h1, h2] at hmem
    exact hnodup.1 hmem
  refine ⟨⟨hok.1, by show -1 ≤ j.index; omega, fun ht => ⟨hok.2.1 ht, hok.2.2⟩,
    fun _ => hok.2.2, ?_⟩, hsafe, hok.2.2, hd', Dict.mem_keys_of_chainKeys hr, ?_, ?_⟩
  · rintro - n rfl
    obtain ⟨h1, h2, h3, -⟩ := hspec
    exact ⟨h1.trans htable, by rw [h2]; exact hindex, by rw [h1, h2]; exact h3⟩
  · rintro (⟨t', i', ht', hk, hpos⟩ | ⟨-, n, hn, hmem⟩)
    · obtain ⟨rfl, rfl⟩ := h.chainKeys_unique hrt ht' hr hk
      rcases hpos with hlt | ⟨-, hlt⟩
      · exact absurd hlt (by show ¬ j.table < r.table; omega)
      · exact absurd hlt (by show ¬ j.index < (r.index : Int); omega)
    · exact hnd n hn hmem
  · intro k
    rw [hahead k, hsplit k]
    constructor
    · rintro (hafter | rfl | hn)
      · exact Or.inr (Or.inl hafter)
      · exact Or.inl rfl
      · exact Or.inr (Or.inr ⟨by show j.entry.isSome; rw [hentry]; rfl, hn⟩)
    · rintro (rfl | hafter | ⟨-, hn⟩)
      · exact Or.inr (Or.inl rfl)
      · exact Or.inl hafter
      · exact Or.inr (Or.inr hn)

omit [DecidableEq K] in
/-- The invariant does not read the count of iterators. -/
theorem Dict.Inv.withIterators (h : d.Inv hash) (n : Nat) :
    Dict.Inv hash { d with iterators := n } :=
  ⟨h.wf0, h.wf1, h.nodup, h.idle, h.busy, h.below⟩

/-- A round of the loop that found no entry: the next round returns for both. -/
theorem NextReturns.of_advance {c : Nat} {r : Option (DictEntryRef K) × DictIterator K × Dict K V}
    (h : NextReturns { d with iterators := d.iterators + c } j r) (hpos : 0 ≤ j.index)
    (hsafe : j.safe = iter.safe) (hc : c = if iter.index = -1 ∧ iter.table = 0 ∧ iter.safe then 1 else 0)
    (hahead : ∀ k, iter.Ahead d k ↔ j.Ahead d k) : NextReturns d iter r := by
  obtain ⟨hok, hs, hidx, hd, hres⟩ := h
  have hnot : ¬ (j.index = -1 ∧ j.table = 0 ∧ j.safe = true) := by
    rintro ⟨h1, -⟩
    omega
  rw [if_neg hnot] at hd
  refine ⟨⟨hok.1, hok.2, hok.3, hok.4, hok.5⟩, hs.trans hsafe, hidx, by rw [hd, ← hc]; rfl, ?_⟩
  cases hr : r.1 with
  | none =>
    rw [hr] at hres
    exact fun k hk => hres k ((hahead k).mp hk)
  | some p =>
    rw [hr] at hres
    exact ⟨hres.1, hres.2.1, fun k => (hahead k).trans (hres.2.2 k)⟩

/-- The rounds the loop may still need. -/
def DictIterator.roundsLeft (d : Dict K V) (iter : DictIterator K) : Nat :=
  (if iter.table = 0 then ((d.ht0.size : Int) - iter.index).toNat + d.ht1.size + 1
    else ((d.ht1.size : Int) - iter.index).toNat) + (if iter.entry.isSome then 1 else 0) + 1

/-- Entering bucket `(t, i)`, the next one in walking order. -/
theorem ahead_iff_of_enter {t i : Nat} (hentry : iter.entry = none)
    (hafter : ∀ k, d.KeyAfter iter.table iter.index k ↔
      k ∈ d.chainKeys t i ∨ d.KeyAfter t i k) (k : K) :
    iter.Ahead d k ↔ k ∈ d.chainKeys t i ∨ d.KeyAfter t i k := by
  rw [DictIterator.Ahead, hentry, hafter k]
  simp

omit [DecidableEq K] in
/-- The next bucket of the same table. -/
theorem Dict.keyAfter_succ (d : Dict K V) {t : Nat} {j : Int} {i : Nat} (ht : t ≤ 1)
    (hij : (i : Int) = j + 1) (k : K) :
    d.KeyAfter t j k ↔ k ∈ d.chainKeys t i ∨ d.KeyAfter t i k := by
  constructor
  · rintro ⟨t', i', ht', hk, hlt | ⟨rfl, hlt⟩⟩
    · exact Or.inr ⟨t', i', ht', hk, Or.inl hlt⟩
    · by_cases hi : i' = i
      · exact Or.inl (hi ▸ hk)
      · exact Or.inr ⟨_, i', ht', hk, Or.inr ⟨rfl, by omega⟩⟩
  · rintro (hk | ⟨t', i', ht', hk, hlt | ⟨rfl, hlt⟩⟩)
    · exact ⟨t, i, ht, hk, Or.inr ⟨rfl, by omega⟩⟩
    · exact ⟨t', i', ht', hk, Or.inl hlt⟩
    · exact ⟨_, i', ht', hk, Or.inr ⟨rfl, by omega⟩⟩

omit [DecidableEq K] in
/-- After the last bucket of `ht[0]` comes the first bucket of `ht[1]`. -/
theorem Dict.Inv.keyAfter_second (h : d.Inv hash) {j : Int} (hend : (d.ht0.size : Int) ≤ j + 1) (k : K) :
    d.KeyAfter 0 j k ↔ k ∈ d.chainKeys 1 0 ∨ d.KeyAfter 1 0 k := by
  constructor
  · rintro ⟨t', i', ht', hk, hlt | ⟨rfl, hlt⟩⟩
    · obtain rfl : t' = 1 := by omega
      by_cases hi : i' = 0
      · exact Or.inl (hi ▸ hk)
      · exact Or.inr ⟨1, i', le_refl _, hk, Or.inr ⟨rfl, by omega⟩⟩
    · have hnil := h.chainKeys_eq_nil (t := 0) (i := i') (by show d.ht0.size ≤ i'; omega)
      rw [hnil] at hk
      simp at hk
  · rintro (hk | ⟨t', i', ht', hk, hpos⟩)
    · exact ⟨1, 0, le_refl _, hk, Or.inl (by omega)⟩
    · exact ⟨t', i', ht', hk, Or.inl (by omega)⟩

/-- The head of a bucket, and the rest of the loop when the bucket is empty. -/
theorem dictNextLoop_enter {d d' : Dict K V} (h : d.Inv hash) {fuel t i c : Nat}
    (ih : ∀ {d : Dict K V} {iter : DictIterator K}, d.Inv hash → iter.Ok d →
      iter.roundsLeft d ≤ fuel → Sat (dictNextLoop fuel d iter) (NextReturns d iter) (fun _ => False))
    (hc : c = if iter.index = -1 ∧ iter.table = 0 ∧ iter.safe then 1 else 0)
    (hd' : d' = { d with iterators := d.iterators + c }) (htable : j.table = t) (hindex : j.index = (i : Int))
    (ht : t ≤ 1) (hre : t = 1 → d.isRehashing = true) (hsafe : j.safe = iter.safe)
    (hentry : j.entry = dictChainHead d t i) (hleft : j.entry = none → j.roundsLeft d ≤ fuel)
    (hahead : ∀ k, iter.Ahead d k ↔ k ∈ d.chainKeys t i ∨ d.KeyAfter t i k) :
    Sat (match j.entry with
      | none => dictNextLoop fuel d' j
      | some r => do
          let nextEntry ← dictEntryNext d' r
          return (some r, { j with nextEntry := nextEntry }, d'))
      (NextReturns d iter) (fun _ => False) := by
  cases hb : (d.ht t).bucket i with
  | nil =>
    have hnone : j.entry = none := by rw [hentry, dictChainHead, hb]; rfl
    have hnil : d.chainKeys t i = [] := by rw [Dict.chainKeys, hb]; rfl
    have hok : j.Ok d' := by
      refine ⟨htable ▸ ht, by omega, fun h1 => ⟨?_, by omega⟩, fun _ => by omega, ?_⟩
      · rw [hd']
        exact hre (htable ▸ h1)
      · intro hsome
        rw [hnone] at hsome
        simp at hsome
    simp only [hnone]
    refine (ih (hd' ▸ h.withIterators _) hok ?_).weaken ?_
    · rw [hd']
      exact hleft hnone
    · intro r hr
      rw [hd'] at hr
      refine hr.of_advance (by omega) hsafe hc (fun k => ?_)
      rw [hahead k, DictIterator.Ahead, hnone, hnil, htable, hindex]
      simp
  | cons e rest =>
    have hsome : j.entry = some ⟨t, i, e.key⟩ := by rw [hentry, dictChainHead, hb]; rfl
    have hkeys : d.chainKeys t i = e.key :: rest.map DictEntry.key := by
      rw [Dict.chainKeys, hb]; rfl
    have hmem : e.key ∈ d.chainKeys t i := by rw [hkeys]; simp
    simp only [hsome]
    have hnext : dictEntryNext d' ⟨t, i, e.key⟩ = dictEntryNext d ⟨t, i, e.key⟩ := by rw [hd']; rfl
    rw [hnext]
    have hspec := dictEntryNext_spec h (r := ⟨t, i, e.key⟩) hmem
    obtain ⟨next, heq, -⟩ := hspec.exists_ok
    rw [heq]
    have hret := nextReturns_of_entry (e := d') h heq
      ⟨htable ▸ ht, fun h1 => hre (htable ▸ h1), by omega⟩ hsafe hsome htable.symm
      hindex.symm hmem (by rw [hd', hc]) (fun k => by
        rw [hahead k, hkeys, chainFrom_cons_self, htable, hindex, or_comm])
    rw [hsome] at hret
    exact hret

/-- The loop of `dictNext` returns, and returns what it should. -/
theorem dictNextLoop_spec (fuel : Nat) (h : d.Inv hash) (hok : iter.Ok d) (hfuel : iter.roundsLeft d ≤ fuel) :
    Sat (dictNextLoop fuel d iter) (NextReturns d iter) (fun _ => False) := by
  induction fuel generalizing d iter with
  | zero =>
    rw [DictIterator.roundsLeft] at hfuel
    omega
  | succ fuel ih =>
    rw [dictNextLoop]
    cases hentry : iter.entry with
    | some r₀ =>
      -- continue in the present chain with the saved entry
      have hadv : dictNextAdvance d iter = (false, { iter with entry := iter.nextEntry }, d) := by
        simp [dictNextAdvance, hentry]
      have hidx : 0 ≤ iter.index := hok.started (by simp [hentry])
      have hnf : ¬ (iter.index = -1 ∧ iter.table = 0 ∧ iter.safe = true) := by
        rintro ⟨h1, -⟩
        omega
      rw [hadv]
      simp only [Bool.false_eq_true, if_false]
      cases hn : iter.nextEntry with
      | none =>
        have hok' : DictIterator.Ok d { iter with entry := none, nextEntry := none } :=
          ⟨hok.1, hok.2, hok.3, by simp, by simp⟩
        refine (ih h hok' ?_).weaken ?_
        · rw [DictIterator.roundsLeft, hentry] at hfuel
          simp only [DictIterator.roundsLeft, Option.isSome_none, Option.isSome_some, if_true,
            Bool.false_eq_true, if_false] at hfuel ⊢
          omega
        · intro r hr
          refine NextReturns.of_advance (c := 0)
            (j := { iter with entry := none, nextEntry := none }) hr hidx rfl
            (by rw [if_neg hnf]) (fun k => ?_)
          simp [DictIterator.Ahead, hentry, hn]
      | some n =>
        obtain ⟨hnt, hni, hnk⟩ := hok.linked (by simp [hentry]) n hn
        obtain ⟨next, heq, -⟩ := (dictEntryNext_spec h hnk).exists_ok
        simp only [heq]
        refine nextReturns_of_entry (j := { iter with entry := some n }) h heq
          ⟨hok.table_le, fun h1 => (hok.rehashing h1).1, hidx⟩ rfl rfl hnt hni hnk
          (by rw [if_neg hnf]; rfl) (fun k => ?_)
        simp [DictIterator.Ahead, hentry, hn]
    | none =>
      set c : Nat := if iter.index = -1 ∧ iter.table = 0 ∧ iter.safe then 1 else 0 with hc
      set d' : Dict K V := { d with iterators := d.iterators + c } with hd'
      have hif : (if iter.index = -1 ∧ iter.table = 0 ∧ iter.safe then
          { d with iterators := d.iterators + 1 } else d) = d' := by
        rw [hd', hc]
        split <;> rfl
      have hre' : d'.isRehashing = d.isRehashing := rfl
      have hht' : ∀ t, d'.ht t = d.ht t := fun t => rfl
      have hleft := hfuel
      rw [DictIterator.roundsLeft, hentry] at hleft
      simp only [Option.isSome_none, Bool.false_eq_true, if_false] at hleft
      rw [dictNextAdvance, hentry]
      simp only [Option.isNone_none, if_true, hif, hht', hre']
      have hge := hok.index_ge
      by_cases hend : ((d.ht iter.table).size : Int) ≤ iter.index + 1
      · simp only [hend, if_true]
        by_cases hsecond : d.isRehashing = true ∧ iter.table = 0
        · -- the first table is done: go on with the second
          obtain ⟨hre, ht0⟩ := hsecond
          simp only [hre, ht0, and_self, if_true, Bool.false_eq_true, if_false]
          refine dictNextLoop_enter (t := 1) (i := 0)
            (j := { iter with table := 1, index := 0, entry := dictChainHead d' 1 0 })
            h (fun hi ho hl => ih hi ho hl) hc hd' rfl rfl (le_refl _) (fun _ => hre) rfl rfl ?_ ?_
          · intro hn
            simp only [DictIterator.roundsLeft] at hn ⊢
            rw [hn]
            rw [if_pos ht0] at hleft
            simp
            omega
          · refine ahead_iff_of_enter hentry (fun k => ?_)
            rw [ht0] at hend ⊢
            exact h.keyAfter_second hend k
        · rw [if_neg hsecond]
          simp only [if_true]
          refine ⟨⟨hok.1, by show -1 ≤ iter.index + 1; omega, ?_, by simp, ?_⟩, rfl,
            by show 0 ≤ iter.index + 1; omega, rfl, ?_⟩
          · exact fun h1 => ⟨(hok.rehashing h1).1, by show 0 ≤ iter.index + 1; omega⟩
          · simp
          · -- nothing is left: the rest of this table is beyond its end, and the other
            -- table is empty or already done
            rintro k (⟨t', i', ht', hk, hpos⟩ | ⟨hsome, -⟩)
            · rcases hpos with hlt | ⟨rfl, hlt⟩
              · obtain ⟨h0, rfl⟩ : iter.table = 0 ∧ t' = 1 := by omega
                have hidle : d.isRehashing = false := by
                  by_contra hcon
                  exact hsecond ⟨by simpa using hcon, h0⟩
                rw [h.chainKeys_one_eq_nil hidle] at hk
                simp at hk
              · rw [h.chainKeys_eq_nil (by omega)] at hk
                simp at hk
            · rw [hentry] at hsome
              simp at hsome
      · simp only [hend, if_false, Bool.false_eq_true]
        refine dictNextLoop_enter (t := iter.table) (i := (iter.index + 1).toNat)
          (j := { iter with
            index := iter.index + 1
            entry := dictChainHead d' iter.table (iter.index + 1).toNat })
          h (fun hi ho hl => ih hi ho hl) hc hd' rfl
          (by show iter.index + 1 = _; omega) hok.table_le (fun h1 => (hok.rehashing h1).1) rfl rfl
          ?_ ?_
        · intro hn
          simp only [DictIterator.roundsLeft] at hn ⊢
          rw [hn]
          by_cases ht0 : iter.table = 0
          · rw [if_pos ht0] at hleft
            have hsz : ¬ (d.ht0.size : Int) ≤ iter.index + 1 := by rwa [ht0] at hend
            simp [ht0]
            omega
          · rw [if_neg ht0] at hleft
            have hsz : ¬ (d.ht1.size : Int) ≤ iter.index + 1 := by
              rw [Dict.ht, if_neg ht0] at hend
              exact hend
            simp [ht0]
            omega
        · exact ahead_iff_of_enter hentry (d.keyAfter_succ hok.table_le (by omega))

/-- **One call of `dictNext`.** -/
theorem dictNext_spec (h : d.Inv hash) (hok : iter.Ok d) :
    Sat (dictNext d iter) (NextReturns d iter) (fun _ => False) := by
  refine dictNextLoop_spec _ h hok ?_
  have hge := hok.index_ge
  rw [DictIterator.roundsLeft]
  cases hentry : iter.entry with
  | none => split <;> simp <;> omega
  | some r =>
    have hpos := hok.started (by simp [hentry])
    split <;> simp <;> omega

end Redis
