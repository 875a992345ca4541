import Redis.Dict.Table
import Mathlib.Tactic.Ring

namespace Redis

open Outcome

/-!
# The invariant of a dictionary, and rehashing

`Dict.Inv` is what holds across the two tables: each is well formed, no key is stored
twice, `ht[1]` is empty unless a rehash is running, and while it runs the buckets of
`ht[0]` below `rehashidx` are empty.

* `Dict.Inv.drop_flatten_ne_nil` — the reason the assertion of `dictRehash` holds and its
  scan for a bucket ends inside the table;
* `dictRehash_spec` — a rehash of any length returns and keeps the entries;
* `dictRehashStepIfNeeded_spec` — the same for the step every operation starts with.
-/

variable {K V : Type}

/-! ### The invariant -/

variable (hash : K → BitVec 32)

/-- The representation invariant of a dictionary. -/
structure Dict.Inv (d : Dict K V) : Prop where
  wf0 : d.ht0.Wf hash
  wf1 : d.ht1.Wf hash
  nodup : d.keys.Nodup
  idle : d.rehashidx = -1 → d.ht1 = .reset
  busy : d.rehashidx ≠ -1 → 0 ≤ d.rehashidx ∧ d.rehashidx ≤ d.ht0.size ∧
    0 < d.ht0.size ∧ 0 < d.ht1.size
  below : ∀ i : Nat, (i : Int) < d.rehashidx → d.ht0.bucket i = []

/-- The number of buckets of the table a scan cursor walks: the smaller one during a
    rehash. -/
def Dict.scanSize (d : Dict K V) : Nat :=
  if d.isRehashing then min d.ht0.size d.ht1.size else d.ht0.size

variable {hash}

@[simp] theorem Dict.isRehashing_iff (d : Dict K V) :
    d.isRehashing = true ↔ d.rehashidx ≠ -1 := by simp [Dict.isRehashing]

@[simp] theorem Dict.isRehashing_eq_false (d : Dict K V) :
    d.isRehashing = false ↔ d.rehashidx = -1 := by simp [Dict.isRehashing]

theorem dictCreate_inv : (dictCreate : Dict K V).Inv hash where
  wf0 := DictHt.reset_wf
  wf1 := DictHt.reset_wf
  nodup := List.nodup_nil
  idle := fun _ => rfl
  busy := fun h => absurd rfl h
  below := by intro i _; simp [dictCreate, DictHt.reset, DictHt.bucket]

variable {d : Dict K V}

/-- The counters add up to the number of keys. -/
theorem Dict.Inv.dictSize_eq (h : d.Inv hash) : d.dictSize = d.keys.length := by
  rw [Dict.dictSize, h.wf0.used_eq, h.wf1.used_eq, Dict.keys, List.length_map, Dict.entries,
    List.length_append]

/-- Only the order of the entries may change: the keys stay distinct. -/
theorem Dict.nodup_of_perm {d d' : Dict K V} (hp : d'.entries.Perm d.entries)
    (h : d.keys.Nodup) : d'.keys.Nodup :=
  (hp.map DictEntry.key).nodup_iff.mpr h

/-! ### Rehashing -/

/-- What any amount of rehashing may change: the distribution of the entries over the
    tables, never the entries; the tables keep their sizes until the swap. -/
structure Dict.Rehashed (d d' : Dict K V) : Prop where
  inv : d'.Inv hash
  perm : d'.entries.Perm d.entries
  iterators : d'.iterators = d.iterators
  shape : (d.rehashidx ≠ -1 ∧ d'.rehashidx ≠ -1 ∧ d'.ht0.size = d.ht0.size ∧
      d'.ht1.size = d.ht1.size) ∨
    (d.rehashidx ≠ -1 ∧ d'.rehashidx = -1 ∧ d'.ht0.size = d.ht1.size) ∨ d' = d

theorem Dict.Rehashed.scanSize_le {d d' : Dict K V} (h : @Dict.Rehashed K V hash d d') :
    d.scanSize ≤ d'.scanSize := by
  rcases h.shape with ⟨h0, h1, h2, h3⟩ | ⟨h0, h1, h2⟩ | rfl
  · simp [Dict.scanSize, h0, h1, h2, h3]
  · simp [Dict.scanSize, h0, h1, h2]
  · exact le_refl _

/-- Moving a chain pushes all of it on `ht[1]` and only counts it out of `ht[0]`. -/
theorem dictMoveChain_spec (chain : List (DictEntry K V)) (t0 t1 : DictHt K V)
    (hw : t1.Wf hash) (hpos : 0 < t1.size) :
    (dictMoveChain hash chain t0 t1).1 = { t0 with used := t0.used - chain.length } ∧
    (dictMoveChain hash chain t0 t1).2.Wf hash ∧
    (dictMoveChain hash chain t0 t1).2.size = t1.size ∧
    (dictMoveChain hash chain t0 t1).2.entries.Perm (chain ++ t1.entries) := by
  induction chain generalizing t0 t1 with
  | nil => simp [dictMoveChain, hw]
  | cons de nextde ih =>
    have ih' := ih { t0 with used := t0.used - 1 } (t1.push (t1.index hash de.key) de)
      (hw.push_wf hpos de) hpos
    rw [dictMoveChain]
    refine ⟨?_, ih'.2.1, ih'.2.2.1, ih'.2.2.2.trans ?_⟩
    · rw [ih'.1]
      simp only [List.length_cons]
      rw [show t0.used - 1 - nextde.length = t0.used - (nextde.length + 1) by omega]
    · exact ((hw.push_entries_perm hpos de).append_left nextde).trans List.perm_middle

/-- Moving one bucket keeps the invariant and the entries. -/
theorem dictMoveBucket_spec (h : d.Inv hash) (hre : d.rehashidx ≠ -1) (hlt : d.rehashidx < d.ht0.size) :
    (dictMoveBucket hash d).Inv hash ∧ (dictMoveBucket hash d).entries.Perm d.entries ∧
    (dictMoveBucket hash d).ht0.size = d.ht0.size ∧
    (dictMoveBucket hash d).ht1.size = d.ht1.size := by
  obtain ⟨hnn, -, hpos0, hpos1⟩ := h.busy hre
  have hi : d.rehashidx.toNat < d.ht0.table.length := by
    rw [h.wf0.length_eq]; omega
  obtain ⟨hm0, hm1, hm2, hm3⟩ :=
    dictMoveChain_spec (d.ht0.bucket d.rehashidx.toNat) d.ht0 d.ht1 h.wf1 hpos1
  set t1' := (dictMoveChain hash (d.ht0.bucket d.rehashidx.toNat) d.ht0 d.ht1).2 with ht1'
  set t0' : DictHt K V :=
    { d.ht0.setBucket d.rehashidx.toNat [] with
      used := d.ht0.used - (d.ht0.bucket d.rehashidx.toNat).length } with ht0'
  have hres : dictMoveBucket hash d
      = { d with ht0 := t0', ht1 := t1', rehashidx := d.rehashidx + 1 } := by
    have hfst : (dictMoveChain hash (d.ht0.bucket d.rehashidx.toNat) d.ht0 d.ht1).1.setBucket
        d.rehashidx.toNat [] = t0' := by rw [hm0]; rfl
    rw [← hfst]
    rfl
  have hused : (d.ht0.bucket d.rehashidx.toNat).length ≤ d.ht0.used := by
    have hp := (d.ht0.entries_perm_bucket hi).length_eq
    rw [List.length_append] at hp
    rw [h.wf0.used_eq]; omega
  have hperm : (t0'.entries ++ t1'.entries).Perm (d.ht0.entries ++ d.ht1.entries) := by
    have h0 : t0'.entries.Perm (d.ht0.table.eraseIdx d.rehashidx.toNat).flatten :=
      d.ht0.entries_setBucket_perm hi []
    refine (h0.append hm3).trans ?_
    rw [← List.append_assoc]
    refine List.Perm.append_right _ (List.perm_append_comm.trans ?_)
    exact (d.ht0.entries_perm_bucket hi).symm
  rw [hres]
  refine ⟨⟨?_, hm1, ?_, ?_, ?_, ?_⟩, hperm, rfl, hm2⟩
  · exact h.wf0.setBucket_wf hi [] _ (by simp only [List.length_nil]; omega) (by simp)
  · exact Dict.nodup_of_perm (d := d) hperm h.nodup
  · intro hidle
    exfalso
    have : d.rehashidx + 1 = -1 := hidle
    omega
  · intro _
    show 0 ≤ d.rehashidx + 1 ∧ d.rehashidx + 1 ≤ (d.ht0.size : Int) ∧ 0 < d.ht0.size ∧ 0 < t1'.size
    rw [hm2]
    omega
  · intro i hil
    replace hil : (i : Int) < d.rehashidx + 1 := hil
    show (d.ht0.setBucket d.rehashidx.toNat []).bucket i = []
    rw [d.ht0.bucket_setBucket hi]
    split
    · rfl
    · exact h.below i (by omega)

/-- The scan stays inside a list of buckets that holds an entry, and only skips empty
    buckets. -/
theorem dictSkipEmpty_spec (l : List (List (DictEntry K V))) (r ev : Int)
    (hne : l.flatten ≠ []) :
    Sat (dictSkipEmpty l r ev) (fun s => ∃ n : Nat, (∀ i < n, l.getD i [] = []) ∧
      match s with
      | .found r' _ => r' = r + n ∧ n < l.length
      | .gaveUp r'  => r' = r + n ∧ n ≤ l.length) (fun _ => False) := by
  induction l generalizing r ev with
  | nil => exact absurd rfl hne
  | cons b rest ih =>
    cases b with
    | cons e es => exact ⟨0, by simp, by simp, by simp⟩
    | nil =>
      rw [List.flatten_cons, List.nil_append] at hne
      rw [dictSkipEmpty]
      refine Sat.ite (fun _ => ?_) (fun _ => ?_)
      · refine ⟨1, ?_, rfl, by simp⟩
        intro i hi
        rw [show i = 0 by omega]; rfl
      · refine (ih (r + 1) (ev - 1) hne).weaken ?_
        rintro s ⟨n, hn, hs⟩
        refine ⟨n + 1, ?_, ?_⟩
        · intro i hi
          cases i with
          | zero => rfl
          | succ i => simpa using hn i (by omega)
        · cases s with
          | found r' ev' | gaveUp r' => exact ⟨by rw [hs.1]; push_cast; ring, by simpa using hs.2⟩

/-- Advancing `rehashidx` over empty buckets keeps the invariant. -/
theorem Dict.Inv.skip (h : d.Inv hash) (hre : d.rehashidx ≠ -1) {n : Nat}
    (hn : ∀ i < n, (d.ht0.table.drop d.rehashidx.toNat).getD i [] = []) (hle : d.rehashidx + n ≤ d.ht0.size) :
    Dict.Inv hash { d with rehashidx := d.rehashidx + n } := by
  obtain ⟨hnn, hsz, hp0, hp1⟩ := h.busy hre
  refine ⟨h.wf0, h.wf1, h.nodup, fun hidle => ?_, fun _ => ⟨?_, hle, hp0, hp1⟩, ?_⟩
  · have : d.rehashidx + n = -1 := hidle
    omega
  · show 0 ≤ d.rehashidx + n
    omega
  · intro i hi
    replace hi : (i : Int) < d.rehashidx + n := hi
    show d.ht0.bucket i = []
    by_cases hlt : (i : Int) < d.rehashidx
    · exact h.below i hlt
    · have hb := hn (i - d.rehashidx.toNat) (by omega)
      rwa [List.getD_eq_getElem?_getD, List.getElem?_drop, ← List.getD_eq_getElem?_getD,
        show d.rehashidx.toNat + (i - d.rehashidx.toNat) = i by omega] at hb

/-- While `ht[0].used` is not zero some bucket at or after `rehashidx` holds an entry:
    the assertion of `dictRehash` holds and the scan for a bucket ends inside the table. -/
theorem Dict.Inv.drop_flatten_ne_nil (h : d.Inv hash) (hre : d.rehashidx ≠ -1) (hused : d.ht0.used ≠ 0) :
    (d.ht0.table.drop d.rehashidx.toNat).flatten ≠ [] := by
  obtain ⟨hnn, -, -, -⟩ := h.busy hre
  have hpos : 0 < d.ht0.entries.length := by rw [← h.wf0.used_eq]; omega
  obtain ⟨e, he⟩ := List.exists_mem_of_length_pos hpos
  obtain ⟨i, hi⟩ := DictHt.mem_entries_iff.mp he
  have hlt := DictHt.lt_length_of_mem_bucket hi
  have hge : d.rehashidx ≤ i := by
    by_contra hcon
    rw [h.below i (by omega)] at hi
    simp at hi
  intro hnil
  have hmem : e ∈ (d.ht0.table.drop d.rehashidx.toNat).flatten := by
    refine List.mem_flatten.mpr ⟨d.ht0.bucket i, ?_, hi⟩
    rw [DictHt.bucket, List.getD_eq_getElem?_getD, List.getElem?_eq_getElem hlt]
    exact List.mem_drop_iff_getElem.mpr ⟨i - d.rehashidx.toNat, by omega, by
      simp only [show d.rehashidx.toNat + (i - d.rehashidx.toNat) = i by omega, Option.getD_some]⟩
  rw [hnil] at hmem
  simp at hmem

/-- The migration loop: with enough fuel it never faults, whatever `n` is. -/
theorem dictRehashLoop_spec (fuel : Nat) (n ev : Int) (h : d.Inv hash) (hre : d.rehashidx ≠ -1)
    (hfuel : (d.ht0.size : Int) - d.rehashidx < fuel) :
    Sat (dictRehashLoop hash fuel n ev d) (fun r => Dict.Inv hash r.2 ∧ r.2.entries.Perm d.entries ∧
      r.2.iterators = d.iterators ∧ r.2.rehashidx ≠ -1 ∧ r.2.ht0.size = d.ht0.size ∧
      r.2.ht1.size = d.ht1.size) (fun _ => False) := by
  induction fuel generalizing n ev d with
  | zero =>
    obtain ⟨_, hle, _, _⟩ := h.busy hre
    exfalso; simp only [Nat.cast_zero] at hfuel; omega
  | succ fuel ih =>
    obtain ⟨hnn, hle, hp0, hp1⟩ := h.busy hre
    rw [dictRehashLoop]
    refine Sat.ite (fun _ => ⟨h, List.Perm.refl _, rfl, hre, rfl, rfl⟩) (fun hgo => ?_)
    have hne := h.drop_flatten_ne_nil hre (fun h0 => hgo (Or.inr h0))
    have hlen : (d.ht0.table.drop d.rehashidx.toNat).length
        = d.ht0.size - d.rehashidx.toNat := by rw [List.length_drop, h.wf0.length_eq]
    refine Sat.ite (fun hass => ?_) (fun hass => ?_)
    · exfalso
      apply hne
      have hnil : (d.ht0.table.drop d.rehashidx.toNat) = [] :=
        List.eq_nil_of_length_eq_zero (by omega)
      rw [hnil]; rfl
    · refine Sat.bind (dictSkipEmpty_spec _ d.rehashidx ev hne) ?_
      rintro s ⟨k, hk, hs⟩
      cases s with
      | gaveUp r' =>
        obtain ⟨rfl, hs⟩ := hs
        refine ⟨h.skip hre hk (by omega), List.Perm.refl _, rfl, ?_, rfl, rfl⟩
        show d.rehashidx + k ≠ -1
        omega
      | found r' ev' =>
        obtain ⟨rfl, hs⟩ := hs
        have h' := h.skip hre hk (by omega)
        have hre' : ({ d with rehashidx := d.rehashidx + k } : Dict K V).rehashidx ≠ -1 := by
          show d.rehashidx + k ≠ -1
          omega
        obtain ⟨hi, hp, hs0, hs1⟩ := dictMoveBucket_spec h' hre'
          (show d.rehashidx + k < (d.ht0.size : Int) by omega)
        have hidx : (dictMoveBucket hash { d with rehashidx := d.rehashidx + k }).rehashidx
            = d.rehashidx + k + 1 := rfl
        refine (ih (n - 1) ev' hi (by rw [hidx]; omega) ?_).weaken ?_
        · rw [hidx, hs0]
          push_cast at hfuel
          show (d.ht0.size : Int) - _ < _
          omega
        · rintro r ⟨q1, q2, q3, q4, q5, q6⟩
          exact ⟨q1, q2.trans hp, q3, q4, q5.trans hs0, q6.trans hs1⟩

/-- **Rehashing.**  `dictRehash` returns for every `n`, keeps the invariant and only moves
    entries between the tables. -/
theorem dictRehash_spec (h : d.Inv hash) (n : Int) :
    Sat (dictRehash hash d n) (fun r => @Dict.Rehashed K V hash d r.2) (fun _ => False) := by
  rw [dictRehash]
  refine Sat.ite (fun _ => ⟨h, List.Perm.refl _, rfl, Or.inr (Or.inr rfl)⟩) (fun hre => ?_)
  have hre' : d.rehashidx ≠ -1 := by simpa using hre
  obtain ⟨hnn, -, -, -⟩ := h.busy hre'
  refine Sat.bind (dictRehashLoop_spec (d.ht0.size + 1) n (n * 10) h hre' (by push_cast; omega)) ?_
  rintro ⟨stopped, d'⟩ ⟨hinv, hperm, hit, hre2, hs0, hs1⟩
  have hmore : @Dict.Rehashed K V hash d d' := ⟨hinv, hperm, hit, Or.inl ⟨hre', hre2, hs0, hs1⟩⟩
  refine Sat.ite (fun _ => hmore) (fun _ => Sat.ite (fun hused => ?_) (fun _ => hmore))
  -- the whole table has moved: `ht[1]` takes the place of `ht[0]`
  have hnil : d'.ht0.entries = [] :=
    List.eq_nil_of_length_eq_zero (hinv.wf0.used_eq.symm.trans hused)
  have hperm' : (d'.ht1.entries ++ (DictHt.reset : DictHt K V).entries).Perm d'.entries := by
    rw [Dict.entries, hnil]
    simp [DictHt.entries, DictHt.reset]
  refine ⟨⟨hinv.wf1, DictHt.reset_wf, ?_, fun _ => rfl, fun hne => absurd rfl hne, ?_⟩,
    hperm'.trans hperm, hit, Or.inr (Or.inl ⟨hre', rfl, hs1⟩)⟩
  · exact Dict.nodup_of_perm (d := d') hperm' hinv.nodup
  · intro i hi
    exfalso
    replace hi : (i : Int) < -1 := hi
    omega

/-- The first line of every operation. -/
theorem dictRehashStepIfNeeded_spec (h : d.Inv hash) :
    Sat (dictRehashStepIfNeeded hash d) (fun d' => @Dict.Rehashed K V hash d d') (fun _ => False) := by
  have hsame : @Dict.Rehashed K V hash d d := ⟨h, List.Perm.refl _, rfl, Or.inr (Or.inr rfl)⟩
  rw [dictRehashStepIfNeeded, dictRehashStep]
  refine Sat.ite (fun _ => Sat.ite (fun _ => ?_) (fun _ => hsame)) (fun _ => hsame)
  exact Sat.bind (dictRehash_spec h 1) (fun r hr => hr)

/-- A safe iterator suppresses the step altogether. -/
theorem dictRehashStepIfNeeded_of_iterators (hit : d.iterators ≠ 0) :
    dictRehashStepIfNeeded hash d = .ok d := by
  rw [dictRehashStepIfNeeded, dictRehashStep, if_neg hit]
  split <;> rfl

end Redis
