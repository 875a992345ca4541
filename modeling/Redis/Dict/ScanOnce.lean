import Redis.Dict.FullScan

namespace Redis

open Outcome BitReverse

/-!
# Whole iterations without repetition

The documentation of `dictScan` allows that an element is returned several times.  Only a resize to a
smaller table makes it happen: until then each call emits the keys of one interval of reversed hashes, and
the next call goes on behind it, whatever is added, deleted and moved in between.

* `dictScan_once` — one call: entries of the dictionary, each once, in the interval of the cursor;
* `fullScan_exactly_once` — the whole iteration.
-/

variable {K V : Type} {hash : K → BitVec 32} {t : DictHt K V} {k k₀ k₁ : Nat} {v : BitVec 64}

/-! ### One call -/

/-- What is in a chain has the hash of the chain. -/
theorem DictHt.Wf.low_of_mem_bucket (hw : t.Wf hash) (hk : k ≤ 64) (hmask : t.sizemask = 2 ^ k - 1)
    {e : DictEntry K V} (he : e ∈ t.bucket (v.toNat % 2 ^ k)) :
    (cursorOf hash e.key).toNat % 2 ^ k = v.toNat % 2 ^ k := by
  have hplaced := hw.placed _ e he
  rwa [DictHt.index_eq_and_lowMask hk hmask, toNat_and_lowMask _ hk] at hplaced

/-- A chain is a part of the table. -/
theorem DictHt.bucket_sublist (i : Nat) : (t.bucket i).Sublist (t.table.drop i).flatten := by
  by_cases hi : i < t.table.length
  · rw [List.drop_eq_getElem_cons hi, List.flatten_cons, DictHt.bucket, List.getD_eq_getElem _ _ hi]
    exact List.sublist_append_left _ _
  · rw [DictHt.bucket, List.getD_eq_default _ _ (not_lt.mp hi)]
    exact List.nil_sublist _

/-- A chain before chains that come later in the table. -/
theorem DictHt.bucket_append_sublist {i j : Nat} (hij : i < j) {l : List (DictEntry K V)}
    (hl : l.Sublist (t.table.drop j).flatten) : (t.bucket i ++ l).Sublist (t.table.drop i).flatten := by
  have hrest : l.Sublist (t.table.drop (i + 1)).flatten :=
    hl.trans ((List.drop_sublist_drop_left t.table hij).flatten)
  by_cases hi : i < t.table.length
  · rw [List.drop_eq_getElem_cons hi, List.flatten_cons, DictHt.bucket, List.getD_eq_getElem _ _ hi]
    exact (List.Sublist.refl _).append hrest
  · rw [DictHt.bucket, List.getD_eq_default _ _ (not_lt.mp hi)]
    exact hrest.trans (List.drop_sublist_drop_left t.table (Nat.le_succ i)).flatten

/-- The inner loop goes through the table from left to right. -/
theorem dictScanExpansions_once (hw : t.Wf hash) (h₁ : k₁ ≤ 64) (h₀ : k₀ ≤ k₁) (hmask : t.sizemask = 2 ^ k₁ - 1)
    (fuel : Nat) (v : BitVec 64) :
    Sat (dictScanExpansions t (lowMask 64 k₀) (lowMask 64 k₁) fuel v)
      (fun r => r.1.Sublist (t.table.drop (v.toNat % 2 ^ k₁)).flatten ∧
        ∀ e ∈ r.1, (cursorOf hash e.key).toNat % 2 ^ k₀ = v.toNat % 2 ^ k₀)
      (fun _ => True) := by
  induction fuel generalizing v with
  | zero => trivial
  | succ fuel ih =>
    have hlow := upNext_mod v (h₀.trans h₁)
    have hmid := midBits_upNext v h₁ h₀
    have hhere : ∀ e ∈ t.bucket (v.toNat % 2 ^ k₁), (cursorOf hash e.key).toNat % 2 ^ k₀ = v.toNat % 2 ^ k₀ := by
      intro e he
      have hmod := congrArg (· % 2 ^ k₀) (hw.low_of_mem_bucket h₁ hmask he)
      simpa only [Nat.mod_mod_of_dvd _ (Nat.pow_dvd_pow 2 h₀)] using hmod
    rw [dictScanExpansions, show (((v ||| lowMask 64 k₀) + 1) &&& ~~~ lowMask 64 k₀) ||| (v &&& lowMask 64 k₀)
      = upNext v k₀ from rfl, toNat_and_lowMask _ h₁]
    refine Sat.ite (fun _ => ⟨DictHt.bucket_sublist _, hhere⟩) (fun hgo => ?_)
    · have hne : midBits v k₀ k₁ + 1 ≠ 2 ^ (k₁ - k₀) := by
        intro hlast
        apply hgo
        apply BitVec.eq_of_toNat_eq
        rw [toNat_and_xor_lowMask _ h₁ h₀, hmid, hlast, Nat.mod_self]
        rfl
      have hlt := midBits_lt v k₀ k₁
      rw [Nat.mod_eq_of_lt (by omega)] at hmid
      refine Sat.bind (ih (upNext v k₀)) ?_
      rintro ⟨rest, v'⟩ ⟨hsub, hrest⟩
      refine ⟨DictHt.bucket_append_sublist ?_ hsub, ?_⟩
      · have hpos := Nat.two_pow_pos k₀
        rw [mod_eq_midBits v h₀, mod_eq_midBits (upNext v k₀) h₀, hlow, hmid, Nat.mul_add]
        omega
      · intro e he
        rcases List.mem_append.mp he with he | he
        · exact hhere e he
        · exact (hrest e he).trans hlow

/-- What is emitted at `v` is before the next cursor `r.2`. -/
structure EmitsOnce (hash : K → BitVec 32) (d : Dict K V) (v : BitVec 64) (r : List (DictEntry K V) × BitVec 64) :
    Prop where
  nodup : (r.1.map DictEntry.key).Nodup
  mem : ∀ e ∈ r.1, e ∈ d.entries
  bounds : ∀ e ∈ r.1, revNat v ≤ revNat (cursorOf hash e.key) ∧
    (r.2 = 0 ∨ revNat (cursorOf hash e.key) < revNat r.2)
  advances : r.2 = 0 ∨ revNat v < revNat r.2

theorem EmitsOnce.of_sublist {d : Dict K V} (hnd : d.keys.Nodup) (hk : k ≤ 64) (hv : v.toNat < 2 ^ k)
    {l entries : List (DictEntry K V)} (hperm : entries.Perm d.entries) (hl : l.Sublist entries)
    (hlow : ∀ e ∈ l, (cursorOf hash e.key).toNat % 2 ^ k = v.toNat % 2 ^ k) :
    EmitsOnce hash d v (l, revNext v k) where
  nodup := ((hl.map DictEntry.key).nodup) ((hperm.map DictEntry.key).nodup_iff.mpr hnd)
  mem := fun _ he => hperm.mem_iff.mp (hl.mem he)
  bounds := fun e he => revNat_interval hk ((hlow e he).trans (Nat.mod_eq_of_lt hv))
  advances := (revNat_interval hk (Nat.mod_eq_of_lt hv)).2

/-- The rehashing branch, with the smaller table first. -/
theorem dictScan_two_once {d : Dict K V} (hnd : d.keys.Nodup) {t0 t1 : DictHt K V} (hw0 : t0.Wf hash)
    (hw1 : t1.Wf hash) (hpos : 0 < t0.size) (hle : t0.size ≤ t1.size)
    (hperm : (t0.entries ++ t1.entries).Perm d.entries) (hv : v.toNat < t0.size) :
    Sat (do
        let (expansions, v') ← dictScanExpansions t1 (BitVec.ofNat 64 t0.sizemask)
          (BitVec.ofNat 64 t1.sizemask) t1.size v
        return (t0.bucket (v &&& BitVec.ofNat 64 t0.sizemask).toNat ++ expansions,
          dictScanNext v' (BitVec.ofNat 64 t0.sizemask)))
      (EmitsOnce hash d v) (fun _ => True) := by
  obtain ⟨k₀, hk₀, hs0, hm0, hn0⟩ := hw0.exists_lowMask hpos
  obtain ⟨k₁, hk₁, hs1, hm1, hn1⟩ := hw1.exists_lowMask (by omega)
  have hkk : k₀ ≤ k₁ := by
    rw [hs0, hs1] at hle
    exact (Nat.pow_le_pow_iff_right (by omega)).mp hle
  have hfuel : 2 ^ (k₁ - k₀) - midBits v k₀ k₁ ≤ t1.size := by
    have := Nat.pow_le_pow_right (n := 2) (by omega) (show k₁ - k₀ ≤ k₁ by omega)
    omega
  rw [hm0, hm1]
  refine Sat.bind (((dictScanExpansions_spec t1 (by omega) hkk t1.size v hfuel).and
    (dictScanExpansions_once hw1 (by omega) hkk hn1 t1.size v)).mono (fun _ h => h) fun _ _ => trivial) ?_
  rintro ⟨expansions, v'⟩ ⟨⟨hv', -⟩, hsub, hlow⟩
  show EmitsOnce hash d v (_, dictScanNext v' (lowMask 64 k₀))
  rw [dictScanNext_eq_revNext, revNext_congr (by omega) hv', toNat_and_lowMask _ (by omega)]
  refine .of_sublist hnd (by omega) (hs0 ▸ hv) hperm (List.Sublist.append ?_ ?_) ?_
  · exact (DictHt.bucket_sublist _).trans (List.drop_sublist _ _).flatten
  · exact hsub.trans (List.drop_sublist _ _).flatten
  · intro e he
    rcases List.mem_append.mp he with he | he
    · exact hw0.low_of_mem_bucket (by omega) hn0 he
    · exact hlow e he

/-- **One call** at an index of the scanned table. -/
theorem dictScan_once {d : Dict K V} (h : d.Inv hash) (hv : v = 0 ∨ v.toNat < d.scanSize) :
    Sat (dictScan d v) (EmitsOnce hash d v) (fun _ => True) := by
  rw [dictScan]
  refine Sat.ite (fun _ => ⟨List.nodup_nil, by simp, by simp, .inl rfl⟩) (fun h0 => ?_)
  have hlt : ∀ {n : Nat}, 0 < n → d.scanSize = n → v.toNat < n := by
    rintro n hpos rfl
    rcases hv with rfl | hv
    · exact hpos
    · exact hv
  refine Sat.ite (fun hidle => ?_) (fun hre => ?_)
  · have hidle' : d.rehashidx = -1 := by simpa using hidle
    have hentries : d.entries = d.ht0.entries := by
      rw [Dict.entries, h.idle hidle']
      exact List.append_nil _
    have hpos : 0 < d.ht0.size := by
      by_contra hz
      apply h0
      rw [h.dictSize_eq, Dict.keys, hentries, h.wf0.entries_eq_nil_of_size (by omega)]
      rfl
    obtain ⟨k, hk, hs, hm, hn⟩ := h.wf0.exists_lowMask hpos
    have hv' := hlt hpos (by simp [Dict.scanSize, hidle'])
    show EmitsOnce hash d v (d.ht0.bucket (v &&& BitVec.ofNat 64 d.ht0.sizemask).toNat,
      dictScanNext v (BitVec.ofNat 64 d.ht0.sizemask))
    rw [hm, dictScanNext_eq_revNext, toNat_and_lowMask _ (by omega)]
    refine .of_sublist h.nodup (by omega) (hs ▸ hv') (hentries ▸ List.Perm.refl _)
      ((DictHt.bucket_sublist _).trans (List.drop_sublist _ _).flatten) ?_
    exact fun e he => h.wf0.low_of_mem_bucket (by omega) hn he
  · have hre' : d.isRehashing = true := by simpa using hre
    obtain ⟨-, -, hp0, hp1⟩ := h.busy (by simpa using hre')
    by_cases hgt : d.ht0.size > d.ht1.size
    · simp only [hgt, if_true]
      refine dictScan_two_once h.nodup h.wf1 h.wf0 hp1 (by omega) List.perm_append_comm (hlt hp1 ?_)
      rw [Dict.scanSize, if_pos hre']
      omega
    · simp only [hgt, if_false]
      refine dictScan_two_once h.nodup h.wf0 h.wf1 hp0 (by omega) (List.Perm.refl _) (hlt hp0 ?_)
      rw [Dict.scanSize, if_pos hre']
      omega

/-! ### The whole iteration -/

variable [DecidableEq K]

/-- From `v` on no key is emitted twice, and none before `v`. -/
theorem FullScan.once {s : Bool × Dict K V} {calls : List (ScanCall K V)}
    (hscan : FullScan hash (fun d d' => ¬ d.ShrinksTo d') s v calls) (h : s.2.Inv hash)
    (hv : v = 0 ∨ v.toNat < s.2.scanSize) :
    ((calls.flatMap ScanCall.emitted).map DictEntry.key).Nodup ∧ (∀ c ∈ calls, ∀ e ∈ c.emitted, e ∈ c.dict.entries) ∧
      ∀ key ∈ (calls.flatMap ScanCall.emitted).map DictEntry.key, revNat v ≤ revNat (cursorOf hash key) := by
  induction hscan with
  | @last s v emitted hcall =>
    have honce := (dictScan_once h hv).of_eq_ok hcall
    rw [List.flatMap_singleton]
    refine ⟨honce.nodup, ?_, ?_⟩
    · intro c hc
      rw [List.mem_singleton] at hc
      subst hc
      exact honce.mem
    · intro key hkey
      obtain ⟨e, he, rfl⟩ := List.mem_map.mp hkey
      exact (honce.bounds e he).1
  | @next s s' v v' emitted calls hcall hv' hmoves _ ih =>
    have honce := (dictScan_once h hv).of_eq_ok hcall
    have hlt := ((dictScan_spec h v).of_eq_ok hcall).1.resolve_left hv'
    obtain ⟨hnodup, hmem, hlater⟩ := ih (DictMove.inv_of_reflTransGen h hmoves)
      (Or.inr (hlt.trans_le (DictMove.scanSize_le_of_reflTransGen h hmoves)))
    have hhere : ∀ key ∈ emitted.map DictEntry.key,
        revNat v ≤ revNat (cursorOf hash key) ∧ revNat (cursorOf hash key) < revNat v' := by
      intro key hkey
      obtain ⟨e, he, rfl⟩ := List.mem_map.mp hkey
      exact ⟨(honce.bounds e he).1, (honce.bounds e he).2.resolve_left hv'⟩
    rw [List.flatMap_cons, List.map_append]
    refine ⟨?_, ?_, ?_⟩
    · refine honce.nodup.append hnodup ?_
      intro key hkey hkey'
      have hbefore := (hhere key hkey).2
      have hbehind := hlater key hkey'
      omega
    · intro c hc
      rcases List.mem_cons.mp hc with rfl | hc
      · exact honce.mem
      · exact hmem c hc
    · intro key hkey
      rcases List.mem_append.mp hkey with hkey | hkey
      · exact (hhere key hkey).1
      · exact (honce.advances.resolve_left hv').le.trans (hlater key hkey)

/-- **Each key once.**  In every iteration on a dictionary that any calls built, with any calls in between
    except a resize to a smaller table, no key is passed to the callback twice, only entries of the dictionary
    are, and a key that is there at every call is. -/
theorem fullScan_exactly_once (hash : K → BitVec 32) {ops : List (DictOp K V)} {replies : List (DictReply V)}
    {s : Bool × Dict K V} {calls : List (ScanCall K V)}
    (hbuilt : dictRun hash ops (true, dictCreate) = .ok (replies, s))
    (hscan : FullScan hash (fun d d' => ¬ d.ShrinksTo d') s 0 calls) :
    ((calls.flatMap ScanCall.emitted).map DictEntry.key).Nodup ∧ (∀ c ∈ calls, ∀ e ∈ c.emitted, e ∈ c.dict.entries) ∧
      ∀ key, (∀ c ∈ calls, key ∈ c.dict.keys) → key ∈ (calls.flatMap ScanCall.emitted).map DictEntry.key := by
  have hinv := ((dictRun_represents ops dictCreate_represents).of_eq_ok hbuilt).2.inv
  obtain ⟨hnodup, hmem, -⟩ := hscan.once hinv (Or.inl rfl)
  refine ⟨hnodup, hmem, ?_⟩
  intro key hpresent
  obtain ⟨c, hc, hkey⟩ := hscan.mem_emitted hinv (hscan.aligned_of_not_shrinks hinv (Or.inl rfl)) hpresent
    (by rw [revNat_zero]; exact Nat.zero_le _)
  obtain ⟨e, he, rfl⟩ := List.mem_map.mp hkey
  exact List.mem_map_of_mem (List.mem_flatMap.mpr ⟨c, hc, he⟩)

/-- The table grows fourfold after the first of four calls. -/
theorem fullScan_exactly_once_growth : ∃ calls : List (ScanCall Nat Nat), calls.length = 4 ∧
    ((calls.flatMap ScanCall.emitted).map DictEntry.key).Nodup := by
  have hscan : FullScan (BitVec.ofNat 32) (fun d d' => ¬ d.ShrinksTo d') (true, scanGrowBefore) 0
      [⟨scanGrowBefore, 0, []⟩, ⟨scanGrowAfter, 2, []⟩, ⟨scanGrowAfter, 1, [⟨1, some 0⟩]⟩, ⟨scanGrowAfter, 3, []⟩] :=
    .next (w := 2) (t := (true, scanGrowAfter)) rfl (by decide) (.single ⟨.expand 16, .unit, rfl, by decide⟩)
      (.next (w := 1) rfl (by decide) .refl (.next (w := 3) rfl (by decide) .refl (.last rfl)))
  have hbuilt : dictRun (BitVec.ofNat 32) [.add 1 0] (true, dictCreate)
      = .ok ([.status .ok], true, scanGrowBefore) := rfl
  exact ⟨_, rfl, (fullScan_exactly_once (BitVec.ofNat 32) hbuilt hscan).1⟩

end Redis
