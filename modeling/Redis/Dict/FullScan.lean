import Redis.Dict.Scan

namespace Redis

open Outcome BitReverse

/-!
# Whole iterations with `dictScan`

A client calls `dictScan` with cursor 0 and feeds the returned cursor back until it is 0
again; between two calls the dictionary goes through any number of operations.

* `FullScan` — such an iteration, recorded call by call;
* `FullScan.mem_emitted` — the invariant: a key that the cursor has not passed is emitted
  by this call or a later one, as long as every cursor is aligned;
* `fullScan_complete_of_not_shrinks` — without a resize to a smaller table every cursor
  is aligned, so the documented guarantee holds;
* `fullScan_complete_of_aligned` — with shrinking tables it holds as long as the cursors
  are aligned;
* `fullScan_skips_bucket` — and fails otherwise.
-/

variable {K V : Type} [DecidableEq K]

/-! ### Iterations -/

/-- A call made during an iteration: the dictionary it saw, its cursor and the entries it
    passed to the callback. -/
structure ScanCall (K V : Type) where
  dict : Dict K V
  cursor : BitVec 64
  emitted : List (DictEntry K V)

/-- The step starts a rehash into a smaller table. -/
def Dict.ShrinksTo (d d' : Dict K V) : Prop :=
  d.isRehashing = false ∧ d'.isRehashing = true ∧ d'.ht1.size < d'.ht0.size

instance (d d' : Dict K V) : Decidable (d.ShrinksTo d') :=
  inferInstanceAs (Decidable (_ ∧ _))

variable (hash : K → BitVec 32)

/-- One call between two calls of `dictScan`, restricted to the allowed changes. -/
def DictMove (allowed : Dict K V → Dict K V → Prop) (s s' : Bool × Dict K V) : Prop :=
  ∃ op reply, dictStep hash s op = .ok (reply, s') ∧ allowed s.2 s'.2

/-- An iteration from state `s` and cursor `v` until cursor 0 is returned. -/
inductive FullScan (allowed : Dict K V → Dict K V → Prop) :
    Bool × Dict K V → BitVec 64 → List (ScanCall K V) → Prop
  | last {s : Bool × Dict K V} {v : BitVec 64} {emitted : List (DictEntry K V)}
      (hcall : dictScan s.2 v = .ok (emitted, 0)) :
      FullScan allowed s v [⟨s.2, v, emitted⟩]
  | next {s t : Bool × Dict K V} {v w : BitVec 64} {emitted : List (DictEntry K V)}
      {calls : List (ScanCall K V)} (hcall : dictScan s.2 v = .ok (emitted, w)) (hw : w ≠ 0)
      (hmoves : Relation.ReflTransGen (DictMove hash allowed) s t)
      (hrest : FullScan allowed t w calls) :
      FullScan allowed s v (⟨s.2, v, emitted⟩ :: calls)

variable {hash} {allowed : Dict K V → Dict K V → Prop}

/-! ### What happens between two calls -/

variable {s s' : Bool × Dict K V}

theorem dictStep_inv (h : s.2.Inv hash) {op : DictOp K V} {reply : DictReply V}
    (hstep : dictStep hash s op = .ok (reply, s')) : s'.2.Inv hash := by
  obtain ⟨m, hm⟩ := h.exists_represents
  exact ((dictStep_refines hm op).of_eq_ok hstep).2.inv

/-- Every state between the calls satisfies the invariant. -/
theorem DictMove.inv_of_reflTransGen (h : s.2.Inv hash)
    (hmoves : Relation.ReflTransGen (DictMove hash allowed) s s') : s'.2.Inv hash := by
  induction hmoves with
  | refl => exact h
  | tail _ hmove ih =>
    obtain ⟨op, reply, hstep, -⟩ := hmove
    exact dictStep_inv ih hstep

omit [DecidableEq K] in
/-- Starting a rehash into a table that is not smaller leaves the scanned table. -/
theorem Dict.Expanded.scanSize_le {d d' : Dict K V} {size : Nat} {st : DictStatus}
    (hex : d.Expanded size st d') (hns : ¬ d.ShrinksTo d') : d.scanSize ≤ d'.scanSize := by
  cases hex with
  | refused => exact le_refl _
  | first n hidle h0 hn => simp [Dict.scanSize, hidle, h0]
  | started n hidle h0 hn =>
    have hge : d.ht0.size ≤ n.size := by
      by_contra hlt
      exact hns ⟨by simpa using hidle, by simp, by simpa using hlt⟩
    simp [Dict.scanSize, hidle, hge]

/-- Without a shrinking resize the scanned table never gets smaller. -/
theorem dictStep_scanSize_le (h : s.2.Inv hash) {op : DictOp K V} {reply : DictReply V}
    (hstep : dictStep hash s op = .ok (reply, s')) (hns : ¬ s.2.ShrinksTo s'.2) : s.2.scanSize ≤ s'.2.scanSize := by
  revert hns
  suffices hsat : Sat (dictStep hash s op)
      (fun r => ¬ s.2.ShrinksTo r.2.2 → s.2.scanSize ≤ r.2.2.scanSize) (fun _ => True) from
    hsat.of_eq_ok hstep
  cases op with
  | add key val =>
    refine Sat.bind ((dictAdd_spec h s.1 key val).mono (fun _ hr => hr) (fun _ _ => trivial)) ?_
    rintro ⟨st, d⟩ hr -
    cases st with
    | err | ok => exact hr.2.scan
  | replace key val =>
    refine Sat.bind ((dictReplace_spec h s.1 key val).mono (fun _ hr => hr) (fun _ _ => trivial)) ?_
    rintro ⟨added, d⟩ hr -
    cases added with
    | false | true => exact (show _ ∧ _ from hr).2.scan
  | replaceRaw key =>
    refine Sat.bind ((dictReplaceRaw_spec h s.1 key).mono (fun _ hr => hr) (fun _ _ => trivial)) ?_
    rintro ⟨p, d⟩ ⟨q, -, -, -, hb⟩ -
    exact hb.scan
  | delete key =>
    refine Sat.bind ((dictGenericDelete_spec h key).mono (fun _ hr => hr) (fun _ _ => trivial)) ?_
    rintro ⟨st, d⟩ hr -
    cases st with
    | err => exact hr.2.scan
    | ok =>
      obtain ⟨e, -, -, hb⟩ := hr
      exact hb.scan
  | find key =>
    refine Sat.bind ((dictFind_spec h key).mono (fun _ hr => hr) (fun _ _ => trivial)) ?_
    rintro ⟨p, d⟩ ⟨hb, -⟩ -
    exact hb.scan
  | expand size =>
    refine Sat.bind ((dictExpand_spec h size).mono (fun _ hr => hr) (fun _ _ => trivial)) ?_
    rintro ⟨st, d⟩ ⟨-, hex, -⟩
    exact hex.scanSize_le
  | resize =>
    refine Sat.bind ((dictResize_spec h s.1).mono (fun _ hr => hr) (fun _ _ => trivial)) ?_
    rintro ⟨st, d⟩ ⟨-, size, hex⟩
    exact hex.scanSize_le
  | rehash n =>
    refine Sat.bind ((dictRehash_spec h n).mono (fun _ hr => hr) (fun _ _ => trivial)) ?_
    rintro r hr -
    exact hr.scanSize_le
  | setCanResize b => exact fun _ => le_refl _

theorem DictMove.scanSize_le_of_reflTransGen (h : s.2.Inv hash)
    (hmoves : Relation.ReflTransGen (DictMove hash (fun d d' => ¬ d.ShrinksTo d')) s s') :
    s.2.scanSize ≤ s'.2.scanSize := by
  induction hmoves with
  | refl => exact le_refl _
  | tail hfirst hmove ih =>
    obtain ⟨op, reply, hstep, hns⟩ := hmove
    exact ih.trans (dictStep_scanSize_le (DictMove.inv_of_reflTransGen h hfirst) hstep hns)

/-! ### The guarantee -/

/-- **Invariant of an iteration.**  A key the cursor has not passed is emitted by the
    present call or a later one, if it is there at every call and the cursors are aligned. -/
theorem FullScan.mem_emitted {v : BitVec 64} {calls : List (ScanCall K V)}
    (hscan : FullScan hash allowed s v calls) (h : s.2.Inv hash)
    (halign : ∀ c ∈ calls, c.dict.CursorAligned c.cursor) {key : K} (hpresent : ∀ c ∈ calls, key ∈ c.dict.keys)
    (hrev : revNat v ≤ revNat (cursorOf hash key)) :
    ∃ c ∈ calls, key ∈ c.emitted.map DictEntry.key := by
  induction hscan with
  | @last s v emitted hcall =>
    have howes := ((dictScan_spec h v).of_eq_ok hcall).2 (halign _ List.mem_cons_self) key
      (hpresent _ List.mem_cons_self) hrev
    rcases howes with hmem | ⟨hne, -⟩
    · exact ⟨_, List.mem_cons_self, hmem⟩
    · exact absurd rfl hne
  | @next s s' v v' emitted calls hcall hv' hmoves _ ih =>
    have howes := ((dictScan_spec h v).of_eq_ok hcall).2 (halign _ List.mem_cons_self) key
      (hpresent _ List.mem_cons_self) hrev
    rcases howes with hmem | ⟨-, hrev'⟩
    · exact ⟨_, List.mem_cons_self, hmem⟩
    · obtain ⟨c, hc, hmem⟩ := ih (DictMove.inv_of_reflTransGen h hmoves)
        (fun c hc => halign c (List.mem_cons_of_mem _ hc))
        (fun c hc => hpresent c (List.mem_cons_of_mem _ hc)) hrev'
      exact ⟨c, List.mem_cons_of_mem _ hc, hmem⟩

/-- When the scanned table never gets smaller every cursor is one of its indices. -/
theorem FullScan.aligned_of_not_shrinks {v : BitVec 64} {calls : List (ScanCall K V)}
    (hscan : FullScan hash (fun d d' => ¬ d.ShrinksTo d') s v calls) (h : s.2.Inv hash)
    (hv : v = 0 ∨ v.toNat < s.2.scanSize) : ∀ c ∈ calls, c.dict.CursorAligned c.cursor := by
  induction hscan with
  | @last s v emitted hcall =>
    intro c hc
    rw [List.mem_singleton] at hc
    subst hc
    exact h.cursorAligned_of_lt hv
  | @next s s' v v' emitted calls hcall hv' hmoves _ ih =>
    intro c hc
    rcases List.mem_cons.mp hc with rfl | hc
    · exact h.cursorAligned_of_lt hv
    · have hlt := ((dictScan_spec h v).of_eq_ok hcall).1.resolve_left hv'
      have hle := DictMove.scanSize_le_of_reflTransGen h hmoves
      exact ih (DictMove.inv_of_reflTransGen h hmoves) (Or.inr (hlt.trans_le hle)) c hc

/-- **Completeness while the table does not shrink.**  In every iteration on a dictionary
    that any calls built, with any calls in between except a resize to a smaller table, a
    key that is there at every call is passed to the callback. -/
theorem fullScan_complete_of_not_shrinks (hash : K → BitVec 32) {ops : List (DictOp K V)}
    {replies : List (DictReply V)} {s : Bool × Dict K V} {calls : List (ScanCall K V)}
    (hbuilt : dictRun hash ops (true, dictCreate) = .ok (replies, s))
    (hscan : FullScan hash (fun d d' => ¬ d.ShrinksTo d') s 0 calls) {key : K}
    (hpresent : ∀ c ∈ calls, key ∈ c.dict.keys) :
    ∃ c ∈ calls, key ∈ c.emitted.map DictEntry.key := by
  have hinv := ((dictRun_represents ops dictCreate_represents).of_eq_ok hbuilt).2.inv
  refine hscan.mem_emitted hinv (hscan.aligned_of_not_shrinks hinv (Or.inl rfl)) hpresent ?_
  rw [revNat_zero]
  exact Nat.zero_le _

/-- Four buckets, key 1. -/
def scanGrowBefore : Dict Nat Nat :=
  { ht0 := (DictHt.alloc 4).push 1 ⟨1, some 0⟩, ht1 := .reset, rehashidx := -1, iterators := 0 }

/-- The same dictionary, rehashing into sixteen buckets. -/
def scanGrowAfter : Dict Nat Nat := { scanGrowBefore with ht1 := .alloc 16, rehashidx := 0 }

/-- The table grows fourfold after the first call; the third one emits the key. -/
theorem fullScan_complete_of_growth : ∃ calls : List (ScanCall Nat Nat),
    FullScan (BitVec.ofNat 32) (fun d d' => ¬ d.ShrinksTo d') (true, scanGrowBefore) 0 calls ∧
    ∃ c ∈ calls, 1 ∈ c.emitted.map DictEntry.key := by
  have hscan : FullScan (BitVec.ofNat 32) (fun d d' => ¬ d.ShrinksTo d') (true, scanGrowBefore) 0
      [⟨scanGrowBefore, 0, []⟩, ⟨scanGrowAfter, 2, []⟩, ⟨scanGrowAfter, 1, [⟨1, some 0⟩]⟩,
        ⟨scanGrowAfter, 3, []⟩] :=
    .next (w := 2) (t := (true, scanGrowAfter)) rfl (by decide)
      (.single ⟨.expand 16, .unit, rfl, by decide⟩)
      (.next (w := 1) rfl (by decide) .refl
        (.next (w := 3) rfl (by decide) .refl (.last rfl)))
  have hbuilt : dictRun (BitVec.ofNat 32) [.add 1 0] (true, dictCreate)
      = .ok ([.status .ok], true, scanGrowBefore) := rfl
  refine ⟨_, hscan, fullScan_complete_of_not_shrinks (BitVec.ofNat 32) hbuilt hscan ?_⟩
  decide

/-- **Completeness across shrinking tables.**  With any calls in between, resizes to
    smaller tables included, the guarantee holds in every iteration whose cursors are
    aligned at the calls made during a rehash. -/
theorem fullScan_complete_of_aligned (hash : K → BitVec 32) {ops : List (DictOp K V)}
    {replies : List (DictReply V)} {s : Bool × Dict K V} {calls : List (ScanCall K V)}
    (hbuilt : dictRun hash ops (true, dictCreate) = .ok (replies, s))
    (hscan : FullScan hash (fun _ _ => True) s 0 calls)
    (halign : ∀ c ∈ calls, c.dict.CursorAligned c.cursor) {key : K}
    (hpresent : ∀ c ∈ calls, key ∈ c.dict.keys) :
    ∃ c ∈ calls, key ∈ c.emitted.map DictEntry.key := by
  have hinv := ((dictRun_represents ops dictCreate_represents).of_eq_ok hbuilt).2.inv
  refine hscan.mem_emitted hinv halign hpresent ?_
  rw [revNat_zero]
  exact Nat.zero_le _

/-- Sixteen buckets, key 4. -/
def scanShrinkBefore : Dict Nat Nat :=
  { ht0 := (DictHt.alloc 16).push 4 ⟨4, some 0⟩, ht1 := .reset, rehashidx := -1, iterators := 0 }

/-- The same dictionary, rehashing into four buckets. -/
def scanShrinkAfter : Dict Nat Nat := { scanShrinkBefore with ht1 := .alloc 4, rehashidx := 0 }

theorem scanShrinkBefore_resize (allowed : Dict Nat Nat → Dict Nat Nat → Prop)
    (h : allowed scanShrinkBefore scanShrinkAfter) :
    Relation.ReflTransGen (DictMove (BitVec.ofNat 32) allowed)
      (true, scanShrinkBefore) (true, scanShrinkAfter) := by
  refine .single ⟨.resize, .unit, ?_, h⟩
  have hminimal : Int.bmod scanShrinkBefore.ht0.used (2 ^ 32) = 1 := by decide
  rw [dictStep, dictResize]
  simp only [hminimal]
  rfl

/-- Resized from sixteen buckets to four while the cursor is `0100`: the bits between the
    masks are `01`, and bucket 4 is still visited. -/
theorem fullScan_complete_after_shrink : ∃ calls : List (ScanCall Nat Nat),
    FullScan (BitVec.ofNat 32) (fun _ _ => True) (true, scanShrinkBefore) 0 calls ∧
    ∃ c ∈ calls, 4 ∈ c.emitted.map DictEntry.key := by
  have hscan : FullScan (BitVec.ofNat 32) (fun _ _ => True) (true, scanShrinkBefore) 0
      [⟨scanShrinkBefore, 0, []⟩, ⟨scanShrinkBefore, 8, []⟩,
        ⟨scanShrinkAfter, 4, [⟨4, some 0⟩]⟩, ⟨scanShrinkAfter, 2, []⟩, ⟨scanShrinkAfter, 1, []⟩,
        ⟨scanShrinkAfter, 3, []⟩] :=
    .next (w := 8) rfl (by decide) .refl
      (.next (w := 4) rfl (by decide) (scanShrinkBefore_resize _ trivial)
        (.next (w := 2) rfl (by decide) .refl
          (.next (w := 1) rfl (by decide) .refl
            (.next (w := 3) rfl (by decide) .refl (.last rfl)))))
  have hbuilt : dictRun (BitVec.ofNat 32) [.expand 16, .add 4 0] (true, dictCreate)
      = .ok ([.unit, .status .ok], true, scanShrinkBefore) := rfl
  refine ⟨_, hscan, fullScan_complete_of_aligned (BitVec.ofNat 32) hbuilt hscan ?_ ?_⟩
  · decide
  · decide

/-- **A skipped bucket.**  Resized from sixteen buckets to four while the cursor is `1000`:
    the inner loop counts upwards from `10` between the masks, so it visits the buckets 8
    and 12 of the larger table but not 4, and no later call does. -/
theorem fullScan_skips_bucket : ∃ calls : List (ScanCall Nat Nat),
    dictRun (BitVec.ofNat 32) [.expand 16, .add 4 0] (true, dictCreate)
      = .ok ([.unit, .status .ok], true, scanShrinkBefore) ∧
    FullScan (BitVec.ofNat 32) (fun _ _ => True) (true, scanShrinkBefore) 0 calls ∧
    scanShrinkBefore.ShrinksTo scanShrinkAfter ∧
    calls.map ScanCall.dict = [scanShrinkBefore, scanShrinkAfter, scanShrinkAfter,
      scanShrinkAfter, scanShrinkAfter] ∧
    (∀ c ∈ calls, 4 ∈ c.dict.keys) ∧
    ¬ ∃ c ∈ calls, 4 ∈ c.emitted.map DictEntry.key := by
  have hscan : FullScan (BitVec.ofNat 32) (fun _ _ => True) (true, scanShrinkBefore) 0
      [⟨scanShrinkBefore, 0, []⟩, ⟨scanShrinkAfter, 8, []⟩, ⟨scanShrinkAfter, 2, []⟩,
        ⟨scanShrinkAfter, 1, []⟩, ⟨scanShrinkAfter, 3, []⟩] :=
    .next (w := 8) rfl (by decide) (scanShrinkBefore_resize _ trivial)
      (.next (w := 2) rfl (by decide) .refl
        (.next (w := 1) rfl (by decide) .refl
          (.next (w := 3) rfl (by decide) .refl (.last rfl))))
  exact ⟨_, rfl, hscan, by decide, rfl, by decide, by decide⟩

end Redis
