import Redis.Sentinel.Vote

namespace Redis.Sentinel

/-!
# Sentinel — the tally

`sentinelGetLeader` counts in a table of candidates.

* `countVotes_spec` — the table holds the votes heard of one epoch, each candidate once;
* `mostVoted_mem` — the winner of the scan is in it, with its votes;
* `getLeader_votes` — who is returned has the majority of the votes counted.
-/

variable {M : Type} [DecidableEq M]

/-- The Sentinels whose last vote heard is for a candidate in an epoch. -/
def votesFor (sentinels : List Peer) (epoch : Nat) (runid : Bytes) : Nat :=
  (sentinels.filter (fun ri => ri.leader = some runid && ri.leaderEpoch = epoch)).length

/-- The count of a candidate. -/
def countOf (counters : List (Bytes × Nat)) (runid : Bytes) : Nat := (counters.lookup runid).getD 0

/-- Our own vote, if it is one for the candidate in the epoch. -/
def ownVote (master : Master) (epoch : Nat) (runid : Bytes) : Nat :=
  if master.leader = some runid ∧ master.leaderEpoch = epoch then 1 else 0

variable (counters : List (Bytes × Nat))

theorem leaderIncr_count (runid : Bytes) :
    (sentinelLeaderIncr counters runid).2 = countOf counters runid + 1 := by
  unfold sentinelLeaderIncr countOf
  cases counters.lookup runid with
  | none | some n => rfl

/-- The counters after one more vote. -/
theorem countOf_leaderIncr (runid w : Bytes) :
    countOf (sentinelLeaderIncr counters runid).1 w =
      countOf counters w + if runid = w then 1 else 0 := by
  have hmap : ∀ (l : List (Bytes × Nat)) (n : Nat),
      (l.map (fun p => if p.1 = runid then (runid, n) else p)).lookup w =
        if w = runid then (l.lookup w).map (fun _ => n) else l.lookup w := by
    intro l n
    induction l with
    | nil => simp
    | cons p l ih =>
      obtain ⟨k, v⟩ := p
      rw [List.map_cons]
      by_cases hk : k = runid
      · subst hk
        by_cases hw : w = k
        · simp [hw]
        · simpa [List.lookup_cons, hw, beq_eq_false_iff_ne.mpr hw] using ih
      · by_cases hw : w = k
        · subst hw
          simp [hk]
        · simpa [List.lookup_cons, hk, beq_eq_false_iff_ne.mpr hw] using ih
  unfold sentinelLeaderIncr countOf
  cases hl : counters.lookup runid with
  | none =>
    by_cases hw : w = runid
    · subst hw
      simp [hl]
    · have hw' : ¬ runid = w := fun h => hw h.symm
      simp [List.lookup_cons, beq_eq_false_iff_ne.mpr hw, hw']
  | some n =>
    dsimp only
    rw [hmap]
    by_cases hw : w = runid
    · subst hw
      simp [hl]
    · have hw' : ¬ runid = w := fun h => hw h.symm
      simp [hw, hw']

/-- The counters never hold a candidate twice. -/
theorem leaderIncr_nodup {counters : List (Bytes × Nat)} (h : (counters.map (·.1)).Nodup)
    (runid : Bytes) : ((sentinelLeaderIncr counters runid).1.map (·.1)).Nodup := by
  unfold sentinelLeaderIncr
  cases hl : counters.lookup runid with
  | none =>
    rw [List.map_cons, List.nodup_cons]
    refine ⟨?_, h⟩
    intro hmem
    obtain ⟨p, hp, hpk⟩ := List.mem_map.mp hmem
    have := List.lookup_eq_none_iff.mp hl p hp
    simp [hpk] at this
  | some n =>
    have : (counters.map (fun p => if p.1 = runid then (runid, n + 1) else p)).map (·.1) =
        counters.map (·.1) := by
      rw [List.map_map]
      apply List.map_congr_left
      intro p _
      by_cases hp : p.1 = runid
      · simp [hp]
      · simp [hp]
    dsimp only
    rw [this]
    exact h

/-- The counters hold exactly the votes heard of the epoch. -/
theorem countVotes_spec (epoch : Nat) (sentinels : List Peer) :
    ((countVotes epoch sentinels).map (·.1)).Nodup ∧
      ∀ w, countOf (countVotes epoch sentinels) w = votesFor sentinels epoch w := by
  -- the fold reads the Sentinels from the left, so the induction adds the last one
  induction sentinels using List.reverseRecOn with
  | nil => exact ⟨List.nodup_nil, fun w => rfl⟩
  | append_singleton l ri ih =>
    obtain ⟨hnodup, hcount⟩ := ih
    cases hlead : ri.leader with
    | none =>
      have hstep : countVotes epoch (l ++ [ri]) = countVotes epoch l := by
        simp [countVotes, List.foldl_append, hlead]
      rw [hstep]
      refine ⟨hnodup, fun w => ?_⟩
      rw [hcount w]
      simp [votesFor, hlead]
    | some leader =>
      by_cases he : ri.leaderEpoch = epoch
      · have hstep : countVotes epoch (l ++ [ri])
            = (sentinelLeaderIncr (countVotes epoch l) leader).1 := by
          simp [countVotes, List.foldl_append, hlead, he]
        rw [hstep]
        refine ⟨leaderIncr_nodup hnodup leader, fun w => ?_⟩
        rw [countOf_leaderIncr, hcount w]
        by_cases hw : leader = w
        · simp [votesFor, hlead, he, hw]
        · simp [votesFor, hlead, he, hw]
      · have hstep : countVotes epoch (l ++ [ri]) = countVotes epoch l := by
          simp [countVotes, List.foldl_append, hlead, he]
        rw [hstep]
        refine ⟨hnodup, fun w => ?_⟩
        rw [hcount w]
        simp [votesFor, he]

/-- The most voted candidate is in the table, with its votes, of which there are some. -/
theorem mostVoted_mem {w : Bytes} (h : (mostVoted counters).2 = some w) :
    (w, (mostVoted counters).1) ∈ counters ∧ 0 < (mostVoted counters).1 := by
  have hgen : ∀ (l : List (Bytes × Nat)) (best : Nat × Option Bytes) (w : Bytes),
      let r := l.foldl (fun best p => if best.1 < p.2 then (p.2, some p.1) else best) best
      r.2 = some w → ((w, r.1) ∈ l ∧ best.1 < r.1) ∨ r = best := by
    intro l
    induction l with
    | nil => exact fun best w _ => .inr rfl
    | cons p l ih =>
      intro best w
      dsimp only
      rw [List.foldl_cons]
      intro hw
      by_cases hlt : best.1 < p.2
      · rw [if_pos hlt] at hw ⊢
        rcases ih _ w hw with ⟨hmem, hgt⟩ | heq
        · exact .inl ⟨List.mem_cons_of_mem _ hmem, hlt.trans hgt⟩
        · rw [heq] at hw ⊢
          obtain rfl := Option.some.inj hw
          exact .inl ⟨List.mem_cons_self, hlt⟩
      · rw [if_neg hlt] at hw ⊢
        rcases ih _ w hw with ⟨hmem, hgt⟩ | heq
        · exact .inl ⟨List.mem_cons_of_mem _ hmem, hgt⟩
        · exact .inr heq
  unfold mostVoted at h ⊢
  rcases hgen counters (0, none) w h with hmem | heq
  · exact hmem
  · rw [heq] at h
    cases h

theorem countOf_of_mem {counters : List (Bytes × Nat)} (hn : (counters.map (·.1)).Nodup) {w : Bytes}
    {n : Nat} (h : (w, n) ∈ counters) : countOf counters w = n := by
  unfold countOf
  induction counters with
  | nil => cases h
  | cons p l ih =>
    obtain ⟨k, v⟩ := p
    rw [List.map_cons, List.nodup_cons] at hn
    rcases List.mem_cons.mp h with heq | hmem
    · cases heq
      simp
    · have hne : ¬ w = k := by
        rintro rfl
        exact hn.1 (List.mem_map_of_mem (f := (·.1)) hmem)
      rw [List.lookup_cons, beq_eq_false_iff_ne.mpr hne]
      exact ih hn.2 hmem

/-- A candidate returned by `sentinelGetLeader` has a majority: the votes heard in the current
    epoch, and our own if it is of the epoch asked for. -/
theorem getLeader_votes (env : Env) (s : SentinelState M) (m : M) (epoch : Nat)
    {t : SentinelState M} {leader : Option Bytes}
    (h : sentinelGetLeader env s m epoch = .ok (t, leader)) :
    ∃ cand, (cand = s.myid ∨ ∃ ri ∈ (s.masters m).sentinels, ri.leader = some cand) ∧
      t = (sentinelVoteLeader env s m epoch cand).1 ∧
      ∀ w, leader = some w →
        ((s.masters m).sentinels.length + 1) / 2 + 1 ≤
          votesFor (s.masters m).sentinels s.currentEpoch w + ownVote (t.masters m) epoch w := by
  obtain ⟨hnodup, hcount⟩ := countVotes_spec s.currentEpoch (s.masters m).sentinels
  unfold sentinelGetLeader at h
  dsimp only at h
  split at h
  · cases h
  · obtain ⟨counters, hcounters⟩ : ∃ c, c = countVotes s.currentEpoch (s.masters m).sentinels := ⟨_, rfl⟩
    rw [← hcounters] at h hnodup hcount
    obtain ⟨best, hbest⟩ : ∃ b, b = mostVoted (env.order counters) := ⟨_, rfl⟩
    rw [← hbest] at h
    obtain ⟨rfl, rfl⟩ := Prod.mk.inj (Except.ok.inj h)
    -- what the scan found has the votes it was found with
    have hscan : ∀ w, best.2 = some w → best.1 = votesFor (s.masters m).sentinels s.currentEpoch w := by
      intro w hw
      rw [hbest] at hw
      have hmem := (env.order_perm counters).mem_iff.mp (mostVoted_mem _ hw).1
      rw [← hcount, countOf_of_mem hnodup hmem, hbest]
    refine ⟨best.2.getD s.myid, ?_, rfl, ?_⟩
    · cases hb : best.2 with
      | none => exact .inl rfl
      | some w =>
        have hpos : 0 < votesFor (s.masters m).sentinels s.currentEpoch w := by
          rw [← hscan w hb, hbest]
          exact (mostVoted_mem _ (hbest ▸ hb)).2
        obtain ⟨ri, hri⟩ := List.exists_mem_of_length_pos hpos
        rw [List.mem_filter] at hri
        simp only [Bool.and_eq_true, decide_eq_true_eq] at hri
        exact .inr ⟨ri, hri.1, hri.2.1⟩
    · intro w hw
      split at hw
      · cases hw
      · rename_i hmaj
        simp only [Bool.or_eq_true, decide_eq_true_eq, not_or, Nat.not_lt] at hmaj
        refine hmaj.1.trans ?_
        unfold addOwnVote at hw ⊢
        split at hw
        · rename_i myvote hmy
          split at hw
          · rename_i hown
            obtain rfl := Option.some.inj hw
            rw [if_pos hown, leaderIncr_count, hcount]
            unfold ownVote
            rw [if_pos]
            exact ⟨hmy, hown.1⟩
          · rename_i hown
            rw [if_neg hown, hscan w hw]
            exact Nat.le_add_right _ _
        · rw [hscan w hw]
          exact Nat.le_add_right _ _

end Redis.Sentinel
