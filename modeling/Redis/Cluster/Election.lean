import Redis.Cluster.Votes

namespace Redis

open Outcome Simulation Transition

/-!
# Election safety

Slaves ask for votes, masters grant them, and a slave that has counted enough votes takes over.
Requests and votes are delivered late and in any order, but not twice; all other packets may be
anything.  Votes are counted, not stored: the counter is set to 0 when an election is scheduled,
while the epoch of the election is drawn when its request is sent.  A vote of an earlier election
that arrives between the two is credited to the new election, and a slave may win an epoch
in which nobody has voted for it.  If no vote comes in between, at most one node wins an epoch, by a
majority of votes for it.

* `Elections` — the nodes, the messages delivered and the elections won;
* `ElectionStep`, `ElectionReachable` — the runs;
* `ElectionInv` — the invariant, `ElectionInv.step` its step lemma;
* `election_safety` — **at most one winner in each epoch, by a majority**;
* `election_won_by_old_vote` — a run in which a vote comes in between.
-/

/-- The masters that serve slots are those in `masters`, and this node has counted them. -/
structure Agrees (masters : Finset NodeName) (s : ClusterState) : Prop where
  mem : ∀ name, name ∈ masters ↔ ∃ r n, (name, r) ∈ s.nodes ∧ s.heap r = some n ∧
    n.flags.master = true ∧ n.numslots ≠ 0
  size : s.size = masters.card

/-- Requests and votes. -/
def ClusterMsgData.isElection (d : ClusterMsgData) : Bool := d.isRequest || d.isAck

/-- The nodes with what they have sent, the requests and votes delivered so far (by the sender and the
    place in what it has sent), and the elections won. -/
structure Elections (P : Type) where
  proc : P → ClusterState
  delivered : Finset (P × Nat)
  wins : List (P × Nat)

section Elections

variable {P : Type} [DecidableEq P]

/-- What is delivered by an event at `p`: a request or a vote that has been sent to `p` and not been
    delivered yet, or nothing. -/
inductive Delivers (st : Elections P) (p : P) : ClusterEvent → Finset (P × Nat) → Prop
  | election {link : Option Ref} {q : P} {i : Nat} {o : ClusterOutgoing} :
      (st.proc q).outbox[i]? = some o → o.msg.data.isElection = true →
      o.dest = some (st.proc p).ownName → (q, i) ∉ st.delivered →
      Delivers st p (.packet link o.msg) (insert (q, i) st.delivered)
  | other {ev : ClusterEvent} : (∀ link hdr, ev = .packet link hdr → hdr.data.isElection = false) →
      Delivers st p ev st.delivered

/-- One event at one node.  The nodes that vote or win agree on the masters; there is no `RESET HARD`. -/
structure ElectionStep (masters : Finset NodeName) (cond : ClusterState → Prop) (st : Elections P)
    (p : P) (env : ClusterEnv) (ev : ClusterEvent) (o : FailoverOutcome) (t : ClusterState)
    (delivered : Finset (P × Nat)) : Prop where
  possible : ev.Possible env (st.proc p)
  soft : ev ≠ .command (.reset true)
  delivers : Delivers st p ev delivered
  run : (clusterHandle env ev).run (st.proc p) = .ok (o, t)
  agrees : (o = .won ∨ ∃ link hdr, ev = .packet link hdr ∧ hdr.data = .failoverAuthRequest) →
    Agrees masters (st.proc p)
  /-- The condition on the state in which a request is sent. -/
  request : o = .requested → cond (st.proc p)

/-- A node before its first election. -/
structure Quiescent (s : ClusterState) : Prop where
  wf : s.view.WellFormed
  outbox : s.outbox = []
  count : s.failoverAuthCount = 0
  election : s.failoverAuthEpoch ≤ s.currentEpoch
  vote : s.lastVoteEpoch ≤ s.currentEpoch

/-- The runs of nodes with different names. -/
inductive ElectionReachable (masters : Finset NodeName) (cond : ClusterState → Prop) : Elections P → Prop
  | init {proc : P → ClusterState} : (∀ p, Quiescent (proc p)) →
      Function.Injective (fun p => (proc p).ownName) → ElectionReachable masters cond ⟨proc, ∅, []⟩
  | step {st : Elections P} {p : P} {env : ClusterEnv} {ev : ClusterEvent} {o : FailoverOutcome}
      {t : ClusterState} {delivered : Finset (P × Nat)} : ElectionReachable masters cond st →
      ElectionStep masters cond st p env ev o t delivered →
      ElectionReachable masters cond ⟨Function.update st.proc p t, delivered,
        if o = .won then (p, (st.proc p).failoverAuthEpoch) :: st.wins else st.wins⟩

/-- The vote `(q, i)` has been granted to `p` in epoch `e`. -/
def Elections.Grants (st : Elections P) (p : P) (e : Nat) (x : P × Nat) : Prop :=
  ∃ o, (st.proc x.1).outbox[x.2]? = some o ∧ o.msg.data.isAck = true ∧
    o.dest = some (st.proc p).ownName ∧ o.msg.currentEpoch = e

open Classical in
/-- The votes for `p` in epoch `e` that have been delivered to it. -/
noncomputable def Elections.votes (st : Elections P) (p : P) (e : Nat) : Finset (P × Nat) :=
  st.delivered.filter (st.Grants p e)

omit [DecidableEq P] in
theorem Elections.mem_votes {st : Elections P} {p : P} {e : Nat} {x : P × Nat} :
    x ∈ st.votes p e ↔ x ∈ st.delivered ∧ st.Grants p e x := by
  classical
  unfold Elections.votes
  exact Finset.mem_filter

/-- The invariant of the runs in which no vote is counted between the scheduling of an election
    and its request. -/
structure ElectionInv (masters : Finset NodeName) (st : Elections P) : Prop where
  wf : ∀ p, (st.proc p).view.WellFormed
  votes : ∀ p, VoteInv (st.proc p).view
  names : Function.Injective fun p => (st.proc p).ownName
  /-- Only masters vote. -/
  voters : ∀ q, ∀ o ∈ (st.proc q).outbox, o.msg.data.isAck = true → (st.proc q).ownName ∈ masters
  /-- A vote is for an election that has begun. -/
  granted : ∀ p q, ∀ o ∈ (st.proc q).outbox, o.msg.data.isAck = true →
    o.dest = some (st.proc p).ownName → o.msg.currentEpoch ≤ (st.proc p).failoverAuthEpoch
  /-- The votes that are counted have been granted in this epoch. -/
  counted : ∀ p, (st.proc p).failoverAuthCount ≤ (st.votes p (st.proc p).failoverAuthEpoch).card
  won : ∀ p e, (p, e) ∈ st.wins → masters.card / 2 + 1 ≤ (st.votes p e).card

/-! ### One event -/

section Step

variable {masters : Finset NodeName} {cond : ClusterState → Prop} {st : Elections P} {p : P}
  {env : ClusterEnv} {ev : ClusterEvent} {o : FailoverOutcome} {t : ClusterState}
  {delivered : Finset (P × Nat)}

variable {s : ClusterState}

theorem ownName_mem_of_voter (hwf : s.view.WellFormed) (hagrees : Agrees masters s) (h : s.view.Voter) :
    s.ownName ∈ masters := by
  obtain ⟨me, hme, hslave, hslots⟩ := h
  obtain ⟨n, hn, rfl⟩ := ClusterState.exists_of_view_heap hme
  have hmaster : n.flags.master = true := by
    have hrole : n.view.slave = !n.view.master := (hwf.selfRole _ hme).role
    rw [hslave] at hrole
    simpa [ClusterNode.view] using hrole.symm
  obtain ⟨x, hx, hmem⟩ := hwf.mem_nodes hwf.self
  rw [hme] at hx
  cases hx
  have hn' : s.heap s.myself = some n := hn
  rw [ClusterState.ownName, hn']
  exact (hagrees.mem n.name).mpr ⟨s.myself, n, hmem, hn, hmaster, hslots⟩

theorem not_allows_hardReset (h : ev ≠ .command (.reset true)) (name : NodeName) :
    ¬ ev.allows env s.view (.hardReset name) := by
  intro ha
  cases ev with
  | packet link hdr => exact ha.elim id id
  | command c => exact h (by rw [hard_of_command ha])
  | cron | beforeSleep => exact ha

/-- A vote is only granted by a request. -/
theorem request_of_allows_vote {hdr : ClusterMsg} {os : List ClusterOutgoing}
    (h : ev.allows env s.view (.vote hdr os)) :
    ∃ link, ev = .packet link hdr ∧ hdr.data = .failoverAuthRequest := by
  cases ev with
  | packet link hdr' =>
    obtain ⟨rfl, hdata⟩ := h.resolve_left id
    exact ⟨link, rfl, hdata⟩
  | command c => exact (not_isProtocol_of_command h trivial).elim
  | cron | beforeSleep => exact h.elim

theorem ack_of_allows_countVote {hdr : ClusterMsg} (h : ev.allows env s.view (.countVote hdr)) :
    ∃ link, ev = .packet link hdr ∧ hdr.data = .failoverAuthAck := by
  cases ev with
  | packet link hdr' =>
    obtain ⟨rfl, hdata⟩ := h.resolve_left id
    exact ⟨link, rfl, hdata⟩
  | command c => exact (not_isProtocol_of_command h trivial).elim
  | cron | beforeSleep => exact h.elim

/-- A new vote: it is granted by a master, for an election that has begun. -/
def Elections.Valid (masters : Finset NodeName) (st : Elections P) (p : P) (x : ClusterOutgoing) : Prop :=
  x.msg.data.isAck = true → (st.proc p).ownName ∈ masters ∧
    ∀ q, x.dest = some (st.proc q).ownName → x.msg.currentEpoch ≤ (st.proc q).failoverAuthEpoch

theorem ElectionInv.queued (h : ElectionInv masters st)
    (hstep : ElectionStep masters cond st p env ev o t delivered) :
    ∃ l, t.outbox = (st.proc p).outbox ++ l ∧ ∀ x ∈ l, st.Valid masters p x := by
  have hplain : ∀ x : ClusterOutgoing, x.msg.data.isAck = false → st.Valid masters p x := by
    intro x hx hack
    rw [hx] at hack
    cases hack
  by_cases hreq : ∃ link hdr, ev = .packet link hdr ∧ hdr.data = .failoverAuthRequest
  · obtain ⟨link, hdr, rfl, hdata⟩ := hreq
    have hagrees := hstep.agrees (Or.inr ⟨link, hdr, rfl, hdata⟩)
    -- the request has been sent by one of the nodes
    have hsent : ∃ q, hdr.sender = (st.proc q).ownName ∧
        hdr.currentEpoch ≤ (st.proc q).failoverAuthEpoch := by
      cases hstep.delivers with
      | @election _ q i x hx _ _ _ =>
        obtain ⟨hsender, hepoch⟩ := (h.votes q).requests x (List.mem_of_getElem? hx)
          (by rw [hdata]; rfl)
        exact ⟨q, hsender.trans (ClusterState.view_ownName _), hepoch⟩
      | other hother =>
        have hplain := hother link hdr rfl
        rw [hdata] at hplain
        cases hplain
    obtain ⟨q, hsender, hepoch⟩ := hsent
    refine steps_outbox (steps_of_request (h.wf p) hdata hstep.run) hplain ?_
    rintro hdr' os u hu (ha | ⟨os', ha⟩) he x hx
    · exact ha.elim
    · cases ha
      obtain ⟨hvoter, hle, -, -, -, hos⟩ := he
      obtain ⟨hstamped, -, hdest⟩ := hos x hx
      refine fun _ => ⟨ownName_mem_of_voter (h.wf p) hagrees (voter_of_request hu hvoter), fun q' hq' => ?_⟩
      have hname : (st.proc q').ownName = (st.proc q).ownName := by
        rw [hdest, hsender] at hq'
        exact (Option.some.inj hq').symm
      rw [h.names hname, hstamped.currentEpoch]
      exact hle.trans hepoch
  · refine steps_outbox (steps_of_handle (h.wf p) hstep.possible hstep.run).1 hplain ?_
    intro hdr os u _ ha
    obtain ⟨link, hev, hdata⟩ := request_of_allows_vote ha
    exact absurd ⟨link, hdr, hev, hdata⟩ hreq

/-- The nodes after an event: names stay, what has been sent stays, elections go on. -/
structure Follows (masters : Finset NodeName) (st : Elections P) (proc : P → ClusterState) : Prop where
  wf : ∀ q, (proc q).view.WellFormed
  votes : ∀ q, VoteInv (proc q).view
  names : ∀ q, (proc q).ownName = (st.proc q).ownName
  elections : ∀ q, (st.proc q).failoverAuthEpoch ≤ (proc q).failoverAuthEpoch
  queued : ∀ q, ∃ l, (proc q).outbox = (st.proc q).outbox ++ l ∧ ∀ x ∈ l, st.Valid masters q x

theorem ElectionInv.follows (h : ElectionInv masters st)
    (hstep : ElectionStep masters cond st p env ev o t delivered) :
    Follows masters st (Function.update st.proc p t) := by
  have hsteps := (steps_of_handle (h.wf p) hstep.possible hstep.run).1
  have ht := (h.votes p).steps (h.wf p) (not_allows_hardReset hstep.soft) hsteps
  have hname : t.ownName = (st.proc p).ownName := by
    rw [← ClusterState.view_ownName, ← ClusterState.view_ownName]
    exact ht.name
  refine ⟨fun q => ?_, fun q => ?_, fun q => ?_, fun q => ?_, fun q => ?_⟩ <;> by_cases hq : q = p
  · subst hq
    rw [Function.update_self]
    exact ht.wf
  · rw [Function.update_of_ne hq]
    exact h.wf q
  · subst hq
    rw [Function.update_self]
    exact ht.inv
  · rw [Function.update_of_ne hq]
    exact h.votes q
  · subst hq
    rw [Function.update_self, hname]
  · rw [Function.update_of_ne hq]
  · subst hq
    rw [Function.update_self]
    exact ht.election
  · rw [Function.update_of_ne hq]
  · subst hq
    rw [Function.update_self]
    exact h.queued hstep
  · rw [Function.update_of_ne hq]
    exact ⟨[], (List.append_nil _).symm, fun x hx => absurd hx List.not_mem_nil⟩

omit [DecidableEq P] in
/-- Votes are not forgotten. -/
theorem Follows.votes_mono {proc : P → ClusterState} (h : Follows masters st proc)
    (hsub : st.delivered ⊆ delivered) (wins : List (P × Nat)) (q : P) (e : Nat) :
    st.votes q e ⊆ Elections.votes ⟨proc, delivered, wins⟩ q e := by
  intro x hx
  obtain ⟨hmem, y, hy, hack, hdest, hepoch⟩ := Elections.mem_votes.mp hx
  refine Elections.mem_votes.mpr ⟨hsub hmem, y, ?_, hack, ?_, hepoch⟩
  · obtain ⟨l, hl, -⟩ := h.queued x.1
    show (proc x.1).outbox[x.2]? = some y
    rw [hl, List.getElem?_append_left (List.getElem?_eq_some_iff.mp hy).1]
    exact hy
  · show y.dest = some (proc q).ownName
    rw [h.names q]
    exact hdest

theorem Delivers.subset (h : Delivers st p ev delivered) : st.delivered ⊆ delivered := by
  cases h with
  | election _ _ _ _ => exact Finset.subset_insert _ _
  | other _ => exact Finset.Subset.refl _

section

variable (h : ElectionInv masters st)
  (hstep : ElectionStep masters (fun s => s.failoverAuthCount = 0) st p env ev o t delivered)

include h hstep

/-- The votes counted at the node of the event. -/
theorem ElectionInv.counted_step {wins : List (P × Nat)} :
    t.failoverAuthCount ≤ (Elections.votes ⟨Function.update st.proc p t, delivered, wins⟩ p
      t.failoverAuthEpoch).card := by
  have hfollows := h.follows hstep
  have hmono := hfollows.votes_mono hstep.delivers.subset wins p
  obtain ⟨hsteps, hexplains⟩ := steps_of_handle (h.wf p) hstep.possible hstep.run
  by_cases hack : ∃ link hdr, ev = .packet link hdr ∧ hdr.data = .failoverAuthAck
  · obtain ⟨link, hdr, rfl, hdata⟩ := hack
    have hepoch : t.failoverAuthEpoch = (st.proc p).failoverAuthEpoch :=
      steps_failoverAuthEpoch hsteps (not_or.mpr ⟨id, id⟩)
    rw [hepoch]
    rcases count_of_ack (h.wf p) hdata hstep.run with hcount | ⟨hcount, hle⟩
    · rw [hcount]
      exact (h.counted p).trans (Finset.card_le_card (hmono _))
    · -- the vote is for this election: it is not later, and it cannot be earlier
      cases hstep.delivers with
      | @election _ q i x hx _ hdest hnew =>
        have hmem := List.mem_of_getElem? hx
        have hisAck : x.msg.data.isAck = true := by rw [hdata]; rfl
        have heq : x.msg.currentEpoch = (st.proc p).failoverAuthEpoch :=
          le_antisymm (h.granted p q x hmem hisAck hdest) hle
        have hvote : (q, i) ∈ Elections.votes ⟨Function.update st.proc p t, insert (q, i) st.delivered, wins⟩ p
            (st.proc p).failoverAuthEpoch := by
          refine Elections.mem_votes.mpr ⟨Finset.mem_insert_self _ _, x, ?_, hisAck, ?_, heq⟩
          · obtain ⟨l, hl, -⟩ := hfollows.queued q
            show (Function.update st.proc p t q).outbox[i]? = some x
            rw [hl, List.getElem?_append_left (List.getElem?_eq_some_iff.mp hx).1]
            exact hx
          · show x.dest = some (Function.update st.proc p t p).ownName
            rw [hfollows.names p]
            exact hdest
        have hold : (q, i) ∉ st.votes p (st.proc p).failoverAuthEpoch :=
          fun hin => hnew (Elections.mem_votes.mp hin).1
        rw [hcount]
        calc (st.proc p).failoverAuthCount + 1
            ≤ (st.votes p (st.proc p).failoverAuthEpoch).card + 1 := Nat.succ_le_succ (h.counted p)
          _ = (insert (q, i) (st.votes p (st.proc p).failoverAuthEpoch)).card :=
              (Finset.card_insert_of_notMem hold).symm
          _ ≤ _ := Finset.card_le_card (Finset.insert_subset hvote (hmono _))
      | other hother =>
        have hplain := hother link hdr rfl
        rw [hdata] at hplain
        cases hplain
  · have hle : t.failoverAuthCount ≤ (st.proc p).failoverAuthCount := by
      refine steps_failoverAuthCount hsteps fun hdr ha => hack ?_
      obtain ⟨link, hev, hdata⟩ := ack_of_allows_countVote ha
      exact ⟨link, hdr, hev, hdata⟩
    rcases hexplains.epoch with hrequested | hsame
    · rw [hstep.request hrequested] at hle
      exact hle.trans (Nat.zero_le _)
    · have hepoch : t.failoverAuthEpoch = (st.proc p).failoverAuthEpoch :=
        steps_failoverAuthEpoch hsame fun ha => ha.2 rfl
      rw [hepoch]
      exact (hle.trans (h.counted p)).trans (Finset.card_le_card (hmono _))

/-- **Step lemma** of the elections. -/
theorem ElectionInv.step :
    ElectionInv masters ⟨Function.update st.proc p t, delivered,
      if o = .won then (p, (st.proc p).failoverAuthEpoch) :: st.wins else st.wins⟩ := by
  have hfollows := h.follows hstep
  have hnew : ∀ q, ∀ x ∈ (Function.update st.proc p t q).outbox, x.msg.data.isAck = true →
      x ∈ (st.proc q).outbox ∨ ((st.proc q).ownName ∈ masters ∧
        ∀ q', x.dest = some (st.proc q').ownName → x.msg.currentEpoch ≤ (st.proc q').failoverAuthEpoch) := by
    intro q x hx hack
    obtain ⟨l, hl, hvalid⟩ := hfollows.queued q
    rw [hl] at hx
    exact (List.mem_append.mp hx).imp id fun hx => hvalid x hx hack
  refine ⟨hfollows.wf, hfollows.votes, ?_, ?_, ?_, ?_, ?_⟩
  · intro q q' hqq
    refine h.names ?_
    have hname : (Function.update st.proc p t q).ownName = (Function.update st.proc p t q').ownName := hqq
    rw [hfollows.names, hfollows.names] at hname
    exact hname
  · intro q x hx hack
    show (Function.update st.proc p t q).ownName ∈ masters
    rw [hfollows.names]
    rcases hnew q x hx hack with hx | ⟨hmaster, -⟩
    · exact h.voters q x hx hack
    · exact hmaster
  · intro p' q x hx hack hdest
    have hdest' : x.dest = some (st.proc p').ownName := by
      rw [← hfollows.names p']
      exact hdest
    refine le_trans ?_ (hfollows.elections p')
    rcases hnew q x hx hack with hx | ⟨-, hepoch⟩
    · exact h.granted p' q x hx hack hdest'
    · exact hepoch p' hdest'
  · intro q
    by_cases hq : q = p
    · subst hq
      show (Function.update st.proc q t q).failoverAuthCount
        ≤ (Elections.votes _ q (Function.update st.proc q t q).failoverAuthEpoch).card
      rw [Function.update_self]
      exact h.counted_step hstep
    · show (Function.update st.proc p t q).failoverAuthCount
        ≤ (Elections.votes _ q (Function.update st.proc p t q).failoverAuthEpoch).card
      rw [Function.update_of_ne hq]
      exact (h.counted q).trans (Finset.card_le_card (hfollows.votes_mono hstep.delivers.subset _ q _))
  · intro q e hwin
    have hmono := hfollows.votes_mono hstep.delivers.subset
      (if o = .won then (p, (st.proc p).failoverAuthEpoch) :: st.wins else st.wins) q e
    refine le_trans ?_ (Finset.card_le_card hmono)
    have hcases : (q, e) ∈ st.wins ∨ (o = .won ∧ (q, e) = (p, (st.proc p).failoverAuthEpoch)) := by
      have hwin' : (q, e) ∈ if o = .won then (p, (st.proc p).failoverAuthEpoch) :: st.wins else st.wins := hwin
      split_ifs at hwin' with ho
      · rcases List.mem_cons.mp hwin' with heq | hin
        · exact Or.inr ⟨ho, heq⟩
        · exact Or.inl hin
      · exact Or.inl hwin'
    rcases hcases with hin | ⟨ho, heq⟩
    · exact h.won q e hin
    · obtain ⟨rfl, rfl⟩ := Prod.mk.inj heq
      have hquorum := (steps_of_handle (h.wf q) hstep.possible hstep.run).2.won ho
      rw [(hstep.agrees (Or.inl ho)).size] at hquorum
      exact hquorum.trans (h.counted q)

end

end Step

/-! ### Safety -/

/-- Two majorities have a member in common. -/
theorem inter_nonempty_of_majorities {α : Type} [DecidableEq α] {M A B : Finset α} (hA : A ⊆ M)
    (hB : B ⊆ M) (ha : M.card / 2 + 1 ≤ A.card) (hb : M.card / 2 + 1 ≤ B.card) : (A ∩ B).Nonempty := by
  have hunion : (A ∪ B).card ≤ M.card := Finset.card_le_card (Finset.union_subset hA hB)
  have hsum := Finset.card_union_add_card_inter A B
  rw [← Finset.card_pos]
  omega

section Safety

variable {masters : Finset NodeName} {st : Elections P}

omit [DecidableEq P] in
theorem electionInv_init {proc : P → ClusterState} (hproc : ∀ p, Quiescent (proc p))
    (hnames : Function.Injective fun p => (proc p).ownName) : ElectionInv masters ⟨proc, ∅, []⟩ where
  wf := fun p => (hproc p).wf
  votes := by
    intro p
    have hout : (proc p).view.outbox = [] := (hproc p).outbox
    refine ⟨(hproc p).election, (hproc p).vote, ?_, ?_, ?_⟩
    · intro o ho
      rw [hout] at ho
      cases ho
    · intro o ho
      rw [hout] at ho
      cases ho
    · rw [hout]
      exact List.Pairwise.nil
  names := hnames
  voters := by
    intro q o ho
    have ho' : o ∈ (proc q).outbox := ho
    rw [(hproc q).outbox] at ho'
    cases ho'
  granted := by
    intro p q o ho
    have ho' : o ∈ (proc q).outbox := ho
    rw [(hproc q).outbox] at ho'
    cases ho'
  counted := fun p => (hproc p).count.le.trans (Nat.zero_le _)
  won := fun p e hwin => absurd hwin List.not_mem_nil

/-- **Run lemma** of the elections. -/
theorem ElectionReachable.inv (h : ElectionReachable masters (fun s => s.failoverAuthCount = 0) st) :
    ElectionInv masters st := by
  induction h with
  | init hproc hnames => exact electionInv_init hproc hnames
  | step _ hstep ih => exact ih.step hstep

omit [DecidableEq P] in
/-- A node has voted once in an epoch. -/
theorem ElectionInv.vote_unique (h : ElectionInv masters st) {p p' q : P} {e i i' : Nat}
    (hv : st.Grants p e (q, i)) (hv' : st.Grants p' e (q, i')) : i = i' ∧ p = p' := by
  obtain ⟨o, ho, hack, hdest, hepoch⟩ := hv
  obtain ⟨o', ho', hack', hdest', hepoch'⟩ := hv'
  -- the epochs of the votes go up
  have hlt : ∀ {j k : Nat} {x y : ClusterOutgoing}, (st.proc q).outbox[j]? = some x →
      (st.proc q).outbox[k]? = some y → x.msg.data.isAck = true → y.msg.data.isAck = true → j < k →
      x.msg.currentEpoch < y.msg.currentEpoch := by
    intro j k x y hx hy hackx hacky hjk
    obtain ⟨hj, rfl⟩ := List.getElem?_eq_some_iff.mp hx
    obtain ⟨hk, rfl⟩ := List.getElem?_eq_some_iff.mp hy
    exact List.pairwise_iff_getElem.mp (h.votes q).once j k hj hk hjk hackx hacky
  have hindex : i = i' := by
    rcases lt_trichotomy i i' with hii | heq | hii
    · exact absurd (hlt ho ho' hack hack' hii) (by rw [hepoch, hepoch']; exact lt_irrefl e)
    · exact heq
    · exact absurd (hlt ho' ho hack' hack hii) (by rw [hepoch, hepoch']; exact lt_irrefl e)
  refine ⟨hindex, h.names ?_⟩
  subst hindex
  rw [ho] at ho'
  cases ho'
  rw [hdest] at hdest'
  exact Option.some.inj hdest'

/-- At most one node wins an epoch, and it has got the votes of a majority of the masters. -/
structure ElectionSafe (masters : Finset NodeName) (st : Elections P) : Prop where
  unique : ∀ p p' e, (p, e) ∈ st.wins → (p', e) ∈ st.wins → p = p'
  majority : ∀ p e, (p, e) ∈ st.wins → ∃ V : Finset P, masters.card / 2 + 1 ≤ V.card ∧
    ∀ q ∈ V, (st.proc q).ownName ∈ masters ∧ ∃ i, (q, i) ∈ st.delivered ∧ st.Grants p e (q, i)

/-- The masters that have voted for `p` in epoch `e`. -/
theorem ElectionInv.voters_card (h : ElectionInv masters st) (p : P) (e : Nat) :
    ((st.votes p e).image Prod.fst).card = (st.votes p e).card := by
  refine Finset.card_image_of_injOn ?_
  rintro ⟨q, i⟩ hx ⟨q', i'⟩ hy (rfl : q = q')
  obtain ⟨-, hgrant⟩ := Elections.mem_votes.mp hx
  obtain ⟨-, hgrant'⟩ := Elections.mem_votes.mp hy
  rw [(h.vote_unique hgrant hgrant').1]

theorem ElectionInv.mem_voters (h : ElectionInv masters st) {p q : P} {e : Nat}
    (hq : q ∈ (st.votes p e).image Prod.fst) : (st.proc q).ownName ∈ masters ∧
      ∃ i, (q, i) ∈ st.delivered ∧ st.Grants p e (q, i) := by
  obtain ⟨⟨q', i⟩, hx, rfl⟩ := Finset.mem_image.mp hq
  obtain ⟨hmem, hgrant⟩ := Elections.mem_votes.mp hx
  obtain ⟨o, ho, hack, -⟩ := id hgrant
  exact ⟨h.voters q' o (List.mem_of_getElem? ho) hack, i, hmem, hgrant⟩

/-- **Election safety**: if every request is sent with an empty count of votes, at most one node
    wins an epoch, and a winner has got votes of a majority of the masters for that epoch. -/
theorem election_safety (h : ElectionReachable masters (fun s => s.failoverAuthCount = 0) st) :
    ElectionSafe masters st := by
  have hinv := h.inv
  refine ⟨fun p p' e hp hp' => ?_, fun p e hp => ?_⟩
  · set names : P → NodeName := fun q => (st.proc q).ownName with hnames
    have hsub : ∀ p, ((st.votes p e).image Prod.fst).image names ⊆ masters := by
      intro p name hname
      obtain ⟨q, hq, rfl⟩ := Finset.mem_image.mp hname
      exact (hinv.mem_voters hq).1
    have hcard : ∀ p, (p, e) ∈ st.wins →
        masters.card / 2 + 1 ≤ (((st.votes p e).image Prod.fst).image names).card := by
      intro p hp
      rw [Finset.card_image_of_injective _ hinv.names, hinv.voters_card]
      exact hinv.won p e hp
    -- some master has voted for both
    obtain ⟨name, hname⟩ := inter_nonempty_of_majorities (hsub p) (hsub p') (hcard p hp) (hcard p' hp')
    obtain ⟨hleft, hright⟩ := Finset.mem_inter.mp hname
    obtain ⟨q, hq, rfl⟩ := Finset.mem_image.mp hleft
    obtain ⟨q', hq', heq⟩ := Finset.mem_image.mp hright
    rw [hinv.names heq] at hq'
    obtain ⟨-, i, -, hgrant⟩ := hinv.mem_voters hq
    obtain ⟨-, i', -, hgrant'⟩ := hinv.mem_voters hq'
    exact (hinv.vote_unique hgrant hgrant').2
  · refine ⟨(st.votes p e).image Prod.fst, ?_, fun q hq => hinv.mem_voters hq⟩
    rw [hinv.voters_card]
    exact hinv.won p e hp

end Safety

end Elections

/-! ### A late vote -/

/-- A loop in which no slot has an epoch above `e`. -/
theorem any_slotEpochAbove {s : ClusterState} {slots : SlotBitmap} {e : Nat}
    (h : ∀ r n, s.heap r = some n → n.configEpoch ≤ e) :
    (allSlots.any fun j => slots j && slotEpochAbove s e j) = false := by
  refine List.any_eq_false.mpr fun j _ => ?_
  rw [Bool.and_eq_true, not_and]
  intro _
  rw [slotEpochAbove]
  cases hn : (s.slots j).bind s.heap with
  | none => simp
  | some n =>
    obtain ⟨r, -, hr⟩ := Option.bind_eq_some_iff.mp hn
    simpa using h r n hr

section Runs

variable {s t : ClusterState} {env : ClusterEnv}

theorem run_getNode_bind {α : Type} {r : Ref} {n : ClusterNode} (hn : s.heap r = some n)
    (f : ClusterNode → ClusterM α) : (getNode r >>= f).run s = (f n).run s := by
  simp [getNode, hn, StateT.run_bind]

/-- A vote that is granted. -/
theorem run_clusterSendFailoverAuthIfNeeded {node m : Ref} {request : ClusterMsg}
    {me n master : ClusterNode} (hme : s.heap s.myself = some me) (hn : s.heap node = some n)
    (hvoter : ¬ (me.flags.slave = true ∨ me.numslots = 0)) (hepoch : ¬ request.currentEpoch < s.currentEpoch)
    (hlast : s.lastVoteEpoch ≠ s.currentEpoch) (hslave : ¬ n.flags.master = true) (hm : n.slaveof = some m)
    (hmaster : s.heap m = some master) (hforce : request.forceack = true)
    (htime : ¬ env.mstime - master.votedTime < env.clusterNodeTimeout * 2)
    (hslots : ∀ r n, s.heap r = some n → n.configEpoch ≤ request.configEpoch)
    (hrest : StateT.run (m := Except ClusterFault) (do
      clusterSendFailoverAuth env n
      modify fun s => { s with lastVoteEpoch := s.currentEpoch }
      modifyNode m fun master => { master with votedTime := env.mstime }) s = .ok ((), t)) :
    (clusterSendFailoverAuthIfNeeded env node request).run s = .ok ((), t) := by
  rw [clusterSendFailoverAuthIfNeeded, run_bind_of_eq (a := s) (t := s) rfl, run_getMyself_bind hme,
    run_getNode_bind hn, if_neg hvoter, if_neg hepoch, if_neg hlast, if_neg hslave, hm,
    run_getNode_bind hmaster, if_neg (by simp [hforce]), if_neg htime, any_slotEpochAbove hslots]
  exact hrest

/-- The master of slot 0 is replaced. -/
theorem run_clusterFailoverReplaceYourMaster {u w : ClusterState} {m : Ref} {me old new : ClusterNode}
    (hme : s.heap s.myself = some me) (hslave : ¬ me.flags.master = true) (hm : me.slaveof = some m)
    (hpromote : (clusterSetNodeAsMaster s.myself).run s = .ok ((), u))
    (hold : u.heap m = some old) (hslots : ∀ j, j ≠ slotZero → ¬ old.slots j = true)
    (hclaim : (clusterClaimSlot m s.myself slotZero).run u = .ok ((), w))
    (hnew : w.heap m = some new) (hslots' : ∀ j, j ≠ slotZero → ¬ new.slots j = true)
    (hrest : StateT.run (m := Except ClusterFault) (do
      clusterUpdateState env
      clusterSaveConfig true
      clusterBroadcastPong env .all
      resetManualFailover) w = .ok ((), t)) :
    (clusterFailoverReplaceYourMaster env).run s = .ok ((), t) := by
  have hskip : ∀ {x : ClusterState} {n : ClusterNode}, x.heap m = some n →
      (∀ j, j ≠ slotZero → ¬ n.slots j = true) → ∀ j, j ≠ slotZero →
      (clusterClaimSlot m s.myself j).run x = .ok ((), x) := by
    intro x n hn hbits j hj
    rw [clusterClaimSlot, run_getNode_bind hn, whenDo, if_neg (hbits j hj)]
    rfl
  have hloop := run_forM_of_mem nodup_allSlots (mem_allSlots slotZero) (hskip hold hslots)
    (hskip hnew hslots') hclaim
  rw [clusterFailoverReplaceYourMaster, run_bind_of_eq (a := s) (t := s) rfl, run_getMyself_bind hme, hm]
  show (if me.flags.master = true then _ else _ : ClusterM Unit).run s = _
  rw [if_neg hslave, run_bind_of_eq hpromote, run_bind_of_eq hloop]
  exact hrest

/-- The loops of `clusterCron`. -/
def cronScan (env : ClusterEnv) : ClusterM CronScan := do
  let s ← get
  s.nodeRefs.forM (cronConnect env)
  cronPingRandom env
  let s ← get
  s.nodeRefs.foldlM (cronCheck env) {}

/-- A run of `clusterCron` at a slave; only its election matters. -/
theorem run_clusterCron_slave {u v : ClusterState} {scan : CronScan} {me : ClusterNode} {o : FailoverOutcome}
    (hscan : (cronScan env).run s = .ok (scan, u)) (horphans : scan.orphanedMasters = 0)
    (hme : u.heap u.myself = some me) (hslave : me.flags.slave = true) (hhost : env.masterhost = true)
    (htimeout : (manualFailoverCheckTimeout env).run u = .ok ((), u))
    (hmanual : (clusterHandleManualFailover env).run u = .ok ((), u))
    (hfailover : (clusterHandleSlaveFailover env).run u = .ok (o, v))
    (hstate : (whenDo (scan.updateState = true ∨ v.state = .fail) (clusterUpdateState env)).run v = .ok ((), t)) :
    (clusterCron env).run s = .ok (o, t) := by
  have hsplit : clusterCron env = (do
      let scan ← cronScan env
      let me ← getMyself
      whenDo (me.flags.slave = true ∧ env.masterhost = false) (ifSome me.slaveof fun m => discard (getNode m))
      manualFailoverCheckTimeout env
      let outcome ← cronSlave env scan
      let s ← get
      whenDo (scan.updateState = true ∨ s.state = .fail) (clusterUpdateState env)
      return outcome) := by
    simp only [clusterCron, cronScan, bind_assoc]
  have hcron : (cronSlave env scan).run u = .ok (o, v) := by
    rw [cronSlave, run_getMyself_bind hme, if_pos hslave, run_bind_of_eq hmanual, run_bind_of_eq hfailover,
      whenDo, if_neg (by simp [horphans])]
    rfl
  rw [hsplit, run_bind_of_eq hscan, run_getMyself_bind hme, whenDo, if_neg (by simp [hhost]), pure_bind,
    run_bind_of_eq htimeout, run_bind_of_eq hcron, run_bind_of_eq (a := v) (t := v) rfl, run_bind_of_eq hstate]
  rfl

/-- The slave when it takes over. -/
def ClusterState.winning (s : ClusterState) : ClusterState :=
  { s with todoBeforeSleep := { s.todoBeforeSleep with handleFailover := false } }.updateNode s.myself
    fun me => { me with configEpoch := s.failoverAuthEpoch }

/-- A manual failover that is won. -/
theorem run_clusterHandleSlaveFailover_won {m : Ref} {me master : ClusterNode}
    (hme : s.heap s.myself = some me) (hrole : ¬ me.flags.master = true) (hm : me.slaveof = some m)
    (hmaster : s.heap m = some master) (hserving : master.numslots ≠ 0)
    (hmanual : s.mfEnd ≠ 0 ∧ s.mfCanStart = true) (htime : ¬ env.mstime < s.failoverAuthTime)
    (hage : ¬ env.mstime - s.failoverAuthTime > max (env.clusterNodeTimeout * 2) 2000)
    (hsent : s.failoverAuthSent = true) (hcount : s.failoverAuthCount ≥ s.size / 2 + 1)
    (hepoch : me.configEpoch < s.failoverAuthEpoch)
    (htake : (clusterFailoverReplaceYourMaster env).run s.winning = .ok ((), t)) :
    (clusterHandleSlaveFailover env).run s = .ok (.won, t) := by
  set u : ClusterState := { s with todoBeforeSleep := { s.todoBeforeSleep with handleFailover := false } } with hu
  have hme' : u.heap u.myself = some me := hme
  have hwin : (failoverWin env).run u = .ok (.won, t) := by
    have hmodify : (modifyNode u.myself fun me => { me with configEpoch := u.failoverAuthEpoch }).run u
        = .ok ((), s.winning) := by
      rw [modifyNode, run_getNode_bind hme']
      rfl
    rw [failoverWin, run_bind_of_eq (a := u) (t := u) rfl, run_getMyself_bind hme', whenDo, if_pos hepoch,
      run_bind_of_eq hmodify, run_bind_of_eq htake]
    rfl
  have hrank : (failoverUpdateRank env).run u = .ok ((), u) := by
    rw [failoverUpdateRank, run_bind_of_eq (a := u) (t := u) rfl, whenDo, if_neg (by simp [hu, hsent])]
    rfl
  have hage' : ¬ env.mstime - s.failoverAuthTime > max (env.clusterNodeTimeout * 2) 2000 * 2 := by omega
  have hattempt : (failoverAttempt env (env.mstime - u.failoverAuthTime) (max (env.clusterNodeTimeout * 2) 2000)
      (u.size / 2 + 1)).run u = .ok (.won, t) := by
    rw [failoverAttempt, run_bind_of_eq hrank, run_bind_of_eq (a := u) (t := u) rfl, if_neg htime, if_neg hage,
      if_neg (by simp [hu, hsent]), if_pos hcount]
    exact hwin
  rw [clusterHandleSlaveFailover, run_bind_of_eq (a := ()) (t := u) rfl, run_bind_of_eq (a := u) (t := u) rfl,
    run_getMyself_bind hme', if_neg hrole, hm]
  show (getNode m >>= _).run u = _
  rw [run_getNode_bind (show u.heap m = some master from hmaster), if_neg (by simp [hu, hmanual, hserving]),
    if_neg (by simp [hu, hmanual]), if_neg hage']
  exact hattempt

theorem run_clusterHandle_packet {link : Option Ref} {hdr : ClusterMsg} {b : Bool}
    (h : (clusterProcessPacket env link hdr).run s = .ok (b, t)) :
    (clusterHandle env (.packet link hdr)).run s = .ok (.idle, t) := by
  have hdiscard : (discard (clusterProcessPacket env link hdr) : ClusterM Unit)
      = (fun _ => ()) <$> clusterProcessPacket env link hdr := rfl
  simp only [clusterHandle, hdiscard, bind_map_left, StateT.run_bind, h]
  rfl

/-- A request of a node that is known: its epochs are taken over before it is answered. -/
theorem run_clusterHandle_request {u : ClusterState} {link : Option Ref} {hdr : ClusterMsg} {r : Ref}
    (hdata : hdr.data = .failoverAuthRequest) (hsender : s.clusterLookupNode hdr.sender = some r)
    (hknown : senderKnown s (some r) = true) (hlearn : (packetEpochs env hdr r).run s = .ok ((), u))
    (hvote : (clusterSendFailoverAuthIfNeeded env r hdr).run u = .ok ((), t)) :
    (clusterHandle env (.packet link hdr)).run s = .ok (.idle, t) := by
  refine run_clusterHandle_packet (b := true) ?_
  rw [clusterProcessPacket, run_bind_of_eq (a := s) (t := s) rfl]
  simp only [hsender, hknown, hdata, whenDo, if_true, ifSome]
  rw [run_bind_of_eq hlearn, run_bind_of_eq hvote]
  rfl

end Runs

/-! A master of one slot and its slave. -/

/-- The state after a handler. -/
def stateAfter {α : Type} (x : ClusterM α) (s : ClusterState) : ClusterState :=
  match x.run s with
  | .ok (_, t) => t
  | .error _ => s

/-- A machine with that time; it draws names of two bytes. -/
def clockEnv (now : Int) : ClusterEnv :=
  { quietEnv with
    mstime := now
    clusterNodeTimeout := 1000
    clusterRequireFullCoverage := false
    masterhost := true
    randomHexChars := fun r => [9, UInt8.ofNat r] }

/-- The master of slot 0. -/
def duoMaster (flags : NodeFlags) (slave : Ref) : ClusterNode :=
  { newClusterNode quietEnv 0 none flags with
    name := [0]
    slots := fun j => decide (j = slotZero)
    numslots := 1
    slaves := [slave]
    link := some 0 }

/-- Its slave. -/
def duoSlave (flags : NodeFlags) (master : Ref) : ClusterNode :=
  { newClusterNode quietEnv 0 none flags with
    name := [1]
    slaveof := some master
    link := some 0 }

/-- A node that knows one other node. -/
def duoState (me other : ClusterNode) (owner : Ref) : ClusterState :=
  { emptyClusterState with
    state := .ok
    heap := fun r => if r = 0 then some me else if r = 1 then some other else none
    nextRef := 2
    nodes := [(me.name, 0), (other.name, 1)]
    slots := fun j => if j = slotZero then some owner else none }

/-- The master is `true`, its slave is `false`. -/
def duo : Bool → ClusterState
  | true => duoState (duoMaster { myself := true, master := true } 1) (duoSlave { slave := true } 0) 0
  | false => duoState (duoSlave { myself := true, slave := true } 1) (duoMaster { master := true } 0) 1

theorem heap_duoState {me other n : ClusterNode} {owner r : Ref}
    (h : (duoState me other owner).heap r = some n) : (r = 0 ∧ n = me) ∨ (r = 1 ∧ n = other) := by
  match r, h with
  | 0, h => exact Or.inl ⟨rfl, (Option.some.inj h).symm⟩
  | 1, h => exact Or.inr ⟨rfl, (Option.some.inj h).symm⟩
  | r + 2, h => cases h

theorem slotCount_slotZero : slotCount (fun j => decide (j = slotZero)) = 1 := by
  have hset : (Finset.univ.filter fun j : Slot => decide (j = slotZero) = true) = {slotZero} := by
    ext j
    simp
  rw [slotCount, hset, Finset.card_singleton]
  rfl

/-- The slots of a node of two are those the table gives it. -/
theorem slots_duo {b : Bool} {r : Ref} {n : ClusterNode} (h : (duo b).heap r = some n) :
    n.numslots = slotCount n.slots ∧ ∀ j, n.slots j = true ↔ (duo b).slots j = some r := by
  have hbit : ∀ x y : Ref, ∀ j : Slot, (if j = slotZero then some x else none) = some y ↔ j = slotZero ∧ x = y := by
    intro x y j
    by_cases hj : j = slotZero <;> simp [hj]
  have hzero : slotCount (fun _ => false) = 0 := slotCount_eq_zero fun _ => rfl
  cases b <;> rcases heap_duoState h with ⟨rfl, rfl⟩ | ⟨rfl, rfl⟩ <;>
    simp [duo, duoState, duoMaster, duoSlave, newClusterNode, slotCount_slotZero, hzero, hbit]

theorem wellFormed_duo (b : Bool) : (duo b).view.WellFormed where
  table := by
    intro name r h
    cases b <;> simp [duo, duoState, duoMaster, duoSlave, ClusterState.view] at h <;>
      rcases h with ⟨rfl, rfl⟩ | ⟨rfl, rfl⟩ <;> exact ⟨_, rfl, rfl⟩
  names := by cases b <;> decide
  fresh := by
    rintro (_ | _ | r) h
    · exact absurd h (by cases b <;> decide)
    · exact absurd h (by cases b <;> decide)
    · cases b <;> rfl
  owner := by
    intro j r hj
    have hj' : (duo b).slots j = some r := hj
    have hr : ∃ n, (duo b).heap r = some n ∧ r ∈ (duo b).view.refs := by
      cases b <;> simp only [duo, duoState] at hj' <;> split at hj' <;> cases hj'
      · exact ⟨_, rfl, by decide⟩
      · exact ⟨_, rfl, by decide⟩
    obtain ⟨n, hn, hmem⟩ := hr
    exact ⟨hmem, n.view, ClusterState.view_heap hn, ((slots_duo hn).2 j).mpr hj'⟩
  owned := by
    intro r x j hx hbit
    obtain ⟨n, hn, rfl⟩ := ClusterState.exists_of_view_heap hx
    exact ((slots_duo hn).2 j).mp hbit
  count := by
    intro r x hx
    obtain ⟨n, hn, rfl⟩ := ClusterState.exists_of_view_heap hx
    exact (slots_duo hn).1
  migrating := by cases b <;> rintro j r ⟨⟩
  importing := by cases b <;> rintro j r ⟨⟩
  self := by cases b <;> decide
  selfFlag := by
    intro r x hx
    obtain ⟨n, hn, rfl⟩ := ClusterState.exists_of_view_heap hx
    cases b <;> rcases heap_duoState hn with ⟨rfl, rfl⟩ | ⟨rfl, rfl⟩ <;> decide
  selfRole := by
    intro me hme
    obtain ⟨n, hn, rfl⟩ := ClusterState.exists_of_view_heap hme
    cases b <;> cases hn
    · exact ⟨rfl, rfl, fun h => absurd h Bool.false_ne_true⟩
    · exact ⟨rfl, rfl, fun _ => rfl⟩

theorem quiescent_duo (b : Bool) : Quiescent (duo b) where
  wf := wellFormed_duo b
  outbox := by cases b <;> rfl
  count := by cases b <;> rfl
  election := by cases b <;> decide
  vote := by cases b <;> decide

/-- The only master is `master`. -/
theorem agrees_singleton {s : ClusterState} (master slave : NodeName × Ref) {n m : ClusterNode}
    (hnodes : s.nodes = [master, slave] ∨ s.nodes = [slave, master])
    (hmaster : s.heap master.2 = some n) (hn : n.flags.master = true ∧ n.numslots ≠ 0)
    (hslave : s.heap slave.2 = some m) (hm : m.flags.master = false) (hsize : s.size = 1) :
    Agrees {master.1} s where
  mem := by
    have hmem : ∀ x, x ∈ s.nodes ↔ x = master ∨ x = slave := by
      intro x
      rcases hnodes with h | h <;> simp [h, or_comm]
    intro name
    rw [Finset.mem_singleton]
    constructor
    · rintro rfl
      exact ⟨master.2, n, (hmem _).mpr (Or.inl rfl), hmaster, hn⟩
    · rintro ⟨r, x, hx, hr, hrole, -⟩
      rcases (hmem _).mp hx with h | h
      · exact congrArg Prod.fst h
      · cases h
        rw [hslave] at hr
        cases hr
        rw [hm] at hrole
        cases hrole
  size := hsize
section

variable {cond : ClusterState → Prop} {proc : Bool → ClusterState} {t : ClusterState}
  {delivered : Finset (Bool × Nat)} {wins : List (Bool × Nat)} {now : Int} {o : FailoverOutcome}

/-- A step of the slave in which nothing is delivered. -/
theorem duo_timer {ev : ClusterEvent} (h : ElectionReachable {[0]} cond ⟨proc, delivered, wins⟩)
    (hev : ev = .cron ∨ ev = .command (.failover .force))
    (hrun : (clusterHandle (clockEnv now) ev).run (proc false) = .ok (o, t))
    (hagrees : o = .won → Agrees {[0]} (proc false)) (hcond : o = .requested → cond (proc false)) :
    ElectionReachable {[0]} cond ⟨Function.update proc false t, delivered,
      if o = .won then (false, (proc false).failoverAuthEpoch) :: wins else wins⟩ := by
  have hstep : ElectionStep {[0]} cond ⟨proc, delivered, wins⟩ false (clockEnv now) ev o t delivered := by
    refine ⟨?_, ?_, Delivers.other ?_, hrun, ?_, hcond⟩
    · rcases hev with rfl | rfl <;> trivial
    · rcases hev with rfl | rfl <;> rintro ⟨⟩
    · rcases hev with rfl | rfl <;> rintro _ _ ⟨⟩
    · rintro (ho | ⟨link, hdr, rfl, -⟩)
      · exact hagrees ho
      · rcases hev with hev | hev <;> cases hev
  exact h.step hstep

/-- A message of `q` reaches `p`. -/
theorem duo_packet {p q : Bool} {i : Nat} {x : ClusterOutgoing}
    (h : ElectionReachable {[0]} cond ⟨proc, delivered, wins⟩)
    (hrun : (clusterHandle (clockEnv now) (.packet none x.msg)).run (proc p) = .ok (.idle, t))
    (hx : (proc q).outbox[i]? = some x) (hdata : x.msg.data.isElection = true)
    (hdest : x.dest = some (proc p).ownName) (hnew : (q, i) ∉ delivered) (hsender : x.msg.sender.length = 1)
    (hagrees : x.msg.data.isRequest = true → Agrees {[0]} (proc p)) :
    ElectionReachable {[0]} cond ⟨Function.update proc p t, insert (q, i) delivered, wins⟩ := by
  have hstep : ElectionStep {[0]} cond ⟨proc, delivered, wins⟩ p (clockEnv now) (.packet none x.msg) .idle t
      (insert (q, i) delivered) := by
    refine ⟨⟨nofun, fun r hr => ?_⟩, nofun, Delivers.election hx hdata hdest hnew, hrun, ?_, nofun⟩
    · have hlen : x.msg.sender.length = 2 := congrArg List.length hr.symm
      omega
    · rintro (ho | ⟨link, hdr, hev, hreq⟩)
      · cases ho
      · cases hev
        exact hagrees (by rw [hreq]; rfl)
  exact h.step hstep

end

/-- The slave is forced to fail over, schedules an election and sends its request. -/
def duoForced : ClusterState := stateAfter (clusterHandle (clockEnv 10000) (.command (.failover .force))) (duo false)
def duoScheduled : ClusterState := stateAfter (clusterHandle (clockEnv 10000) .cron) duoForced
def duoRequested : ClusterState := stateAfter (clusterHandle (clockEnv 10000) .cron) duoScheduled
def duoRequest : ClusterOutgoing := duoRequested.outbox[1]?.getD ⟨none, helloHdr⟩

theorem run_duoForced :
    (clusterHandle (clockEnv 10000) (.command (.failover .force))).run (duo false) = .ok (.idle, duoForced) := rfl

theorem run_duoScheduled : (clusterHandle (clockEnv 10000) .cron).run duoForced = .ok (.scheduled, duoScheduled) := rfl

theorem run_duoRequested : (clusterHandle (clockEnv 10000) .cron).run duoScheduled = .ok (.requested, duoRequested) :=
  rfl

/-- The master takes over the epoch of the request and votes. -/
def duoLearned : ClusterState := stateAfter (packetEpochs (clockEnv 10000) duoRequest.msg 1) (duo true)
def duoVoted : ClusterState := stateAfter (do
  clusterSendFailoverAuth (clockEnv 10000) (duoSlave { slave := true } 0)
  modify fun s => { s with lastVoteEpoch := s.currentEpoch }
  modifyNode 0 fun master => { master with votedTime := (clockEnv 10000).mstime }) duoLearned
def duoAck : ClusterOutgoing := duoVoted.outbox[0]?.getD ⟨none, helloHdr⟩

theorem run_duoVoted : (clusterHandle (clockEnv 10000) (.packet none duoRequest.msg)).run (duo true)
    = .ok (.idle, duoVoted) := by
  have hvote : (clusterSendFailoverAuthIfNeeded (clockEnv 10000) 1 duoRequest.msg).run duoLearned = .ok ((), duoVoted) := by
    refine run_clusterSendFailoverAuthIfNeeded (m := 0) rfl rfl (by decide) (by decide) (by decide) (by decide)
      rfl rfl rfl (by decide) ?_ rfl
    intro r n hn
    match r, hn with
    | 0, hn =>
      cases hn
      decide
    | 1, hn =>
      cases hn
      decide
    | r + 2, hn => cases hn
  exact run_clusterHandle_request rfl rfl rfl rfl hvote

theorem duo_voted (cond : ClusterState → Prop) (hcond : cond duoScheduled) : ElectionReachable {[0]} cond
    ⟨Function.update (Function.update (Function.update (Function.update duo false duoForced) false duoScheduled)
      false duoRequested) true duoVoted, {(false, 1)}, []⟩ := by
  have hinit : ElectionReachable {[0]} cond ⟨duo, ∅, []⟩ := by
    refine ElectionReachable.init quiescent_duo ?_
    intro b b' h
    cases b <;> cases b' <;> first | rfl | cases h
  have hforced := duo_timer hinit (Or.inr rfl) run_duoForced nofun nofun
  have hscheduled := duo_timer hforced (Or.inl rfl) run_duoScheduled nofun nofun
  have hrequested := duo_timer hscheduled (Or.inl rfl) run_duoRequested nofun (fun _ => hcond)
  exact duo_packet (i := 1) (x := duoRequest) hrequested run_duoVoted rfl rfl rfl (by decide) rfl fun _ =>
    agrees_singleton ([0], 0) ([1], 1) (Or.inl rfl) rfl (by decide) rfl rfl rfl

/-- The steps of a takeover of slot 0. -/
def duoPromoted (s : ClusterState) : ClusterState := stateAfter (clusterSetNodeAsMaster 0) s.winning
def duoClaimed (s : ClusterState) : ClusterState := stateAfter (clusterClaimSlot 1 0 slotZero) (duoPromoted s)
def duoTaken (env : ClusterEnv) (s : ClusterState) : ClusterState := stateAfter (do
  clusterUpdateState env
  clusterSaveConfig true
  clusterBroadcastPong env .all
  resetManualFailover) (duoClaimed s)

/-- The slave counts the vote and takes over. -/
def duoCounted : ClusterState := stateAfter (clusterHandle (clockEnv 10000) (.packet none duoAck.msg)) duoRequested
def duoScanned : ClusterState := stateAfter (cronScan (clockEnv 10000)) duoCounted
def duoWon : ClusterState := duoTaken (clockEnv 10000) duoScanned

theorem run_duoCounted :
    (clusterHandle (clockEnv 10000) (.packet none duoAck.msg)).run duoRequested = .ok (.idle, duoCounted) := rfl

theorem run_duoWon : (clusterHandle (clockEnv 10000) .cron).run duoCounted = .ok (.won, duoWon) := by
  have hscan : (cronScan (clockEnv 10000)).run duoCounted = .ok ({ maxSlaves := 1, thisSlaves := 1 }, duoScanned) := rfl
  refine run_clusterCron_slave (v := duoWon) hscan rfl rfl rfl rfl rfl rfl ?_ rfl
  refine run_clusterHandleSlaveFailover_won (m := 1) rfl (by decide) rfl rfl (by decide) ⟨by decide, rfl⟩ (by decide)
    (by decide) rfl (by decide) (by decide) ?_
  refine run_clusterFailoverReplaceYourMaster (u := duoPromoted duoScanned) (w := duoClaimed duoScanned) (m := 1) rfl (by decide) rfl rfl
    rfl (fun j hj => by simp [duoMaster, hj]) rfl rfl (fun j hj => by simp [duoMaster, hj]) rfl

/-- In the time for the next election: the slave schedules it, counts the old vote, and sends the next request. -/
def duoRetry : ClusterState := stateAfter (clusterHandle (clockEnv 14500) .cron) duoRequested
def duoMiscounted : ClusterState := stateAfter (clusterHandle (clockEnv 14500) (.packet none duoAck.msg)) duoRetry
def duoAgain : ClusterState := stateAfter (clusterHandle (clockEnv 14500) .cron) duoMiscounted
def duoScannedLate : ClusterState := stateAfter (cronScan (clockEnv 14500)) duoAgain
def duoTakenLate : ClusterState := duoTaken (clockEnv 14500) duoScannedLate
def duoWonLate : ClusterState := stateAfter (clusterUpdateState (clockEnv 14500)) duoTakenLate

theorem run_duoRetry : (clusterHandle (clockEnv 14500) .cron).run duoRequested = .ok (.scheduled, duoRetry) := rfl

theorem run_duoMiscounted :
    (clusterHandle (clockEnv 14500) (.packet none duoAck.msg)).run duoRetry = .ok (.idle, duoMiscounted) := rfl

theorem run_duoAgain : (clusterHandle (clockEnv 14500) .cron).run duoMiscounted = .ok (.requested, duoAgain) := rfl

theorem run_duoWonLate : (clusterHandle (clockEnv 14500) .cron).run duoAgain = .ok (.won, duoWonLate) := by
  have hscan : (cronScan (clockEnv 14500)).run duoAgain = .ok ({ maxSlaves := 1, thisSlaves := 1 }, duoScannedLate) := rfl
  refine run_clusterCron_slave (v := duoTakenLate) hscan rfl rfl rfl rfl rfl rfl ?_ rfl
  refine run_clusterHandleSlaveFailover_won (m := 1) rfl (by decide) rfl rfl (by decide) ⟨by decide, rfl⟩ (by decide)
    (by decide) rfl (by decide) (by decide) ?_
  refine run_clusterFailoverReplaceYourMaster (u := duoPromoted duoScannedLate) (w := duoClaimed duoScannedLate) (m := 1) rfl (by decide) rfl rfl
    rfl (fun j hj => by simp [duoMaster, hj]) rfl rfl (fun j hj => by simp [duoMaster, hj]) rfl

/-- A vote that comes at once. -/
theorem election_safety_duo : ∃ st : Elections Bool,
    ElectionReachable {[0]} (fun s => s.failoverAuthCount = 0) st ∧ (false, 1) ∈ st.wins ∧
      ElectionSafe {[0]} st := by
  have hvoted := duo_voted (fun s => s.failoverAuthCount = 0) rfl
  have hcounted := duo_packet (p := false) (q := true) (i := 0) (x := duoAck) hvoted run_duoCounted rfl rfl rfl
    (by decide) rfl nofun
  have hwon := duo_timer hcounted (Or.inl rfl) run_duoWon (fun _ =>
    agrees_singleton ([0], 1) ([1], 0) (Or.inr rfl) rfl (by decide) rfl rfl rfl) nofun
  exact ⟨_, hwon, List.mem_singleton.mpr rfl, election_safety hwon⟩

/-- A vote that comes when the next election has been scheduled: the slave wins epoch 2, in which
    nobody has voted. -/
theorem election_won_by_old_vote : ∃ st : Elections Bool, ElectionReachable {[0]} (fun _ => True) st ∧
    (false, 2) ∈ st.wins ∧ (∀ x, ¬ st.Grants false 2 x) ∧ ¬ ElectionSafe {[0]} st := by
  have hretry := duo_timer (duo_voted (fun _ => True) trivial) (Or.inl rfl) run_duoRetry nofun nofun
  have hcounted := duo_packet (p := false) (q := true) (i := 0) (x := duoAck) hretry run_duoMiscounted rfl rfl rfl
    (by decide) rfl nofun
  have hagain := duo_timer hcounted (Or.inl rfl) run_duoAgain nofun fun _ => trivial
  have hwon := duo_timer hagain (Or.inl rfl) run_duoWonLate (fun _ =>
    agrees_singleton ([0], 1) ([1], 0) (Or.inr rfl) rfl (by decide) rfl rfl rfl) nofun
  obtain ⟨st, hst, hwins, hmaster, hslave⟩ : ∃ st : Elections Bool, ElectionReachable {[0]} (fun _ => True) st ∧
      (false, 2) ∈ st.wins ∧ (st.proc true).outbox = duoVoted.outbox ∧
      (st.proc false).outbox = duoWonLate.outbox := ⟨_, hwon, List.mem_singleton.mpr rfl, rfl, rfl⟩
  have hvoted : ∀ o ∈ duoVoted.outbox, o.msg.currentEpoch ≠ 2 := by decide
  have hplain : ∀ o ∈ duoWonLate.outbox, o.msg.data.isAck = false := by decide
  have hgrants : ∀ x, ¬ st.Grants false 2 x := by
    rintro ⟨b, i⟩ ⟨o, ho, hack, -, hepoch⟩
    have hmem := List.mem_of_getElem? ho
    cases b with
    | true =>
      rw [hmaster] at hmem
      exact hvoted o hmem hepoch
    | false =>
      rw [hslave] at hmem
      exact Bool.false_ne_true ((hplain o hmem).symm.trans hack)
  refine ⟨st, hst, hwins, hgrants, fun hsafe => ?_⟩
  obtain ⟨V, hV, hgrant⟩ := hsafe.majority false 2 hwins
  obtain ⟨q, hq⟩ := Finset.card_pos.mp (lt_of_lt_of_le (Nat.succ_pos _) hV)
  obtain ⟨-, i, -, h⟩ := hgrant q hq
  exact hgrants _ h

end Redis
