import Redis.Cluster.Epochs

namespace Redis

open Outcome Simulation Transition

/-!
# Requests and votes

What a node has sent in elections, read off the messages it has queued: its requests carry
epochs of its own elections, and its votes carry epochs that go up, so that it has voted at most
once in each epoch.

* `VoteInv` — the invariant of a node;
* `VoteInv.apply` — the actions keep it;
* `does_packet_request`, `does_packet_ack` — **what the two kinds of election packets do.**
-/

/-- The epochs of the requests and of the votes a node has sent. -/
structure VoteInv (v : ClusterView) : Prop where
  election : v.failoverAuthEpoch ≤ v.currentEpoch
  vote : v.lastVoteEpoch ≤ v.currentEpoch
  requests : ∀ o ∈ v.outbox, o.msg.data.isRequest = true →
    o.msg.sender = v.nameOf v.myself ∧ o.msg.currentEpoch ≤ v.failoverAuthEpoch
  acks : ∀ o ∈ v.outbox, o.msg.data.isAck = true → o.msg.currentEpoch ≤ v.lastVoteEpoch
  once : v.outbox.Pairwise fun o o' => o.msg.data.isAck = true → o'.msg.data.isAck = true →
    o.msg.currentEpoch < o'.msg.currentEpoch

section Actions

open ClusterView

variable {v w : ClusterView} {A : ClusterAction → Prop}

/-- The actions other than those of elections, and `RESET HARD`. -/
def ClusterAction.IsBystander : ClusterAction → Prop
  | .send _ | .vote _ _ | .newEpoch | .hardReset _ => False
  | _ => True

variable {a : ClusterAction}

theorem apply_outbox (v : ClusterView) (ha : a.IsBystander) :
    (a.apply v).outbox = v.outbox ∧ (a.apply v).lastVoteEpoch = v.lastVoteEpoch ∧
    (a.apply v).failoverAuthEpoch = v.failoverAuthEpoch := by
  have htable : a.IsTable → (a.apply v).outbox = v.outbox ∧
      (a.apply v).lastVoteEpoch = v.lastVoteEpoch ∧
      (a.apply v).failoverAuthEpoch = v.failoverAuthEpoch := by
    intro hat
    have hvars := v.apply_vars hat
    exact ⟨congrArg Vars.outbox hvars, congrArg Vars.lastVoteEpoch hvars,
      congrArg Vars.failoverAuthEpoch hvars⟩
  cases a <;> first | exact ha.elim | exact ⟨rfl, rfl, rfl⟩ | exact htable trivial

/-- The current epoch never goes down, but for `RESET HARD`. -/
theorem le_apply_currentEpoch (v : ClusterView) (ha : ∀ name, a ≠ .hardReset name) :
    v.currentEpoch ≤ (a.apply v).currentEpoch := by
  have htable : a.IsTable → v.currentEpoch ≤ (a.apply v).currentEpoch := fun hat =>
    (congrArg Vars.currentEpoch (v.apply_vars hat)).ge
  cases a with
  | learn r hdr => exact le_max_left _ _
  | bump => exact Nat.le_succ _
  | setEpoch e => exact le_max_left _ _
  | newEpoch => exact Nat.le_succ _
  | hardReset name => exact absurd rfl (ha name)
  | _ => first | exact le_rfl | exact htable trivial

theorem pairwise_of_length_le_one {α : Type} {R : α → α → Prop} {l : List α} (h : l.length ≤ 1) :
    l.Pairwise R := by
  cases l with
  | nil => exact List.Pairwise.nil
  | cons a l =>
    have hl : l = [] := List.length_eq_zero_iff.mp (Nat.le_zero.mp (Nat.le_of_succ_le_succ h))
    rw [hl]
    exact List.pairwise_singleton R a

/-- **Step lemma** of the votes. -/
theorem VoteInv.apply (h : VoteInv v) (hwf : v.WellFormed) (ha : a.Enabled v)
    (hsoft : ∀ name, a ≠ .hardReset name) : VoteInv (a.apply v) := by
  have hname := hwf.ownName_apply ha hsoft
  have hbystander : a.IsBystander → VoteInv (a.apply v) := by
    intro hb
    obtain ⟨hout, hlast, hfae⟩ := apply_outbox v hb
    have hcur := le_apply_currentEpoch v hsoft
    refine ⟨?_, ?_, ?_, ?_, ?_⟩
    · rw [hfae]
      exact h.election.trans hcur
    · rw [hlast]
      exact h.vote.trans hcur
    · rw [hout, hfae, hname]
      exact h.requests
    · rw [hout, hlast]
      exact h.acks
    · rw [hout]
      exact h.once
  cases a with
  | send os =>
    refine ⟨h.election, h.vote, fun o ho hreq => ?_, fun o ho hack => ?_, ?_⟩
    · rcases List.mem_append.mp ho with ho | ho
      · exact h.requests o ho hreq
      · obtain ⟨hstamped, -, hepoch⟩ := ha o ho
        exact ⟨hstamped.sender, (hstamped.currentEpoch.trans (hepoch hreq)).le⟩
    · rcases List.mem_append.mp ho with ho | ho
      · exact h.acks o ho hack
      · rw [(ha o ho).2.1] at hack
        cases hack
    · refine List.pairwise_append.mpr ⟨h.once, ?_, fun o _ o' ho' _ hack => ?_⟩
      · refine List.Pairwise.imp_of_mem (R := fun _ _ => True) (fun ho _ _ hack => ?_) (List.pairwise_of_forall fun _ _ => trivial)
        rw [(ha _ ho).2.1] at hack
        cases hack
      · rw [(ha o' ho').2.1] at hack
        cases hack
  | vote hdr os =>
    obtain ⟨-, -, -, hlast, hlen, hos⟩ := ha
    have hlt : v.lastVoteEpoch < v.currentEpoch := lt_of_le_of_ne h.vote hlast
    refine ⟨h.election, le_rfl, fun o ho hreq => ?_, fun o ho hack => ?_, ?_⟩
    · rcases List.mem_append.mp ho with ho | ho
      · exact h.requests o ho hreq
      · rw [(hos o ho).2.1] at hreq
        cases hreq
    · rcases List.mem_append.mp ho with ho | ho
      · exact (h.acks o ho hack).trans hlt.le
      · exact (hos o ho).1.currentEpoch.le
    · refine List.pairwise_append.mpr ⟨h.once, ?_, fun o ho o' ho' hack _ => ?_⟩
      · exact pairwise_of_length_le_one hlen
      · rw [(hos o' ho').1.currentEpoch]
        exact (h.acks o ho hack).trans_lt hlt
  | newEpoch =>
    refine ⟨le_rfl, h.vote.trans (Nat.le_succ _), fun o ho hreq => ?_, h.acks, h.once⟩
    obtain ⟨hsender, hepoch⟩ := h.requests o ho hreq
    exact ⟨hsender, hepoch.trans (h.election.trans (Nat.le_succ _))⟩
  | hardReset name => exact absurd rfl (hsoft name)
  | _ => exact hbystander trivial

/-- What follows for a sequence of actions. -/
structure VoteSteps (v w : ClusterView) : Prop where
  inv : VoteInv w
  wf : w.WellFormed
  name : w.nameOf w.myself = v.nameOf v.myself
  election : v.failoverAuthEpoch ≤ w.failoverAuthEpoch

/-- **Run lemma** of the votes. -/
theorem VoteInv.steps (h : VoteInv v) (hwf : v.WellFormed) (hA : ∀ name, ¬ A (.hardReset name))
    (hs : Steps A v w) : VoteSteps v w := by
  refine hs.invariant (VoteSteps v) ⟨h, hwf, rfl, le_rfl⟩ ?_
  intro a u ha he hu
  have hsoft : ∀ name, a ≠ .hardReset name := by
    rintro name rfl
    exact hA name ha
  refine ⟨hu.inv.apply hu.wf he hsoft, hu.wf.apply he, (hu.wf.ownName_apply he hsoft).trans hu.name,
    hu.election.trans ?_⟩
  have hbystander : a.IsBystander → u.failoverAuthEpoch ≤ (a.apply u).failoverAuthEpoch :=
    fun hb => (apply_outbox u hb).2.2.ge
  cases a with
  | newEpoch => exact hu.inv.election.trans (Nat.le_succ _)
  | send os | vote hdr os => exact le_rfl
  | hardReset name => exact absurd rfl (hsoft name)
  | _ => exact hbystander trivial

/-- What is queued during a sequence of actions: no votes but by the actions `vote`. -/
theorem steps_outbox {P : ClusterOutgoing → Prop} (hs : Steps A v w)
    (hother : ∀ o : ClusterOutgoing, o.msg.data.isAck = false → P o)
    (hvote : ∀ hdr os u, Steps A v u → A (.vote hdr os) → (ClusterAction.vote hdr os).Enabled u →
      ∀ o ∈ os, P o) : ∃ l, w.outbox = v.outbox ++ l ∧ ∀ o ∈ l, P o := by
  have hinv : Steps A v w ∧ ∃ l, w.outbox = v.outbox ++ l ∧ ∀ o ∈ l, P o := by
    refine hs.invariant (fun u => Steps A v u ∧ ∃ l, u.outbox = v.outbox ++ l ∧ ∀ o ∈ l, P o)
      ⟨Actions.Steps.refl v, [], (List.append_nil _).symm, fun o ho => absurd ho List.not_mem_nil⟩ ?_
    rintro a u ha he ⟨hu, l, hl, hP⟩
    refine ⟨hu.trans (Actions.Steps.single ha he), ?_⟩
    have happend : ∀ os : List ClusterOutgoing, (a.apply u).outbox = u.outbox ++ os → (∀ o ∈ os, P o) →
        ∃ l, (a.apply u).outbox = v.outbox ++ l ∧ ∀ o ∈ l, P o := by
      intro os hos hPos
      refine ⟨l ++ os, by rw [hos, hl, List.append_assoc], fun o ho => ?_⟩
      exact (List.mem_append.mp ho).elim (hP o) (hPos o)
    have hsame : (a.apply u).outbox = u.outbox → ∃ l, (a.apply u).outbox = v.outbox ++ l ∧ ∀ o ∈ l, P o :=
      fun heq => ⟨l, heq.trans hl, hP⟩
    have hbystander : a.IsBystander → ∃ l, (a.apply u).outbox = v.outbox ++ l ∧ ∀ o ∈ l, P o :=
      fun hb => hsame (apply_outbox u hb).1
    cases a with
    | send os => exact happend os rfl fun o ho => hother o (he o ho).2.1
    | vote hdr os => exact happend os rfl (hvote hdr os u hu ha he)
    | newEpoch | hardReset name => exact hsame rfl
    | _ => exact hbystander trivial
  exact hinv.2

/-- Votes are only counted by `countVote`. -/
theorem steps_failoverAuthCount (hs : Steps A v w) (hA : ∀ hdr, ¬ A (.countVote hdr)) :
    w.failoverAuthCount ≤ v.failoverAuthCount := by
  refine hs.invariant (fun u => u.failoverAuthCount ≤ v.failoverAuthCount) le_rfl ?_
  intro a u ha _ hu
  have htable : a.IsTable → (a.apply u).failoverAuthCount ≤ v.failoverAuthCount :=
    fun hat => (congrArg Vars.failoverAuthCount (u.apply_vars hat)).trans_le hu
  cases a with
  | countVote hdr => exact (hA hdr ha).elim
  | schedule => exact Nat.zero_le _
  | _ => first | exact hu | exact htable trivial

/-- The epoch of the election only changes by `newEpoch`. -/
theorem steps_failoverAuthEpoch (hs : Steps A v w) (hA : ¬ A .newEpoch) :
    w.failoverAuthEpoch = v.failoverAuthEpoch := by
  refine hs.frame ClusterView.failoverAuthEpoch ?_
  intro a u ha _
  have hbystander : a.IsBystander → (a.apply u).failoverAuthEpoch = u.failoverAuthEpoch :=
    fun hb => (apply_outbox u hb).2.2
  cases a with
  | newEpoch => exact (hA ha).elim
  | send os | vote hdr os | hardReset name => rfl
  | _ => exact hbystander trivial

end Actions

/-! ### Election packets -/

section Packets

variable {s t : ClusterState} {env : ClusterEnv} {link : Option Ref} {hdr : ClusterMsg}

/-- A request: its epochs are taken over, then a vote may be granted. -/
def requestAllows (v : ClusterView) (hdr : ClusterMsg) (a : ClusterAction) : Prop :=
  learnAllows v hdr a ∨ ∃ os, a = .vote hdr os

theorem does_packet_request (h : s.view.WellFormed) (hdata : hdr.data = .failoverAuthRequest) :
    Does (requestAllows s.view hdr) (clusterProcessPacket env link hdr) s fun _ _ => True := by
  refine Sim.get_bind ?_
  refine Sim.bind (Does.mono (Does.keep (does_learn h)) fun a ha => Or.inl ha) ?_
  rintro ⟨⟩ t - ⟨hst, hnodes, hlearned⟩
  have hlookup : t.view.lookup hdr.sender = s.view.lookup hdr.sender :=
    congrArg (fun l => Option.map Prod.snd (List.find? _ l)) hnodes
  rw [hdata]
  refine Sim.seq (sim_ifSome (fun r hr => ?_) fun _ => trivial) (fun _ _ _ => Sim.pure trivial)
  exact does_clusterSendFailoverAuthIfNeeded (fun os => Or.inr ⟨os, rfl⟩) (h.steps hst)
    (hlookup.trans hr) (hlearned r hr)

/-- A vote is counted at most once, and only for an election of at most its epoch. -/
theorem does_packet_ack (h : s.view.WellFormed) (hdata : hdr.data = .failoverAuthAck) :
    Does (fun a => learnAllows s.view hdr a ∨ a = .countVote hdr) (clusterProcessPacket env link hdr) s
      fun _ t => t.failoverAuthCount = s.failoverAuthCount ∨
        (t.failoverAuthCount = s.failoverAuthCount + 1 ∧ s.failoverAuthEpoch ≤ hdr.currentEpoch) := by
  refine Sim.get_bind ?_
  refine Sim.bind (Does.mono (Does.keep (does_learn h)) fun a ha => Or.inl ha) ?_
  rintro ⟨⟩ t - ⟨hst, -, -⟩
  have hvars : t.failoverAuthCount = s.failoverAuthCount ∧ t.failoverAuthEpoch = s.failoverAuthEpoch := by
    refine hst.invariant (fun u => u.failoverAuthCount = s.failoverAuthCount ∧
      u.failoverAuthEpoch = s.failoverAuthEpoch) ⟨rfl, rfl⟩ ?_
    intro a u ha _ hu
    cases a with
    | learn r hdr' => exact hu
    | _ => exact ha.elim
  rw [hdata]
  refine Sim.bind (sim_ifSome (fun r hr => ?_) fun _ => Or.inl hvars.1) (fun _ u _ hu => Sim.pure hu)
  set epoch := if senderKnown s (s.clusterLookupNode hdr.sender) = true then hdr.currentEpoch else 0 with hepoch
  have hle : epoch ≤ hdr.currentEpoch := by
    rw [hepoch]
    split_ifs
    · exact le_rfl
    · exact Nat.zero_le _
  refine sim_getNode (fun n _ => Sim.get_bind (sim_whenDo (fun hvote => ?_) fun _ => Or.inl hvars.1))
  have hguard : t.failoverAuthEpoch ≤ hdr.currentEpoch := le_trans hvote.2.2 hle
  refine sim_modify_bind (Steps.action (a := .countVote hdr) (Or.inr rfl) hguard) ?_
  refine does_clusterDoBeforeSleep (fun u hu => Or.inr ⟨?_, hvars.2 ▸ hguard⟩)
  have hcount : u.failoverAuthCount = t.failoverAuthCount + 1 := congrArg ClusterView.failoverAuthCount hu
  rw [hcount, hvars.1]

/-- A node that votes was a master with slots when the request came. -/
theorem voter_of_request {u : ClusterView} {v : ClusterView} (hs : Steps (requestAllows v hdr) v u)
    (h : u.Voter) : v.Voter := by
  have hsame : (u.heap u.myself).map (fun n => (n.slave, n.numslots))
      = (v.heap v.myself).map (fun n => (n.slave, n.numslots)) := by
    refine hs.frame (fun u => (u.heap u.myself).map fun n => (n.slave, n.numslots)) ?_
    rintro a u (ha | ⟨os, rfl⟩) -
    · cases a with
      | learn r h =>
        show ((ClusterView.updateNode _ r _).heap u.myself).map _ = _
        rw [ClusterView.updateNode_heap, Option.map_map]
        congr 1
        funext n
        simp only [Function.comp]
        split_ifs <;> rfl
      | _ => exact ha.elim
    · rfl
  obtain ⟨me, hme, hslave, hslots⟩ := h
  rw [hme] at hsame
  obtain ⟨me', hme', heq⟩ := Option.map_eq_some_iff.mp hsame.symm
  obtain ⟨hslave', hslots'⟩ := Prod.mk.inj heq
  exact ⟨me', hme', hslave'.trans hslave, hslots' ▸ hslots⟩

/-! ### Election packets as events -/

theorem steps_of_request {o : FailoverOutcome} (h : s.view.WellFormed)
    (hdata : hdr.data = .failoverAuthRequest)
    (hrun : (clusterHandle env (.packet link hdr)).run s = .ok (o, t)) :
    Steps (requestAllows s.view hdr) s.view t.view := by
  have hsat : Does (requestAllows s.view hdr) (clusterHandle env (.packet link hdr)) s fun _ _ => True :=
    Sim.bind (sim_discard (Q := fun _ _ => True) (does_packet_request h hdata))
      (fun _ _ _ _ => Sim.pure trivial)
  rw [Does, Behaviour.Sim, hrun] at hsat
  exact hsat.1

theorem count_of_ack {o : FailoverOutcome} (h : s.view.WellFormed) (hdata : hdr.data = .failoverAuthAck)
    (hrun : (clusterHandle env (.packet link hdr)).run s = .ok (o, t)) :
    t.failoverAuthCount = s.failoverAuthCount ∨
      (t.failoverAuthCount = s.failoverAuthCount + 1 ∧ s.failoverAuthEpoch ≤ hdr.currentEpoch) := by
  have hsat : Does _ (clusterHandle env (.packet link hdr)) s fun _ t =>
      t.failoverAuthCount = s.failoverAuthCount ∨
        (t.failoverAuthCount = s.failoverAuthCount + 1 ∧ s.failoverAuthEpoch ≤ hdr.currentEpoch) :=
    Sim.bind (sim_discard (does_packet_ack h hdata)) (fun _ _ _ hu => Sim.pure hu)
  rw [Does, Behaviour.Sim, hrun] at hsat
  exact hsat.2

end Packets

end Redis
