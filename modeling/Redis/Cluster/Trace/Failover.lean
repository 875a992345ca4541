import Redis.Cluster.Trace.Message

namespace Redis

open Simulation Transition

/-!
# The actions of elections and failovers

* `does_clusterSendFailoverAuthIfNeeded` — a vote is one action, with everything the code
  checks before it in the guard;
* `Replaces`, `does_clusterFailoverReplaceYourMaster` — a slave takes over;
* `Elects`, `does_clusterHandleSlaveFailover` — the election of a slave;
* `does_clusterHandleSlaveMigration` — a slave moves.
-/

variable {A : ClusterAction → Prop} {B : Behaviour ClusterState ClusterFault} {s : ClusterState}
  {env : ClusterEnv}

/-! ### The state of the cluster -/

theorem does_clusterUpdateState (hA : ∀ n, A (.resize n)) :
    Does A (clusterUpdateState env) s fun _ _ => True := by
  refine sim_modify_bind (Steps.unseen rfl) (Sim.get_bind (sim_getMyself fun me _ => ?_))
  refine Sim.ite (fun _ => Sim.pure trivial) (fun _ => ?_)
  refine sim_modify_bind (Steps.action (a := .resize _) (hA _) trivial) (Sim.get_bind ?_)
  exact sim_whenDo (fun _ => Sim.modify (Steps.unseen rfl) trivial) (fun _ => trivial)

/-! ### Votes -/

theorem does_clusterSendFailoverAuthIfNeeded {node : Ref} {request : ClusterMsg}
    (hA : ∀ os, A (.vote request os)) (h : s.view.WellFormed)
    (hnode : s.view.lookup request.sender = some node) (hlearned : s.view.Learned request) :
    Does A (clusterSendFailoverAuthIfNeeded env node request) s fun _ _ => True := by
  refine Sim.get_bind (sim_getMyself fun me hme => sim_getNode fun n hn => ?_)
  refine Sim.ite (fun _ => Sim.pure trivial) (fun hvoter => ?_)
  refine Sim.ite (fun _ => Sim.pure trivial) (fun hepoch => ?_)
  refine Sim.ite (fun _ => Sim.pure trivial) (fun hlast => ?_)
  refine Sim.ite (fun _ => Sim.pure trivial) (fun _ => ?_)
  cases n.slaveof with
  | none => exact Sim.pure trivial
  | some m =>
    refine sim_getNode (fun master _ => Sim.ite (fun _ => Sim.pure trivial) fun _ => ?_)
    refine Sim.ite (fun _ => Sim.pure trivial) (fun _ => Sim.ite (fun _ => Sim.pure trivial) fun _ => ?_)
    have hname : n.name = request.sender := by
      obtain ⟨x, hx, hxname⟩ := h.table _ _ (ClusterView.mem_of_lookup hnode)
      rw [ClusterState.view_heap hn] at hx
      cases hx
      exact hxname
    rw [not_or] at hvoter
    have hself : s.view.Voter := ⟨me.view, ClusterState.view_heap hme,
      Bool.eq_false_iff.mpr hvoter.1, hvoter.2⟩
    -- the message and the epoch of the vote are one action
    refine Sim.weaken (Does.of_yields (Q := fun _ t => ∃ os : List ClusterOutgoing,
      t.view = { s.view with outbox := s.outbox ++ os, lastVoteEpoch := s.currentEpoch } ∧
      os.length ≤ 1 ∧ ∀ o ∈ os, s.view.Stamped o.msg ∧ o.msg.data = .failoverAuthAck ∧
        o.dest = some request.sender) ?_ ?_) (fun _ _ _ _ => trivial)
    · refine Sim.bind yields_clusterSendFailoverAuth ?_
      rintro _ t - ⟨os, rfl, hlen, hos⟩
      refine sim_modify_bind trivial (sim_modifyNode fun _ _ => ⟨trivial, os, ?_, hlen, ?_⟩)
      · exact ClusterState.view_updateNode_eq (fun _ => rfl)
      · rw [← hname]
        exact hos
    · rintro _ t ⟨os, ht, hlen, hos⟩
      rw [ht]
      exact Steps.action (a := .vote request os) (hA os)
        ⟨hself, not_lt.mp hepoch, hlearned, hlast, hlen, hos⟩

/-! ### Taking over -/

/-- The role of the node, as far as it is known. -/
def ClusterView.HasRole (v : ClusterView) (r : Ref) (P : Bool → Bool → Prop) : Prop :=
  ∀ n, v.heap r = some n → P n.master n.slave

/-- The node may own slots. -/
abbrev ClusterView.MayOwn (v : ClusterView) (r : Ref) : Prop :=
  v.HasRole r fun master slave => master = true ∨ slave = false

variable {r : Ref} {P : Bool → Bool → Prop}

theorem ClusterView.HasRole.of_map {v w : ClusterView} (h : v.HasRole r P) {g : NodeView → NodeView}
    (hheap : w.heap r = (v.heap r).map g) (hmaster : ∀ n, (g n).master = n.master)
    (hslave : ∀ n, (g n).slave = n.slave) :
    w.HasRole r P := by
  intro m hm
  rw [hheap, Option.map_eq_some_iff] at hm
  obtain ⟨n, hn, rfl⟩ := hm
  rw [hmaster, hslave]
  exact h n hn

theorem ClusterView.HasRole.delSlot {v : ClusterView} (h : v.HasRole r P) (j : Slot) : (v.delSlot j).HasRole r P := by
  cases hj : v.slots j with
  | none => rw [ClusterView.delSlot_of_none hj]; exact h
  | some x =>
    refine h.of_map (ClusterView.delSlot_heap hj r) ?_ ?_ <;>
    · intro n
      split_ifs <;> rfl

theorem ClusterView.HasRole.addSlot {v : ClusterView} (h : v.HasRole r P) (x : Ref) (j : Slot) :
    (v.addSlot x j).HasRole r P := by
  refine h.of_map (ClusterView.addSlot_heap v x r j) ?_ ?_ <;>
  · intro n
    split_ifs <;> rfl

/-- A free slot is given to a node. -/
theorem does_clusterAddSlot {j : Slot}
    (hadd : ∀ n, s.view.heap r = some n → Steps A s.view (s.view.addSlot r j)) (hj : s.slots j = none) :
    Does A (clusterAddSlot r j) s fun b t => b = true ∧ t.view = s.view.addSlot r j := by
  refine Sim.weaken (Does.of_yields yields_clusterAddSlot ?_) ?_
  · rintro b t (⟨-, -, ht⟩ | ⟨-, -, ⟨n, hn⟩, ht⟩)
    · exact Steps.unseen ht
    · rw [ht]; exact hadd n hn
  · rintro b t - (⟨-, hsome, -⟩ | ⟨hb, -, -, ht⟩)
    · rw [hj] at hsome; cases hsome
    · exact ⟨hb, ht⟩

/-- A slot is taken from its owner and given to a node; `hadd` permits the second half. -/
theorem does_rebindSlot {j : Slot} (hdel : A (.delSlot j)) (h : s.view.WellFormed)
    (hadd : ∀ v n, Steps A s.view v → v = s.view.delSlot j → v.heap r = some n →
      Steps A v (v.addSlot r j)) {β : Type} {f : Unit → ClusterM β} {R : β → ClusterState → Prop}
    (hf : ∀ t, Steps A s.view t.view → t.view = (s.view.delSlot j).addSlot r j → Does A (f ()) t R) :
    Does A (discard (clusterDelSlot j) >>= fun _ => discard (clusterAddSlot r j) >>= f) s R := by
  refine Sim.bind (sim_discard (Q := fun _ t => t.view = s.view.delSlot j)
    (Sim.weaken (does_clusterDelSlot hdel h) fun _ _ _ ht => ht.2)) ?_
  rintro ⟨⟩ t hst ht
  have hslots : t.slots j = none := by
    have hj : t.view.slots j = none := by rw [ht, ClusterView.delSlot_slots, if_pos rfl]
    exact hj
  refine Sim.bind (sim_discard (Q := fun _ u => u.view = t.view.addSlot r j)
    (Sim.weaken (does_clusterAddSlot (fun n hn => hadd t.view n hst ht hn) hslots)
      fun _ _ _ hu => hu.2)) ?_
  rintro ⟨⟩ u htu hu
  exact hf u (Actions.Steps.trans hst htu) (by rw [hu, ht])

/-- The second half is a claim of a node that may own slots. -/
theorem ClusterView.WellFormed.steps_claim {v w : ClusterView} {j : Slot} {n : NodeView}
    (hclaim : A (.claim r j)) (h : v.WellFormed) (hr : v.Knows r) (hown : v.MayOwn r) (hvw : Steps A v w)
    (hw : w = v.delSlot j) (hn : w.heap r = some n) :
    Steps A w (w.addSlot r j) := by
  refine Steps.action (a := .claim r j) hclaim ⟨?_, (h.knows_steps hvw hr).mem_refs hn, n, hn, ?_⟩
  · rw [hw, ClusterView.delSlot_slots, if_pos rfl]
  · refine hown.delSlot j n ?_
    rw [← hw]
    exact hn

/-- What taking over needs. -/
structure Replaces (A : ClusterAction → Prop) (me : Ref) : Prop where
  promote : A (.promote me)
  delSlot : ∀ j, A (.delSlot j)
  claim : ∀ j, A (.claim me j)
  resize : ∀ n, A (.resize n)
  save : ∀ c, A (.save c)
  send : ∀ os, A (.send os)

theorem does_clusterClaimSlot {old me : Ref} {j : Slot} (hA : Replaces A me) (h : s.view.WellFormed)
    (hme : me = s.myself) (hown : s.view.MayOwn me) :
    Does A (clusterClaimSlot old me j) s fun _ t => t.view.MayOwn me := by
  refine sim_getNode (fun n _ => sim_whenDo (fun _ => ?_) (fun _ => hown))
  have hself : me ∈ s.view.refs := by rw [hme]; exact h.self
  rw [← bind_pure (discard (clusterAddSlot me j))]
  refine does_rebindSlot (hA.delSlot j) h (fun v n => h.steps_claim (hA.claim j) (h.knows hself) hown) ?_
  intro t _ ht
  refine Sim.pure ?_
  rw [ht]
  exact (hown.delSlot j).addSlot me j

theorem does_clusterFailoverReplaceYourMaster (hA : Replaces A s.myself) (h : s.view.WellFormed) :
    Does A (clusterFailoverReplaceYourMaster env) s fun _ _ => True := by
  refine Sim.get_bind (sim_getMyself fun me hme => ?_)
  cases me.slaveof with
  | none => exact Sim.pure trivial
  | some old =>
    refine Sim.ite (fun _ => Sim.pure trivial) (fun _ => ?_)
    refine Sim.bind (does_clusterSetNodeAsMaster hA.promote) ?_
    rintro ⟨⟩ t hst ⟨-, hmaster⟩
    have ht := h.steps hst
    have hself : t.myself = s.myself := ClusterView.steps_myself hst
    refine Sim.bind (Sim.forM (fun u => u.view.MayOwn s.myself) (fun n hn => Or.inl (hmaster n hn)) ?_) ?_
    · intro j _ u htu hu
      have hself' : s.myself = u.myself := by
        rw [← hself]
        exact (ClusterView.steps_myself htu).symm
      exact does_clusterClaimSlot hA (ht.steps htu) hself' hu
    · rintro ⟨⟩ u htu -
      refine Sim.seq (does_clusterUpdateState hA.resize) (fun _ w huw => ?_)
      refine Sim.seq (does_clusterSaveConfig hA.save ((ht.steps htu).steps huw)) (fun _ x _ => ?_)
      refine Sim.seq (does_clusterBroadcastPong hA.send) (fun _ y _ => ?_)
      exact Sim.weaken (Does.of_unseen yields_resetManualFailover) (fun _ _ _ _ => trivial)

/-! ### The election of a slave -/

/-- What an election needs. -/
structure Elects (A : ClusterAction → Prop) (me : Ref) : Prop extends Replaces A me where
  schedule : A .schedule
  newEpoch : A .newEpoch
  markSent : A .markSent
  winEpoch : A .winEpoch

/-- This node is a slave. -/
def ClusterState.IsSlave (s : ClusterState) : Prop :=
  ∀ me, s.heap s.myself = some me → me.flags.slave = true

theorem sim_clusterGetSlaveRank [Tolerant B] (h : s.IsSlave) :
    B.Sim (clusterGetSlaveRank env) s fun _ t => t = s := by
  refine Sim.get_bind (sim_getMyself fun me hme => sim_assert_bind (h me hme) ?_)
  cases me.slaveof with
  | none => exact Sim.pure rfl
  | some m => exact sim_getNode (fun master _ => sim_getNodes_bind fun _ => Sim.pure rfl)

theorem does_failoverSchedule (hA : A .schedule) (hsend : ∀ os, A (.send os)) (h : s.IsSlave) :
    Does A (failoverSchedule env) s fun o _ => o = .scheduled := by
  refine sim_modify_bind (Steps.action (a := .schedule) hA trivial) ?_
  refine Sim.bind (sim_clusterGetSlaveRank h) ?_
  rintro rank t - rfl
  refine sim_modify_bind (Steps.unseen rfl) ?_
  exact Sim.seq (does_clusterBroadcastPong hsend) (fun _ _ _ => Sim.pure rfl)

theorem does_failoverUpdateRank (h : s.IsSlave) :
    Does A (failoverUpdateRank env) s fun _ t => t.view = s.view := by
  refine Sim.get_bind (sim_whenDo (fun _ => ?_) (fun _ => rfl))
  refine Sim.bind (sim_clusterGetSlaveRank h) ?_
  rintro rank t - rfl
  exact sim_whenDo (fun _ => Sim.modify (Steps.unseen rfl) rfl) (fun _ => rfl)

theorem does_failoverRequest (hepoch : A .newEpoch) (hsend : ∀ os, A (.send os)) (hsent : A .markSent) :
    Does A (failoverRequest env) s fun o _ => o = .requested := by
  refine sim_modify_bind (Steps.action (a := .newEpoch) hepoch trivial) ?_
  refine Sim.seq (does_clusterRequestFailoverAuth hsend rfl) (fun _ t _ => ?_)
  refine sim_modify_bind (Steps.action (a := .markSent) hsent trivial) ?_
  exact Sim.seq (does_clusterDoBeforeSleep fun _ _ => trivial) (fun _ _ _ => Sim.pure rfl)

theorem does_failoverWin (hA : Replaces A s.myself) (hwin : A .winEpoch) (h : s.view.WellFormed) :
    Does A (failoverWin env) s fun o _ => o = .won := by
  refine Sim.get_bind (sim_getMyself fun me hme => ?_)
  refine Sim.seq (sim_whenDo (fun hlt => ?_) (fun _ => trivial)) (fun _ t hst => ?_)
  · refine sim_modifyNode (fun _ _ => ⟨?_, trivial⟩)
    have hview : (s.updateNode s.myself fun me => { me with configEpoch := s.failoverAuthEpoch }).view
        = ClusterAction.winEpoch.apply s.view := by
      refine (ClusterState.view_updateNode (g := fun n => { n with
        configEpoch := s.failoverAuthEpoch }) (fun _ => rfl)).trans ?_
      refine ClusterView.updateNode_congr fun x hx => ?_
      rw [ClusterState.view_heap hme] at hx
      cases hx
      have hmax : max me.view.configEpoch s.view.failoverAuthEpoch = s.failoverAuthEpoch :=
        max_eq_right hlt.le
      rw [hmax]
    rw [show (acts A).rel s _ = Steps A s.view _ from rfl, hview]
    exact Steps.action (a := .winEpoch) hwin trivial
  · have hself : t.myself = s.myself := ClusterView.steps_myself hst
    exact Sim.seq (does_clusterFailoverReplaceYourMaster (hself ▸ hA) (h.steps hst))
      (fun _ _ _ => Sim.pure rfl)

/-- What `clusterHandleSlaveFailover` says about the election by its outcome. -/
def FailoverOutcome.Explains (A : ClusterAction → Prop) (s : ClusterState) (o : FailoverOutcome)
    (t : ClusterState) : Prop :=
  (o = .requested ∨ Steps (fun a => A a ∧ a ≠ .newEpoch) s.view t.view) ∧
    (o = .won → s.size / 2 + 1 ≤ s.failoverAuthCount)

theorem does_failoverAttempt {age timeout : Int} (hA : Elects A s.myself) (h : s.view.WellFormed)
    (hslave : s.IsSlave) :
    Does A (failoverAttempt env age timeout (s.size / 2 + 1)) s (FailoverOutcome.Explains A s) := by
  have hsub : ∀ a, (A a ∧ a ≠ .newEpoch) → A a := fun _ ha => ha.1
  refine Sim.bind (does_failoverUpdateRank hslave) (fun _ t _ ht => Sim.get_bind ?_)
  have hself : t.myself = s.myself := congrArg ClusterView.myself ht
  -- a state that is seen as before
  have hidle : ∀ reason, Does A (do
      clusterLogCantFailover reason
      return FailoverOutcome.idle) t (FailoverOutcome.Explains A s) := by
    intro reason
    refine sim_modify_bind (Steps.unseen rfl) (Sim.pure ⟨Or.inr (Steps.unseen ?_), nofun⟩)
    exact ht
  refine Sim.ite (fun _ => hidle _) (fun _ => Sim.ite (fun _ => hidle _) fun _ => ?_)
  refine Sim.ite (fun _ => ?_) (fun _ => Sim.ite (fun hcount => ?_) fun _ => hidle _)
  · refine Sim.weaken (does_failoverRequest hA.newEpoch hA.send hA.markSent) ?_
    rintro o u - rfl
    exact ⟨Or.inl rfl, nofun⟩
  · have hrep : Replaces (fun a => A a ∧ a ≠ .newEpoch) t.myself := by
      rw [hself]
      exact ⟨⟨hA.promote, nofun⟩, fun j => ⟨hA.delSlot j, nofun⟩, fun j => ⟨hA.claim j, nofun⟩,
        fun n => ⟨hA.resize n, nofun⟩, fun c => ⟨hA.save c, nofun⟩, fun os => ⟨hA.send os, nofun⟩⟩
    refine Sim.weaken (Does.mono (Does.keep (does_failoverWin hrep ⟨hA.winEpoch, nofun⟩ ?_)) hsub) ?_
    · rw [ht]; exact h
    · rintro o u - ⟨hsteps, rfl⟩
      rw [ht] at hsteps
      have hcount' : t.failoverAuthCount = s.failoverAuthCount :=
        congrArg ClusterView.failoverAuthCount ht
      exact ⟨Or.inr hsteps, fun _ => hcount' ▸ hcount⟩

theorem does_clusterHandleSlaveFailover (hA : Elects A s.myself) (h : s.view.WellFormed) :
    Does A (clusterHandleSlaveFailover env) s (FailoverOutcome.Explains A s) := by
  have hidle : Does A failoverNoReason s (FailoverOutcome.Explains A s) :=
    sim_modify_bind (Steps.unseen rfl) (Sim.pure ⟨Or.inr (Steps.unseen rfl), nofun⟩)
  refine sim_modify_bind (Steps.unseen rfl) (Sim.get_bind (sim_getMyself fun me hme => ?_))
  refine Sim.ite (fun _ => hidle) (fun hmaster => ?_)
  have hslave : s.IsSlave := by
    intro me' hme'
    rw [show s.heap s.myself = some me from hme] at hme'
    cases hme'
    have hrole := (h.selfRole me.view (ClusterState.view_heap hme)).role
    have hfalse : me.view.master = false := Bool.eq_false_iff.mpr hmaster
    rw [hfalse] at hrole
    exact hrole
  cases me.slaveof with
  | none => exact hidle
  | some m =>
    refine sim_getNode (fun master _ => Sim.ite (fun _ => hidle) fun _ => ?_)
    refine Sim.ite (fun _ => ?_) (fun _ => Sim.ite (fun _ => ?_) fun _ => ?_)
    · exact sim_modify_bind (Steps.unseen rfl) (Sim.pure ⟨Or.inr (Steps.unseen rfl), nofun⟩)
    · refine Sim.weaken (Does.mono (Does.keep (does_failoverSchedule
        (A := fun a => A a ∧ a ≠ .newEpoch) ⟨hA.schedule, nofun⟩ (fun os => ⟨hA.send os, nofun⟩) hslave))
        (fun _ ha => ha.1)) ?_
      rintro o t - ⟨hsteps, rfl⟩
      exact ⟨Or.inr hsteps, nofun⟩
    · exact does_failoverAttempt (s := { s with
        todoBeforeSleep := { s.todoBeforeSleep with handleFailover := false } }) hA h hslave

/-! ### Slave migration and manual failover -/

theorem sim_smallerSlave [Tolerant B] {candidate slave : Ref} :
    B.Sim (smallerSlave candidate slave) s fun _ t => t = s :=
  sim_getNode (fun _ _ => sim_getNode fun _ _ => Sim.pure rfl)

theorem sim_okSlaves [Tolerant B] {n : ClusterNode} : B.Sim (okSlaves n) s fun _ t => t = s :=
  Sim.ite (fun _ => sim_getNodes_bind fun _ => Sim.pure rfl) (fun _ => Sim.pure rfl)

/-- The target of a migration is not a slave. -/
def MigrationScan.Sound (v : ClusterView) (scan : MigrationScan) : Prop :=
  ∀ r, scan.target = some r → ∃ n, v.heap r = some n ∧ n.slave = false

theorem does_migrationScan {maxSlaves : Nat} {acc : MigrationScan} (hacc : acc.Sound s.view) :
    Does A (migrationScan env maxSlaves acc r) s fun acc' t =>
      t.view = s.view ∧ acc'.Sound s.view := by
  refine sim_getNode (fun n hn => Sim.bind sim_okSlaves ?_)
  rintro okslaves t - rfl
  refine sim_modifyNode_bind (fun _ _ => ⟨Steps.unseen (ClusterState.view_updateNode_eq fun _ => rfl), ?_⟩)
  refine Sim.bind (Sim.foldlM (fun _ u => u.view = t.view) ?_ ?_) ?_
  · exact ClusterState.view_updateNode_eq (fun _ => rfl)
  · intro b x _ u _ hu
    refine Sim.weaken sim_smallerSlave ?_
    rintro _ w - rfl
    exact hu
  · intro candidate u _ hu
    refine Sim.pure ⟨hu, ?_⟩
    intro x hx
    dsimp only at hx
    split_ifs at hx with htarget
    · cases hx
      refine ⟨n.view, ClusterState.view_heap hn, ?_⟩
      have horphan := htarget.1
      simp only [Bool.and_eq_true, Bool.not_eq_true'] at horphan
      exact horphan.1.1.1
    · exact hacc x hx

theorem does_clusterHandleSlaveMigration {maxSlaves : Nat} (hA : ∀ m, A (.setMyMaster m))
    (h : s.view.WellFormed) : Does A (clusterHandleSlaveMigration env maxSlaves) s fun _ _ => True := by
  refine Sim.get_bind (sim_getMyself fun me hme => Sim.ite (fun _ => Sim.pure trivial) fun _ => ?_)
  have hview : s.view.heap s.view.myself = some me.view := ClusterState.view_heap hme
  cases hof : me.slaveof with
  | none => exact Sim.pure trivial
  | some m =>
    refine sim_getNode (fun mymaster _ => sim_getNodes_bind fun slaves => ?_)
    refine Sim.ite (fun _ => Sim.pure trivial) (fun _ => ?_)
    refine Sim.bind (Sim.foldlM (fun acc t => t.view = s.view ∧ acc.Sound s.view)
      ⟨rfl, nofun⟩ ?_) ?_
    · rintro acc r - t - ⟨ht, hacc⟩
      refine Sim.weaken (does_migrationScan (ht ▸ hacc)) ?_
      rintro acc' u - ⟨hu, hacc'⟩
      exact ⟨hu.trans ht, ht ▸ hacc'⟩
    · rintro scan t - ⟨ht, hscan⟩
      -- a node with a master is a slave
      have hnot : me.view.master = false := by
        cases hmaster : me.view.master with
        | false => rfl
        | true =>
          have hnone := (h.selfRole me.view hview).slaveof hmaster
          rw [show me.view.slaveof = some m from hof] at hnone
          cases hnone
      have hself : t.myself = s.myself := congrArg ClusterView.myself ht
      refine Sim.get_bind (sim_ifSome (fun x hx => sim_getNode fun n _ => ?_) (fun _ => trivial))
      refine sim_whenDo (fun _ => ?_) (fun _ => trivial)
      refine does_clusterSetMaster (hA x) (ht ▸ h) ?_ ?_
      · rintro rfl
        obtain ⟨n, hn, hslave⟩ := hscan _ hx
        rw [hself, show s.view.heap s.myself = some me.view from hview] at hn
        cases hn
        rw [(h.selfRole me.view hview).role, hnot] at hslave
        cases hslave
      · intro me' hme' hmaster
        rw [ht, hself, show s.view.heap s.myself = some me.view from hview] at hme'
        cases hme'
        rw [hnot] at hmaster
        cases hmaster

theorem yields_manualFailoverCheckTimeout :
    Yields (manualFailoverCheckTimeout env) s fun _ t => t.view = s.view :=
  Sim.get_bind (sim_whenDo (fun _ => yields_resetManualFailover) (fun _ => rfl))

theorem yields_clusterHandleManualFailover :
    Yields (clusterHandleManualFailover env) s fun _ t => t.view = s.view :=
  Sim.get_bind (sim_whenDo (fun _ => Sim.modify trivial rfl) (fun _ => rfl))

end Redis
