import Redis.Cluster.Trace.Command

namespace Redis

open Simulation Transition

/-!
# The actions of the timer, and of any event

* `timerAllows` — what `clusterCron` and `clusterBeforeSleep` may do;
* `ClusterEvent.Possible` — the events that can happen;
* `does_clusterHandle` — **every event is a sequence of the actions it is allowed to take**;
* `wellFormed_clusterInit` — a fresh node.
-/

variable {A : ClusterAction → Prop} {B : Behaviour ClusterState ClusterFault} {s : ClusterState}
  {env : ClusterEnv}

/-- What the timer may do to a node whose tables are `v`. -/
def timerAllows (v : ClusterView) : ClusterAction → Prop
  | .send _ | .save _ | .resize _ | .delSlot _ | .move _ _ | .free _ | .setMyMaster _ => True
  | .schedule | .newEpoch | .markSent | .winEpoch => True
  | .promote r | .claim r _ => r = v.myself
  | _ => False

/-- What is done to all nodes: messages are sent, nodes are deleted. -/
def housekeepingAllows : ClusterAction → Prop
  | .send _ | .delSlot _ | .move _ _ | .free _ => True
  | _ => False

theorem timerAllows_of_housekeeping {v : ClusterView} {a : ClusterAction} (h : housekeepingAllows a) :
    timerAllows v a := by
  cases a <;> first | exact h | trivial

/-- Housekeeping leaves elections alone. -/
theorem vars_of_housekeeping {v w : ClusterView} (hs : Steps housekeepingAllows v w) :
    w.failoverAuthCount = v.failoverAuthCount ∧ w.size = v.size := by
  refine hs.invariant (fun u => u.failoverAuthCount = v.failoverAuthCount ∧ u.size = v.size)
    ⟨rfl, rfl⟩ ?_
  intro a u ha _ hu
  have hkeep : (a.apply u).failoverAuthCount = u.failoverAuthCount ∧ (a.apply u).size = u.size := by
    cases a with
    | send os => exact ⟨rfl, rfl⟩
    | delSlot j =>
      have hvars := u.apply_vars (a := .delSlot j) trivial
      exact ⟨congrArg ClusterView.Vars.failoverAuthCount hvars, congrArg ClusterView.Vars.size hvars⟩
    | move mig imp => exact ⟨rfl, rfl⟩
    | free r =>
      have hvars := u.apply_vars (a := .free r) trivial
      exact ⟨congrArg ClusterView.Vars.failoverAuthCount hvars, congrArg ClusterView.Vars.size hvars⟩
    | _ => exact ha.elim
  exact ⟨hkeep.1.trans hu.1, hkeep.2.trans hu.2⟩

/-! ### `clusterCron` -/

theorem does_cronConnect {r : Ref} (h : s.view.WellFormed) (hr : s.view.Knows r) :
    Does housekeepingAllows (cronConnect env r) s fun _ _ => True := by
  refine sim_getNode (fun n hn => Sim.ite (fun _ => Sim.pure trivial) fun hmyself => ?_)
  refine Sim.ite (fun _ => ?_) (fun _ => Sim.ite (fun _ => Sim.pure trivial) fun _ => ?_)
  · have hself : r ≠ s.myself := by
      intro heq
      exact hmyself (Or.inl ((h.selfFlag r n.view (ClusterState.view_heap hn)).mpr heq))
    exact Sim.weaken (does_clusterDelNode ⟨fun _ => trivial, fun _ _ => trivial, fun _ => trivial⟩ h hr
      hself) (fun _ _ _ _ => trivial)
  refine Sim.ite (fun _ => sim_whenDo (fun _ => ?_) fun _ => trivial) (fun _ => ?_)
  · exact Does.of_unseen_true (yields_modifyNode_unseen fun _ => rfl)
  · refine Sim.seq (Does.of_unseen_true (yields_modifyNode_unseen fun _ => rfl)) (fun _ t _ => ?_)
    refine Sim.seq (does_clusterSendPing fun _ => trivial) (fun _ u _ => ?_)
    exact Does.of_unseen_true (yields_modifyNode_unseen fun _ => rfl)

theorem does_cronPingRandom : Does housekeepingAllows (cronPingRandom env) s fun _ _ => True :=
  Sim.get_bind (sim_whenDo (fun _ => sim_ifSome (fun _ _ => does_clusterSendPing fun _ => trivial)
    fun _ => trivial) fun _ => trivial)

variable {acc : CronScan}

theorem sim_cronOrphans [Tolerant B] {r : Ref} {n : ClusterNode} :
    B.Sim (cronOrphans acc r n) s fun _ t => t = s := by
  refine sim_getMyself (fun me _ => Sim.ite (fun _ => ?_) fun _ => Sim.pure rfl)
  refine Sim.bind (sim_getNodes_bind (R := fun _ t => t = s) fun _ => Sim.pure rfl) ?_
  rintro okslaves t - rfl
  exact Sim.pure rfl

theorem does_cronPing {r : Ref} :
    Does housekeepingAllows (cronPing env acc r) s fun _ _ => True := by
  refine Sim.get_bind (sim_getNode fun n _ => sim_getMyself fun me _ => ?_)
  refine Sim.ite (fun _ => ?_) (fun _ => Sim.ite (fun _ => ?_) fun _ => ?_)
  · exact Sim.seq (does_clusterSendPing fun _ => trivial) (fun _ _ _ => Sim.pure trivial)
  · exact Sim.seq (does_clusterSendPing fun _ => trivial) (fun _ _ _ => Sim.pure trivial)
  · refine Sim.ite (fun _ => Sim.pure trivial) (fun _ => Sim.ite (fun _ => ?_) fun _ => Sim.pure trivial)
    exact Sim.seq (Does.of_unseen_true (yields_modifyNode_unseen fun _ => rfl))
      (fun _ _ _ => Sim.pure trivial)

theorem does_cronCheck {r : Ref} :
    Does housekeepingAllows (cronCheck env acc r) s fun _ _ => True := by
  refine sim_getNode (fun n _ => Sim.ite (fun _ => Sim.pure trivial) fun _ => ?_)
  refine Sim.bind sim_cronOrphans ?_
  rintro acc' t - rfl
  refine Sim.seq (sim_whenDo (fun _ => ?_) fun _ => trivial) (fun _ u _ => does_cronPing)
  exact Does.of_unseen_true (yields_modifyNode_unseen fun _ => rfl)

/-- The timer may carry on an election. -/
theorem elects_timerAllows {v : ClusterView} {me : Ref} (h : me = v.myself) :
    Elects (timerAllows v) me :=
  ⟨⟨h, fun _ => trivial, fun _ => h, fun _ => trivial, fun _ => trivial, fun _ => trivial⟩, trivial,
    trivial, trivial, trivial⟩

/-- More actions that are not about the epoch of the election may follow. -/
theorem FailoverOutcome.Explains.extend {o : FailoverOutcome} {t u : ClusterState}
    (h : o.Explains A s t) (htu : Steps (fun a => A a ∧ a ≠ .newEpoch) t.view u.view) :
    o.Explains A s u :=
  ⟨h.1.imp id fun hst => hst.trans htu, h.2⟩

theorem does_cronSlave {scan : CronScan} (h : s.view.WellFormed) :
    Does (timerAllows s.view) (cronSlave env scan) s (FailoverOutcome.Explains (timerAllows s.view) s) := by
  refine sim_getMyself (fun me _ => Sim.ite (fun _ => ?_) fun _ => ?_)
  swap
  · exact Sim.pure ⟨Or.inr (Actions.Steps.refl _), nofun⟩
  refine Sim.bind (Does.of_unseen yields_clusterHandleManualFailover) (fun _ t hst ht => ?_)
  have hself : t.myself = s.view.myself := congrArg ClusterView.myself ht
  refine Sim.bind (does_clusterHandleSlaveFailover (A := timerAllows s.view) (elects_timerAllows hself)
    (ht ▸ h)) ?_
  intro outcome u htu hout
  -- the state the election was read from is seen as before
  have hout' : outcome.Explains (timerAllows s.view) s u := by
    have hcount : t.failoverAuthCount = s.failoverAuthCount :=
      congrArg ClusterView.failoverAuthCount ht
    have hsize : t.size = s.size := congrArg ClusterView.size ht
    refine ⟨?_, fun hwon => ?_⟩
    · exact hout.1.imp id fun hsteps => Actions.Steps.trans (Steps.unseen ht) hsteps
    · rw [← hcount, ← hsize]
      exact hout.2 hwon
  have hu : u.view.WellFormed := (h.steps hst).steps htu
  refine Sim.bind (sim_whenDo (Q := fun _ w => outcome.Explains (timerAllows s.view) s w) (fun _ => ?_)
    fun _ => hout') (fun _ w _ hw => Sim.pure hw)
  refine Sim.weaken (Does.mono (Does.keep (does_clusterHandleSlaveMigration
    (A := fun a => timerAllows s.view a ∧ a ≠ .newEpoch) (fun m => ⟨trivial, nofun⟩) hu))
    fun _ ha => ha.1) ?_
  exact fun _ w _ hw => hout'.extend hw.1

theorem does_clusterCron (h : s.view.WellFormed) :
    Does (timerAllows s.view) (clusterCron env) s (FailoverOutcome.Explains (timerAllows s.view) s) := by
  have hmono : ∀ a, housekeepingAllows a → timerAllows s.view a := fun _ ha => timerAllows_of_housekeeping ha
  refine Sim.get_bind (Sim.bind (Does.mono (Does.keep (Sim.forM (fun _ => True) trivial
    fun r hr t hst _ => does_cronConnect (h.steps hst) (h.knows_steps hst (h.knows hr)))) hmono) ?_)
  rintro ⟨⟩ t - ⟨hst, -⟩
  refine Sim.bind (Does.mono (Does.keep does_cronPingRandom) hmono) ?_
  rintro ⟨⟩ u - ⟨htu, -⟩
  refine Sim.get_bind (Sim.bind (Does.mono (Does.keep (Sim.foldlM (fun _ _ => True) trivial
    fun acc r _ x _ _ => does_cronCheck)) hmono) ?_)
  rintro scan w - ⟨huw, -⟩
  refine sim_getMyself (fun me _ => ?_)
  refine Sim.bind (sim_whenDo (Q := fun _ x => x = w) (fun _ => sim_ifSome (fun m _ => sim_discard ?_)
    fun _ => rfl) fun _ => rfl) ?_
  · rw [← bind_pure (getNode m)]
    exact sim_getNode (fun _ _ => Sim.pure rfl)
  rintro ⟨⟩ x - rfl
  refine Sim.bind (Does.of_unseen yields_manualFailoverCheckTimeout) (fun _ y _ hy => ?_)
  -- up to here no election has been touched
  have hsy : Steps housekeepingAllows s.view y.view :=
    (Actions.Steps.trans hst htu).trans (Actions.Steps.trans huw (Steps.unseen hy))
  have hwf : y.view.WellFormed := h.steps hsy
  have hself : y.view.myself = s.view.myself := ClusterView.steps_myself hsy
  have hallows : timerAllows y.view = timerAllows s.view := by
    funext a
    cases a <;> simp only [timerAllows, hself]
  have hvars := vars_of_housekeeping hsy
  have hslave : Does (timerAllows s.view) (cronSlave env scan) y
      (FailoverOutcome.Explains (timerAllows s.view) s) := by
    have hrun : Does (timerAllows y.view) (cronSlave env scan) y
        (FailoverOutcome.Explains (timerAllows y.view) y) := does_cronSlave hwf
    rw [hallows] at hrun
    refine Sim.weaken hrun (fun o z _ hz => ⟨hz.1.imp id fun hsteps => ?_, fun hwon => ?_⟩)
    · refine Actions.Steps.trans (hsy.mono fun a ha => ⟨timerAllows_of_housekeeping ha, ?_⟩) hsteps
      rintro rfl
      exact ha
    · have hcount : y.failoverAuthCount = s.failoverAuthCount := hvars.1
      have hsize : y.size = s.size := hvars.2
      rw [← hcount, ← hsize]
      exact hz.2 hwon
  refine Sim.bind hslave (fun outcome z _ hz => Sim.get_bind ?_)
  refine Sim.bind (sim_whenDo (Q := fun _ w => outcome.Explains (timerAllows s.view) s w) (fun _ => ?_)
    fun _ => hz) (fun _ w _ hw => Sim.pure hw)
  refine Sim.weaken (Does.mono (Does.keep (does_clusterUpdateState
    (A := fun a => timerAllows s.view a ∧ a ≠ .newEpoch) fun n => ⟨trivial, nofun⟩))
    fun _ ha => ha.1) ?_
  exact fun _ w _ hw => hz.extend hw.1

/-! ### `clusterBeforeSleep` -/

theorem does_clusterBeforeSleep (h : s.view.WellFormed) :
    Does (timerAllows s.view) (clusterBeforeSleep env) s
      (FailoverOutcome.Explains (timerAllows s.view) s) := by
  have hfailover : Does (timerAllows s.view) (sleepFailover env s.todoBeforeSleep) s
      (FailoverOutcome.Explains (timerAllows s.view) s) := by
    refine Sim.ite (fun _ => ?_) (fun _ => Sim.pure ⟨Or.inr (Actions.Steps.refl _), nofun⟩)
    exact does_clusterHandleSlaveFailover (elects_timerAllows rfl) h
  refine Sim.get_bind (Sim.bind hfailover (fun outcome t hst ht => Sim.get_bind ?_))
  have hkeep : ∀ {m : ClusterM Unit} {u : ClusterState},
      Does (fun a => timerAllows s.view a ∧ a ≠ .newEpoch) m u (fun _ _ => True) →
      outcome.Explains (timerAllows s.view) s u →
      Does (timerAllows s.view) m u fun _ w => outcome.Explains (timerAllows s.view) s w := by
    intro m u hm hu
    refine Sim.weaken (Does.mono (Does.keep hm) fun _ ha => ha.1) ?_
    exact fun _ w _ hw => hu.extend hw.1
  refine Sim.bind (sim_whenDo (fun _ => hkeep (does_clusterUpdateState fun n => ⟨trivial, nofun⟩) ht)
    fun _ => ht) (fun _ u htu hu => Sim.get_bind ?_)
  have hwf : u.view.WellFormed := (h.steps hst).steps htu
  refine Sim.bind (sim_whenDo (fun _ => hkeep (does_clusterSaveConfig (fun c => ⟨trivial, nofun⟩) hwf) hu)
    fun _ => hu) (fun _ w _ hw => ?_)
  exact sim_modify_bind (Steps.unseen rfl) (Sim.pure hw)

/-! ### Events -/

/-- An event that can happen.  The node of a link is in the table: only nodes of the table are
    connected, and a node that is freed takes its link along.  A name that is drawn while a
    packet is processed is not the one the packet carries. -/
def ClusterEvent.Possible (env : ClusterEnv) (s : ClusterState) : ClusterEvent → Prop
  | .packet link hdr =>
      (∀ l, link = some l → l ∈ s.nodeRefs) ∧ ∀ r, env.randomHexChars r ≠ hdr.sender
  | _ => True

/-- What an event may do to a node whose tables are `v`. -/
def ClusterEvent.allows (env : ClusterEnv) (v : ClusterView) : ClusterEvent → ClusterAction → Prop
  | .packet _ hdr => fun a => learnAllows v hdr a ∨ packetAllows env v hdr a
  | .command c => commandAllows env v c
  | .cron => timerAllows v
  | .beforeSleep => timerAllows v

/-- What is known of an event besides the actions it takes. -/
structure ClusterEvent.Explains (env : ClusterEnv) (s : ClusterState) (ev : ClusterEvent)
    (o : FailoverOutcome) (t : ClusterState) : Prop where
  packet : ∀ link hdr, ev = .packet link hdr →
    ∃ v, Steps (learnAllows s.view hdr) s.view v ∧ Steps (packetAllows env s.view hdr) v t.view
  epoch : o = .requested ∨ Steps (fun a => ev.allows env s.view a ∧ a ≠ .newEpoch) s.view t.view
  won : o = .won → s.size / 2 + 1 ≤ s.failoverAuthCount

/-- Neither a packet nor a command starts an election. -/
theorem steps_ne_newEpoch {v w : ClusterView} (hs : Steps A v w) (hA : ¬ A .newEpoch) :
    Steps (fun a => A a ∧ a ≠ .newEpoch) v w := by
  refine hs.mono fun a ha => ⟨ha, ?_⟩
  rintro rfl
  exact hA ha

/-- **Every event is a sequence of the actions it is allowed to take.** -/
theorem does_clusterHandle {ev : ClusterEvent} (h : s.view.WellFormed) (hev : ev.Possible env s) :
    Does (ev.allows env s.view) (clusterHandle env ev) s (ev.Explains env s) := by
  cases ev with
  | packet link hdr =>
    refine Sim.bind (sim_discard (Q := fun _ t => ∃ v, Steps (learnAllows s.view hdr) s.view v ∧
      Steps (packetAllows env s.view hdr) v t.view) (does_clusterProcessPacket h hev.1 hev.2)) ?_
    rintro ⟨⟩ t hst ht
    refine Sim.pure ⟨?_, Or.inr (steps_ne_newEpoch hst (not_or.mpr ⟨id, id⟩)), nofun⟩
    rintro link' hdr' ⟨⟩
    exact ht
  | command c =>
    refine Sim.bind (sim_discard (Q := fun _ _ => True) (does_clusterCommand h)) (fun _ t hst _ => ?_)
    have hsteps : Steps (fun a => commandAllows env s.view c a ∧ a ≠ .newEpoch) s.view t.view :=
      steps_ne_newEpoch hst fun ha => not_isProtocol_of_command ha trivial
    refine Sim.pure ⟨?_, Or.inr hsteps, ?_⟩
    · rintro _ _ ⟨⟩
    · rintro ⟨⟩
  | cron =>
    refine Sim.weaken (does_clusterCron h) (fun o t _ ht => ⟨?_, ht.1, ht.2⟩)
    rintro _ _ ⟨⟩
  | beforeSleep =>
    refine Sim.weaken (does_clusterBeforeSleep h) (fun o t _ ht => ⟨?_, ht.1, ht.2⟩)
    rintro _ _ ⟨⟩

/-! ### Start -/

theorem wellFormed_clusterInit : (clusterInit env).view.WellFormed := by
  have hheap : ∀ r n, (clusterInit env).view.heap r = some n → r = 0 ∧ n = (freshMyself env).view := by
    intro r n hn
    by_cases hr : r = 0
    · subst hr
      exact ⟨rfl, (Option.some.inj hn).symm⟩
    · simp [ClusterState.view, clusterInit, hr] at hn
  have hnone : ∀ {r : Ref}, none ≠ some r := fun h => Option.some_ne_none _ h.symm
  refine ⟨?_, List.nodup_singleton _, ?_, fun _ _ hr => absurd hr hnone, ?_, ?_, fun _ _ hr => absurd hr hnone,
    fun _ _ hr => absurd hr hnone, List.mem_singleton_self _, ?_, ?_⟩
  · intro name r hr
    obtain ⟨rfl, rfl⟩ := Prod.mk.inj (List.mem_singleton.mp hr)
    exact ⟨_, rfl, rfl⟩
  · intro r (hr : 1 ≤ r)
    have hne : r ≠ 0 := Nat.one_le_iff_ne_zero.mp hr
    simp [ClusterState.view, clusterInit, hne]
  · intro r n j hn hbit
    obtain ⟨rfl, rfl⟩ := hheap r n hn
    cases hbit
  · intro r n hn
    obtain ⟨rfl, rfl⟩ := hheap r n hn
    exact (slotCount_eq_zero fun _ => rfl).symm
  · intro r n hn
    obtain ⟨rfl, rfl⟩ := hheap r n hn
    exact ⟨fun _ => rfl, fun _ => rfl⟩
  · intro me hme
    obtain ⟨-, rfl⟩ := hheap _ me hme
    exact ⟨rfl, rfl, fun _ => rfl⟩

end Redis
