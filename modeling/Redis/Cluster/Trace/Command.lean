import Redis.Cluster.Trace.Packet

namespace Redis

open Simulation Transition

/-!
# The actions of a command

* `commandAllows` — what each subcommand may do;
* `does_clusterSlotsCommand` — the checks of `ADDSLOTS` and `DELSLOTS` make the assertion
  behind them hold;
* `does_clusterReset` — `CLUSTER RESET`;
* `does_clusterCommand` — the dispatch.
-/

variable {A : ClusterAction → Prop} {B : Behaviour ClusterState ClusterFault} {s : ClusterState}
  {env : ClusterEnv}

/-- What a subcommand may do to a node whose tables are `v`. -/
def commandAllows (env : ClusterEnv) (v : ClusterView) : ClusterCommand → ClusterAction → Prop
  | .meet _ _, .handshake name => ∃ r, name = env.randomHexChars r
  | .flushslots, .delSlot _ => True
  | .addslots _, .move _ _ => True
  | .addslots _, .assign r _ => r = v.myself
  | .delslots _, .move _ _ => True
  | .delslots _, .delSlot _ => True
  | .setslot _ _, .move _ _ => True
  | .setslot _ (.node _), .bump => True
  | .setslot _ (.node _), .delSlot _ => True
  | .setslot _ (.node name), .assign r _ => v.lookup name = some r
  | .bumpepoch, .bump => True
  | .saveconfig, .save _ => True
  | .forget _, .delSlot _ => True
  | .forget _, .move _ _ => True
  | .forget _, .free _ => True
  | .replicate _, .setMyMaster _ => True
  | .failover .takeover, .bump => True
  | .failover .takeover, .promote r => r = v.myself
  | .failover .takeover, .delSlot _ => True
  | .failover .takeover, .claim r _ => r = v.myself
  | .failover .takeover, .resize _ => True
  | .failover .takeover, .save _ => True
  | .failover _, .send _ => True
  | .setConfigEpoch _, .setEpoch _ => True
  | .reset _, .promote r => r = v.myself
  | .reset _, .move _ _ => True
  | .reset _, .delSlot _ => True
  | .reset _, .free _ => True
  | .reset true, .hardReset name => ∃ r, name = env.randomHexChars r
  | _, _ => False

/-- The actions that are left to packets and timers. -/
def ClusterAction.IsProtocol : ClusterAction → Prop
  | .learn _ _ | .updateEpoch _ _ _ | .winEpoch | .demote _ | .follow _ _ | .complete _ _ _ _
  | .vote _ _ | .schedule | .newEpoch | .markSent | .countVote _ => True
  | _ => False

variable {v : ClusterView} {c : ClusterCommand} {name : NodeName}

theorem not_isProtocol_of_command {a : ClusterAction} (h : commandAllows env v c a) : ¬ a.IsProtocol := by
  intro ha
  cases a <;> first
    | exact ha
    | (cases c with
      | setslot slot action => cases action <;> exact h
      | failover option => cases option <;> exact h
      | reset hard => cases hard <;> exact h
      | _ => exact h)

/-- Only `MEET` creates nodes. -/
theorem name_of_command (h : commandAllows env v c (.handshake name)) : ∃ r, name = env.randomHexChars r := by
  cases c with
  | meet ip port => exact h
  | setslot slot action => cases action <;> exact h.elim
  | failover option => cases option <;> exact h.elim
  | reset hard => cases hard <;> exact h.elim
  | _ => exact h.elim

theorem hard_of_command (h : commandAllows env v c (.hardReset name)) : c = .reset true := by
  cases c with
  | setslot slot action => cases action <;> exact h.elim
  | failover option => cases option <;> exact h.elim
  | reset hard =>
    cases hard with
    | true => rfl
    | false => exact h.elim
  | _ => exact h.elim

theorem setConfigEpoch_of_command {e : Nat} (h : commandAllows env v c (.setEpoch e)) :
    ∃ epoch, c = .setConfigEpoch epoch := by
  cases c with
  | setConfigEpoch epoch => exact ⟨epoch, rfl⟩
  | setslot slot action => cases action <;> exact h.elim
  | failover option => cases option <;> exact h.elim
  | reset hard => cases hard <;> exact h.elim
  | _ => exact h.elim

/-! ### Slots -/

/-- The slots that were named are all unassigned, or all assigned. -/
theorem checkSlots_spec {del : Bool} {args : List Int} {named result : List Slot}
    (h : checkSlots s del args named = .ok result) :
    ∀ j ∈ result, j ∈ named ∨ (s.slots j).isSome = del := by
  induction args generalizing named with
  | nil =>
    rw [checkSlots] at h
    cases h
    exact fun j hj => Or.inl hj
  | cons arg args ih =>
    rw [checkSlots] at h
    cases harg : getSlotOrReply arg with
    | none => rw [harg] at h; cases h
    | some slot =>
      rw [harg] at h
      dsimp only at h
      split_ifs at h with hdel hadd hdup
      intro j hj
      rcases ih h j hj with hmem | hj'
      · rcases List.mem_cons.mp hmem with rfl | hmem
        · right
          cases del with
          | true => simpa [Option.isSome_iff_ne_none] using hdel
          | false => simpa using hadd
        · exact Or.inl hmem
      · exact Or.inr hj'

/-- The slots that are left to be changed are as the command found them. -/
def SlotsLeft (del : Bool) (named rest : List Slot) (t : ClusterState) : Prop :=
  rest.Nodup ∧ ∀ j ∈ rest, j ∈ named → (t.slots j).isSome = del

section

variable (hmove : ∀ mig imp, A (.move mig imp))

include hmove

theorem does_clusterApplySlot {del : Bool} {named rest : List Slot} {j : Slot}
    (hdel : del = true → A (.delSlot j)) (hadd : del = false → A (.assign s.myself j)) (h : s.view.WellFormed)
    (hleft : SlotsLeft del named (j :: rest) s) :
    Does A (clusterApplySlot del named j) s fun _ t => SlotsLeft del named rest t := by
  have hnodup := List.nodup_cons.mp hleft.1
  refine sim_whenDo (fun hj => ?_)
    (fun _ => ⟨hnodup.2, fun i hi => hleft.2 i (List.mem_cons_of_mem _ hi)⟩)
  set imp : Slot → Option Ref := fun i => if i = j then none else s.importingSlotsFrom i with himp
  have hstep : Steps A s.view ({ s with importingSlotsFrom := imp } : ClusterState).view := by
    refine Steps.action (a := .move s.migratingSlotsTo imp) (hmove _ _) ⟨h.migrating, ?_⟩
    intro i r hi
    simp only [himp] at hi
    split_ifs at hi
    exact h.importing i r hi
  have hstate : (s.slots j).isSome = del := hleft.2 j (by simp) hj
  -- the slots other than this one keep their owners
  have hrest : ∀ t : ClusterState, (∀ i, i ≠ j → t.view.slots i = s.slots i) →
      SlotsLeft del named rest t := by
    intro t ht
    refine ⟨hnodup.2, fun i hi hmem => ?_⟩
    have hne : i ≠ j := by
      rintro rfl
      exact hnodup.1 hi
    rw [show t.slots i = s.slots i from ht i hne]
    exact hleft.2 i (List.mem_cons_of_mem _ hi) hmem
  refine sim_modify_bind hstep ?_
  have hcall : Does A (clusterAddOrDelSlot del j)
      ({ s with importingSlotsFrom := imp } : ClusterState) fun b t =>
      b = true ∧ SlotsLeft del named rest t := by
    refine Sim.get_bind (Sim.ite (fun hd => ?_) (fun hd => ?_))
    · refine Sim.weaken (does_clusterDelSlot (hdel hd) (h.steps hstep)) ?_
      rintro b t - ⟨hb, ht⟩
      refine ⟨?_, hrest t fun i hi => ?_⟩
      · rw [hb]
        exact hstate.trans hd
      · rw [ht, ClusterView.delSlot_slots, if_neg hi]
        rfl
    · rw [Bool.not_eq_true] at hd
      have hnone : s.slots j = none := by
        rw [hd] at hstate
        simpa using hstate
      have hassign : Steps A ({ s with importingSlotsFrom := imp } : ClusterState).view
          (({ s with importingSlotsFrom := imp } : ClusterState).view.addSlot s.myself j) :=
        Steps.action (a := .assign s.myself j) (hadd hd) ⟨hnone, h.self⟩
      refine Sim.weaken (does_clusterAddSlot (fun _ _ => hassign) hnone) ?_
      rintro b t - ⟨hb, ht⟩
      refine ⟨hb, hrest t fun i hi => ?_⟩
      rw [ht]
      exact if_neg hi
  refine Sim.bind hcall ?_
  rintro b t - ⟨rfl, ht⟩
  rw [serverAssert, if_pos rfl]
  exact Sim.pure ht

theorem does_clusterSlotsCommand {del : Bool} {args : List Int} (hdel : del = true → ∀ j, A (.delSlot j))
    (hadd : del = false → ∀ j, A (.assign s.myself j)) (h : s.view.WellFormed) :
    Does A (clusterSlotsCommand del args) s fun _ _ => True := by
  refine Sim.get_bind ?_
  cases hcheck : checkSlots s del args [] with
  | error e => exact Sim.pure trivial
  | ok named =>
    refine Sim.seq (Sim.weaken (Sim.forM_rest (SlotsLeft del named) ?_ ?_) fun _ _ _ _ => trivial) ?_
    · refine ⟨nodup_allSlots, fun j _ hj => ?_⟩
      rcases checkSlots_spec hcheck j hj with hmem | hj'
      · cases hmem
      · exact hj'
    · intro j rest t hst ht
      have hself : t.myself = s.myself := ClusterView.steps_myself hst
      exact does_clusterApplySlot hmove (fun hd => hdel hd j) (fun hd => hself ▸ hadd hd j) (h.steps hst) ht
    · intro _ t _
      exact Sim.seq (does_clusterDoBeforeSleep fun _ _ => trivial) (fun _ _ _ => Sim.pure trivial)

theorem does_clusterSetslotNode {slot : Slot} {n : Ref} (hbump : A .bump) (hdel : A (.delSlot slot))
    (hadd : A (.assign n slot)) (h : s.view.WellFormed) (hn : n ∈ s.view.refs) :
    Does A (clusterSetslotNode env slot n) s fun _ _ => True := by
  refine Sim.get_bind (Sim.seq (sim_whenDo (fun _ => Sim.modify ?_ trivial) fun _ => trivial) ?_)
  · refine Steps.action (a := .move _ s.importingSlotsFrom) (hmove _ _) ⟨?_, h.importing⟩
    intro i r hi
    dsimp only at hi
    split_ifs at hi
    exact h.migrating i r hi
  intro _ t hst
  have ht := h.steps hst
  refine Sim.seq (sim_whenDo (fun _ => ?_) fun _ => trivial) (fun _ u htu => ?_)
  · refine Sim.seq (sim_discard (does_clusterBumpConfigEpochWithoutConsensus hbump)) (fun _ u htu => ?_)
    have hu := ht.steps htu
    refine Sim.modify (Steps.action (a := .move u.migratingSlotsTo _) (hmove _ _) ⟨hu.migrating, ?_⟩)
      trivial
    intro i r hi
    dsimp only at hi
    split_ifs at hi
    exact hu.importing i r hi
  have hsu := Actions.Steps.trans hst htu
  rw [← bind_pure (discard (clusterAddSlot n slot))]
  refine does_rebindSlot hdel (h.steps hsu) ?_ (fun _ _ _ => Sim.pure trivial)
  intro v x huv hv hx
  refine Steps.action (a := .assign n slot) hadd ⟨?_, ?_⟩
  · rw [hv, ClusterView.delSlot_slots, if_pos rfl]
  · exact (h.knows_steps (Actions.Steps.trans hsu huv) (h.knows hn)).mem_refs hx

theorem does_clusterSetslotAction {slot : Slot} {action : SetslotAction}
    (hnode : ∀ name n, action = .node name → s.view.lookup name = some n →
      A .bump ∧ A (.delSlot slot) ∧ A (.assign n slot)) (h : s.view.WellFormed) :
    Does A (clusterSetslotAction env slot action) s fun _ _ => True := by
  refine Sim.get_bind ?_
  cases action with
  | migrating name =>
    refine Sim.ite (fun _ => Sim.pure trivial) (fun _ => ?_)
    cases hn : s.clusterLookupNode name with
    | none => exact Sim.pure trivial
    | some n =>
      refine sim_modify_bind (Steps.action (a := .move _ s.importingSlotsFrom) (hmove _ _)
        ⟨?_, h.importing⟩) (Sim.pure trivial)
      intro i r hi
      dsimp only at hi
      split_ifs at hi
      · cases hi
        exact ClusterView.mem_refs_of_lookup (v := s.view) hn
      · exact h.migrating i r hi
  | importing name =>
    refine Sim.ite (fun _ => Sim.pure trivial) (fun _ => ?_)
    cases hn : s.clusterLookupNode name with
    | none => exact Sim.pure trivial
    | some n =>
      refine sim_modify_bind (Steps.action (a := .move s.migratingSlotsTo _) (hmove _ _)
        ⟨h.migrating, ?_⟩) (Sim.pure trivial)
      intro i r hi
      dsimp only at hi
      split_ifs at hi
      · cases hi
        exact ClusterView.mem_refs_of_lookup (v := s.view) hn
      · exact h.importing i r hi
  | stable =>
    refine sim_modify_bind (Steps.action (a := .move _ _) (hmove _ _) ⟨?_, ?_⟩) (Sim.pure trivial)
    · intro i r hi
      dsimp only at hi
      split_ifs at hi
      exact h.migrating i r hi
    · intro i r hi
      dsimp only at hi
      split_ifs at hi
      exact h.importing i r hi
  | node name =>
    dsimp only
    cases hn : s.clusterLookupNode name with
    | none => exact Sim.pure trivial
    | some n =>
      refine Sim.ite (fun _ => Sim.pure trivial) (fun _ => ?_)
      obtain ⟨hbump, hdel, hadd⟩ := hnode name n rfl hn
      refine Sim.seq (does_clusterSetslotNode hmove hbump hdel hadd h
        (ClusterView.mem_refs_of_lookup (v := s.view) hn)) (fun _ _ _ => Sim.pure trivial)

theorem does_clusterSetslot {slot : Int} {action : SetslotAction}
    (hnode : ∀ name n j, action = .node name → s.view.lookup name = some n →
      A .bump ∧ A (.delSlot j) ∧ A (.assign n j)) (h : s.view.WellFormed) :
    Does A (clusterSetslot env slot action) s fun _ _ => True := by
  refine sim_getMyself (fun me _ => Sim.ite (fun _ => Sim.pure trivial) fun _ => ?_)
  cases getSlotOrReply slot with
  | none => exact Sim.pure trivial
  | some j =>
    refine Sim.seq (does_clusterSetslotAction hmove (fun name n => hnode name n j) h) (fun _ t _ => ?_)
    refine Sim.seq (sim_whenDo (fun _ => does_clusterDoBeforeSleep fun _ _ => trivial) fun _ => trivial) ?_
    exact fun _ _ _ => Sim.pure trivial

end

/-! ### Nodes -/

theorem does_clusterForget (hA : Deletes A) (h : s.view.WellFormed) :
    Does A (clusterForget env name) s fun _ _ => True := by
  refine Sim.get_bind (sim_getMyself fun me _ => ?_)
  cases hn : s.clusterLookupNode name with
  | none => exact Sim.pure trivial
  | some n =>
    refine Sim.ite (fun _ => Sim.pure trivial) (fun hself => Sim.ite (fun _ => Sim.pure trivial) fun _ => ?_)
    refine Sim.seq (Does.of_unseen_true yields_clusterBlacklistAddNode) (fun _ t hst => ?_)
    have hmyself : t.myself = s.myself := ClusterView.steps_myself hst
    refine Sim.seq (Sim.weaken (does_clusterDelNode hA (h.steps hst) (h.knows_steps hst
      (h.knows (ClusterView.mem_refs_of_lookup (v := s.view) hn))) (hmyself ▸ hself))
      fun _ _ _ _ => trivial) (fun _ u _ => ?_)
    exact Sim.seq (does_clusterDoBeforeSleep fun _ _ => trivial) (fun _ _ _ => Sim.pure trivial)

theorem does_clusterReplicate (hA : ∀ m, A (.setMyMaster m)) (h : s.view.WellFormed) :
    Does A (clusterReplicate env name) s fun _ _ => True := by
  refine Sim.get_bind (sim_getMyself fun me hme => ?_)
  cases s.clusterLookupNode name with
  | none => exact Sim.pure trivial
  | some n =>
    refine sim_getNode (fun master _ => Sim.ite (fun _ => Sim.pure trivial) fun hself => ?_)
    refine Sim.ite (fun _ => Sim.pure trivial) (fun _ => Sim.ite (fun _ => Sim.pure trivial) fun hempty => ?_)
    refine Sim.seq (does_clusterSetMaster (hA n) h hself ?_) (fun _ t _ => ?_)
    · -- a master that has slots is refused
      intro x hx hmaster
      rw [ClusterState.view_heap hme] at hx
      cases hx
      by_contra hne
      exact hempty ⟨hmaster, Or.inl hne⟩
    · exact Sim.seq (does_clusterDoBeforeSleep fun _ _ => trivial) (fun _ _ _ => Sim.pure trivial)

/-! ### Failover and epochs -/

theorem does_clusterStartFailover {option : FailoverOption} {m : Ref} (hsend : ∀ os, A (.send os))
    (hA : option = .takeover → A .bump ∧ Replaces A s.myself) (h : s.view.WellFormed) :
    Does A (clusterStartFailover env option m) s fun _ _ => True := by
  refine Sim.seq (Does.of_unseen_true yields_resetManualFailover) (fun _ t hst => ?_)
  refine sim_modify_bind (Steps.unseen rfl) ?_
  have ht := h.steps hst
  have hself : t.myself = s.myself := ClusterView.steps_myself hst
  cases option with
  | none => exact sim_getNode (fun master _ => does_clusterSendMFStart hsend)
  | force => exact Sim.modify (Steps.unseen rfl) trivial
  | takeover =>
    obtain ⟨hbump, hrep⟩ := hA rfl
    refine Sim.seq (sim_discard (does_clusterBumpConfigEpochWithoutConsensus hbump)) (fun _ u htu => ?_)
    have hself' : u.myself = s.myself := (ClusterView.steps_myself htu).trans hself
    exact does_clusterFailoverReplaceYourMaster (hself' ▸ hrep) (ClusterView.WellFormed.steps ht htu)

theorem does_clusterFailover {option : FailoverOption} (hsend : ∀ os, A (.send os))
    (hA : option = .takeover → A .bump ∧ Replaces A s.myself) (h : s.view.WellFormed) :
    Does A (clusterFailover env option) s fun _ _ => True := by
  refine sim_getMyself (fun me _ => Sim.ite (fun _ => Sim.pure trivial) fun _ => ?_)
  cases me.slaveof with
  | none => exact Sim.pure trivial
  | some m =>
    refine sim_getNode (fun master _ => Sim.ite (fun _ => Sim.pure trivial) fun _ => ?_)
    exact Sim.seq (does_clusterStartFailover hsend hA h) (fun _ _ _ => Sim.pure trivial)

theorem does_clusterSetConfigEpoch {epoch : Int} (hA : ∀ e, A (.setEpoch e)) :
    Does A (clusterSetConfigEpoch epoch) s fun _ _ => True := by
  refine Sim.get_bind (sim_getMyself fun me hme => Sim.ite (fun _ => Sim.pure trivial) fun _ => ?_)
  refine Sim.ite (fun _ => Sim.pure trivial) (fun _ => Sim.ite (fun _ => Sim.pure trivial) fun hzero => ?_)
  rw [not_not] at hzero
  show Does A (modifyNode s.myself _ >>= fun _ => modify _ >>= fun _ => clusterDoBeforeSleep _ >>= fun _ =>
    pure ClusterReply.ok) s _
  rw [← bind_assoc]
  refine Sim.seq (Sim.weaken (Does.of_yields (Q := fun _ t => t.view =
    (ClusterAction.setEpoch epoch.toNat).apply s.view) ?_ ?_) fun _ _ _ _ => trivial) (fun _ t _ => ?_)
  · refine sim_modifyNode_bind (fun _ _ => ⟨trivial, Sim.modify trivial ?_⟩)
    have hview := ClusterState.view_updateNode (s := s) (r := s.myself) (f := fun n => { n with
      configEpoch := epoch.toNat }) (g := fun n => { n with configEpoch := epoch.toNat }) (fun _ => rfl)
    exact congrArg (fun v : ClusterView => { v with
      currentEpoch := max s.currentEpoch epoch.toNat }) hview
  · intro _ t ht
    rw [ht]
    exact Steps.action (a := .setEpoch _) (hA _) ⟨me.view, ClusterState.view_heap hme, hzero⟩
  · exact Sim.seq (does_clusterDoBeforeSleep fun _ _ => trivial) (fun _ _ _ => Sim.pure trivial)

/-! ### Reset -/

/-- Deletion takes nodes out of the table and adds none. -/
theorem refs_subset_steps {v w : ClusterView} (h : v.WellFormed)
    (hs : Steps (fun a => (∃ j, a = .delSlot j) ∨ (∃ mig imp, a = .move mig imp) ∨ ∃ r, a = .free r) v w) :
    ∀ r, r ∈ w.refs → r ∈ v.refs := by
  refine hs.invariant_and ClusterView.WellFormed (fun u => ∀ r, r ∈ u.refs → r ∈ v.refs) h
    (fun _ hr => hr) (fun _ _ _ he hu => hu.apply he) ?_
  rintro a u (⟨j, rfl⟩ | ⟨mig, imp, rfl⟩ | ⟨x, rfl⟩) he hu hsub r hr
  · refine hsub r ?_
    have hnodes : ((ClusterAction.delSlot j).apply u).nodes = u.nodes := ClusterView.delSlot_nodes u j
    rw [ClusterView.refs]
    rw [← hnodes]
    exact hr
  · exact hsub r hr
  · exact hsub r ((hu.mem_refs_freeNode he.1).mp hr).1

/-- No pointer is in the table twice. -/
theorem ClusterView.WellFormed.nodup_refs (h : v.WellFormed) : v.refs.Nodup := by
  refine List.Nodup.map_on ?_ (List.Nodup.of_map _ h.names)
  rintro ⟨x, r⟩ hx ⟨y, r'⟩ hy (rfl : r = r')
  obtain ⟨n, hn, rfl⟩ := h.table x r hx
  obtain ⟨m, hm, rfl⟩ := h.table y r hy
  rw [hn] at hm
  cases hm
  rfl

theorem does_clusterHardReset (hA : ∀ r, A (.hardReset (env.randomHexChars r))) (h : s.view.WellFormed)
    (hrefs : s.view.refs = [s.myself]) : Does A (clusterHardReset env) s fun _ _ => True := by
  refine Sim.weaken (Does.of_yields (Q := fun _ t => t.view =
    s.view.hardReset (env.randomHexChars s.myself)) ?_ ?_) (fun _ _ _ _ => trivial)
  swap
  · intro _ t ht
    rw [ht]
    exact Steps.action (a := .hardReset _) (hA s.myself) hrefs
  refine sim_modify_bind trivial (Sim.get_bind ?_)
  refine Sim.bind (yields_modifyNode (g := fun n => { n with configEpoch := 0 }) fun _ => rfl) ?_
  intro _ t _ ht
  have hmyself : t.myself = s.myself := congrArg ClusterView.myself ht
  refine sim_getMyself (fun me hme => ?_)
  rw [hmyself] at hme
  refine Sim.weaken (yields_rename (r := s.myself) hme ?_) (fun _ u _ hu => ?_)
  · -- the table holds nothing but this node
    have hnodes : t.view.nodes = s.view.nodes := (congrArg ClusterView.nodes ht).trans rfl
    have hwf : t.view.WellFormed := by
      rw [ht]
      refine ClusterView.WellFormed.updateNode ?_ _ (fun _ => ⟨rfl, rfl, rfl, rfl⟩)
        (fun _ hn => ⟨hn.handshake, hn.role, hn.slaveof⟩)
      exact h.of_tables rfl rfl rfl rfl rfl rfl rfl
    have hself : s.myself ∈ t.view.refs := by
      rw [ClusterView.refs, hnodes]
      exact h.self
    intro hmem
    obtain ⟨⟨y, x⟩, hx, -⟩ := List.mem_map.mp hmem
    obtain ⟨hx', hne⟩ := (hwf.mem_refs_nodesDelete hself).mp (ClusterView.mem_refs.mpr ⟨y, hx⟩)
    rw [ClusterView.refs, hnodes] at hx'
    rw [show s.view.nodes.map Prod.snd = s.view.refs from rfl, hrefs, List.mem_singleton] at hx'
    exact hne hx'
  · rw [hu, ht]
    rfl

/-- What `CLUSTER RESET` needs. -/
structure Resets (A : ClusterAction → Prop) (me : Ref) : Prop extends Deletes A where
  promote : A (.promote me)

theorem does_clusterReset {hard : Bool} (hA : Resets A s.myself)
    (hhard : hard = true → ∀ r, A (.hardReset (env.randomHexChars r))) (h : s.view.WellFormed) :
    Does A (clusterReset env hard) s fun _ _ => True := by
  refine Sim.get_bind (sim_getMyself fun me _ => ?_)
  refine Sim.seq (sim_whenDo (fun _ => Sim.weaken (does_clusterSetNodeAsMaster hA.promote)
    fun _ _ _ _ => trivial) fun _ => trivial) (fun _ t hst => ?_)
  refine sim_modify_bind (Steps.action (a := .move (fun _ => none) fun _ => none) (hA.move _ _)
    ⟨nofun, nofun⟩) ?_
  refine Sim.seq (Does.of_unseen_true yields_resetManualFailover) (fun _ u htu => ?_)
  have hwf_t : ({ t with migratingSlotsTo := fun _ => none, importingSlotsFrom := fun _ => none } :
      ClusterState).view.WellFormed :=
    (h.steps hst).apply (a := .move (fun _ => none) fun _ => none) ⟨nofun, nofun⟩
  have hu : u.view.WellFormed := hwf_t.steps htu
  have hself_u : u.myself = s.myself :=
    (ClusterView.steps_myself htu).trans (ClusterView.steps_myself hst)
  refine Sim.seq (Sim.forM (fun _ => True) trivial fun j _ w huw _ => ?_) (fun _ w huw => Sim.get_bind ?_)
  · exact sim_discard (Sim.weaken (does_clusterDelSlot (hA.delSlot j) (hu.steps huw))
      fun _ _ _ _ => trivial)
  have hw : w.view.WellFormed := hu.steps huw
  have hself_w : w.myself = s.myself := (ClusterView.steps_myself huw).trans hself_u
  -- every other node leaves the table, and none comes in
  set D : ClusterAction → Prop := fun a =>
    (∃ j, a = .delSlot j) ∨ (∃ mig imp, a = .move mig imp) ∨ ∃ r, a = .free r with hD
  have hDel : Deletes D := ⟨fun j => Or.inl ⟨j, rfl⟩, fun mig imp => Or.inr (Or.inl ⟨mig, imp, rfl⟩),
    fun r => Or.inr (Or.inr ⟨r, rfl⟩)⟩
  have hsub : ∀ a, D a → A a := by
    rintro a (⟨j, rfl⟩ | ⟨mig, imp, rfl⟩ | ⟨r, rfl⟩)
    · exact hA.delSlot j
    · exact hA.move mig imp
    · exact hA.free r
  have hloop : Does D (w.nodeRefs.forM fun r => whenDo (r ≠ w.myself) (clusterDelNode env r)) w
      fun _ x => ∀ r ∈ w.nodeRefs, r = w.myself ∨ r ∉ x.view.refs := by
    refine Sim.weaken (Sim.forM_all (fun r x => r = w.myself ∨ r ∉ x.view.refs) ?_)
      (fun _ _ _ hx => hx.1)
    intro r hr x hwx
    have hx : x.view.WellFormed := hw.steps hwx
    have hself_x : x.myself = w.myself := ClusterView.steps_myself hwx
    refine sim_whenDo (fun hne => ?_) (fun heq => ⟨Or.inl (not_not.mp heq), fun y hy => hy⟩)
    refine Sim.weaken (Does.keep (does_clusterDelNode hDel hx (hw.knows_steps hwx (hw.knows hr))
      (hself_x ▸ hne))) ?_
    rintro _ y - ⟨hxy, hgone⟩
    refine ⟨Or.inr hgone, fun z hz => hz.imp id fun hz' hmem => ?_⟩
    exact hz' (refs_subset_steps hx hxy z hmem)
  refine Sim.bind (Does.mono (Does.keep hloop) hsub) ?_
  rintro ⟨⟩ x - ⟨hwx, hgone⟩
  have hx : x.view.WellFormed := hw.steps hwx
  have hself_x : x.myself = w.myself := ClusterView.steps_myself hwx
  refine Sim.seq (sim_whenDo (fun hh => does_clusterHardReset (hhard hh) hx ?_) fun _ => trivial) ?_
  · have honly : ∀ r ∈ x.view.refs, r = x.myself := by
      intro r hr
      rcases hgone r (refs_subset_steps hw hwx r hr) with heq | hnot
      · exact heq.trans hself_x.symm
      · exact absurd hr hnot
    have hself : x.myself ∈ x.view.refs := hx.self
    by_contra hne
    rcases (hx.nodup_refs.ne_singleton_iff x.myself).mp hne with hnil | ⟨r, hr, hrne⟩
    · rw [hnil] at hself
      cases hself
    · exact hrne (honly r hr)
  · intro _ y _
    exact does_clusterDoBeforeSleep (fun _ _ => trivial)

/-! ### The dispatch -/

/-- **Commands**. -/
theorem does_clusterCommand (h : s.view.WellFormed) :
    Does (commandAllows env s.view c) (clusterCommand env c) s fun _ _ => True := by
  cases c with
  | meet ip port =>
    exact Sim.seq (does_clusterStartHandshake fun r => ⟨r, rfl⟩) (fun _ _ _ => Sim.pure trivial)
  | flushslots =>
    refine Sim.ite (fun _ => Sim.pure trivial) (fun _ => Sim.get_bind ?_)
    refine Sim.seq (Sim.weaken (does_clusterDelNodeSlots (fun _ => trivial) h) fun _ _ _ _ => trivial) ?_
    intro _ t _
    exact Sim.seq (does_clusterDoBeforeSleep fun _ _ => trivial) (fun _ _ _ => Sim.pure trivial)
  | addslots slots =>
    exact does_clusterSlotsCommand (fun _ _ => trivial) nofun (fun _ _ => rfl) h
  | delslots slots =>
    exact does_clusterSlotsCommand (fun _ _ => trivial) (fun _ _ => trivial) nofun h
  | setslot slot action =>
    refine does_clusterSetslot (fun _ _ => ?_) ?_ h
    · cases action <;> trivial
    · rintro name n j rfl hn
      exact ⟨trivial, trivial, hn⟩
  | bumpepoch =>
    refine Sim.seq (does_clusterBumpConfigEpochWithoutConsensus trivial) (fun _ t _ => ?_)
    exact sim_getMyself (fun _ _ => Sim.pure trivial)
  | saveconfig =>
    exact Sim.seq (does_clusterSaveConfig (fun _ => trivial) h) (fun _ _ _ => Sim.pure trivial)
  | forget name => exact does_clusterForget ⟨fun _ => trivial, fun _ _ => trivial, fun _ => trivial⟩ h
  | replicate name => exact does_clusterReplicate (fun _ => trivial) h
  | countFailureReports name =>
    refine Sim.get_bind ?_
    cases s.clusterLookupNode name with
    | none => exact Sim.pure trivial
    | some n =>
      exact Sim.seq (Does.of_unseen_true yields_clusterNodeFailureReportsCount)
        (fun _ _ _ => Sim.pure trivial)
  | failover option =>
    refine does_clusterFailover (fun _ => ?_) ?_ h
    · cases option <;> trivial
    · rintro rfl
      exact ⟨trivial, rfl, fun _ => trivial, fun _ => rfl, fun _ => trivial, fun _ => trivial,
        fun _ => trivial⟩
  | setConfigEpoch epoch => exact does_clusterSetConfigEpoch (fun _ => trivial)
  | reset hard =>
    refine sim_getMyself (fun me _ => Sim.ite (fun _ => Sim.pure trivial) fun _ => ?_)
    refine Sim.seq (does_clusterReset ⟨⟨fun _ => ?_, fun _ _ => ?_, fun _ => ?_⟩, ?_⟩ ?_ h)
      (fun _ _ _ => Sim.pure trivial)
    · cases hard <;> trivial
    · cases hard <;> trivial
    · cases hard <;> trivial
    · cases hard <;> rfl
    · rintro rfl r
      exact ⟨r, rfl⟩
  | query => exact Sim.pure trivial

end Redis
