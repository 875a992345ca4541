import Redis.Cluster.Trace.Basic

namespace Redis

open Simulation Transition

/-!
# The actions of the functions on nodes, slots, roles and epochs

Functions with one effect are described exactly; loops and functions with several effects
by the actions they take.
-/

variable {A : ClusterAction → Prop} {B : Behaviour ClusterState ClusterFault} {s : ClusterState}
  {env : ClusterEnv}

/-- What is not seen takes no action. -/
theorem Does.of_unseen {α : Type} {m : ClusterM α} (h : Yields m s fun _ t => t.view = s.view) :
    Does A m s fun _ t => t.view = s.view :=
  Does.of_yields h (fun _ _ ht => Steps.unseen ht)

variable {r : Ref} {f : ClusterNode → ClusterNode} {j : Slot} {n : ClusterNode} {name : NodeName}

/-- A change of a node that is not seen. -/
theorem yields_modifyNode_unseen (h : ∀ n, (f n).view = n.view) :
    Yields (modifyNode r f) s fun _ t => t.view = s.view :=
  sim_modifyNode (fun _ _ => ⟨trivial, ClusterState.view_updateNode_eq h⟩)

/-- A change of a node. -/
theorem yields_modifyNode {g : NodeView → NodeView} (h : ∀ n, (f n).view = g n.view) :
    Yields (modifyNode r f) s fun _ t => t.view = s.view.updateNode r g :=
  sim_modifyNode (fun _ _ => ⟨trivial, ClusterState.view_updateNode h⟩)

theorem yields_resetManualFailover : Yields resetManualFailover s fun _ t => t.view = s.view :=
  Sim.modify trivial rfl

/-! ### Failure reports -/

theorem yields_clusterNodeCleanupFailureReports :
    Yields (clusterNodeCleanupFailureReports env r) s fun _ t => t.view = s.view :=
  yields_modifyNode_unseen (fun _ => rfl)

theorem yields_clusterNodeAddFailureReport {failing sender : Ref} :
    Yields (clusterNodeAddFailureReport env failing sender) s fun _ t => t.view = s.view := by
  refine sim_getNode (fun n _ => Sim.ite (fun _ => ?_) (fun _ => ?_))
  · exact Sim.bind (yields_modifyNode_unseen (fun _ => rfl)) (fun _ t _ ht => Sim.pure ht)
  · exact Sim.bind (yields_modifyNode_unseen (fun _ => rfl)) (fun _ t _ ht => Sim.pure ht)

theorem yields_clusterNodeDelFailureReport {node sender : Ref} :
    Yields (clusterNodeDelFailureReport env node sender) s fun _ t => t.view = s.view := by
  refine sim_getNode (fun n _ => Sim.ite (fun _ => ?_) (fun _ => Sim.pure rfl))
  refine Sim.bind (yields_modifyNode_unseen (fun _ => rfl)) (fun _ t _ ht => ?_)
  exact Sim.bind yields_clusterNodeCleanupFailureReports (fun _ u _ hu => Sim.pure (hu.trans ht))

theorem yields_clusterNodeFailureReportsCount {node : Ref} :
    Yields (clusterNodeFailureReportsCount env node) s fun _ t => t.view = s.view := by
  refine Sim.bind yields_clusterNodeCleanupFailureReports (fun _ t _ ht => ?_)
  exact sim_getNode (fun n _ => Sim.pure ht)

/-! ### Slaves -/

theorem yields_clusterNodeRemoveSlave {m r : Ref} :
    Yields (clusterNodeRemoveSlave m r) s fun _ t => t.view = s.view.removeSlave m r := by
  refine sim_getNode (fun n hn => Sim.ite (fun _ => ?_) (fun hmem => ?_))
  · exact Sim.bind (yields_modifyNode (fun _ => rfl)) (fun _ t _ ht => Sim.pure ht)
  · -- the node is not in the list, so that erasing it changes nothing
    refine Sim.pure (ClusterView.updateNode_eq_self fun x hx => ?_).symm
    rw [ClusterState.view_heap hn] at hx
    cases hx
    have herase : n.view.slaves.erase r = n.view.slaves := List.erase_of_not_mem hmem
    rw [herase]

theorem yields_clusterNodeAddSlave {m r : Ref} :
    Yields (clusterNodeAddSlave m r) s fun _ t =>
      t.view = s.view.addSlave m r ∧ ∃ n, s.view.heap m = some n := by
  refine sim_getNode (fun n hn => Sim.ite (fun hmem => ?_) (fun hmem => ?_))
  · refine Sim.pure ⟨(ClusterView.updateNode_eq_self fun x hx => ?_).symm, n.view,
      ClusterState.view_heap hn⟩
    rw [ClusterState.view_heap hn] at hx
    cases hx
    have hview : r ∈ n.view.slaves := hmem
    rw [if_pos hview]
  · refine Sim.bind (yields_modifyNode (g := fun n => { n with slaves := n.slaves ++ [r] })
      (fun _ => rfl)) (fun _ t _ ht => Sim.pure ⟨ht.trans ?_, n.view, ClusterState.view_heap hn⟩)
    refine ClusterView.updateNode_congr fun x hx => ?_
    rw [ClusterState.view_heap hn] at hx
    cases hx
    have hview : r ∉ n.view.slaves := hmem
    rw [if_neg hview]

/-! ### Slots -/

theorem yields_clusterNodeSetSlotBit :
    Yields (clusterNodeSetSlotBit r j) s fun _ t => (∃ n, s.heap r = some n) ∧
      t.view = s.view.updateNode r fun n => { n with
        slots := fun i => if i = j then true else n.slots i
        numslots := if n.slots j then n.numslots else n.numslots + 1 } := by
  refine sim_getNode (fun n hn => Sim.get_bind (Sim.ite (fun hold => ?_) (fun hold => ?_)))
  · refine Sim.pure ⟨⟨n, hn⟩, (ClusterView.updateNode_eq_self fun x hx => ?_).symm⟩
    rw [ClusterState.view_heap hn] at hx
    cases hx
    have hbit : n.view.slots j = true := hold
    have hslots : (fun i => if i = j then true else n.view.slots i) = n.view.slots := by
      funext i
      by_cases hi : i = j
      · rw [if_pos hi, hi, hbit]
      · rw [if_neg hi]
    rw [hslots, if_pos hbit]
  · refine Sim.bind (yields_modifyNode (g := fun n => { n with
      slots := fun i => if i = j then true else n.slots i
      numslots := n.numslots + 1 }) (fun _ => rfl)) (fun _ t _ ht => Sim.pure ⟨⟨n, hn⟩, ht.trans ?_⟩)
    refine ClusterView.updateNode_congr fun x hx => ?_
    rw [ClusterState.view_heap hn] at hx
    cases hx
    have hbit : ¬ n.view.slots j = true := hold
    rw [if_neg hbit]

theorem yields_clusterNodeClearSlotBit :
    Yields (clusterNodeClearSlotBit r j) s fun b t =>
      (∃ n, s.heap r = some n ∧ b = n.slots j) ∧ t.slots = s.slots ∧
      t.view = s.view.updateNode r fun n => { n with
        slots := fun i => if i = j then false else n.slots i
        numslots := if n.slots j then n.numslots - 1 else n.numslots } := by
  refine sim_getNode (fun n hn => sim_modifyNode_bind (fun _ _ => ⟨trivial, Sim.pure ?_⟩))
  exact ⟨⟨n, hn, rfl⟩, rfl, ClusterState.view_updateNode (fun _ => rfl)⟩

/-- A slot is given to a node if it has no owner. -/
theorem yields_clusterAddSlot :
    Yields (clusterAddSlot r j) s fun b t =>
      (b = false ∧ (s.slots j).isSome ∧ t.view = s.view) ∨
      (b = true ∧ s.slots j = none ∧ (∃ n, s.view.heap r = some n) ∧
        t.view = s.view.addSlot r j) := by
  refine Sim.get_bind (Sim.ite (fun hj => Sim.pure (Or.inl ⟨rfl, hj, rfl⟩)) (fun hj => ?_))
  rw [Option.not_isSome_iff_eq_none] at hj
  refine Sim.bind yields_clusterNodeSetSlotBit ?_
  rintro _ t - ⟨⟨n, hn⟩, ht⟩
  refine sim_modify_bind trivial (Sim.pure (Or.inr ⟨rfl, hj, ⟨n.view, ClusterState.view_heap hn⟩, ?_⟩))
  have hslots : t.slots = s.slots := congrArg ClusterView.slots ht
  have hview : ∀ u : ClusterView, t.view = u →
      ({ t with slots := fun i => if i = j then some r else t.slots i } : ClusterState).view
      = { u with slots := fun i => if i = j then some r else s.slots i } := by
    rintro u rfl
    rw [← hslots]
    rfl
  exact hview _ ht

/-- The bit of a slot is set in its owner, so the assertion holds. -/
theorem yields_clusterDelSlot (h : s.view.WellFormed) :
    Yields (clusterDelSlot j) s fun b t =>
      b = (s.slots j).isSome ∧ t.view = s.view.delSlot j := by
  refine Sim.get_bind ?_
  cases hj : s.slots j with
  | none => exact Sim.pure ⟨rfl, (ClusterView.delSlot_of_none (v := s.view) hj).symm⟩
  | some r =>
    obtain ⟨-, x, hx, hbit⟩ := h.owner j r hj
    obtain ⟨n, hn, rfl⟩ := ClusterState.exists_of_view_heap hx
    refine Sim.bind yields_clusterNodeClearSlotBit ?_
    rintro b t - ⟨⟨n', hn', rfl⟩, hslots, ht⟩
    rw [hn] at hn'
    cases hn'
    refine sim_assert_bind hbit (sim_modify_bind trivial (Sim.pure ⟨rfl, ?_⟩))
    have hview : ∀ u : ClusterView, t.view = u →
        ({ t with slots := fun i => if i = j then none else t.slots i } : ClusterState).view
        = { u with slots := fun i => if i = j then none else s.slots i } := by
      rintro u rfl
      rw [← hslots]
      rfl
    rw [hview _ ht, ClusterView.delSlot, show s.view.slots j = some r from hj]
    rfl

theorem yields_clusterCloseAllSlots :
    Yields clusterCloseAllSlots s fun _ t => t.view = s.view.closeSlots :=
  Sim.modify trivial rfl

/-- A slot loses its owner. -/
theorem does_clusterDelSlot (hA : A (.delSlot j)) (h : s.view.WellFormed) :
    Does A (clusterDelSlot j) s fun b t => b = (s.slots j).isSome ∧ t.view = s.view.delSlot j := by
  refine Does.of_yields (yields_clusterDelSlot h) ?_
  rintro _ t ⟨-, ht⟩
  rw [ht]
  exact Steps.action (a := .delSlot j) hA trivial

/-- The slots of a node, one after the other. -/
theorem does_clusterDelNodeSlots (hA : ∀ j, A (.delSlot j)) (h : s.view.WellFormed) :
    Does A (clusterDelNodeSlots r) s fun _ t =>
      ∀ j n, t.view.heap r = some n → n.slots j = false := by
  -- a bit that is clear stays clear
  let clear (j : Slot) (t : ClusterState) : Prop := ∀ n, t.view.heap r = some n → n.slots j = false
  rw [clusterDelNodeSlots]
  refine Sim.weaken (Sim.forM_all clear ?_) (fun _ t _ ht j => ht.1 j (mem_allSlots j))
  intro j _ t hst
  have ht := h.steps hst
  refine sim_getNode (fun n hn => sim_whenDo (fun hbit => sim_discard ?_) (fun hbit => ?_))
  · refine Sim.weaken (does_clusterDelSlot (hA j) ht) ?_
    rintro _ u - ⟨-, hu⟩
    have howned := ht.owned r n.view j (ClusterState.view_heap hn) hbit
    constructor
    · intro x hx
      rw [hu, ClusterView.delSlot_heap howned, Option.map_eq_some_iff] at hx
      obtain ⟨y, -, rfl⟩ := hx
      simp
    · intro i hi x hx
      rw [hu, ClusterView.delSlot_heap howned, Option.map_eq_some_iff] at hx
      obtain ⟨y, hy, rfl⟩ := hx
      simp [hi y hy]
  · refine ⟨?_, fun i hi => hi⟩
    intro x hx
    rw [ClusterState.view_heap hn] at hx
    cases hx
    exact Bool.eq_false_iff.mpr hbit

/-! ### The node table -/

/-- What deleting a node needs. -/
structure Deletes (A : ClusterAction → Prop) : Prop where
  delSlot : ∀ j, A (.delSlot j)
  move : ∀ migrating importing, A (.move migrating importing)
  free : ∀ r, A (.free r)

theorem ClusterView.abandon_cons (v : ClusterView) (x : Ref) (l : List Ref) :
    (v.updateNode x fun n => { n with slaveof := none }).abandon l = v.abandon (x :: l) := by
  simp only [ClusterView.abandon, ClusterView.updateNode]
  congr 1
  funext y
  by_cases hy : y = x
  · subst hy
    cases v.heap y with
    | none => simp
    | some n => by_cases hl : y ∈ l <;> simp [hl]
  · simp [hy]

/-- The loop of `freeClusterNode` over the slaves. -/
theorem yields_abandon {l : List Ref} :
    Yields (l.forM fun x => modifyNode x fun n => { n with slaveof := none }) s fun _ t =>
      t.view = s.view.abandon l := by
  induction l generalizing s with
  | nil =>
    refine Sim.pure ?_
    simp [ClusterView.abandon]
  | cons x l ih =>
    show Yields (modifyNode x _ >>= fun _ => l.forM _) s _
    refine Sim.bind (yields_modifyNode (g := fun n => { n with slaveof := none }) (fun _ => rfl)) ?_
    intro _ t _ ht
    refine Sim.weaken ih (fun _ u _ hu => ?_)
    rw [hu, ht, ClusterView.abandon_cons]

theorem yields_freeClusterNode (h : s.view.WellFormed) (hknows : s.view.Knows r) :
    Yields (freeClusterNode r) s fun _ t => r ∈ s.view.refs ∧ t.view = s.view.freeNode r := by
  refine sim_getNode (fun n hn => Sim.bind yields_abandon ?_)
  have hr := hknows.mem_refs (ClusterState.view_heap hn)
  intro _ t _ ht
  refine sim_getNode (fun n' hn' => ?_)
  have hslaves : ((s.view.heap r).map NodeView.slaves).getD [] = n.slaves := by
    rw [ClusterState.view_heap hn]
    rfl
  have hheap : (s.view.abandon n.slaves).heap r = some n'.view := by
    rw [← ht]
    exact ClusterState.view_heap hn'
  -- the node leaves the list of its master
  have hleave : Yields (whenDo (n'.flags.slave = true)
      (ifSome n'.slaveof fun m => discard (clusterNodeRemoveSlave m r))) t fun _ u =>
      u.view = s.view.disconnect r := by
    have hdis : s.view.disconnect r
        = if n'.flags.slave = true then (s.view.abandon n.slaves).leave r
          else s.view.abandon n.slaves := by
      simp only [ClusterView.disconnect, hslaves, hheap, Option.any_some]
      rfl
    rw [hdis]
    refine sim_whenDo (fun hs => ?_) (fun hs => by rw [if_neg hs]; exact ht)
    rw [if_pos hs]
    have hof : (s.view.abandon n.slaves).slaveof r = n'.slaveof := by
      rw [ClusterView.slaveof, hheap]
      rfl
    refine sim_ifSome (fun m hm => sim_discard ?_) (fun hm => ?_)
    · refine Sim.weaken yields_clusterNodeRemoveSlave (fun _ u _ hu => ?_)
      rw [hu, ht, ClusterView.leave, hof, hm]
    · rw [ht, ClusterView.leave, hof, hm]
  refine Sim.bind hleave (fun _ u _ hu => Sim.get_bind ?_)
  have hname : n'.name = s.view.nameOf r := by
    have hn'' : n'.view.name = n.view.name := by
      rw [ClusterView.abandon_heap, ClusterState.view_heap hn, Option.map_some] at hheap
      rw [← Option.some.inj hheap]
      split_ifs <;> rfl
    rw [ClusterView.nameOf, ClusterState.view_heap hn]
    exact hn''
  have hsome : (u.clusterLookupNode n'.name).isSome = true := by
    have hnodes : u.nodes = s.nodes :=
      (congrArg ClusterView.nodes hu).trans (ClusterView.Similar.disconnect s.view r).nodes
    obtain ⟨x, hx, hmem⟩ := h.mem_nodes hr
    rw [← Option.ne_none_iff_isSome]
    intro hnone
    have hnot : u.view.lookup n'.name = none := hnone
    rw [ClusterView.lookup_eq_none, show u.view.nodes = s.view.nodes from hnodes, hname,
      ClusterView.nameOf, hx] at hnot
    exact hnot (List.mem_map_of_mem hmem)
  refine sim_assert_bind hsome (Sim.modify trivial ⟨hr, ?_⟩)
  have hview : ((u.nodesDelete n'.name).free r).view
      = { u.view.nodesDelete n'.name with heap := fun x => if x = r then none else u.view.heap x } := by
    simp only [ClusterState.view, ClusterState.free, ClusterState.nodesDelete, ClusterView.nodesDelete]
    congr 1
    funext x
    split_ifs <;> rfl
  rw [hview, hu, hname]
  rfl

/-- Nothing refers to the node as far as the slot is concerned. -/
def ClusterView.SlotFree (v : ClusterView) (r : Ref) (j : Slot) : Prop :=
  v.slots j ≠ some r ∧ v.migratingSlotsTo j ≠ some r ∧ v.importingSlotsFrom j ≠ some r

theorem does_clusterDelNodeSlot (hA : Deletes A) (h : s.view.WellFormed) :
    Does A (clusterDelNodeSlot r j) s fun _ t =>
      t.view.SlotFree r j ∧ ∀ i, s.view.SlotFree r i → t.view.SlotFree r i := by
  set mig : Slot → Option Ref := fun i =>
    if i = j ∧ s.migratingSlotsTo i = some r then none else s.migratingSlotsTo i with hmig
  set imp : Slot → Option Ref := fun i =>
    if i = j ∧ s.importingSlotsFrom i = some r then none else s.importingSlotsFrom i with himp
  have hmove : (ClusterAction.move mig imp).Enabled s.view := by
    constructor
    · intro i x hx
      simp only [hmig] at hx
      split_ifs at hx
      exact h.migrating i x hx
    · intro i x hx
      simp only [himp] at hx
      split_ifs at hx
      exact h.importing i x hx
  have hmigj : mig j ≠ some r := by
    simp only [hmig]
    split_ifs with hj
    · simp
    · simpa using hj
  have himpj : imp j ≠ some r := by
    simp only [himp]
    split_ifs with hj
    · simp
    · simpa using hj
  have hmigi : ∀ i, s.migratingSlotsTo i ≠ some r → mig i ≠ some r := by
    intro i hi
    simp only [hmig]
    split_ifs
    · simp
    · exact hi
  have himpi : ∀ i, s.importingSlotsFrom i ≠ some r → imp i ≠ some r := by
    intro i hi
    simp only [himp]
    split_ifs
    · simp
    · exact hi
  have hstep : Steps A s.view
      ({ s with importingSlotsFrom := imp, migratingSlotsTo := mig } : ClusterState).view :=
    Steps.action (a := .move mig imp) (hA.move mig imp) hmove
  refine sim_modify_bind hstep (Sim.get_bind (sim_whenDo (fun _ => sim_discard ?_) (fun hj => ?_)))
  · refine Sim.weaken (does_clusterDelSlot (hA.delSlot j) (h.steps hstep)) ?_
    rintro _ t - ⟨-, ht⟩
    have hslots : ∀ i, t.view.slots i = if i = j then none else s.slots i := by
      intro i
      rw [ht, ClusterView.delSlot_slots]
      rfl
    have hfree : ∀ i, t.view.migratingSlotsTo i = mig i ∧ t.view.importingSlotsFrom i = imp i := by
      intro i
      rw [ht, ClusterView.delSlot]
      cases ({ s with importingSlotsFrom := imp, migratingSlotsTo := mig } : ClusterState).view.slots j
        <;> exact ⟨rfl, rfl⟩
    refine ⟨⟨by simp [hslots], by rw [(hfree j).1]; exact hmigj, by rw [(hfree j).2]; exact himpj⟩, ?_⟩
    rintro i ⟨hi, hi', hi''⟩
    refine ⟨?_, by rw [(hfree i).1]; exact hmigi i hi', by rw [(hfree i).2]; exact himpi i hi''⟩
    rw [hslots]
    split_ifs
    · simp
    · exact hi
  · exact ⟨⟨hj, hmigj, himpj⟩, fun i hi => ⟨hi.1, hmigi i hi.2.1, himpi i hi.2.2⟩⟩

/-- A node is deleted. -/
theorem does_clusterDelNode (hA : Deletes A) (h : s.view.WellFormed) (hr : s.view.Knows r)
    (hself : r ≠ s.myself) :
    Does A (clusterDelNode env r) s fun _ t => r ∉ t.view.refs := by
  refine Sim.bind (Sim.forM_all (fun j t => t.view.SlotFree r j)
    (fun j _ t hst => does_clusterDelNodeSlot hA (h.steps hst))) ?_
  rintro ⟨⟩ t hst ⟨hfree, -⟩
  refine Sim.get_bind (Sim.bind (Sim.forM (fun u => u.view = t.view) rfl ?_) ?_)
  · intro x _ u _ hu
    refine sim_whenDo (fun _ => sim_discard ?_) (fun _ => hu)
    exact Sim.weaken (Does.of_unseen yields_clusterNodeDelFailureReport) (fun _ _ _ ht => ht.trans hu)
  rintro ⟨⟩ u htu hu
  have hwf : u.view.WellFormed := (h.steps hst).steps htu
  have hknows : u.view.Knows r := (h.steps hst).knows_steps htu (h.knows_steps hst hr)
  have hmyself : r ≠ u.view.myself := by
    rw [ClusterView.steps_myself htu, ClusterView.steps_myself hst]
    exact hself
  have hslots : ∀ j, u.view.SlotFree r j := by
    intro j
    rw [hu]
    exact hfree j (mem_allSlots j)
  refine Sim.weaken (Does.of_yields (yields_freeClusterNode hwf hknows) ?_) ?_
  · rintro _ x ⟨hmem, hx⟩
    rw [hx]
    exact Steps.action (a := .free r) (hA.free r) ⟨hmem, hmyself, fun j => (hslots j).1,
      fun j => (hslots j).2.1, fun j => (hslots j).2.2⟩
  · rintro _ x - ⟨hmem, hx⟩ hrefs
    rw [hx, hwf.mem_refs_freeNode hmem] at hrefs
    exact hrefs.2 rfl

/-- The name of a node of the table is found. -/
theorem ClusterView.WellFormed.lookup_isSome (h : s.view.WellFormed) (hr : r ∈ s.view.refs)
    (hn : s.heap r = some n) : (s.clusterLookupNode n.name).isSome = true := by
  obtain ⟨x, hx, hmem⟩ := h.mem_nodes hr
  rw [ClusterState.view_heap hn] at hx
  cases hx
  rw [← Option.ne_none_iff_isSome]
  intro hnone
  exact ClusterView.lookup_eq_none.mp (show s.view.lookup n.name = none from hnone)
    (List.mem_map_of_mem hmem)

/-- The table entry of a node is replaced. -/
theorem yields_rename (hn : s.heap r = some n)
    (hname : name ∉ (s.view.nodesDelete (s.view.nameOf r)).nodes.map Prod.fst) :
    Yields (do
      modify fun s => s.nodesDelete n.name
      modifyNode r fun n => { n with name := name }
      discard (clusterAddNode r)) s fun _ t => t.view = s.view.rename r name := by
  have hold : s.view.nameOf r = n.name := by
    rw [ClusterView.nameOf, ClusterState.view_heap hn]
    rfl
  rw [hold] at hname
  refine sim_modify_bind trivial (sim_modifyNode_bind (fun _ _ => ⟨trivial, sim_discard ?_⟩))
  refine sim_getNode (fun n' hn' => Sim.get_bind (Sim.ite (fun hsome => ?_) (fun _ => ?_)))
  all_goals
    have hn'' : n'.name = name := by
      simp only [ClusterState.updateNode, if_true, ClusterState.nodesDelete, hn, Option.map_some,
        Option.some.injEq] at hn'
      rw [← hn']
  · -- the new name is not in the table
    rw [hn''] at hsome
    have hnone : ((s.nodesDelete n.name).updateNode r fun n => { n with name := name }).view.lookup name
        = none := ClusterView.lookup_eq_none.mpr hname
    rw [show ClusterState.clusterLookupNode _ name = none from hnone] at hsome
    cases hsome
  · refine sim_modify_bind trivial (Sim.pure ?_)
    rw [hn'', ClusterView.rename, hold]
    show { ((s.nodesDelete n.name).updateNode r fun n => { n with name := name }).view with
      nodes := (s.view.nodesDelete n.name).nodes ++ [(name, r)] } = _
    rw [ClusterState.view_updateNode (g := fun n => { n with name := name }) (fun _ => rfl)]
    rfl

theorem yields_clusterRenameNode (h : s.view.WellFormed) (hknows : s.view.Knows r)
    (hname : s.view.lookup name = none) :
    Yields (clusterRenameNode r name) s fun _ t =>
      r ∈ s.view.refs ∧ t.view = s.view.rename r name := by
  refine sim_getNode (fun n hn => Sim.get_bind ?_)
  have hr := hknows.mem_refs (ClusterState.view_heap hn)
  refine sim_assert_bind (h.lookup_isSome hr hn) ?_
  exact Sim.weaken (yields_rename hn (ClusterView.not_mem_nodesDelete hname)) (fun _ _ _ ht => ⟨hr, ht⟩)

/-! ### Roles -/

/-- The master of a node, read from the state. -/
theorem ClusterState.view_slaveof (hn : s.heap r = some n) :
    s.view.slaveof r = n.slaveof := by
  rw [ClusterView.slaveof, ClusterState.view_heap hn]
  rfl

/-- The node leaves the list of its master, if it has one. -/
theorem yields_leave (hn : s.heap r = some n) :
    Yields (ifSome n.slaveof fun m => discard (clusterNodeRemoveSlave m r)) s fun _ t =>
      t.view = s.view.leave r := by
  refine sim_ifSome (fun m hm => sim_discard ?_) (fun hm => ?_)
  · refine Sim.weaken yields_clusterNodeRemoveSlave (fun _ t _ ht => ?_)
    rw [ht, ClusterView.leave, ClusterState.view_slaveof hn, hm]
  · rw [ClusterView.leave, ClusterState.view_slaveof hn, hm]

theorem yields_clusterSetNodeAsMaster :
    Yields (clusterSetNodeAsMaster r) s fun _ t => ∃ n, s.heap r = some n ∧
      ((n.flags.master = true ∧ t.view = s.view) ∨
        (n.flags.master = false ∧ t.view = s.view.promote r)) := by
  refine sim_getNode (fun n hn => Sim.ite (fun hm => Sim.pure ⟨n, hn, Or.inl ⟨hm, rfl⟩⟩) (fun hm => ?_))
  rw [Bool.not_eq_true] at hm
  -- the flag for migrations is not seen, the link is
  have hleave : Yields (ifSome n.slaveof fun m => do
      let _ ← clusterNodeRemoveSlave m r
      let s ← get
      whenDo (r ≠ s.myself) (modifyNode r fun n => { n with flags := { n.flags with migrateTo := true } }))
      s fun _ t => t.view = s.view.leave r := by
    refine sim_ifSome (fun m hm => ?_) (fun hm => ?_)
    · refine Sim.bind yields_clusterNodeRemoveSlave (fun _ t _ ht => Sim.get_bind ?_)
      have hview : t.view = s.view.leave r := by
        rw [ht, ClusterView.leave, ClusterState.view_slaveof hn, hm]
      refine sim_whenDo (fun _ => ?_) (fun _ => hview)
      exact Sim.weaken (yields_modifyNode_unseen (fun _ => rfl)) (fun _ _ _ hu => hu.trans hview)
    · rw [ClusterView.leave, ClusterState.view_slaveof hn, hm]
  refine Sim.bind hleave (fun _ t _ ht => Sim.bind (yields_modifyNode (g := fun n =>
    { n with master := true, slave := false, slaveof := none }) (fun _ => rfl)) ?_)
  intro _ u _ hu
  refine Sim.modify trivial ⟨n, hn, Or.inr ⟨hm, ?_⟩⟩
  show u.view = _
  rw [hu, ht, ClusterView.promote]

/-- Afterwards the node is a master. -/
theorem does_clusterSetNodeAsMaster (hA : A (.promote r)) :
    Does A (clusterSetNodeAsMaster r) s fun _ t =>
      (t.view = s.view ∨ t.view = s.view.promote r) ∧
      ∀ n, t.view.heap r = some n → n.master = true := by
  refine Sim.weaken (Does.of_yields yields_clusterSetNodeAsMaster ?_) ?_
  · rintro _ t ⟨n, hn, ⟨-, ht⟩ | ⟨hm, ht⟩⟩
    · exact Steps.unseen ht
    · rw [ht]
      exact Steps.action (a := .promote r) hA ⟨n.view, ClusterState.view_heap hn, hm⟩
  · rintro _ t - ⟨n, hn, ⟨hm, ht⟩ | ⟨hm, ht⟩⟩
    · refine ⟨Or.inl ht, fun x hx => ?_⟩
      rw [ht, ClusterState.view_heap hn] at hx
      cases hx
      exact hm
    · refine ⟨Or.inr ht, fun x hx => ?_⟩
      rw [ht, ClusterView.promote, ClusterView.updateNode_heap, Option.map_eq_some_iff] at hx
      obtain ⟨y, -, rfl⟩ := hx
      rw [if_pos rfl]

theorem yields_clusterLeaveRole {me : ClusterNode} (hme : s.heap s.myself = some me) :
    Yields (clusterLeaveRole s.myself me) s fun _ t => t.view = s.view.leaveRole := by
  have hany : (s.view.heap s.view.myself).any NodeView.master = me.flags.master := by
    rw [show s.view.heap s.view.myself = some me.view from ClusterState.view_heap hme]
    rfl
  rw [ClusterView.leaveRole, hany]
  refine Sim.ite (fun hm => ?_) (fun hm => ?_)
  · rw [if_pos hm]
    refine Sim.bind (yields_modifyNode (g := fun n => { n with master := false, slave := true })
      (fun _ => rfl)) (fun _ t _ ht => ?_)
    refine Sim.weaken yields_clusterCloseAllSlots (fun _ u _ hu => ?_)
    rw [hu, ht]
    rfl
  · rw [if_neg hm]
    exact yields_leave hme

/-- This node becomes a slave of another one.  It has no slots, unless it was a slave
    before. -/
theorem does_clusterSetMaster {m : Ref} (hA : A (.setMyMaster m)) (h : s.view.WellFormed)
    (hm : m ≠ s.myself)
    (hslots : ∀ me, s.view.heap s.myself = some me → me.master = true → me.numslots = 0) :
    Does A (clusterSetMaster m) s fun _ _ => True := by
  refine Sim.get_bind (sim_assert_bind hm (sim_getMyself fun me hme => ?_))
  have hview : s.view.heap s.view.myself = some me.view := ClusterState.view_heap hme
  by_cases hzero : me.numslots = 0
  swap
  · -- the assertion fails
    have hslave : me.view.slave = true := by
      have hrole := (h.selfRole me.view hview).role
      cases hmaster : me.view.master with
      | true => exact absurd (hslots me.view hview hmaster) hzero
      | false => rw [hrole, hmaster]; rfl
    rw [serverAssert, if_neg hzero]
    exact Or.inr ⟨rfl, s.view, Actions.Steps.refl _, me.view, hview, hslave, hzero⟩
  refine sim_assert_bind hzero ?_
  refine Sim.weaken (Does.of_yields (Q := fun _ t => t.view = s.view.setMyMaster m ∧
    ∃ n, s.view.heap m = some n) ?_ ?_) (fun _ _ _ _ => trivial)
  · refine Sim.bind (yields_clusterLeaveRole hme) (fun _ t _ ht => ?_)
    refine Sim.bind (yields_modifyNode (g := fun n => { n with slaveof := some m }) (fun _ => rfl)) ?_
    intro _ u _ hu
    refine Sim.bind yields_clusterNodeAddSlave ?_
    rintro _ w - ⟨hw, n, hn⟩
    refine Sim.weaken yields_resetManualFailover (fun _ x _ hx => ⟨?_, ?_⟩)
    · rw [hx, hw, hu, ht]
      rfl
    · rw [hu, ht] at hn
      have hsim := (ClusterView.Similar.leaveRole s.view).trans (ClusterView.Similar.updateNode _
        s.myself (f := fun n => { n with slaveof := some m }) (fun _ => ⟨rfl, rfl, rfl, rfl⟩))
      obtain ⟨k, hk, -⟩ := hsim.exists_of_heap hn
      exact ⟨k, hk⟩
  · rintro _ t ⟨ht, n, hn⟩
    rw [ht]
    exact Steps.action (a := .setMyMaster m) hA ⟨hm, ⟨n, hn⟩, me.view, hview, hzero⟩

/-! ### Epochs -/

theorem yields_clusterTakeNextEpoch :
    Yields clusterTakeNextEpoch s fun _ t => t.view = ClusterAction.bump.apply s.view := by
  refine sim_modify_bind trivial (Sim.get_bind (sim_modifyNode fun _ _ => ⟨trivial, ?_⟩))
  exact ClusterState.view_updateNode (fun _ => rfl)

theorem does_clusterTakeNextEpoch (hA : A .bump) : Does A clusterTakeNextEpoch s fun _ _ => True := by
  refine Sim.weaken (Does.of_yields yields_clusterTakeNextEpoch ?_) (fun _ _ _ _ => trivial)
  intro _ t ht
  rw [ht]
  exact Steps.action (a := .bump) hA trivial

theorem does_clusterBumpConfigEpochWithoutConsensus (hA : A .bump) :
    Does A clusterBumpConfigEpochWithoutConsensus s fun _ _ => True := by
  refine Sim.get_bind (sim_getMyself fun me _ => Sim.ite (fun _ => ?_) (fun _ => Sim.pure trivial))
  refine Sim.bind (does_clusterTakeNextEpoch hA) (fun _ t _ _ => ?_)
  exact Sim.seq (does_clusterDoBeforeSleep fun _ _ => trivial) (fun _ _ _ => Sim.pure trivial)

/-! ### The configuration file -/

theorem ClusterState.mem_tableNodes :
    n ∈ s.tableNodes ↔ ∃ r ∈ s.view.refs, s.heap r = some n := by
  rw [ClusterState.tableNodes, List.mem_filterMap]
  rfl

/-- The names of the nodes are the keys of the table. -/
theorem ClusterView.WellFormed.tableNodes_names (h : s.view.WellFormed) :
    s.tableNodes.map ClusterNode.name = s.nodes.map Prod.fst := by
  have hmap : ∀ l : List (NodeName × Ref), (∀ p ∈ l, p ∈ s.nodes) →
      ((l.map Prod.snd).filterMap s.heap).map ClusterNode.name = l.map Prod.fst := by
    intro l
    induction l with
    | nil => intro _; rfl
    | cons p l ih =>
      intro hl
      obtain ⟨x, hx, hname⟩ := h.table p.1 p.2 (hl p (by simp))
      obtain ⟨n, hn, rfl⟩ := ClusterState.exists_of_view_heap hx
      rw [List.map_cons, List.filterMap_cons_some hn, List.map_cons, List.map_cons,
        ih (fun q hq => hl q (by simp [hq]))]
      exact congrArg (· :: l.map Prod.fst) hname
  exact hmap s.nodes (fun _ hp => hp)

/-- The file describes the tables, so a node can be restarted from it. -/
theorem ClusterView.WellFormed.description (h : s.view.WellFormed) :
    (clusterGenNodesDescription s).WellFormed := by
  have hlive : ∀ n ∈ s.tableNodes, n.flags.myself = true → s.heap s.myself = some n := by
    intro n hn hflag
    obtain ⟨r, -, hr⟩ := ClusterState.mem_tableNodes.mp hn
    have hself := (h.selfFlag r n.view (ClusterState.view_heap hr)).mp hflag
    rw [show s.myself = r from hself.symm]
    exact hr
  constructor
  · have hsub : ((s.tableNodes.filter fun n => !n.flags.handshake).map ClusterNode.name).Sublist
        (s.nodes.map Prod.fst) := by
      rw [← h.tableNodes_names]
      exact List.Sublist.map _ List.filter_sublist
    have hnames : (clusterGenNodesDescription s).nodes.map SavedNode.name
        = (s.tableNodes.filter fun n => !n.flags.handshake).map ClusterNode.name := by
      simp [clusterGenNodesDescription, clusterGenNodeDescription, Function.comp_def]
    rw [hnames]
    exact h.names.sublist hsub
  · obtain ⟨x, hx, hrole⟩ := h.exists_myself
    obtain ⟨me, hme, rfl⟩ := ClusterState.exists_of_view_heap hx
    have hflag : me.flags.myself = true := (h.selfFlag _ me.view hx).mpr rfl
    have hmem : me ∈ s.tableNodes := ClusterState.mem_tableNodes.mpr ⟨_, h.self, hme⟩
    refine ⟨clusterGenNodeDescription s me, ?_, hflag, hrole.handshake, hrole.role, ?_, ?_⟩
    · refine List.mem_map_of_mem (List.mem_filter.mpr ⟨hmem, ?_⟩)
      rw [Bool.not_eq_true', show me.flags.handshake = false from hrole.handshake]
    · intro hmaster
      have hnone : me.slaveof = none := hrole.slaveof hmaster
      simp [clusterGenNodeDescription, hnone]
    · intro n hn hnflag
      obtain ⟨k, hk, rfl⟩ := List.mem_map.mp hn
      have hsame := hlive k (List.mem_filter.mp hk).1 hnflag
      rw [show s.heap s.myself = some me from hme] at hsame
      cases hsame
      rfl

theorem does_clusterSaveConfig {doFsync : Bool} (hA : ∀ c, A (.save c)) (h : s.view.WellFormed) :
    Does A (clusterSaveConfig doFsync) s fun _ _ => True := by
  refine Sim.get_bind (sim_getNodes_bind fun _ => Sim.modify ?_ trivial)
  exact Steps.action (a := .save (clusterGenNodesDescription s)) (hA _) ⟨h.description, rfl, rfl⟩

theorem does_clusterHandleConfigEpochCollision {sender : Ref} (hbump : A .bump)
    (hsave : ∀ c, A (.save c)) (h : s.view.WellFormed) :
    Does A (clusterHandleConfigEpochCollision sender) s fun _ _ => True := by
  refine sim_getNode (fun n _ => sim_getMyself fun me _ => Sim.ite (fun _ => Sim.pure trivial) fun _ => ?_)
  refine Sim.ite (fun _ => Sim.pure trivial) (fun _ => ?_)
  refine Sim.bind (does_clusterTakeNextEpoch hbump) (fun _ t ht _ => ?_)
  exact does_clusterSaveConfig hsave (h.steps ht)

/-! ### The blacklist -/

theorem yields_clusterBlacklistCleanup :
    Yields (clusterBlacklistCleanup env) s fun _ t => t.view = s.view :=
  Sim.modify trivial rfl

theorem yields_clusterBlacklistAddNode :
    Yields (clusterBlacklistAddNode env r) s fun _ t => t.view = s.view := by
  refine sim_getNode (fun n _ => Sim.bind yields_clusterBlacklistCleanup (fun _ t _ ht => ?_))
  exact Sim.modify trivial ht

theorem yields_clusterBlacklistExists :
    Yields (clusterBlacklistExists env name) s fun _ t => t.view = s.view :=
  Sim.bind yields_clusterBlacklistCleanup (fun _ _ _ ht => Sim.get_bind (Sim.pure ht))

end Redis
