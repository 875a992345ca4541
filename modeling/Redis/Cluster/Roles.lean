import Redis.Cluster.SlotTable
import Redis.Cluster.Links
import Redis.Cluster.Evaluate

namespace Redis

open Transition

/-!
# Only masters own slots

A slave owns no slots, and a slave is in the list of its master.  `CLUSTER ADDSLOTS` and
`CLUSTER SETSLOT NODE` do not look at the role of the node that gets the slots: on a slave, or for
a slave, they break the first property, and the assertion in `clusterSetMaster` fails at the next
change of the master.  Every other command, and every packet of a well-behaved node, keeps both.

* `ClusterEvent.WellBehaved`, `ClusterEvent.FeedsMasters` — the packets and the commands;
* `linked_steps` — what an event does to the roles;
* `roles_of_orderly` — **the properties hold in all runs in which these two commands only give
  slots to masters**;
* `slave_with_slots_asserts` — a run in which they do not.
-/

/-! ### Events -/

/-- A packet of a well-behaved node: the header has one role, and the packet is not about a node
    that is in handshake here.  The name of such a node has been drawn by this process and is in
    no message. -/
def ClusterEvent.WellBehaved (s : ClusterState) : ClusterEvent → Prop
  | .packet _ hdr => hdr.flags.slave = !hdr.flags.master ∧
      ∀ r n, s.view.About hdr r → s.heap r = some n → n.flags.handshake = false
  | _ => True

/-- `ADDSLOTS` and `SETSLOT NODE`, unless they are refused, give slots to a master. -/
def ClusterEvent.FeedsMasters (env : ClusterEnv) (s : ClusterState) : ClusterEvent → Prop
  | .command (.addslots slots) => ∀ named, checkSlots s false slots [] = .ok named →
      ∀ me, s.heap s.myself = some me → me.flags.master = true
  | .command (.setslot slot (.node node)) => ∀ me j r n, s.heap s.myself = some me →
      me.flags.slave = false → getSlotOrReply slot = some j → s.clusterLookupNode node = some r →
      ¬ (s.slots j = some s.myself ∧ r ≠ s.myself ∧ env.countKeysInSlot j ≠ 0) →
      s.heap r = some n → n.flags.master = true
  | _ => True

/-- The node that gets slots by a command is a master. -/
def ClusterEvent.Feeds (v : ClusterView) : ClusterEvent → Prop
  | .command (.addslots _) => v.IsMaster v.myself
  | .command (.setslot _ (.node node)) => ∀ r, v.lookup node = some r → v.IsMaster r
  | _ => True

section Events

variable {s t : ClusterState} {env : ClusterEnv} {ev : ClusterEvent} {o : FailoverOutcome}

theorem ClusterState.isMaster_of_heap {r : Ref} (h : ∀ n, s.heap r = some n → n.flags.master = true) :
    s.view.IsMaster r := by
  intro n hn
  obtain ⟨n', hn', rfl⟩ := ClusterState.exists_of_view_heap hn
  exact h n' hn'

theorem ClusterView.WellFormed.exists_heap (h : s.view.WellFormed) : ∃ me, s.heap s.myself = some me := by
  obtain ⟨me, hme, -⟩ := h.exists_myself
  obtain ⟨me, hme, -⟩ := ClusterState.exists_of_view_heap hme
  exact ⟨me, hme⟩

/-- `SETSLOT NODE` is refused, or it is about to give the slot away. -/
theorem run_setslot_node {slot : Int} {node : NodeName} {me : ClusterNode}
    (hme : s.heap s.myself = some me) :
    (∃ e, (clusterSetslot env slot (.node node)).run s = .ok (.error e, s)) ∨
    (me.flags.slave = false ∧ ∃ j r, getSlotOrReply slot = some j ∧ s.clusterLookupNode node = some r ∧
      ¬ (s.slots j = some s.myself ∧ r ≠ s.myself ∧ env.countKeysInSlot j ≠ 0)) := by
  rw [clusterSetslot, run_getMyself_bind hme]
  cases hslave : me.flags.slave with
  | true => exact Or.inl ⟨_, rfl⟩
  | false =>
    cases hslot : getSlotOrReply slot with
    | none => exact Or.inl ⟨_, rfl⟩
    | some j =>
      cases hlookup : s.clusterLookupNode node with
      | none =>
        left
        refine ⟨.unknownNode, ?_⟩
        simp [clusterSetslotAction, hlookup, whenDo]
        rfl
      | some r =>
        by_cases hkeys : s.slots j = some s.myself ∧ r ≠ s.myself ∧ env.countKeysInSlot j ≠ 0
        · left
          refine ⟨.keysInSlot j, ?_⟩
          simp [clusterSetslotAction, hlookup, hkeys, whenDo]
          rfl
        · exact Or.inr ⟨rfl, j, r, rfl, rfl, hkeys⟩

/-- A command that is refused leaves everything as it is. -/
theorem refused_or_feeds (hwf : s.view.WellFormed) (h : ev.FeedsMasters env s) :
    (clusterHandle env ev).run s = .ok (.idle, s) ∨ ev.Feeds s.view := by
  obtain ⟨me, hme⟩ := hwf.exists_heap
  cases ev with
  | command c =>
    cases c with
    | addslots slots =>
      cases hcheck : checkSlots s false slots [] with
      | error e =>
        have hrun : (clusterCommand env (.addslots slots)).run s = .ok (.error e, s) := by
          simp [clusterCommand, clusterSlotsCommand, hcheck]
          rfl
        exact Or.inl (run_clusterHandle_command hrun)
      | ok named => exact Or.inr (ClusterState.isMaster_of_heap (h named hcheck))
    | setslot slot action =>
      cases action with
      | node node =>
        rcases run_setslot_node hme with
          ⟨e, hrun⟩ | ⟨hslave, j, r, hslot, hlookup, hkeys⟩
        · exact Or.inl (run_clusterHandle_command hrun)
        · refine Or.inr fun r' hr' => ClusterState.isMaster_of_heap fun n hn => ?_
          have hr : s.clusterLookupNode node = some r' := hr'
          rw [hlookup] at hr
          cases hr
          exact h me j r n hme hslave hslot hlookup hkeys hn
      | _ => exact Or.inr trivial
    | _ => exact Or.inr trivial
  | _ => exact Or.inr trivial

theorem ClusterView.IsMaster.of_map {v w : ClusterView} {r : Ref} (h : v.IsMaster r)
    {g : NodeView → NodeView} (hheap : w.heap r = (v.heap r).map g)
    (hg : ∀ n, (g n).master = n.master) : w.IsMaster r := by
  intro n hn
  rw [hheap] at hn
  obtain ⟨m, hm, rfl⟩ := Option.map_eq_some_iff.mp hn
  rw [hg]
  exact h m hm

/-- The actions of `ADDSLOTS` and `SETSLOT`. -/
def ClusterAction.IsSlotChange : ClusterAction → Prop
  | .move _ _ | .bump | .delSlot _ | .assign _ _ => True
  | _ => False

theorem ClusterView.IsMaster.apply {v : ClusterView} {r : Ref} (h : v.IsMaster r) {a : ClusterAction}
    (ha : a.IsSlotChange) : (a.apply v).IsMaster r := by
  cases a with
  | move mig imp => exact h
  | bump =>
    refine h.of_map (updateNode_heap _ v.myself r _) fun n => ?_
    split_ifs <;> rfl
  | delSlot j =>
    show (v.delSlot j).IsMaster r
    cases hj : v.slots j with
    | none => rw [delSlot_of_none hj]; exact h
    | some x =>
      refine h.of_map (delSlot_heap hj r) fun n => ?_
      split_ifs <;> rfl
  | assign x j =>
    refine h.of_map (addSlot_heap v x r j) fun n => ?_
    split_ifs <;> rfl
  | _ => exact ha.elim

theorem ClusterView.WellFormed.settled_myself {v : ClusterView} (h : v.WellFormed) : v.Settled v.myself := by
  obtain ⟨me, hme, -⟩ := h.exists_myself
  exact ⟨h.lt_nextRef hme, fun n hn => (h.selfRole n hn).handshake⟩

variable {w : ClusterView} {ok : ClusterEnv → ClusterState → ClusterEvent → Prop}

section

variable (h : s.view.Linked) (hwf : s.view.WellFormed)

include h hwf

/-- The roles are kept by a command that gives slots to a master. -/
theorem linked_steps_command {c : ClusterCommand} (hfeeds : ClusterEvent.Feeds s.view (.command c))
    (hs : Steps (commandAllows env s.view c) s.view w) :
    w.Linked := by
  -- all but two commands: only this node is promoted or claims slots
  have hother : (∀ a (u : ClusterView), commandAllows env s.view c a → u.Settled s.view.myself → u.Respects a) →
      w.Linked := by
    intro hok
    exact h.steps (P := fun u => u.Settled s.view.myself) hwf hwf.settled_myself
      (fun a u _ _ hu => hu.apply a) (fun a u ha _ hu _ => hok a u ha hu) hs
  cases c with
  | addslots slots =>
    refine h.steps (P := fun u => u.IsMaster s.view.myself) hwf hfeeds ?_ ?_ hs
    · intro a u ha _ hu
      exact hu.apply (by cases a <;> first | exact ha.elim | trivial)
    · intro a u ha _ hu _
      cases a with
      | move mig imp => trivial
      | assign r j =>
        have hr : r = s.view.myself := ha
        rw [hr]
        exact hu
      | _ => exact ha.elim
  | setslot slot action =>
    cases action with
    | node node =>
      refine h.steps (P := fun u => ∀ r, s.view.lookup node = some r → u.IsMaster r) hwf hfeeds ?_ ?_ hs
      · intro a u ha _ hu r hr
        exact (hu r hr).apply (by cases a <;> first | exact ha.elim | trivial)
      · intro a u ha _ hu _
        cases a with
        | assign r j => exact hu r ha
        | _ => first | exact ha.elim | trivial
    | _ => exact hother fun a u ha _ => by cases a <;> first | exact ha.elim | trivial
  | failover option =>
    refine hother fun a u ha hu => ?_
    cases option with
    | takeover =>
      cases a with
      | promote r | claim r _ =>
        have hr : r = s.view.myself := ha
        rw [hr]
        exact hu
      | _ => first | exact ha.elim | trivial
    | _ => cases a <;> first | exact ha.elim | trivial
  | reset hard =>
    refine hother fun a u ha hu => ?_
    cases a with
    | promote r =>
      have hr : r = s.view.myself := by cases hard <;> exact ha
      rw [hr]
      exact hu
    | _ => cases hard <;> first | exact ha.elim | trivial
  | _ => exact hother fun a u ha _ => by cases a <;> first | exact ha.elim | trivial

/-- The roles are kept by packets of well-behaved nodes. -/
theorem linked_steps_packet {link : Option Ref} {hdr : ClusterMsg}
    (hok : ClusterEvent.WellBehaved s (.packet link hdr))
    (hs : Steps (fun a => learnAllows s.view hdr a ∨ packetAllows env s.view hdr a) s.view w) :
    w.Linked := by
  have hsettled : ∀ r, s.view.About hdr r → s.view.Settled r := by
    intro r habout
    have hr : r ∈ s.view.refs := by
      rcases habout with hr | ⟨_, name, _, _, hr⟩
      · exact ClusterView.mem_refs_of_lookup hr
      · exact ClusterView.mem_refs_of_lookup hr
    refine ⟨(hwf.knows hr).1, fun n hn => ?_⟩
    obtain ⟨n', hn', rfl⟩ := ClusterState.exists_of_view_heap hn
    exact hok.2 r n' habout hn'
  refine h.steps (P := fun u => ∀ r, s.view.About hdr r → u.Settled r) hwf hsettled
    (fun a u _ _ hu r hr => (hu r hr).apply a) ?_ hs
  intro a u ha _ hu _
  cases a with
  | claim r j | promote r | follow r m => exact hu r (ha.resolve_left id)
  | complete r name master slave =>
    obtain ⟨-, rfl, rfl⟩ := ha.resolve_left id
    exact hok.1
  | assign r j => exact (ha.elim id id).elim
  | _ => trivial

theorem linked_steps_timer (hs : Steps (timerAllows s.view) s.view w) : w.Linked := by
  refine h.steps (P := fun u => u.Settled s.view.myself) hwf hwf.settled_myself
    (fun a u _ _ hu => hu.apply a) ?_ hs
  intro a u ha _ hu _
  cases a with
  | claim r _ | promote r =>
    have hr : r = s.view.myself := ha
    rw [hr]
    exact hu
  | _ => first | exact ha.elim | trivial

theorem linked_steps (hok : ev.WellBehaved s) (hfeeds : ev.Feeds s.view)
    (hs : Steps (ev.allows env s.view) s.view w) :
    w.Linked := by
  cases ev with
  | packet link hdr => exact linked_steps_packet h hwf hok hs
  | command c => exact linked_steps_command h hwf hfeeds hs
  | cron | beforeSleep => exact linked_steps_timer h hwf hs

end

/-! ### Runs -/

/-- The states a node reaches from a fresh start by events of one kind. -/
inductive ReachableBy (ok : ClusterEnv → ClusterState → ClusterEvent → Prop) : ClusterState → Prop
  | init (env : ClusterEnv) : ReachableBy ok (clusterInit env)
  | step {s t : ClusterState} {env : ClusterEnv} {ev : ClusterEvent} {o : FailoverOutcome} :
      ReachableBy ok s → ev.Possible env s → ok env s ev → (clusterHandle env ev).run s = .ok (o, t) →
      ReachableBy ok t

theorem ReachableBy.command {c : ClusterCommand} (h : ReachableBy ok s) (hok : ok env s (.command c))
    (hrun : (clusterHandle env (.command c)).run s = .ok (o, t)) : ReachableBy ok t :=
  .step h (show ClusterEvent.Possible env s (.command c) from trivial) hok hrun

theorem ReachableBy.reachable (h : ReachableBy ok s) : ClusterReachable s := by
  induction h with
  | init env => exact .init env
  | step _ hev _ hrun ih => exact .step ih hev hrun

/-- Slaves have no slots, and a slave is exactly once in the list of its master and in no other. -/
structure RolesHold (s : ClusterState) : Prop where
  slots : ∀ r n, s.heap r = some n → n.flags.slave = true → n.numslots = 0
  links : ∀ r n m master, s.heap r = some n → s.heap m = some master →
    (n.slaveof = some m ↔ master.slaves.count r = 1) ∧ master.slaves.count r ≤ 1

theorem ClusterView.Linked.rolesHold (h : s.view.Linked) (hwf : s.view.WellFormed) : RolesHold s where
  slots := by
    intro r n hn hslave
    have hn' := ClusterState.view_heap hn
    have hcount : n.numslots = slotCount n.slots := hwf.count r n.view hn'
    rw [hcount]
    exact slotCount_eq_zero ((h.proper r n.view hn').slots_of_slave hslave)
  links := by
    intro r n m master hn hm
    have hm' := ClusterState.view_heap hm
    have hnodup : master.slaves.Nodup := h.nodup m master.view hm'
    have hslaveof : s.view.slaveof r = n.slaveof :=
      ClusterView.slaveof_of_heap (ClusterState.view_heap hn)
    have hlisted : r ∈ master.slaves ↔ n.slaveof = some m := by
      rw [← hslaveof]
      exact h.listed m master.view r hm'
    refine ⟨?_, List.nodup_iff_count_le_one.mp hnodup r⟩
    rw [← hlisted]
    exact ⟨fun hr => List.count_eq_one_of_mem hnodup hr, fun hone =>
      List.count_pos_iff.mp (hone ▸ Nat.one_pos)⟩

theorem linked_clusterInit : (clusterInit env).view.Linked := by
  have hheap : ∀ r n, (clusterInit env).view.heap r = some n → n = (freshMyself env).view := by
    intro r n hn
    by_cases hr : r = 0
    · subst hr
      exact (Option.some.inj hn).symm
    · simp [ClusterState.view, clusterInit, hr] at hn
  have hslaveof : ∀ r, (clusterInit env).view.slaveof r = none := by
    intro r
    cases hn : (clusterInit env).view.heap r with
    | none => rw [ClusterView.slaveof, hn]; rfl
    | some n =>
      rw [ClusterView.slaveof_of_heap hn, hheap r n hn]
      rfl
  refine ⟨?_, ?_, ?_, ?_⟩
  · intro r n hn
    rw [hheap r n hn]
    exact ⟨fun h => absurd h Bool.false_ne_true, fun _ => rfl, fun h => absurd h.symm Bool.false_ne_true,
      fun hne => absurd rfl hne⟩
  · intro r n hn
    rw [hheap r n hn]
    exact List.nodup_nil
  · intro r n s hn
    rw [hslaveof, hheap r n hn]
    exact iff_of_false List.not_mem_nil (Option.some_ne_none r).symm
  · intro s m hs
    rw [hslaveof] at hs
    cases hs

/-- Events that keep the roles. -/
def Orderly (env : ClusterEnv) (s : ClusterState) (ev : ClusterEvent) : Prop :=
  ev.WellBehaved s ∧ ev.FeedsMasters env s

/-- **Run lemma** of the roles. -/
theorem ReachableBy.linked (h : ReachableBy Orderly s) : s.view.Linked := by
  induction h with
  | init env => exact linked_clusterInit
  | @step s t env ev o hs hev hok hrun ih =>
    have hwf := hs.reachable.wellFormed
    rcases refused_or_feeds hwf hok.2 with hrefused | hfeeds
    · rw [hrefused] at hrun
      cases hrun
      exact ih
    · exact linked_steps ih hwf hok.1 hfeeds (steps_of_handle hwf hev hrun).1

/-- **Only masters own slots, and the replication links are mirrored**, in every run in which
    `ADDSLOTS` and `SETSLOT NODE` give slots to masters only; then the assertions of
    `clusterSetMaster` hold whatever happens next. -/
theorem roles_of_orderly (h : ReachableBy Orderly s) :
    RolesHold s ∧ ∀ env ev, ev.Possible env s → Orderly env s ev →
      (clusterHandle env ev).run s ≠ .error (.assertion .masterIsOther) ∧
      (clusterHandle env ev).run s ≠ .error (.assertion .masterWithoutSlots) := by
  have hwf := h.reachable.wellFormed
  refine ⟨h.linked.rolesHold hwf, fun env ev hev hok => ⟨fun hrun => ?_, fun hrun => ?_⟩⟩
  · rcases fault_of_handle hwf hev hrun with (he | he) | ⟨he, -⟩ <;> cases he
  · rcases refused_or_feeds hwf hok.2 with hrefused | hfeeds
    · rw [hrefused] at hrun
      cases hrun
    · rcases fault_of_handle hwf hev hrun with (he | he) | ⟨-, v, hsteps, me, hme, hslave, hslots⟩
      · cases he
      · cases he
      · have hlinked := linked_steps h.linked hwf hok.1 hfeeds hsteps
        have hzero := slotCount_eq_zero ((hlinked.proper _ me hme).slots_of_slave hslave)
        rw [← (hwf.steps hsteps).count _ me hme] at hzero
        exact hslots hzero

/-! ### Slots for a slave -/

/-- The first packet of a master. -/
def helloHdr : ClusterMsg where
  currentEpoch := 0
  configEpoch := 0
  offset := 0
  sender := [1, 1]
  myslots := fun _ => false
  slaveof := CLUSTER_NODE_NULL_NAME
  port := 7001
  flags := { master := true }
  paused := false
  forceack := false
  data := .pong []

/-- `ADDSLOTS 0`: only slot 0 is touched. -/
theorem clusterSlotsCommand_slotZero : clusterSlotsCommand false [0] = (do
    let s ← get
    match checkSlots s false [0] [] with
    | .error e => return .error e
    | .ok _ => do
        clusterApplySlot false [slotZero] slotZero
        clusterDoBeforeSleep { updateState := true, saveConfig := true }
        return .ok) := by
  rw [clusterSlotsCommand]
  congr 1
  funext s
  cases hcheck : checkSlots s false [0] [] with
  | error e => rfl
  | ok named =>
    have hnamed : named = [slotZero] := by
      have hslot : getSlotOrReply 0 = some slotZero := rfl
      simp only [checkSlots, hslot] at hcheck
      split_ifs at hcheck <;> cases hcheck <;> rfl
    subst hnamed
    have hskip : ∀ j : Slot, j ≠ slotZero → clusterApplySlot false [slotZero] j = pure () := by
      intro j hj
      rw [clusterApplySlot, whenDo, if_neg (by simpa using hj)]
    show (allSlots.forM _ >>= fun _ => _) = _
    rw [forM_eq_of_mem nodup_allSlots (mem_allSlots slotZero) hskip]

theorem run_addslots_slotZero (h : StateT.run (m := Except ClusterFault) (do
      let s ← get
      match checkSlots s false [0] [] with
      | .error e => return .error e
      | .ok _ => do
          clusterApplySlot false [slotZero] slotZero
          clusterDoBeforeSleep { updateState := true, saveConfig := true }
          return .ok) s = .ok (ClusterReply.ok, t)) :
    (clusterHandle env (.command (.addslots [0]))).run s = .ok (.idle, t) := by
  have hrun : (clusterCommand env (.addslots [0])).run s = .ok (.ok, t) := by
    show (clusterSlotsCommand false [0]).run s = _
    rw [clusterSlotsCommand_slotZero]
    exact h
  exact run_clusterHandle_command hrun

theorem possible_helloHdr (h : 1 ∈ s.nodeRefs) :
    ClusterEvent.Possible quietEnv s (.packet (some 1) helloHdr) := by
  refine ⟨fun l hl => Option.some.inj hl ▸ h, fun r hr => ?_⟩
  cases congrArg List.length hr

/-- `MEET`, the first packet of the other node, and `REPLICATE`: a slave of the node `1`. -/
theorem exists_slave (ok : ClusterEnv → ClusterState → ClusterEvent → Prop)
    (hcommand : ∀ s c, c = .meet "127.0.0.1" 7001 ∨ c = .replicate [1, 1] → ok quietEnv s (.command c))
    (hpacket : ∀ s, s.clusterLookupNode [1, 1] = none → ok quietEnv s (.packet (some 1) helloHdr)) :
    ∃ w, ReachableBy ok w ∧ (w.heap 0).map (fun n => (n.flags.slave, n.slaveof)) = some (true, some 1) ∧
      ∃ x, (clusterHandle quietEnv (.command (.addslots [0]))).run w = .ok (.idle, x) ∧
        (x.heap 0).map (fun n => (n.flags.slave, n.numslots)) = some (true, 1) ∧
        (clusterHandle quietEnv (.command (.replicate [1, 1]))).run x
          = .error (.assertion .masterWithoutSlots) := by
  have hmeet : ∃ t, (clusterHandle quietEnv (.command (.meet "127.0.0.1" 7001))).run (clusterInit quietEnv)
      = .ok (.idle, t) ∧ t.nodeRefs = [0, 1] ∧ t.clusterLookupNode [1, 1] = none ∧
      ∃ u, (clusterHandle quietEnv (.packet (some 1) helloHdr)).run t = .ok (.idle, u) ∧
      ∃ w, (clusterHandle quietEnv (.command (.replicate [1, 1]))).run u = .ok (.idle, w) ∧
        (w.heap 0).map (fun n => (n.flags.slave, n.slaveof)) = some (true, some 1) ∧
      ∃ x, (clusterHandle quietEnv (.command (.addslots [0]))).run w = .ok (.idle, x) ∧
        (x.heap 0).map (fun n => (n.flags.slave, n.numslots)) = some (true, 1) ∧
        (clusterHandle quietEnv (.command (.replicate [1, 1]))).run x
          = .error (.assertion .masterWithoutSlots) :=
    ⟨_, rfl, rfl, rfl, _, rfl, _, rfl, rfl, _, run_addslots_slotZero rfl, rfl, rfl⟩
  obtain ⟨t, ht, hrefs, hnone, u, hu, w, hw, hslave, hrest⟩ := hmeet
  have hreach_t : ReachableBy ok t :=
    ReachableBy.command (.init quietEnv) (hcommand _ _ (Or.inl rfl)) ht
  have hreach_u : ReachableBy ok u :=
    .step hreach_t (possible_helloHdr (by rw [hrefs]; decide)) (hpacket t hnone) hu
  have hreach_w : ReachableBy ok w := hreach_u.command (hcommand _ _ (Or.inr rfl)) hw
  exact ⟨w, hreach_w, hslave, hrest⟩

theorem wellBehaved_helloHdr (h : s.clusterLookupNode [1, 1] = none) :
    ClusterEvent.WellBehaved s (.packet (some 1) helloHdr) := by
  refine ⟨rfl, fun r n habout _ => ?_⟩
  rcases habout with hr | ⟨_, _, _, hdata, _⟩
  · have hr' : s.clusterLookupNode [1, 1] = some r := hr
    rw [h] at hr'
    cases hr'
  · cases hdata

/-- A slave with its master. -/
theorem roles_of_orderly_slave : ∃ w, (∃ me, w.heap 0 = some me ∧ me.slaveof = some 1) ∧ RolesHold w := by
  obtain ⟨w, hreach, hslave, -⟩ := exists_slave Orderly
    (by rintro s c (rfl | rfl) <;> exact ⟨trivial, trivial⟩)
    (fun s hs => ⟨wellBehaved_helloHdr hs, trivial⟩)
  obtain ⟨me, hme, hlink⟩ := Option.map_eq_some_iff.mp hslave
  exact ⟨w, ⟨me, hme, congrArg Prod.snd hlink⟩, (roles_of_orderly hreach).1⟩

/-- After `ADDSLOTS 0` on a slave the slave owns a slot, and the next `REPLICATE` ends the
    process. -/
theorem slave_with_slots_asserts : ∃ x, ReachableBy (fun _ s ev => ev.WellBehaved s) x ∧ ¬ RolesHold x ∧
    (clusterHandle quietEnv (.command (.replicate [1, 1]))).run x
      = .error (.assertion .masterWithoutSlots) := by
  obtain ⟨w, hreach, -, x, hx, hslots, hfault⟩ := exists_slave (fun _ s ev => ev.WellBehaved s)
    (fun _ _ _ => trivial) (fun s hs => wellBehaved_helloHdr hs)
  obtain ⟨me, hme, hlink⟩ := Option.map_eq_some_iff.mp hslots
  refine ⟨x, hreach.command trivial hx, fun hroles => ?_, hfault⟩
  have hzero := hroles.slots 0 me hme (congrArg Prod.fst hlink)
  rw [show me.numslots = 1 from congrArg Prod.snd hlink] at hzero
  cases hzero

end Events

end Redis
