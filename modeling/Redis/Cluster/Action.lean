import Redis.Cluster.WellFormed

namespace Redis

open Transition

/-!
# The actions of a node

Every handler is a sequence of actions on the view of the state.  The guard of an action
says when the code takes it, so that a property of all runs is a case analysis over the
actions.

* `ClusterAction` — the actions;
* `clusterActions` — their guards and effects;
* `ClusterView.WellFormed.apply` — every action keeps the tables well formed;
* `ClusterView.Knows` — a node stays in the table until it is freed.
-/

/-- The type of a message. -/
def ClusterMsgData.isAck : ClusterMsgData → Bool
  | .failoverAuthAck => true
  | _ => false

/-- The type of a message. -/
def ClusterMsgData.isRequest : ClusterMsgData → Bool
  | .failoverAuthRequest => true
  | _ => false

/-- What a restart relies on: the lines of `nodes.conf` have different names, and one of
    them, with exactly one role, is that of this node. -/
structure SavedConfig.WellFormed (c : SavedConfig) : Prop where
  names : (c.nodes.map SavedNode.name).Nodup
  self : ∃ me ∈ c.nodes, me.flags.myself = true ∧ me.flags.handshake = false ∧
    me.flags.slave = (!me.flags.master) ∧ (me.flags.master = true → me.slaveof = none) ∧
    ∀ n ∈ c.nodes, n.flags.myself = true → n.name = me.name

/-- The actions. -/
inductive ClusterAction
  /-- Messages are queued. -/
  | send (os : List ClusterOutgoing)
  /-- `nodes.conf` is written. -/
  | save (c : SavedConfig)
  /-- The number of masters that serve slots is counted. -/
  | resize (size : Nat)
  /-- The epochs in the header of a packet of `r` are taken over. -/
  | learn (r : Ref) (hdr : ClusterMsg)
  /-- The epoch in an `UPDATE` about `r` is taken over. -/
  | updateEpoch (r : Ref) (hdr : ClusterMsg) (e : Nat)
  /-- This node takes a new epoch without agreement. -/
  | bump
  /-- This node takes the epoch of the election it has won. -/
  | winEpoch
  /-- `CLUSTER SET-CONFIG-EPOCH`. -/
  | setEpoch (e : Nat)
  /-- The last part of `CLUSTER RESET HARD`. -/
  | hardReset (name : NodeName)
  /-- A slot loses its owner. -/
  | delSlot (j : Slot)
  /-- A master, or a node that is not a slave, gets a free slot. -/
  | claim (r : Ref) (j : Slot)
  /-- A command gives a free slot to a node. -/
  | assign (r : Ref) (j : Slot)
  /-- Slots are opened or closed for migration. -/
  | move (migrating importing : Slot → Option Ref)
  /-- A node becomes a master. -/
  | promote (r : Ref)
  /-- A master becomes a slave. -/
  | demote (r : Ref)
  /-- A node that is not a master follows `m`. -/
  | follow (r m : Ref)
  /-- This node becomes a slave of `m`. -/
  | setMyMaster (m : Ref)
  /-- A node in handshake is created. -/
  | handshake (name : NodeName)
  /-- The node in handshake tells its name and role. -/
  | complete (r : Ref) (name : NodeName) (master slave : Bool)
  /-- A node is freed. -/
  | free (r : Ref)
  /-- A vote is granted to the sender of a request. -/
  | vote (hdr : ClusterMsg) (os : List ClusterOutgoing)
  /-- A new election is set up. -/
  | schedule
  /-- The epoch of a new election. -/
  | newEpoch
  /-- The request for votes has been sent. -/
  | markSent
  /-- A vote is counted. -/
  | countVote (hdr : ClusterMsg)

namespace ClusterView

/-- The header of the message has been made in this state, and an `UPDATE` is about a node
    of this state. -/
structure Stamped (v : ClusterView) (msg : ClusterMsg) : Prop where
  currentEpoch : msg.currentEpoch = v.currentEpoch
  sender : msg.sender = v.nameOf v.myself
  configEpoch : ∃ r n, v.heap r = some n ∧ msg.configEpoch = n.configEpoch
  update : ∀ e name slots, msg.data = .update e name slots →
    ∃ r n, v.heap r = some n ∧ e = n.configEpoch

/-- The name belongs to a node in handshake. -/
def InHandshake (v : ClusterView) (name : NodeName) : Prop :=
  ∃ r n, v.lookup name = some r ∧ v.heap r = some n ∧ n.handshake = true

/-- The epoch of the packet has been taken over, unless its sender is in handshake. -/
def Learned (v : ClusterView) (hdr : ClusterMsg) : Prop :=
  hdr.currentEpoch ≤ v.currentEpoch ∨ v.InHandshake hdr.sender

/-- This node votes: it is a master that serves slots. -/
def Voter (v : ClusterView) : Prop :=
  ∃ me, v.heap v.myself = some me ∧ me.slave = false ∧ me.numslots ≠ 0

end ClusterView

namespace ClusterAction

/-- When the code takes an action. -/
def Enabled (v : ClusterView) : ClusterAction → Prop
  | send os => ∀ o ∈ os, v.Stamped o.msg ∧ o.msg.data.isAck = false ∧
      (o.msg.data.isRequest = true → v.currentEpoch = v.failoverAuthEpoch)
  | save c => c.WellFormed ∧ c.currentEpoch = v.currentEpoch ∧ c.lastVoteEpoch = v.lastVoteEpoch
  | resize _ => True
  | learn _ _ => True
  | updateEpoch r hdr e => v.Learned hdr ∧ ∃ n, v.heap r = some n ∧ n.configEpoch < e
  | bump => True
  | winEpoch => True
  | setEpoch _ => ∃ me, v.heap v.myself = some me ∧ me.configEpoch = 0
  | hardReset _ => v.refs = [v.myself]
  | delSlot _ => True
  | claim r j => v.slots j = none ∧ r ∈ v.refs ∧
      ∃ n, v.heap r = some n ∧ (n.master = true ∨ n.slave = false)
  | assign r j => v.slots j = none ∧ r ∈ v.refs
  | move migrating importing =>
      (∀ j r, migrating j = some r → r ∈ v.refs) ∧ (∀ j r, importing j = some r → r ∈ v.refs)
  | promote r => ∃ n, v.heap r = some n ∧ n.master = false
  | demote r => ∃ n, v.heap r = some n ∧ n.master = true ∧ n.numslots = 0
  | follow r m => (∃ n, v.heap r = some n ∧ n.master = false) ∧ ∃ n, v.heap m = some n
  | setMyMaster m => m ≠ v.myself ∧ (∃ n, v.heap m = some n) ∧
      ∃ me, v.heap v.myself = some me ∧ me.numslots = 0
  | handshake _ => True
  | complete r name _ _ => r ∈ v.refs ∧ (∃ n, v.heap r = some n ∧ n.handshake = true) ∧
      v.lookup name = none
  | free r => r ∈ v.refs ∧ r ≠ v.myself ∧ (∀ j, v.slots j ≠ some r) ∧
      (∀ j, v.migratingSlotsTo j ≠ some r) ∧ (∀ j, v.importingSlotsFrom j ≠ some r)
  | vote hdr os => v.Voter ∧ v.currentEpoch ≤ hdr.currentEpoch ∧ v.Learned hdr ∧
      v.lastVoteEpoch ≠ v.currentEpoch ∧ os.length ≤ 1 ∧
      ∀ o ∈ os, v.Stamped o.msg ∧ o.msg.data = .failoverAuthAck ∧ o.dest = some hdr.sender
  | schedule => True
  | newEpoch => True
  | markSent => True
  | countVote hdr => v.failoverAuthEpoch ≤ hdr.currentEpoch

/-- What an action does. -/
def apply (v : ClusterView) : ClusterAction → ClusterView
  | send os => { v with outbox := v.outbox ++ os }
  | save c => { v with saved := some c }
  | resize size => { v with size := size }
  | learn r hdr => { v with currentEpoch := max v.currentEpoch hdr.currentEpoch }.updateNode r
      fun n => { n with configEpoch := max n.configEpoch hdr.configEpoch }
  | updateEpoch r _ e => v.updateNode r fun n => { n with configEpoch := e }
  | bump => { v with currentEpoch := v.currentEpoch + 1 }.updateNode v.myself
      fun n => { n with configEpoch := v.currentEpoch + 1 }
  | winEpoch => v.updateNode v.myself
      fun n => { n with configEpoch := max n.configEpoch v.failoverAuthEpoch }
  | setEpoch e => { v with currentEpoch := max v.currentEpoch e }.updateNode v.myself
      fun n => { n with configEpoch := e }
  | hardReset name => v.hardReset name
  | delSlot j => v.delSlot j
  | claim r j => v.addSlot r j
  | assign r j => v.addSlot r j
  | move migrating importing =>
      { v with migratingSlotsTo := migrating, importingSlotsFrom := importing }
  | promote r => v.promote r
  | demote r => v.demote r
  | follow r m => v.follow r m
  | setMyMaster m => v.setMyMaster m
  | handshake name => v.handshake name
  | complete r name master slave => v.complete r name master slave
  | free r => v.freeNode r
  | vote _ os => { v with outbox := v.outbox ++ os, lastVoteEpoch := v.currentEpoch }
  | schedule => { v with failoverAuthCount := 0, failoverAuthSent := false }
  | newEpoch => { v with currentEpoch := v.currentEpoch + 1, failoverAuthEpoch := v.currentEpoch + 1 }
  | markSent => { v with failoverAuthSent := true }
  | countVote _ => { v with failoverAuthCount := v.failoverAuthCount + 1 }

end ClusterAction

/-- The actions of a node, with their guards and effects. -/
def clusterActions : Actions ClusterView ClusterAction where
  enabled := fun a v => a.Enabled v
  apply := fun a v => a.apply v

/-- Sequences of permitted actions. -/
abbrev Steps (A : ClusterAction → Prop) : ClusterView → ClusterView → Prop := clusterActions.Steps A

namespace ClusterView

variable {v w : ClusterView} {A : ClusterAction → Prop}

/-! ### The invariant of the tables -/

/-- The tables do not depend on the epochs, elections and messages. -/
theorem WellFormed.of_tables (h : v.WellFormed) (hnodes : w.nodes = v.nodes) (hheap : w.heap = v.heap)
    (hnext : w.nextRef = v.nextRef) (hslots : w.slots = v.slots)
    (hmig : w.migratingSlotsTo = v.migratingSlotsTo)
    (himp : w.importingSlotsFrom = v.importingSlotsFrom) (hself : w.myself = v.myself) :
    w.WellFormed := by
  obtain ⟨⟩ := v
  obtain ⟨⟩ := w
  simp only at hnodes hheap hnext hslots hmig himp hself
  subst hnodes hheap hnext hslots hmig himp hself
  exact ⟨h.table, h.names, h.fresh, h.owner, h.owned, h.count, h.migrating, h.importing, h.self,
    h.selfFlag, h.selfRole⟩

/-- Epochs are no part of the tables. -/
theorem WellFormed.setNodeEpoch (h : v.WellFormed) (r : Ref) (f : NodeView → Nat) :
    (v.updateNode r fun n => { n with configEpoch := f n }).WellFormed :=
  h.updateNode r (fun _ => ⟨rfl, rfl, rfl, rfl⟩) (fun _ hn => ⟨hn.handshake, hn.role, hn.slaveof⟩)

/-- **Step lemma**: an action keeps the tables well formed. -/
theorem WellFormed.apply (h : v.WellFormed) {a : ClusterAction} (ha : a.Enabled v) :
    (a.apply v).WellFormed := by
  cases a with
  | send os | save c | resize n => exact h.of_tables rfl rfl rfl rfl rfl rfl rfl
  | learn r hdr =>
    refine WellFormed.setNodeEpoch ?_ r _
    exact h.of_tables rfl rfl rfl rfl rfl rfl rfl
  | updateEpoch r hdr e => exact h.setNodeEpoch r _
  | bump =>
    refine WellFormed.setNodeEpoch ?_ v.myself _
    exact h.of_tables rfl rfl rfl rfl rfl rfl rfl
  | winEpoch => exact h.setNodeEpoch v.myself _
  | setEpoch e =>
    refine WellFormed.setNodeEpoch ?_ v.myself _
    exact h.of_tables rfl rfl rfl rfl rfl rfl rfl
  | hardReset name => exact h.hardReset ha
  | delSlot j => exact h.delSlot j
  | claim r j => exact h.addSlot ha.1 ha.2.1
  | assign r j => exact h.addSlot ha.1 ha.2
  | move mig imp =>
    exact ⟨h.table, h.names, h.fresh, h.owner, h.owned, h.count, ha.1, ha.2, h.self, h.selfFlag,
      h.selfRole⟩
  | promote r => exact h.promote r
  | demote r => exact h.demote r
  | follow r m =>
    obtain ⟨⟨n, hn, hmaster⟩, -⟩ := ha
    refine h.follow r m ?_
    intro n' hn'
    rw [hn] at hn'
    cases hn'
    exact hmaster
  | setMyMaster m => exact h.setMyMaster m
  | handshake name => exact h.handshake name
  | complete r name master slave =>
    obtain ⟨hr, ⟨n, hn, hhs⟩, hname⟩ := ha
    exact h.complete hr hn hhs hname
  | free r => exact h.freeNode ha.1 ha.2.1 ha.2.2.1 ha.2.2.2.1 ha.2.2.2.2
  | vote hdr os | schedule | newEpoch | markSent | countVote hdr => exact h.of_tables rfl rfl rfl rfl rfl rfl rfl

/-- **Run lemma** of the tables. -/
theorem WellFormed.steps (h : v.WellFormed) (hs : Steps A v w) : w.WellFormed :=
  hs.invariant WellFormed h (fun _ _ _ he hu => hu.apply he)

/-! ### Tables and variables -/

/-- The part of the view that is not about nodes and slots. -/
structure Vars where
  currentEpoch : Nat
  lastVoteEpoch : Nat
  size : Nat
  failoverAuthCount : Nat
  failoverAuthSent : Bool
  failoverAuthEpoch : Nat
  outbox : List ClusterOutgoing
  saved : Option SavedConfig

def vars (v : ClusterView) : Vars where
  currentEpoch := v.currentEpoch
  lastVoteEpoch := v.lastVoteEpoch
  size := v.size
  failoverAuthCount := v.failoverAuthCount
  failoverAuthSent := v.failoverAuthSent
  failoverAuthEpoch := v.failoverAuthEpoch
  outbox := v.outbox
  saved := v.saved

theorem leave_vars (v : ClusterView) (r : Ref) : (v.leave r).vars = v.vars := by
  rw [leave]
  cases v.slaveof r <;> rfl

theorem leaveRole_vars (v : ClusterView) : v.leaveRole.vars = v.vars := by
  rw [leaveRole]
  split_ifs
  · rfl
  · exact leave_vars v v.myself

theorem disconnect_vars (v : ClusterView) (r : Ref) : (v.disconnect r).vars = v.vars := by
  simp only [disconnect]
  split_ifs
  · exact leave_vars _ r
  · rfl

theorem delSlot_vars (v : ClusterView) (j : Slot) : (v.delSlot j).vars = v.vars := by
  rw [delSlot]
  cases v.slots j <;> rfl

end ClusterView

/-- The actions that only change nodes and slots. -/
def ClusterAction.IsTable : ClusterAction → Prop
  | delSlot _ | claim _ _ | assign _ _ | move _ _ | promote _ | demote _ | follow _ _ | setMyMaster _
  | handshake _ | complete _ _ _ _ | free _ => True
  | _ => False

namespace ClusterView

variable {v w : ClusterView} {A : ClusterAction → Prop}

theorem apply_vars (v : ClusterView) {a : ClusterAction} (ha : a.IsTable) :
    (a.apply v).vars = v.vars := by
  cases a with
  | delSlot j => exact delSlot_vars v j
  | claim r j | assign r j | move mig imp => rfl
  | promote r => exact leave_vars v r
  | demote r => rfl
  | follow r m => exact leave_vars v r
  | setMyMaster m => exact leaveRole_vars v
  | handshake name | complete r name master slave => rfl
  | free r => exact disconnect_vars v r
  | _ => exact ha.elim

/-! ### What no action does -/

theorem apply_myself (v : ClusterView) (a : ClusterAction) : (a.apply v).myself = v.myself := by
  cases a with
  | delSlot j =>
    show (v.delSlot j).myself = _
    rw [delSlot]
    cases v.slots j <;> rfl
  | promote r => exact (Similar.promote v r).myself
  | demote r => exact (Similar.demote v r).myself
  | follow r m => exact (Similar.follow v r m).myself
  | setMyMaster m => exact (Similar.setMyMaster v m).myself
  | free r => exact (Similar.disconnect v r).myself
  | _ => rfl

/-- This node stays the same one. -/
theorem steps_myself (hs : Steps A v w) : w.myself = v.myself :=
  hs.frame ClusterView.myself (fun a u _ _ => apply_myself u a)

/-- The node is in the table, or has been freed. -/
def Knows (v : ClusterView) (r : Ref) : Prop := r < v.nextRef ∧ (v.heap r = none ∨ r ∈ v.refs)

variable {r : Ref}

theorem WellFormed.lt_nextRef (h : v.WellFormed) {n : NodeView} (hn : v.heap r = some n) :
    r < v.nextRef := by
  by_contra hlt
  rw [h.fresh r (not_lt.mp hlt)] at hn
  cases hn

theorem WellFormed.knows (h : v.WellFormed) (hr : r ∈ v.refs) : v.Knows r := by
  obtain ⟨n, hn, -⟩ := h.mem_nodes hr
  exact ⟨h.lt_nextRef hn, Or.inr hr⟩

theorem Knows.mem_refs {n : NodeView} (h : v.Knows r) (hn : v.heap r = some n) :
    r ∈ v.refs := by
  rcases h.2 with hnone | hr
  · rw [hnone] at hn; cases hn
  · exact hr

theorem Knows.of_similar (h : v.Knows r) (hs : Similar v w) : w.Knows r := by
  refine ⟨hs.nextRef ▸ h.1, h.2.imp (hs.dead r) (fun hr => ?_)⟩
  rw [hs.refs]
  exact hr

theorem Knows.of_map (h : v.Knows r) (hnext : w.nextRef = v.nextRef) {g : NodeView → NodeView}
    (hheap : w.heap r = (v.heap r).map g) (hrefs : r ∈ v.refs → r ∈ w.refs) : w.Knows r := by
  refine ⟨hnext ▸ h.1, h.2.imp (fun hnone => ?_) hrefs⟩
  rw [hheap, hnone, Option.map_none]

theorem WellFormed.knows_apply (h : v.WellFormed) {a : ClusterAction} (ha : a.Enabled v) (hr : v.Knows r) :
    (a.apply v).Knows r := by
  cases a with
  | send os | save c | resize n => exact hr
  | learn x hdr | updateEpoch x hdr e => exact hr.of_map rfl (updateNode_heap _ x r _) id
  | bump | winEpoch | setEpoch e => exact hr.of_map rfl (updateNode_heap _ v.myself r _) id
  | hardReset name =>
    refine hr.of_map rfl (hardReset_heap v r name) (fun hmem => ?_)
    have hrefs : v.refs = [v.myself] := ha
    rw [hrefs, List.mem_singleton] at hmem
    refine ClusterView.mem_refs.mpr ⟨name, ?_⟩
    rw [hmem]
    exact List.mem_append_right _ (List.mem_singleton_self _)
  | delSlot j =>
    show (v.delSlot j).Knows r
    cases hj : v.slots j with
    | none => rw [delSlot_of_none hj]; exact hr
    | some x =>
      refine hr.of_map ?_ (delSlot_heap hj r) ?_
      · rw [ClusterView.delSlot, hj]; rfl
      · rw [ClusterView.refs, ClusterView.refs, delSlot_nodes]; exact id
  | claim x j | assign x j => exact hr.of_map rfl (addSlot_heap v x r j) id
  | move mig imp => exact hr
  | promote x => exact hr.of_similar (Similar.promote v x)
  | demote x => exact hr.of_similar (Similar.demote v x)
  | follow x m => exact hr.of_similar (Similar.follow v x m)
  | setMyMaster m => exact hr.of_similar (Similar.setMyMaster v m)
  | handshake name =>
    refine ⟨Nat.lt_succ_of_lt hr.1, hr.2.imp (fun hnone => ?_) (fun hmem => ?_)⟩
    · exact (if_neg hr.1.ne).trans hnone
    · obtain ⟨x, hx⟩ := ClusterView.mem_refs.mp hmem
      refine ClusterView.mem_refs.mpr ⟨x, ?_⟩
      show (x, r) ∈ (v.handshake name).nodes
      simp only [ClusterView.handshake]
      split_ifs
      · exact hx
      · exact List.mem_append_left _ hx
  | complete x name master slave =>
    exact hr.of_map rfl (complete_heap v x r name master slave) (h.mem_refs_rename ha.1).mpr
  | free x =>
    have hsim := Similar.disconnect v x
    refine ⟨hsim.nextRef ▸ hr.1, ?_⟩
    by_cases hx : r = x
    · exact Or.inl (if_pos hx)
    · refine hr.2.imp (fun hnone => (if_neg hx).trans (hsim.dead r hnone)) (fun hmem => ?_)
      exact (h.mem_refs_freeNode ha.1).mpr ⟨hmem, hx⟩
  | vote hdr os | schedule | newEpoch | markSent | countVote hdr => exact hr

/-- A node of the table stays there until it is freed. -/
theorem WellFormed.knows_steps (h : v.WellFormed) (hs : Steps A v w) (hr : v.Knows r) :
    w.Knows r :=
  hs.invariant_and WellFormed (fun u => u.Knows r) h hr (fun _ _ _ he hu => hu.apply he)
    (fun _ _ _ he hu hk => hu.knows_apply he hk)

end ClusterView

end Redis
