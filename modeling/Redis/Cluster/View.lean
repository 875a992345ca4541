import Redis.Cluster.Cron
import Redis.Lib.Transition
import Mathlib.Data.Fintype.Card

namespace Redis

/-!
# What the guarantees are about

The part of the state that slots, roles, epochs and elections depend on, and the changes
of it.  Everything else (addresses, links, failure reports, timers) is forgotten.

* `NodeView`, `ClusterView` — the projections;
* `ClusterView.promote` … `ClusterView.freeNode` — the changes;
* `ClusterView.WellFormed` — the invariant of the tables of a node.
-/

/-! ### Projections -/

/-- What is kept of a node. -/
structure NodeView where
  name : NodeName
  master : Bool
  slave : Bool
  handshake : Bool
  myself : Bool
  configEpoch : Nat
  slots : SlotBitmap
  numslots : Int
  slaves : List Ref
  slaveof : Option Ref

/-- The view of a node. -/
def ClusterNode.view (n : ClusterNode) : NodeView where
  name := n.name
  master := n.flags.master
  slave := n.flags.slave
  handshake := n.flags.handshake
  myself := n.flags.myself
  configEpoch := n.configEpoch
  slots := n.slots
  numslots := n.numslots
  slaves := n.slaves
  slaveof := n.slaveof

/-- What is kept of the state. -/
structure ClusterView where
  myself : Ref
  currentEpoch : Nat
  lastVoteEpoch : Nat
  size : Nat
  nodes : List (NodeName × Ref)
  migratingSlotsTo : Slot → Option Ref
  importingSlotsFrom : Slot → Option Ref
  slots : Slot → Option Ref
  failoverAuthCount : Nat
  failoverAuthSent : Bool
  failoverAuthEpoch : Nat
  heap : Ref → Option NodeView
  nextRef : Ref
  outbox : List ClusterOutgoing
  saved : Option SavedConfig

/-- The view of a state. -/
def ClusterState.view (s : ClusterState) : ClusterView where
  myself := s.myself
  currentEpoch := s.currentEpoch
  lastVoteEpoch := s.lastVoteEpoch
  size := s.size
  nodes := s.nodes
  migratingSlotsTo := s.migratingSlotsTo
  importingSlotsFrom := s.importingSlotsFrom
  slots := s.slots
  failoverAuthCount := s.failoverAuthCount
  failoverAuthSent := s.failoverAuthSent
  failoverAuthEpoch := s.failoverAuthEpoch
  heap := fun r => (s.heap r).map ClusterNode.view
  nextRef := s.nextRef
  outbox := s.outbox
  saved := s.saved

variable {s : ClusterState} {f : ClusterNode → ClusterNode}

theorem ClusterState.view_heap {r : Ref} {n : ClusterNode} (h : s.heap r = some n) : s.view.heap r = some n.view := by
  show (s.heap r).map ClusterNode.view = _
  rw [h]
  rfl

theorem ClusterState.exists_of_view_heap {r : Ref} {x : NodeView} (h : s.view.heap r = some x) :
    ∃ n, s.heap r = some n ∧ n.view = x :=
  Option.map_eq_some_iff.mp h

namespace ClusterView

/-- `clusterLookupNode`. -/
def lookup (v : ClusterView) (name : NodeName) : Option Ref :=
  (v.nodes.find? fun p => p.1 = name).map Prod.snd

/-- The nodes of the table. -/
def refs (v : ClusterView) : List Ref := v.nodes.map Prod.snd

/-- Change the node `r`. -/
def updateNode (v : ClusterView) (r : Ref) (f : NodeView → NodeView) : ClusterView :=
  { v with heap := fun x => if x = r then (v.heap x).map f else v.heap x }

end ClusterView

/-- The change of a node seen in the view. -/
theorem ClusterState.view_updateNode {r : Ref} {g : NodeView → NodeView} (h : ∀ n, (f n).view = g n.view) :
    (s.updateNode r f).view = s.view.updateNode r g := by
  simp only [view, updateNode, ClusterView.updateNode, ClusterView.mk.injEq, true_and, and_true]
  funext x
  by_cases hx : x = r
  · rw [if_pos hx, if_pos hx, Option.map_map, Option.map_map]
    congr 1
    funext n
    exact h n
  · rw [if_neg hx, if_neg hx]

/-- A change of a node that is not seen. -/
theorem ClusterState.view_updateNode_eq {r : Ref} (h : ∀ n, (f n).view = n.view) :
    (s.updateNode r f).view = s.view := by
  rw [view_updateNode (g := id) h]
  simp [ClusterView.updateNode]

namespace ClusterView

@[simp] theorem updateNode_heap (v : ClusterView) (r x : Ref) (f : NodeView → NodeView) :
    (v.updateNode r f).heap x = (v.heap x).map fun n => if x = r then f n else n := by
  by_cases hx : x = r <;> simp [updateNode, hx]

@[simp] theorem updateNode_myself (v : ClusterView) (r : Ref) (f : NodeView → NodeView) :
    (v.updateNode r f).myself = v.myself := rfl

/-- Two changes that agree on the node. -/
theorem updateNode_congr {v : ClusterView} {r : Ref} {f g : NodeView → NodeView}
    (h : ∀ n, v.heap r = some n → f n = g n) : v.updateNode r f = v.updateNode r g := by
  simp only [updateNode]
  congr 1
  funext x
  by_cases hx : x = r
  · subst hx
    rw [if_pos rfl, if_pos rfl]
    cases hn : v.heap x with
    | none => rfl
    | some n => rw [Option.map_some, Option.map_some, h n hn]
  · rw [if_neg hx, if_neg hx]

/-- A change that leaves the node as it is. -/
theorem updateNode_eq_self {v : ClusterView} {r : Ref} {f : NodeView → NodeView}
    (h : ∀ n, v.heap r = some n → f n = n) : v.updateNode r f = v := by
  rw [updateNode_congr (g := id) h]
  simp [updateNode]

/-! ### Changes -/

/-- `clusterNodeRemoveSlave(m,r)`. -/
def removeSlave (v : ClusterView) (m r : Ref) : ClusterView :=
  v.updateNode m fun n => { n with slaves := n.slaves.erase r }

/-- `clusterNodeAddSlave(m,r)`. -/
def addSlave (v : ClusterView) (m r : Ref) : ClusterView :=
  v.updateNode m fun n => { n with slaves := if r ∈ n.slaves then n.slaves else n.slaves ++ [r] }

/-- The master of a node. -/
def slaveof (v : ClusterView) (r : Ref) : Option Ref := (v.heap r).bind NodeView.slaveof

/-- The node leaves the list of its master. -/
def leave (v : ClusterView) (r : Ref) : ClusterView :=
  match v.slaveof r with
  | none => v
  | some m => v.removeSlave m r

theorem leave_heap (v : ClusterView) (r x : Ref) :
    (v.leave r).heap x = (v.heap x).map fun n =>
      if v.slaveof r = some x then { n with slaves := n.slaves.erase r } else n := by
  rw [leave]
  cases h : v.slaveof r with
  | none => simp
  | some m =>
    show (v.updateNode m fun n => { n with slaves := n.slaves.erase r }).heap x = _
    rw [updateNode_heap]
    by_cases hx : x = m
    · simp [hx]
    · simp [hx, Ne.symm hx]

/-- The node becomes a master. -/
def promote (v : ClusterView) (r : Ref) : ClusterView :=
  (v.leave r).updateNode r fun n => { n with master := true, slave := false, slaveof := none }

/-- The node becomes a slave, of no known master. -/
def demote (v : ClusterView) (r : Ref) : ClusterView :=
  v.updateNode r fun n => { n with master := false, slave := true }

/-- The node gets another master. -/
def follow (v : ClusterView) (r m : Ref) : ClusterView :=
  ((v.leave r).addSlave m r).updateNode r fun n => { n with slaveof := some m }

/-- No slot is migrating or being imported. -/
def closeSlots (v : ClusterView) : ClusterView :=
  { v with migratingSlotsTo := fun _ => none, importingSlotsFrom := fun _ => none }

/-- This node becomes a slave, or leaves the master it has. -/
def leaveRole (v : ClusterView) : ClusterView :=
  if (v.heap v.myself).any NodeView.master then (v.demote v.myself).closeSlots else v.leave v.myself

/-- This node becomes a slave of `m`. -/
def setMyMaster (v : ClusterView) (m : Ref) : ClusterView :=
  (v.leaveRole.updateNode v.myself fun n => { n with slaveof := some m }).addSlave m v.myself

/-- The slot has no owner any more. -/
def delSlot (v : ClusterView) (j : Slot) : ClusterView :=
  match v.slots j with
  | none => v
  | some r =>
      { v.updateNode r fun n => { n with
          slots := fun i => if i = j then false else n.slots i
          numslots := if n.slots j then n.numslots - 1 else n.numslots } with
        slots := fun i => if i = j then none else v.slots i }

/-- The slot gets an owner. -/
def addSlot (v : ClusterView) (r : Ref) (j : Slot) : ClusterView :=
  { v.updateNode r fun n => { n with
      slots := fun i => if i = j then true else n.slots i
      numslots := if n.slots j then n.numslots else n.numslots + 1 } with
    slots := fun i => if i = j then some r else v.slots i }

/-- A new node of that name in handshake. -/
def handshakeNode (name : NodeName) : NodeView where
  name := name
  master := false
  slave := false
  handshake := true
  myself := false
  configEpoch := 0
  slots := fun _ => false
  numslots := 0
  slaves := []
  slaveof := none

/-- A node in handshake is created; it stays out of the table if its name is there. -/
def handshake (v : ClusterView) (name : NodeName) : ClusterView :=
  { v with
    heap := fun x => if x = v.nextRef then some (handshakeNode name) else v.heap x
    nextRef := v.nextRef + 1
    nodes := if (v.lookup name).isSome then v.nodes else v.nodes ++ [(name, v.nextRef)] }

/-- The table loses the entry of that name. -/
def nodesDelete (v : ClusterView) (name : NodeName) : ClusterView :=
  { v with nodes := v.nodes.eraseP fun p => p.1 = name }

/-- The name of a node. -/
def nameOf (v : ClusterView) (r : Ref) : NodeName :=
  match v.heap r with
  | none => []
  | some n => n.name

/-- The node gets another name. -/
def rename (v : ClusterView) (r : Ref) (name : NodeName) : ClusterView :=
  { (v.nodesDelete (v.nameOf r)).updateNode r fun n => { n with name := name } with
    nodes := (v.nodesDelete (v.nameOf r)).nodes ++ [(name, r)] }

/-- A handshake is completed. -/
def complete (v : ClusterView) (r : Ref) (name : NodeName) (master slave : Bool) : ClusterView :=
  (v.rename r name).updateNode r fun n => { n with
    handshake := false
    master := n.master || master
    slave := n.slave || slave }

/-- Epochs are set to 0 and the node ID is changed. -/
def hardReset (v : ClusterView) (name : NodeName) : ClusterView :=
  ClusterView.rename
    ({ v with currentEpoch := 0, lastVoteEpoch := 0 }.updateNode v.myself fun n =>
      { n with configEpoch := 0 }) v.myself name

/-- The slaves of a node that is freed have no master. -/
def abandon (v : ClusterView) (slaves : List Ref) : ClusterView :=
  { v with heap := fun x => (v.heap x).map fun n =>
      if x ∈ slaves then { n with slaveof := none } else n }

/-- The slaves of the node have no master any more, and the node leaves its own. -/
def disconnect (v : ClusterView) (r : Ref) : ClusterView :=
  let w := v.abandon (((v.heap r).map NodeView.slaves).getD [])
  if (w.heap r).any NodeView.slave then w.leave r else w

/-- `freeClusterNode`. -/
def freeNode (v : ClusterView) (r : Ref) : ClusterView :=
  { (v.disconnect r).nodesDelete (v.nameOf r) with
    heap := fun x => if x = r then none else (v.disconnect r).heap x }

end ClusterView

end Redis
