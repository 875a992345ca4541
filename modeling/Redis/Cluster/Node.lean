import Redis.Cluster.Basic

namespace Redis

/-!
# Nodes, slots, roles and epochs

The functions of `cluster.c` that the handlers are made of.

* `createClusterNode` … `clusterRenameNode` — the node table and the failure reports;
* `clusterAddSlot`, `clusterDelSlot` — the owner table and the bitmaps;
* `clusterSetNodeAsMaster`, `clusterSetMaster` — roles and replication links;
* `clusterGetMaxEpoch`, `clusterBumpConfigEpochWithoutConsensus` — configuration epochs;
* `clusterSaveConfig` — what `nodes.conf` records.
-/

/-- `if (o) f(o);` -/
def ifSome {α : Type} (o : Option α) (f : α → ClusterM Unit) : ClusterM Unit :=
  match o with
  | some a => f a
  | none => pure ()

/-- The nodes behind some pointers. -/
def getNodes (rs : List Ref) : ClusterM (List ClusterNode) := rs.mapM getNode

namespace ClusterState

/-- The nodes of the table. -/
def tableNodes (s : ClusterState) : List ClusterNode := s.nodeRefs.filterMap s.heap

/-- Put a node at a fresh place. -/
def alloc (s : ClusterState) (n : ClusterNode) : ClusterState :=
  { s with heap := fun x => if x = s.nextRef then some n else s.heap x, nextRef := s.nextRef + 1 }

/-- `n` is freed. -/
def free (s : ClusterState) (r : Ref) : ClusterState :=
  { s with heap := fun x => if x = r then none else s.heap x }

/-- `dictAdd(server.cluster->nodes,name,r)`, unless the name is there. -/
def nodesAdd (s : ClusterState) (name : NodeName) (r : Ref) : ClusterState :=
  { s with nodes := s.nodes ++ [(name, r)] }

/-- `dictDelete(server.cluster->nodes,name)`. -/
def nodesDelete (s : ClusterState) (name : NodeName) : ClusterState :=
  { s with nodes := s.nodes.eraseP fun p => p.1 = name }

end ClusterState

/-! ### Manual failover state -/

/-- `resetManualFailover`. -/
def resetManualFailover : ClusterM Unit :=
  modify fun s => { s with mfEnd := 0, mfCanStart := false, mfSlave := none, mfMasterOffset := 0 }

/-! ### The configuration file -/

/-- `clusterGenNodeDescription`: the flags `MEET` and `MIGRATE_TO` have no name in
    `redisNodeFlagsTable`. -/
def clusterGenNodeDescription (s : ClusterState) (n : ClusterNode) : SavedNode where
  name := n.name
  ip := n.ip
  port := n.port
  flags := { n.flags with meet := false, migrateTo := false }
  slaveof := n.slaveof.bind fun m => (s.heap m).map ClusterNode.name
  pingSent := n.pingSent
  pongReceived := n.pongReceived
  configEpoch := n.configEpoch
  slots := n.slots
  migrating := fun j =>
    if n.flags.myself then (s.migratingSlotsTo j).bind fun m => (s.heap m).map ClusterNode.name
    else none
  importing := fun j =>
    -- a slot that is migrating is not printed as importing
    if n.flags.myself ∧ s.migratingSlotsTo j = none then
      (s.importingSlotsFrom j).bind fun m => (s.heap m).map ClusterNode.name
    else none

/-- `clusterGenNodesDescription(CLUSTER_NODE_HANDSHAKE)` and the line of variables. -/
def clusterGenNodesDescription (s : ClusterState) : SavedConfig where
  nodes := (s.tableNodes.filter fun n => !n.flags.handshake).map (clusterGenNodeDescription s)
  currentEpoch := s.currentEpoch
  lastVoteEpoch := s.lastVoteEpoch

/-- `clusterSaveConfig`; the names of the masters are read through their pointers. -/
def clusterSaveConfig (doFsync : Bool) : ClusterM Unit := do
  let s ← get
  let _ ← getNodes (s.tableNodes.filterMap ClusterNode.slaveof)
  modify fun s => { s with
    todoBeforeSleep := { s.todoBeforeSleep with
      saveConfig := false
      fsyncConfig := s.todoBeforeSleep.fsyncConfig && !doFsync }
    saved := some (clusterGenNodesDescription s) }

section Env

variable (env : ClusterEnv)

/-! ### Creation and failure reports -/

/-- The node `createClusterNode` returns. -/
def newClusterNode (r : Ref) (nodename : Option NodeName) (flags : NodeFlags) : ClusterNode where
  ctime := env.mstime
  name := nodename.getD (env.randomHexChars r)
  flags := flags
  configEpoch := 0
  slots := fun _ => false
  numslots := 0
  slaves := []
  slaveof := none
  pingSent := 0
  pongReceived := 0
  failTime := 0
  votedTime := 0
  replOffsetTime := 0
  orphanedTime := 0
  replOffset := 0
  ip := ""
  port := 0
  link := none
  failReports := []

/-- `createClusterNode`. -/
def createClusterNode (nodename : Option NodeName) (flags : NodeFlags) : ClusterM Ref := do
  let s ← get
  modify fun s => s.alloc (newClusterNode env s.nextRef nodename flags)
  return s.nextRef

/-- The first report of `sender` gets a new time. -/
def refreshReport (sender : Ref) (now : Int) : List ClusterNodeFailReport → List ClusterNodeFailReport
  | [] => []
  | fr :: frs => if fr.node = sender then { fr with time := now } :: frs
      else fr :: refreshReport sender now frs

/-- `clusterNodeAddFailureReport`. -/
def clusterNodeAddFailureReport (failing sender : Ref) : ClusterM Bool := do
  let n ← getNode failing
  if n.failReports.any fun fr => fr.node = sender then do
    modifyNode failing fun n => { n with failReports := refreshReport sender env.mstime n.failReports }
    return false
  else do
    modifyNode failing fun n =>
      { n with failReports := n.failReports ++ [{ node := sender, time := env.mstime }] }
    return true

def CLUSTER_FAIL_REPORT_VALIDITY_MULT : Int := 2

/-- `clusterNodeCleanupFailureReports`. -/
def clusterNodeCleanupFailureReports (node : Ref) : ClusterM Unit :=
  modifyNode node fun n => { n with
    failReports := n.failReports.filter fun fr =>
      ¬ (env.mstime - fr.time > env.clusterNodeTimeout * CLUSTER_FAIL_REPORT_VALIDITY_MULT) }

/-- `clusterNodeDelFailureReport`. -/
def clusterNodeDelFailureReport (node sender : Ref) : ClusterM Bool := do
  let n ← getNode node
  if n.failReports.any fun fr => fr.node = sender then do
    modifyNode node fun n => { n with failReports := n.failReports.eraseP fun fr => fr.node = sender }
    clusterNodeCleanupFailureReports env node
    return true
  else
    return false

/-- `clusterNodeFailureReportsCount`. -/
def clusterNodeFailureReportsCount (node : Ref) : ClusterM Nat := do
  clusterNodeCleanupFailureReports env node
  let n ← getNode node
  return n.failReports.length

/-! ### Slaves -/

/-- `clusterNodeRemoveSlave`. -/
def clusterNodeRemoveSlave (master slave : Ref) : ClusterM Bool := do
  let m ← getNode master
  if slave ∈ m.slaves then do
    modifyNode master fun m => { m with
      slaves := m.slaves.erase slave
      flags := { m.flags with migrateTo := m.flags.migrateTo && (m.slaves.erase slave != []) } }
    return true
  else
    return false

/-- `clusterNodeAddSlave`. -/
def clusterNodeAddSlave (master slave : Ref) : ClusterM Bool := do
  let m ← getNode master
  if slave ∈ m.slaves then
    return false
  else do
    modifyNode master fun m => { m with
      slaves := m.slaves ++ [slave]
      flags := { m.flags with migrateTo := true } }
    return true

/-- `clusterCountNonFailingSlaves`. -/
def clusterCountNonFailingSlaves (n : ClusterNode) : ClusterM Nat := do
  let slaves ← getNodes n.slaves
  return (slaves.filter fun s => !s.flags.fail).length

/-! ### The slot tables -/

/-- `clusterMastersHaveSlaves`. -/
def clusterMastersHaveSlaves (s : ClusterState) : Bool :=
  (s.tableNodes.filter fun n => !n.flags.slave).foldl (fun slaves n => slaves + n.slaves.length) 0 ≠ 0

/-- `clusterNodeSetSlotBit`. -/
def clusterNodeSetSlotBit (n : Ref) (slot : Slot) : ClusterM Bool := do
  let node ← getNode n
  let s ← get
  let old := node.slots slot
  if old then
    return old
  else do
    modifyNode n fun node => { node with
      slots := fun j => if j = slot then true else node.slots j
      numslots := node.numslots + 1
      flags := { node.flags with
        migrateTo := node.flags.migrateTo ||
          (node.numslots + 1 == 1 && clusterMastersHaveSlaves s) } }
    return old

/-- `clusterNodeClearSlotBit`. -/
def clusterNodeClearSlotBit (n : Ref) (slot : Slot) : ClusterM Bool := do
  let node ← getNode n
  let old := node.slots slot
  modifyNode n fun node => { node with
    slots := fun j => if j = slot then false else node.slots j
    numslots := if node.slots slot then node.numslots - 1 else node.numslots }
  return old

/-- `clusterAddSlot`: false is `C_ERR`. -/
def clusterAddSlot (n : Ref) (slot : Slot) : ClusterM Bool := do
  let s ← get
  if (s.slots slot).isSome then
    return false
  else do
    let _ ← clusterNodeSetSlotBit n slot
    modify fun s => { s with slots := fun j => if j = slot then some n else s.slots j }
    return true

/-- `clusterDelSlot`: false is `C_ERR`. -/
def clusterDelSlot (slot : Slot) : ClusterM Bool := do
  match (← get).slots slot with
  | none => return false
  | some n => do
      let old ← clusterNodeClearSlotBit n slot
      serverAssert .clearSlotBit (old = true)
      modify fun s => { s with slots := fun j => if j = slot then none else s.slots j }
      return true

/-- `clusterDelNodeSlots`. -/
def clusterDelNodeSlots (n : Ref) : ClusterM Unit :=
  allSlots.forM fun j => do
    let node ← getNode n
    whenDo (node.slots j = true) (discard (clusterDelSlot j))

/-- `clusterCloseAllSlots`. -/
def clusterCloseAllSlots : ClusterM Unit :=
  modify fun s => { s with migratingSlotsTo := fun _ => none, importingSlotsFrom := fun _ => none }

/-! ### The node table -/

/-- `clusterAddNode`: false is `C_ERR`. -/
def clusterAddNode (r : Ref) : ClusterM Bool := do
  let n ← getNode r
  let s ← get
  if (s.clusterLookupNode n.name).isSome then
    return false
  else do
    modify fun s => s.nodesAdd n.name r
    return true

/-- `freeClusterNode`. -/
def freeClusterNode (r : Ref) : ClusterM Unit := do
  let n ← getNode r
  n.slaves.forM fun s => modifyNode s fun x => { x with slaveof := none }
  let n ← getNode r
  whenDo (n.flags.slave = true)
    (ifSome n.slaveof fun m => discard (clusterNodeRemoveSlave m r))
  let s ← get
  serverAssert .unlinkNode ((s.clusterLookupNode n.name).isSome = true)
  modify fun s => (s.nodesDelete n.name).free r

/-- The loop over the slots in `clusterDelNode`. -/
def clusterDelNodeSlot (delnode : Ref) (j : Slot) : ClusterM Unit := do
  modify fun s => { s with
    importingSlotsFrom := fun i =>
      if i = j ∧ s.importingSlotsFrom i = some delnode then none else s.importingSlotsFrom i
    migratingSlotsTo := fun i =>
      if i = j ∧ s.migratingSlotsTo i = some delnode then none else s.migratingSlotsTo i }
  let s ← get
  whenDo (s.slots j = some delnode) (discard (clusterDelSlot j))

/-- `clusterDelNode`. -/
def clusterDelNode (delnode : Ref) : ClusterM Unit := do
  allSlots.forM (clusterDelNodeSlot delnode)
  let s ← get
  s.nodeRefs.forM fun r => whenDo (r ≠ delnode) (discard (clusterNodeDelFailureReport env r delnode))
  freeClusterNode delnode

/-- `clusterRenameNode`. -/
def clusterRenameNode (r : Ref) (newname : NodeName) : ClusterM Unit := do
  let n ← getNode r
  let s ← get
  serverAssert .renameNode ((s.clusterLookupNode n.name).isSome = true)
  modify fun s => s.nodesDelete n.name
  modifyNode r fun n => { n with name := newname }
  discard (clusterAddNode r)

/-! ### Roles -/

/-- `clusterSetNodeAsMaster`. -/
def clusterSetNodeAsMaster (r : Ref) : ClusterM Unit := do
  let n ← getNode r
  if n.flags.master then
    return ()
  else do
    ifSome n.slaveof fun m => do
      let _ ← clusterNodeRemoveSlave m r
      let s ← get
      whenDo (r ≠ s.myself) (modifyNode r fun n => { n with flags := { n.flags with migrateTo := true } })
    modifyNode r fun n => { n with
      flags := { n.flags with slave := false, master := true }
      slaveof := none }
    clusterDoBeforeSleep { saveConfig := true, updateState := true }

/-- The part of `clusterSetMaster` where this node stops being a master, or leaves the
    master it has. -/
def clusterLeaveRole (myself : Ref) (me : ClusterNode) : ClusterM Unit :=
  if me.flags.master then do
    modifyNode myself fun me => { me with
      flags := { me.flags with master := false, migrateTo := false, slave := true } }
    clusterCloseAllSlots
  else
    ifSome me.slaveof fun m => discard (clusterNodeRemoveSlave m myself)

/-- `clusterSetMaster`. -/
def clusterSetMaster (n : Ref) : ClusterM Unit := do
  let s ← get
  serverAssert .masterIsOther (n ≠ s.myself)
  let me ← getMyself
  serverAssert .masterWithoutSlots (me.numslots = 0)
  clusterLeaveRole s.myself me
  modifyNode s.myself fun me => { me with slaveof := some n }
  let _ ← clusterNodeAddSlave n s.myself
  resetManualFailover

/-! ### Configuration epochs -/

/-- `clusterGetMaxEpoch`. -/
def clusterGetMaxEpoch (s : ClusterState) : Nat :=
  max ((s.tableNodes.map ClusterNode.configEpoch).foldl max 0) s.currentEpoch

/-- The two assignments that give this node a new epoch. -/
def clusterTakeNextEpoch : ClusterM Unit := do
  modify fun s => { s with currentEpoch := s.currentEpoch + 1 }
  let s ← get
  modifyNode s.myself fun me => { me with configEpoch := s.currentEpoch }

/-- `clusterBumpConfigEpochWithoutConsensus`: false is `C_ERR`. -/
def clusterBumpConfigEpochWithoutConsensus : ClusterM Bool := do
  let s ← get
  let me ← getMyself
  if me.configEpoch = 0 ∨ me.configEpoch ≠ clusterGetMaxEpoch s then do
    clusterTakeNextEpoch
    clusterDoBeforeSleep { saveConfig := true, fsyncConfig := true }
    return true
  else
    return false

/-- `clusterHandleConfigEpochCollision`. -/
def clusterHandleConfigEpochCollision (sender : Ref) : ClusterM Unit := do
  let n ← getNode sender
  let me ← getMyself
  if n.configEpoch ≠ me.configEpoch ∨ n.flags.master = false ∨ me.flags.master = false then
    return ()
  else if n.name ≤ me.name then
    -- don't act if the colliding node has a smaller Node ID
    return ()
  else do
    clusterTakeNextEpoch
    clusterSaveConfig true

/-! ### The blacklist -/

def CLUSTER_BLACKLIST_TTL : Int := 60

/-- `clusterBlacklistCleanup`. -/
def clusterBlacklistCleanup : ClusterM Unit :=
  modify fun s => { s with
    nodesBlackList := s.nodesBlackList.filter fun p => ¬ (p.2 < env.unixtime) }

/-- `clusterBlacklistAddNode`. -/
def clusterBlacklistAddNode (r : Ref) : ClusterM Unit := do
  let n ← getNode r
  clusterBlacklistCleanup env
  modify fun s => { s with
    nodesBlackList := (n.name, env.unixtime + CLUSTER_BLACKLIST_TTL) ::
      s.nodesBlackList.filter fun p => p.1 ≠ n.name }

/-- `clusterBlacklistExists`. -/
def clusterBlacklistExists (nodeid : NodeName) : ClusterM Bool := do
  clusterBlacklistCleanup env
  let s ← get
  return s.nodesBlackList.any fun p => p.1 = nodeid

end Env

end Redis
