import Redis.Lib.Simulation

namespace Redis

/-!
# The data structures of `cluster.h`

One node of the cluster as seen by its own process: the table of known nodes, the owner
table of the hash slots, the epochs and the state of elections.

* `ClusterNode`, `ClusterState` — `clusterNode` and `clusterState`; nodes live in a heap
  and pointers are `Ref`s that are never handed out twice;
* `ClusterMsg` — a packet whose length has been checked, in host byte order;
* `ClusterEnv` — what a handler reads outside `server.cluster`: the clock, the random
  source, the configuration, the replication and the key space;
* `ClusterM` — handlers: state passing with the faults that end the process.

Epochs are unbounded: a 64 bit counter that only grows by one does not wrap around.
-/

/-! ### Slots, names and flags -/

def CLUSTER_SLOTS : Nat := 16384

abbrev Slot := Fin CLUSTER_SLOTS

/-- `unsigned char slots[CLUSTER_SLOTS/8]`. -/
abbrev SlotBitmap := Slot → Bool

/-- The order of `for (j = 0; j < CLUSTER_SLOTS; j++)`. -/
@[irreducible] def allSlots : List Slot := List.finRange CLUSTER_SLOTS

theorem mem_allSlots (j : Slot) : j ∈ allSlots := by
  unfold allSlots
  exact List.mem_finRange j

theorem nodup_allSlots : allSlots.Nodup := by
  unfold allSlots
  exact List.nodup_finRange CLUSTER_SLOTS

/-- `char name[CLUSTER_NAMELEN]`. -/
abbrev NodeName := List UInt8

def CLUSTER_NODE_NULL_NAME : NodeName := List.replicate 40 0

/-- A pointer to a node. -/
abbrev Ref := Nat

/-- `CLUSTER_NODE_MASTER` … `CLUSTER_NODE_MIGRATE_TO`. -/
structure NodeFlags where
  master : Bool := false
  slave : Bool := false
  pfail : Bool := false
  fail : Bool := false
  myself : Bool := false
  handshake : Bool := false
  noaddr : Bool := false
  meet : Bool := false
  migrateTo : Bool := false
  deriving DecidableEq, Repr

/-- `clusterNodeFailReport`. -/
structure ClusterNodeFailReport where
  node : Ref
  time : Int
  deriving DecidableEq, Repr

/-- `clusterNode`.  Of the link only its creation time is kept; the number of slaves is
    the length of the list. -/
structure ClusterNode where
  ctime : Int
  name : NodeName
  flags : NodeFlags
  configEpoch : Nat
  slots : SlotBitmap
  numslots : Int
  slaves : List Ref
  slaveof : Option Ref
  pingSent : Int
  pongReceived : Int
  failTime : Int
  votedTime : Int
  replOffsetTime : Int
  orphanedTime : Int
  replOffset : Int
  ip : String
  port : Nat
  link : Option Int
  failReports : List ClusterNodeFailReport

/-! ### Messages -/

/-- `clusterMsgDataGossip`. -/
structure ClusterMsgDataGossip where
  nodename : NodeName
  pingSent : Int
  pongReceived : Int
  ip : String
  port : Nat
  flags : NodeFlags
  deriving DecidableEq, Repr

/-- The type of a message and its data. -/
inductive ClusterMsgData
  | ping (gossip : List ClusterMsgDataGossip)
  | pong (gossip : List ClusterMsgDataGossip)
  | meet (gossip : List ClusterMsgDataGossip)
  | fail (nodename : NodeName)
  | publish
  | failoverAuthRequest
  | failoverAuthAck
  | update (configEpoch : Nat) (nodename : NodeName) (slots : SlotBitmap)
  | mfstart

/-- `clusterMsg`; `paused` and `forceack` are the two flags in `mflags[0]`. -/
structure ClusterMsg where
  currentEpoch : Nat
  configEpoch : Nat
  offset : Int
  sender : NodeName
  myslots : SlotBitmap
  slaveof : NodeName
  port : Nat
  flags : NodeFlags
  paused : Bool
  forceack : Bool
  data : ClusterMsgData

/-- A message queued on a link: to the node with that name, or back on the link of the
    packet that is being processed. -/
structure ClusterOutgoing where
  dest : Option NodeName
  msg : ClusterMsg

/-! ### The state -/

/-- `CLUSTER_OK` and `CLUSTER_FAIL`. -/
inductive ClusterHealth
  | ok
  | fail
  deriving DecidableEq, Repr

/-- `CLUSTER_CANT_FAILOVER_NONE` …. -/
inductive CantFailoverReason
  | none
  | dataAge
  | waitingDelay
  | expired
  | waitingVotes
  deriving DecidableEq, Repr

/-- `CLUSTER_TODO_HANDLE_FAILOVER` …. -/
structure ClusterTodo where
  handleFailover : Bool := false
  updateState : Bool := false
  saveConfig : Bool := false
  fsyncConfig : Bool := false
  deriving DecidableEq, Repr

/-- A node line of `nodes.conf`; slots in motion are on the line of `myself`. -/
structure SavedNode where
  name : NodeName
  ip : String
  port : Nat
  flags : NodeFlags
  slaveof : Option NodeName
  pingSent : Int
  pongReceived : Int
  configEpoch : Nat
  slots : SlotBitmap
  migrating : Slot → Option NodeName
  importing : Slot → Option NodeName

/-- The contents of `nodes.conf`. -/
structure SavedConfig where
  nodes : List SavedNode
  currentEpoch : Nat
  lastVoteEpoch : Nat

/-- `clusterState`, with the heap, the messages queued so far and the file last written.
    The last two fields are the static variables of `clusterUpdateState`. -/
structure ClusterState where
  myself : Ref
  currentEpoch : Nat
  state : ClusterHealth
  size : Nat
  nodes : List (NodeName × Ref)
  nodesBlackList : List (NodeName × Int)
  migratingSlotsTo : Slot → Option Ref
  importingSlotsFrom : Slot → Option Ref
  slots : Slot → Option Ref
  failoverAuthTime : Int
  failoverAuthCount : Nat
  failoverAuthSent : Bool
  failoverAuthRank : Nat
  failoverAuthEpoch : Nat
  cantFailoverReason : CantFailoverReason
  mfEnd : Int
  mfSlave : Option Ref
  mfMasterOffset : Int
  mfCanStart : Bool
  lastVoteEpoch : Nat
  todoBeforeSleep : ClusterTodo
  heap : Ref → Option ClusterNode
  nextRef : Ref
  outbox : List ClusterOutgoing
  saved : Option SavedConfig
  amongMinorityTime : Int
  firstCallTime : Int

/-! ### Handlers -/

/-- The assertions of `cluster.c`. -/
inductive ClusterAssertion
  /-- `clusterNodeClearSlotBit(n,slot) == 1` in `clusterDelSlot`. -/
  | clearSlotBit
  /-- `retval == C_OK` in `ADDSLOTS` and `DELSLOTS`. -/
  | slotsCommand
  /-- `dictDelete(server.cluster->nodes,nodename) == DICT_OK` in `freeClusterNode`. -/
  | unlinkNode
  /-- `retval == DICT_OK` in `clusterRenameNode`. -/
  | renameNode
  /-- `nodeFailed(node)` in `clearNodeFailureIfNeeded`. -/
  | nodeFailed
  /-- `nodeIsSlave(myself)` in `clusterGetSlaveRank`. -/
  | rankOfSlave
  /-- `n != myself` in `clusterSetMaster`. -/
  | masterIsOther
  /-- `myself->numslots == 0` in `clusterSetMaster`. -/
  | masterWithoutSlots
  /-- `server.cluster->myself == NULL` in `clusterLoadConfig`. -/
  | loadMyself
  deriving DecidableEq, Repr

/-- What ends the process. -/
inductive ClusterFault
  | assertion (a : ClusterAssertion)
  /-- A null pointer is followed. -/
  | nullPointer
  /-- A pointer to a node that has been freed is followed. -/
  | dangling
  /-- "Unrecoverable error: corrupted cluster config file." -/
  | corruptedConfig
  deriving DecidableEq, Repr

/-- What a handler reads outside `server.cluster`.  The clock stands still while a handler
    runs. -/
structure ClusterEnv where
  mstime : Int
  unixtime : Int
  clusterNodeTimeout : Int
  clusterSlaveValidityFactor : Int
  clusterMigrationBarrier : Nat
  clusterRequireFullCoverage : Bool
  replPingSlavePeriod : Int
  /-- `server.port`. -/
  port : Nat
  random : Nat
  /-- The name `getRandomHexChars` draws for a node. -/
  randomHexChars : Ref → NodeName
  /-- The indices `dictGetRandomKey` picks: the first argument counts the messages queued
      so far, the second the picks for the present one. -/
  randomKey : Nat → Nat → Nat
  /-- `server.masterhost != NULL`. -/
  masterhost : Bool
  /-- How often `clusterCron` has been called. -/
  iteration : Nat
  /-- `server.unixtime` minus `lastinteraction` or `repl_down_since`. -/
  replicationSilence : Int
  replicationGetSlaveOffset : Int
  masterReplOffset : Int
  /-- The number of keys in the database. -/
  dbSize : Nat
  countKeysInSlot : Slot → Nat
  /-- `nodeIp2String(buf,link)`. -/
  peerIp : String
  /-- `anetSockName(link->fd,...)`. -/
  sockName : Option String
  /-- `inet_pton` and `inet_ntop`: the normalized address, if it is one. -/
  normalizeIp : String → Option String
  /-- Whether `anetTcpNonBlockBindConnect` succeeds at once. -/
  connect : String → Nat → Bool

/-- Handlers. -/
abbrev ClusterM := StateT ClusterState (Except ClusterFault)

/-- `if (c) m;` -/
def whenDo (c : Prop) [Decidable c] (m : ClusterM Unit) : ClusterM Unit := if c then m else pure ()

/-- `serverAssert(c)`. -/
def serverAssert (a : ClusterAssertion) (c : Prop) [Decidable c] : ClusterM Unit :=
  if c then pure () else throw (.assertion a)

/-- `*r`. -/
def getNode (r : Ref) : ClusterM ClusterNode := do
  match (← get).heap r with
  | some n => pure n
  | none => throw .dangling

namespace ClusterState

/-- Change the node `r`. -/
def updateNode (s : ClusterState) (r : Ref) (f : ClusterNode → ClusterNode) : ClusterState :=
  { s with heap := fun x => if x = r then (s.heap x).map f else s.heap x }

/-- `clusterLookupNode`. -/
def clusterLookupNode (s : ClusterState) (name : NodeName) : Option Ref :=
  (s.nodes.find? fun p => p.1 = name).map Prod.snd

/-- The nodes in the order of an iteration. -/
def nodeRefs (s : ClusterState) : List Ref := s.nodes.map Prod.snd

end ClusterState

/-- Assignments through `r`. -/
def modifyNode (r : Ref) (f : ClusterNode → ClusterNode) : ClusterM Unit := do
  let _ ← getNode r
  modify fun s => s.updateNode r f

/-- `*myself`. -/
def getMyself : ClusterM ClusterNode := do
  let s ← get
  getNode s.myself

/-- `clusterDoBeforeSleep`. -/
def clusterDoBeforeSleep (flags : ClusterTodo) : ClusterM Unit :=
  modify fun s => { s with todoBeforeSleep := {
    handleFailover := s.todoBeforeSleep.handleFailover || flags.handleFailover
    updateState := s.todoBeforeSleep.updateState || flags.updateState
    saveConfig := s.todoBeforeSleep.saveConfig || flags.saveConfig
    fsyncConfig := s.todoBeforeSleep.fsyncConfig || flags.fsyncConfig } }

end Redis
