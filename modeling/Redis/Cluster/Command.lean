import Redis.Cluster.Packet

namespace Redis

/-!
# The `CLUSTER` command

* `ClusterCommand`, `ClusterReply` — the subcommands that may change the state, with their
  arguments as integers and names, and the replies;
* `clusterSlotsCommand`, `clusterSetslot` — slots by hand;
* `clusterReset` — `CLUSTER RESET`;
* `clusterCommand` — the dispatch.
-/

/-- The actions of `CLUSTER SETSLOT`. -/
inductive SetslotAction
  | migrating (node : NodeName)
  | importing (node : NodeName)
  | stable
  | node (node : NodeName)

/-- The options of `CLUSTER FAILOVER`. -/
inductive FailoverOption
  | none
  | force
  | takeover
  deriving DecidableEq, Repr

/-- The subcommands; `query` stands for those that only report. -/
inductive ClusterCommand
  | meet (ip : String) (port : Int)
  | flushslots
  | addslots (slots : List Int)
  | delslots (slots : List Int)
  | setslot (slot : Int) (action : SetslotAction)
  | bumpepoch
  | saveconfig
  | forget (node : NodeName)
  | replicate (node : NodeName)
  | countFailureReports (node : NodeName)
  | failover (option : FailoverOption)
  | setConfigEpoch (epoch : Int)
  | reset (hard : Bool)
  | query

/-- The error replies. -/
inductive ClusterError
  | invalidAddress
  | dbNotEmpty
  | invalidSlot
  | slotUnassigned (slot : Slot)
  | slotBusy (slot : Slot)
  | slotRepeated (slot : Slot)
  | setslotOnSlave
  | notOwner (slot : Slot)
  | alreadyOwner (slot : Slot)
  | unknownNode
  | keysInSlot (slot : Slot)
  | forgetMyself
  | forgetMaster
  | replicateMyself
  | replicateSlave
  | notEmpty
  | failoverOnMaster
  | masterUnknown
  | masterDown
  | invalidEpoch (epoch : Int)
  | knowsOthers
  | epochSet
  | resetWithKeys
  deriving DecidableEq, Repr

/-- The texts of `addReplyError`; the names and addresses that some of them end with are
    left out. -/
def ClusterError.text : ClusterError → String
  | .invalidAddress => "Invalid node address specified"
  | .dbNotEmpty => "DB must be empty to perform CLUSTER FLUSHSLOTS."
  | .invalidSlot => "Invalid or out of range slot"
  | .slotUnassigned slot => s!"Slot {slot} is already unassigned"
  | .slotBusy slot => s!"Slot {slot} is already busy"
  | .slotRepeated slot => s!"Slot {slot} specified multiple times"
  | .setslotOnSlave => "Please use SETSLOT only with masters."
  | .notOwner slot => s!"I'm not the owner of hash slot {slot}"
  | .alreadyOwner slot => s!"I'm already the owner of hash slot {slot}"
  | .unknownNode => "Unknown node"
  | .keysInSlot slot => s!"Can't assign hashslot {slot} to a different node while I still hold keys for this hash slot."
  | .forgetMyself => "I tried hard but I can't forget myself..."
  | .forgetMaster => "Can't forget my master!"
  | .replicateMyself => "Can't replicate myself"
  | .replicateSlave => "I can only replicate a master, not a slave."
  | .notEmpty => "To set a master the node must be empty and without assigned slots."
  | .failoverOnMaster => "You should send CLUSTER FAILOVER to a slave"
  | .masterUnknown => "I'm a slave but my master is unknown to me"
  | .masterDown => "Master is down or failed, please use CLUSTER FAILOVER FORCE"
  | .invalidEpoch epoch => s!"Invalid config epoch specified: {epoch}"
  | .knowsOthers => "The user can assign a config epoch only when the node does not know any other node."
  | .epochSet => "Node config epoch is already non-zero"
  | .resetWithKeys => "CLUSTER RESET can't be called with master nodes containing keys"

/-- The replies. -/
inductive ClusterReply
  | ok
  | error (e : ClusterError)
  | integer (n : Nat)
  | bumped (new : Bool) (epoch : Nat)
  deriving DecidableEq, Repr

section Env

variable (env : ClusterEnv)

/-! ### Slots -/

/-- `getSlotOrReply`. -/
def getSlotOrReply (slot : Int) : Option Slot :=
  if h : 0 ≤ slot ∧ slot < CLUSTER_SLOTS then some ⟨slot.toNat, by omega⟩ else none

/-- The first loop of `ADDSLOTS` and `DELSLOTS`: the slots that were named. -/
def checkSlots (s : ClusterState) (del : Bool) : List Int → List Slot → Except ClusterError (List Slot)
  | [], named => .ok named
  | arg :: args, named =>
      match getSlotOrReply arg with
      | none => .error .invalidSlot
      | some slot =>
          if del ∧ s.slots slot = none then .error (.slotUnassigned slot)
          else if del = false ∧ (s.slots slot).isSome then .error (.slotBusy slot)
          else if slot ∈ named then .error (.slotRepeated slot)
          else checkSlots s del args (slot :: named)

/-- `del ? clusterDelSlot(j) : clusterAddSlot(myself,j)`. -/
def clusterAddOrDelSlot (del : Bool) (j : Slot) : ClusterM Bool := do
  let s ← get
  if del then clusterDelSlot j else clusterAddSlot s.myself j

/-- The second loop of `ADDSLOTS` and `DELSLOTS`. -/
def clusterApplySlot (del : Bool) (named : List Slot) (j : Slot) : ClusterM Unit :=
  whenDo (j ∈ named) do
    modify fun s => { s with
      importingSlotsFrom := fun i => if i = j then none else s.importingSlotsFrom i }
    let retval ← clusterAddOrDelSlot del j
    serverAssert .slotsCommand (retval = true)

/-- `CLUSTER ADDSLOTS` and `CLUSTER DELSLOTS`. -/
def clusterSlotsCommand (del : Bool) (args : List Int) : ClusterM ClusterReply := do
  let s ← get
  match checkSlots s del args [] with
  | .error e => return .error e
  | .ok named => do
      allSlots.forM (clusterApplySlot del named)
      clusterDoBeforeSleep { updateState := true, saveConfig := true }
      return .ok

/-- `CLUSTER SETSLOT <slot> NODE <node ID>`, once the node is found. -/
def clusterSetslotNode (slot : Slot) (n : Ref) : ClusterM Unit := do
  let s ← get
  whenDo (env.countKeysInSlot slot = 0 ∧ (s.migratingSlotsTo slot).isSome)
    (modify fun s => { s with
      migratingSlotsTo := fun i => if i = slot then none else s.migratingSlotsTo i })
  whenDo (n = s.myself ∧ (s.importingSlotsFrom slot).isSome) do
    discard clusterBumpConfigEpochWithoutConsensus
    modify fun s => { s with
      importingSlotsFrom := fun i => if i = slot then none else s.importingSlotsFrom i }
  discard (clusterDelSlot slot)
  discard (clusterAddSlot n slot)

/-- The actions of `CLUSTER SETSLOT`. -/
def clusterSetslotAction (slot : Slot) (action : SetslotAction) : ClusterM ClusterReply := do
  let s ← get
  match action with
  | .migrating node =>
      if s.slots slot ≠ some s.myself then
        return .error (.notOwner slot)
      else match s.clusterLookupNode node with
        | none => return .error .unknownNode
        | some n => do
            modify fun s => { s with
              migratingSlotsTo := fun i => if i = slot then some n else s.migratingSlotsTo i }
            return .ok
  | .importing node =>
      if s.slots slot = some s.myself then
        return .error (.alreadyOwner slot)
      else match s.clusterLookupNode node with
        | none => return .error .unknownNode
        | some n => do
            modify fun s => { s with
              importingSlotsFrom := fun i => if i = slot then some n else s.importingSlotsFrom i }
            return .ok
  | .stable => do
      modify fun s => { s with
        importingSlotsFrom := fun i => if i = slot then none else s.importingSlotsFrom i
        migratingSlotsTo := fun i => if i = slot then none else s.migratingSlotsTo i }
      return .ok
  | .node node =>
      match s.clusterLookupNode node with
      | none => return .error .unknownNode
      | some n =>
          if s.slots slot = some s.myself ∧ n ≠ s.myself ∧ env.countKeysInSlot slot ≠ 0 then
            return .error (.keysInSlot slot)
          else do
            clusterSetslotNode env slot n
            return .ok

/-- `CLUSTER SETSLOT`. -/
def clusterSetslot (slot : Int) (action : SetslotAction) : ClusterM ClusterReply := do
  let me ← getMyself
  if me.flags.slave then
    return .error .setslotOnSlave
  else match getSlotOrReply slot with
    | none => return .error .invalidSlot
    | some slot => do
        let reply ← clusterSetslotAction env slot action
        whenDo (reply = .ok) (clusterDoBeforeSleep { saveConfig := true, updateState := true })
        return reply

/-! ### Nodes -/

/-- `CLUSTER FORGET`. -/
def clusterForget (node : NodeName) : ClusterM ClusterReply := do
  let s ← get
  let me ← getMyself
  match s.clusterLookupNode node with
  | none => return .error .unknownNode
  | some n =>
      if n = s.myself then
        return .error .forgetMyself
      else if me.flags.slave = true ∧ me.slaveof = some n then
        return .error .forgetMaster
      else do
        clusterBlacklistAddNode env n
        clusterDelNode env n
        clusterDoBeforeSleep { updateState := true, saveConfig := true }
        return .ok

/-- `CLUSTER REPLICATE`. -/
def clusterReplicate (node : NodeName) : ClusterM ClusterReply := do
  let s ← get
  let me ← getMyself
  match s.clusterLookupNode node with
  | none => return .error .unknownNode
  | some n => do
      let master ← getNode n
      if n = s.myself then
        return .error .replicateMyself
      else if master.flags.slave then
        return .error .replicateSlave
      else if me.flags.master = true ∧ (me.numslots ≠ 0 ∨ env.dbSize ≠ 0) then
        return .error .notEmpty
      else do
        clusterSetMaster n
        clusterDoBeforeSleep { updateState := true, saveConfig := true }
        return .ok

/-! ### Failover and epochs -/

/-- `CLUSTER FAILOVER`, once its preconditions hold; `m` is the master. -/
def clusterStartFailover (option : FailoverOption) (m : Ref) : ClusterM Unit := do
  resetManualFailover
  modify fun s => { s with mfEnd := env.mstime + CLUSTER_MF_TIMEOUT }
  match option with
  | .takeover => do
      discard clusterBumpConfigEpochWithoutConsensus
      clusterFailoverReplaceYourMaster env
  | .force => modify fun s => { s with mfCanStart := true }
  | .none => do
      let master ← getNode m
      clusterSendMFStart env master

/-- `CLUSTER FAILOVER`. -/
def clusterFailover (option : FailoverOption) : ClusterM ClusterReply := do
  let me ← getMyself
  if me.flags.master then
    return .error .failoverOnMaster
  else match me.slaveof with
    | none => return .error .masterUnknown
    | some m => do
        let master ← getNode m
        if option = .none ∧ (master.flags.fail = true ∨ master.link = none) then
          return .error .masterDown
        else do
          clusterStartFailover env option m
          return .ok

/-- `CLUSTER SET-CONFIG-EPOCH`. -/
def clusterSetConfigEpoch (epoch : Int) : ClusterM ClusterReply := do
  let s ← get
  let me ← getMyself
  if epoch < 0 then
    return .error (.invalidEpoch epoch)
  else if s.nodes.length > 1 then
    return .error .knowsOthers
  else if me.configEpoch ≠ 0 then
    return .error .epochSet
  else do
    modifyNode s.myself fun me => { me with configEpoch := epoch.toNat }
    modify fun s => { s with currentEpoch := max s.currentEpoch epoch.toNat }
    clusterDoBeforeSleep { updateState := true, saveConfig := true }
    return .ok

/-! ### Reset -/

/-- "Hard reset only: set epochs to 0, change node ID." -/
def clusterHardReset : ClusterM Unit := do
  modify fun s => { s with currentEpoch := 0, lastVoteEpoch := 0 }
  let s ← get
  modifyNode s.myself fun me => { me with configEpoch := 0 }
  let me ← getMyself
  modify fun s => s.nodesDelete me.name
  modifyNode s.myself fun me => { me with name := env.randomHexChars s.myself }
  discard (clusterAddNode s.myself)

/-- `clusterReset`. -/
def clusterReset (hard : Bool) : ClusterM Unit := do
  let s ← get
  let me ← getMyself
  whenDo (me.flags.slave = true) (clusterSetNodeAsMaster s.myself)
  clusterCloseAllSlots
  resetManualFailover
  allSlots.forM fun j => discard (clusterDelSlot j)
  let s ← get
  s.nodeRefs.forM fun r => whenDo (r ≠ s.myself) (clusterDelNode env r)
  whenDo (hard = true) (clusterHardReset env)
  clusterDoBeforeSleep { saveConfig := true, updateState := true, fsyncConfig := true }

/-! ### The dispatch -/

/-- `clusterCommand`. -/
def clusterCommand : ClusterCommand → ClusterM ClusterReply
  | .meet ip port => do
      -- the port is converted to an int
      let result ← clusterStartHandshake env ip (Int.bmod port 4294967296)
      return if result = .invalid then .error .invalidAddress else .ok
  | .flushslots =>
      if env.dbSize ≠ 0 then
        return .error .dbNotEmpty
      else do
        let s ← get
        clusterDelNodeSlots s.myself
        clusterDoBeforeSleep { updateState := true, saveConfig := true }
        return .ok
  | .addslots slots => clusterSlotsCommand false slots
  | .delslots slots => clusterSlotsCommand true slots
  | .setslot slot action => clusterSetslot env slot action
  | .bumpepoch => do
      let new ← clusterBumpConfigEpochWithoutConsensus
      let me ← getMyself
      return .bumped new me.configEpoch
  | .saveconfig => do
      clusterSaveConfig true
      return .ok
  | .forget node => clusterForget env node
  | .replicate node => clusterReplicate env node
  | .countFailureReports node => do
      match (← get).clusterLookupNode node with
      | none => return .error .unknownNode
      | some n => do
          let count ← clusterNodeFailureReportsCount env n
          return .integer count
  | .failover option => clusterFailover env option
  | .setConfigEpoch epoch => clusterSetConfigEpoch epoch
  | .reset hard => do
      let me ← getMyself
      if me.flags.master = true ∧ env.dbSize ≠ 0 then
        return .error .resetWithKeys
      else do
        clusterReset env hard
        return .ok
  | .query => return .ok

end Env

end Redis
