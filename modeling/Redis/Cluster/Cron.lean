import Redis.Cluster.Command

namespace Redis

/-!
# The cron job, the event loop and the start of a node

* `clusterCron`, `clusterBeforeSleep` — the periodic handlers;
* `clusterInit` — a node started without a configuration file;
* `ClusterEvent`, `clusterHandle` — one event of the loop.
-/

section Env

variable (env : ClusterEnv)

/-! ### `clusterCron` -/

/-- The node timeout, at least one second. -/
def handshakeTimeout : Int := max env.clusterNodeTimeout 1000

/-- "Check if we have disconnected nodes and re-establish the connection." -/
def cronConnect (r : Ref) : ClusterM Unit := do
  let n ← getNode r
  if n.flags.myself ∨ n.flags.noaddr then
    return ()
  else if n.flags.handshake ∧ env.mstime - n.ctime > handshakeTimeout env then
    clusterDelNode env r
  else if n.link.isSome then
    return ()
  else if env.connect n.ip (n.port + CLUSTER_PORT_INCR) = false then
    whenDo (n.pingSent = 0) (modifyNode r fun n => { n with pingSent := env.mstime })
  else do
    modifyNode r fun n => { n with link := some env.mstime }
    clusterSendPing env r (if n.flags.meet then .meet else .ping)
    modifyNode r fun x => { x with
      pingSent := if n.pingSent ≠ 0 then n.pingSent else x.pingSent
      flags := { x.flags with meet := false } }

/-- The better of two nodes to ping: the one with the oldest pong. -/
def olderPong (best : Option (Ref × ClusterNode)) (x : Ref × ClusterNode) : Option (Ref × ClusterNode) :=
  if x.2.link = none ∨ x.2.pingSent ≠ 0 ∨ x.2.flags.myself ∨ x.2.flags.handshake then best
  else match best with
    | none => some x
    | some b => if b.2.pongReceived > x.2.pongReceived then some x else best

/-- "Ping some random node 1 time every 10 iterations." -/
def cronPingRandom : ClusterM Unit := do
  let s ← get
  let picks := (List.range 5).filterMap fun k => do
    let p ← s.nodes[env.randomKey s.outbox.length k % s.nodes.length]?
    let n ← s.heap p.2
    return (p.2, n)
  whenDo (env.iteration % 10 = 0)
    (ifSome (picks.foldl olderPong none) fun x => clusterSendPing env x.1 .ping)

/-- The variables of the last loop of `clusterCron`. -/
structure CronScan where
  orphanedMasters : Nat := 0
  maxSlaves : Nat := 0
  thisSlaves : Nat := 0
  updateState : Bool := false

/-- "Orphaned master check, useful only if the current instance is a slave". -/
def cronOrphans (acc : CronScan) (r : Ref) (n : ClusterNode) : ClusterM CronScan := do
  let me ← getMyself
  if me.flags.slave ∧ n.flags.master ∧ n.flags.fail = false then do
    let okslaves ← clusterCountNonFailingSlaves n
    return { acc with
      orphanedMasters :=
        if okslaves = 0 ∧ n.numslots > 0 ∧ n.flags.migrateTo then acc.orphanedMasters + 1
        else acc.orphanedMasters
      maxSlaves := max acc.maxSlaves okslaves
      thisSlaves := if me.slaveof = some r then okslaves else acc.thisSlaves }
  else
    return acc

/-- The end of one iteration of the last loop of `clusterCron`. -/
def cronPing (acc : CronScan) (r : Ref) : ClusterM CronScan := do
  let s ← get
  let n ← getNode r
  let me ← getMyself
  if n.link.isSome ∧ n.pingSent = 0 ∧ env.mstime - n.pongReceived > env.clusterNodeTimeout / 2 then do
    clusterSendPing env r .ping
    return acc
  else if s.mfEnd ≠ 0 ∧ me.flags.master ∧ s.mfSlave = some r ∧ n.link.isSome then do
    clusterSendPing env r .ping
    return acc
  else if n.pingSent = 0 then
    return acc
  else if env.mstime - n.pingSent > env.clusterNodeTimeout ∧ ¬ (n.flags.pfail ∨ n.flags.fail) then do
    modifyNode r fun n => { n with flags := { n.flags with pfail := true } }
    return { acc with updateState := true }
  else
    return acc

/-- "Iterate nodes to check if we need to flag something as failing." -/
def cronCheck (acc : CronScan) (r : Ref) : ClusterM CronScan := do
  let n ← getNode r
  if n.flags.myself ∨ n.flags.noaddr ∨ n.flags.handshake then
    return acc
  else do
    let acc ← cronOrphans acc r n
    whenDo (n.link.any (fun ctime => env.mstime - ctime > env.clusterNodeTimeout) = true ∧
        n.pingSent ≠ 0 ∧ n.pongReceived < n.pingSent ∧
        env.mstime - n.pingSent > env.clusterNodeTimeout / 2)
      (modifyNode r fun n => { n with link := none })
    cronPing env acc r

/-- The part of `clusterCron` for slaves. -/
def cronSlave (scan : CronScan) : ClusterM FailoverOutcome := do
  let me ← getMyself
  if me.flags.slave then do
    clusterHandleManualFailover env
    let outcome ← clusterHandleSlaveFailover env
    whenDo (scan.orphanedMasters ≠ 0 ∧ scan.maxSlaves ≥ 2 ∧ scan.thisSlaves = scan.maxSlaves)
      (clusterHandleSlaveMigration env scan.maxSlaves)
    return outcome
  else
    return .idle

/-- `clusterCron`. -/
def clusterCron : ClusterM FailoverOutcome := do
  let s ← get
  s.nodeRefs.forM (cronConnect env)
  cronPingRandom env
  let s ← get
  let scan ← s.nodeRefs.foldlM (cronCheck env) {}
  let me ← getMyself
  whenDo (me.flags.slave = true ∧ env.masterhost = false) (ifSome me.slaveof fun m => discard (getNode m))
  manualFailoverCheckTimeout env
  let outcome ← cronSlave env scan
  let s ← get
  whenDo (scan.updateState = true ∨ s.state = .fail) (clusterUpdateState env)
  return outcome

/-! ### `clusterBeforeSleep` -/

/-- `if (todo & CLUSTER_TODO_HANDLE_FAILOVER) clusterHandleSlaveFailover();` -/
def sleepFailover (todo : ClusterTodo) : ClusterM FailoverOutcome :=
  if todo.handleFailover then clusterHandleSlaveFailover env else return .idle

/-- `clusterBeforeSleep`. -/
def clusterBeforeSleep : ClusterM FailoverOutcome := do
  let s ← get
  let outcome ← sleepFailover env s.todoBeforeSleep
  let s ← get
  whenDo (s.todoBeforeSleep.updateState = true) (clusterUpdateState env)
  let s ← get
  whenDo (s.todoBeforeSleep.saveConfig = true) (clusterSaveConfig s.todoBeforeSleep.fsyncConfig)
  modify fun s => { s with todoBeforeSleep := {} }
  return outcome

/-! ### Start -/

/-- `clusterInit` up to the call of `clusterLoadConfig`. -/
def emptyClusterState : ClusterState where
  myself := 0
  currentEpoch := 0
  state := .fail
  size := 1
  nodes := []
  nodesBlackList := []
  migratingSlotsTo := fun _ => none
  importingSlotsFrom := fun _ => none
  slots := fun _ => none
  failoverAuthTime := 0
  failoverAuthCount := 0
  failoverAuthSent := false
  failoverAuthRank := 0
  failoverAuthEpoch := 0
  cantFailoverReason := .none
  mfEnd := 0
  mfSlave := none
  mfMasterOffset := 0
  mfCanStart := false
  lastVoteEpoch := 0
  todoBeforeSleep := {}
  heap := fun _ => none
  nextRef := 0
  outbox := []
  saved := none
  amongMinorityTime := 0
  firstCallTime := 0

/-- The node a fresh process creates for itself. -/
def freshMyself : ClusterNode :=
  { newClusterNode env 0 none { myself := true, master := true } with port := env.port }

/-- `clusterInit` without a configuration file. -/
def clusterInit : ClusterState :=
  let s := { emptyClusterState with
    heap := fun r => if r = 0 then some (freshMyself env) else none
    nextRef := 1
    nodes := [((freshMyself env).name, 0)] }
  { s with saved := some (clusterGenNodesDescription s) }

/-! ### Events -/

/-- The events of the loop: a packet on a link, a command of a client, the timer, the end
    of an iteration. -/
inductive ClusterEvent
  | packet (link : Option Ref) (hdr : ClusterMsg)
  | command (c : ClusterCommand)
  | cron
  | beforeSleep

/-- The handler of an event, with the outcome of the election it may carry on. -/
def clusterHandle : ClusterEvent → ClusterM FailoverOutcome
  | .packet link hdr => do
      discard (clusterProcessPacket env link hdr)
      return .idle
  | .command c => do
      discard (clusterCommand env c)
      return .idle
  | .cron => clusterCron env
  | .beforeSleep => clusterBeforeSleep env

end Env

end Redis
