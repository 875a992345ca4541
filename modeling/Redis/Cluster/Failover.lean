import Redis.Cluster.Message

namespace Redis

/-!
# Elections, failover and slave migration

* `clusterUpdateState` — the state and size of the cluster;
* `clusterSendFailoverAuthIfNeeded` — the vote of a master;
* `clusterHandleSlaveFailover` — the election of a slave, with
  `clusterFailoverReplaceYourMaster` for the winner;
* `clusterHandleSlaveMigration` — a slave moves to an orphaned master;
* `manualFailoverCheckTimeout`, `clusterHandleManualFailover` — manual failovers.
-/

section Env

variable (env : ClusterEnv)

/-! ### The state of the cluster -/

def CLUSTER_MAX_REJOIN_DELAY : Int := 5000
def CLUSTER_MIN_REJOIN_DELAY : Int := 500
def CLUSTER_WRITABLE_DELAY : Int := 2000

/-- The slot is unassigned or its owner is in `FAIL` state. -/
def slotNotServed (s : ClusterState) (j : Slot) : Bool :=
  match (s.slots j).bind s.heap with
  | none => true
  | some n => n.flags.fail

/-- The masters serving at least one slot. -/
def servingMasters (s : ClusterState) : List ClusterNode :=
  s.tableNodes.filter fun n => n.flags.master && n.numslots != 0

/-- The last part of `clusterUpdateState`. -/
def clusterChangeState (newState : ClusterHealth) (me : ClusterNode) : ClusterM Unit := do
  let s ← get
  let rejoinDelay := max (min env.clusterNodeTimeout CLUSTER_MAX_REJOIN_DELAY) CLUSTER_MIN_REJOIN_DELAY
  whenDo (newState ≠ s.state ∧ ¬ (newState = .ok ∧ me.flags.master = true ∧
      env.mstime - s.amongMinorityTime < rejoinDelay))
    (modify fun s => { s with state := newState })

/-- `clusterUpdateState`. -/
def clusterUpdateState : ClusterM Unit := do
  modify fun s => { s with
    todoBeforeSleep := { s.todoBeforeSleep with updateState := false }
    firstCallTime := if s.firstCallTime = 0 then env.mstime else s.firstCallTime }
  let s ← get
  let me ← getMyself
  if me.flags.master ∧ s.state = .fail ∧ env.mstime - s.firstCallTime < CLUSTER_WRITABLE_DELAY then
    return ()
  else do
    let uncovered := env.clusterRequireFullCoverage && allSlots.any (slotNotServed s)
    let size := (servingMasters s).length
    let reachableMasters := ((servingMasters s).filter fun n => !n.flags.fail && !n.flags.pfail).length
    let minority : Bool := reachableMasters < size / 2 + 1
    modify fun s => { s with
      size := size
      amongMinorityTime := if minority then env.mstime else s.amongMinorityTime }
    clusterChangeState env (if uncovered || minority then .fail else .ok) me

/-! ### Votes -/

/-- The owner of the slot has a greater configuration epoch than `e`. -/
def slotEpochAbove (s : ClusterState) (e : Nat) (j : Slot) : Bool :=
  match (s.slots j).bind s.heap with
  | none => false
  | some n => n.configEpoch > e

/-- `clusterSendFailoverAuthIfNeeded`. -/
def clusterSendFailoverAuthIfNeeded (node : Ref) (request : ClusterMsg) : ClusterM Unit := do
  let s ← get
  let me ← getMyself
  let n ← getNode node
  if me.flags.slave ∨ me.numslots = 0 then
    return ()
  else if request.currentEpoch < s.currentEpoch then
    return ()
  else if s.lastVoteEpoch = s.currentEpoch then
    -- I already voted for this epoch
    return ()
  else if n.flags.master then
    return ()
  else match n.slaveof with
    | none => return ()
    | some m => do
        let master ← getNode m
        if master.flags.fail = false ∧ request.forceack = false then
          return ()
        else if env.mstime - master.votedTime < env.clusterNodeTimeout * 2 then
          return ()
        else if allSlots.any fun j => request.myslots j && slotEpochAbove s request.configEpoch j then
          return ()
        else do
          clusterSendFailoverAuth env n
          modify fun s => { s with lastVoteEpoch := s.currentEpoch }
          modifyNode m fun master => { master with votedTime := env.mstime }

/-! ### The election of a slave -/

/-- `clusterGetSlaveRank`. -/
def clusterGetSlaveRank : ClusterM Nat := do
  let s ← get
  let me ← getMyself
  serverAssert .rankOfSlave (me.flags.slave = true)
  match me.slaveof with
  | none => return 0
  | some m => do
      let master ← getNode m
      let slaves ← getNodes (master.slaves.filter fun r => r ≠ s.myself)
      return (slaves.filter fun n => n.replOffset > env.replicationGetSlaveOffset).length

/-- `clusterLogCantFailover`. -/
def clusterLogCantFailover (reason : CantFailoverReason) : ClusterM Unit :=
  modify fun s => { s with cantFailoverReason := reason }

/-- The loop of `clusterFailoverReplaceYourMaster`. -/
def clusterClaimSlot (oldmaster myself : Ref) (j : Slot) : ClusterM Unit := do
  let old ← getNode oldmaster
  whenDo (old.slots j = true) do
    discard (clusterDelSlot j)
    discard (clusterAddSlot myself j)

/-- `clusterFailoverReplaceYourMaster`. -/
def clusterFailoverReplaceYourMaster : ClusterM Unit := do
  let s ← get
  let me ← getMyself
  match me.slaveof with
  | none => return ()
  | some oldmaster =>
      if me.flags.master then
        return ()
      else do
        clusterSetNodeAsMaster s.myself
        allSlots.forM (clusterClaimSlot oldmaster s.myself)
        clusterUpdateState env
        clusterSaveConfig true
        clusterBroadcastPong env .all
        resetManualFailover

/-- What a call of `clusterHandleSlaveFailover` has done. -/
inductive FailoverOutcome
  | idle
  | scheduled
  | requested
  | won
  deriving DecidableEq, Repr

/-- Set up a new election. -/
def failoverSchedule : ClusterM FailoverOutcome := do
  modify fun s => { s with
    failoverAuthTime := env.mstime + 500 + (env.random % 500 : Nat)
    failoverAuthCount := 0
    failoverAuthSent := false }
  let rank ← clusterGetSlaveRank env
  modify fun s => { s with
    failoverAuthTime := if s.mfEnd ≠ 0 then env.mstime else s.failoverAuthTime + rank * 1000
    failoverAuthRank := if s.mfEnd ≠ 0 then 0 else rank }
  clusterBroadcastPong env .localSlaves
  return .scheduled

/-- Update the delay if our rank changed. -/
def failoverUpdateRank : ClusterM Unit := do
  let s ← get
  whenDo (s.failoverAuthSent = false ∧ s.mfEnd = 0) do
    let newrank ← clusterGetSlaveRank env
    whenDo (newrank > s.failoverAuthRank) (modify fun s => { s with
      failoverAuthTime := s.failoverAuthTime + (newrank - s.failoverAuthRank : Nat) * 1000
      failoverAuthRank := newrank })

/-- Ask for votes. -/
def failoverRequest : ClusterM FailoverOutcome := do
  modify fun s => { s with currentEpoch := s.currentEpoch + 1, failoverAuthEpoch := s.currentEpoch + 1 }
  clusterRequestFailoverAuth env
  modify fun s => { s with failoverAuthSent := true }
  clusterDoBeforeSleep { saveConfig := true, updateState := true, fsyncConfig := true }
  return .requested

/-- The winning branch. -/
def failoverWin : ClusterM FailoverOutcome := do
  let s ← get
  let me ← getMyself
  whenDo (me.configEpoch < s.failoverAuthEpoch)
    (modifyNode s.myself fun me => { me with configEpoch := s.failoverAuthEpoch })
  clusterFailoverReplaceYourMaster env
  return .won

/-- The part of `clusterHandleSlaveFailover` after the election has been set up. -/
def failoverAttempt (authAge authTimeout : Int) (neededQuorum : Nat) : ClusterM FailoverOutcome := do
  failoverUpdateRank env
  let s ← get
  if env.mstime < s.failoverAuthTime then do
    clusterLogCantFailover .waitingDelay
    return .idle
  else if authAge > authTimeout then do
    clusterLogCantFailover .expired
    return .idle
  else if s.failoverAuthSent = false then
    failoverRequest env
  else if s.failoverAuthCount ≥ neededQuorum then
    failoverWin env
  else do
    clusterLogCantFailover .waitingVotes
    return .idle

/-- The data of the slave is too old for the validity factor. -/
def dataTooOld : Prop :=
  let age := env.replicationSilence * 1000
  let age := if age > env.clusterNodeTimeout then age - env.clusterNodeTimeout else age
  env.clusterSlaveValidityFactor ≠ 0 ∧
    age > env.replPingSlavePeriod * 1000 + env.clusterNodeTimeout * env.clusterSlaveValidityFactor

instance : Decidable (dataTooOld env) := inferInstanceAs (Decidable (_ ∧ _))

/-- There is no reason to fail over. -/
def failoverNoReason : ClusterM FailoverOutcome := do
  modify fun s => { s with cantFailoverReason := .none }
  return .idle

/-- `clusterHandleSlaveFailover`. -/
def clusterHandleSlaveFailover : ClusterM FailoverOutcome := do
  modify fun s => { s with todoBeforeSleep := { s.todoBeforeSleep with handleFailover := false } }
  let s ← get
  let me ← getMyself
  let manualFailover : Bool := s.mfEnd ≠ 0 ∧ s.mfCanStart = true
  let authAge := env.mstime - s.failoverAuthTime
  let authTimeout := max (env.clusterNodeTimeout * 2) 2000
  if me.flags.master then
    failoverNoReason
  else match me.slaveof with
    | none => failoverNoReason
    | some m => do
        let master ← getNode m
        if (master.flags.fail = false ∧ manualFailover = false) ∨ master.numslots = 0 then
          failoverNoReason
        else if dataTooOld env ∧ manualFailover = false then do
          clusterLogCantFailover .dataAge
          return .idle
        else if authAge > authTimeout * 2 then
          failoverSchedule env
        else
          failoverAttempt env authAge authTimeout (s.size / 2 + 1)

/-! ### Slave migration -/

def CLUSTER_SLAVE_MIGRATION_DELAY : Int := 5000

/-- The variables of the loop in `clusterHandleSlaveMigration`. -/
structure MigrationScan where
  target : Option Ref
  candidate : Ref

/-- The slave with the smaller node ID. -/
def smallerSlave (candidate slave : Ref) : ClusterM Ref := do
  let c ← getNode candidate
  let n ← getNode slave
  return if n.name < c.name then slave else candidate

/-- The number of working slaves of a master. -/
def okSlaves (node : ClusterNode) : ClusterM Nat :=
  if node.flags.master then clusterCountNonFailingSlaves node else return 0

/-- One iteration of the loop in `clusterHandleSlaveMigration`. -/
def migrationScan (maxSlaves : Nat) (acc : MigrationScan) (r : Ref) : ClusterM MigrationScan := do
  let node ← getNode r
  let okslaves ← okSlaves node
  let orphaned : Bool := !node.flags.slave && !node.flags.fail && node.flags.migrateTo && okslaves == 0
  modifyNode r fun n => { n with
    orphanedTime :=
      if orphaned then if n.orphanedTime = 0 then env.mstime else n.orphanedTime else 0 }
  let candidate ←
    (if okslaves = maxSlaves then node.slaves else []).foldlM smallerSlave acc.candidate
  return {
    target := if orphaned ∧ acc.target = none ∧ node.numslots > 0 then some r else acc.target
    candidate := candidate }

/-- The last step of `clusterHandleSlaveMigration`. -/
def migrateTo (scan : MigrationScan) : ClusterM Unit := do
  let s ← get
  ifSome scan.target fun t => do
    let n ← getNode t
    whenDo (scan.candidate = s.myself ∧ env.mstime - n.orphanedTime > CLUSTER_SLAVE_MIGRATION_DELAY)
      (clusterSetMaster t)

/-- `clusterHandleSlaveMigration`. -/
def clusterHandleSlaveMigration (maxSlaves : Nat) : ClusterM Unit := do
  let s ← get
  let me ← getMyself
  if s.state ≠ .ok then
    return ()
  else match me.slaveof with
    | none => return ()
    | some m => do
        let mymaster ← getNode m
        let slaves ← getNodes mymaster.slaves
        if (slaves.filter fun n => !n.flags.fail && !n.flags.pfail).length
            ≤ env.clusterMigrationBarrier then
          return ()
        else do
          let scan ← s.nodeRefs.foldlM (migrationScan env maxSlaves)
            { target := none, candidate := s.myself }
          migrateTo env scan

/-! ### Manual failover -/

def CLUSTER_MF_TIMEOUT : Int := 5000

/-- `manualFailoverCheckTimeout`. -/
def manualFailoverCheckTimeout : ClusterM Unit := do
  let s ← get
  whenDo (s.mfEnd ≠ 0 ∧ s.mfEnd < env.mstime) resetManualFailover

/-- `clusterHandleManualFailover`. -/
def clusterHandleManualFailover : ClusterM Unit := do
  let s ← get
  whenDo (s.mfEnd ≠ 0 ∧ s.mfCanStart = false ∧ s.mfMasterOffset ≠ 0 ∧
      s.mfMasterOffset = env.replicationGetSlaveOffset)
    (modify fun s => { s with mfCanStart := true })

end Env

end Redis
