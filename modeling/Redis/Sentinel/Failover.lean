import Redis.Sentinel.Vote

namespace Redis.Sentinel

/-!
# Sentinel — the failover state machine

* `sentinelSelectSlave` — the slave to promote;
* `sentinelSendSlaveOf`;
* `sentinelAbortFailover`, `sentinelFailoverWaitStart` … `sentinelFailoverDetectEnd`,
  `sentinelFailoverSwitchToPromotedSlave` — the states, one function each;
* `sentinelFailoverStateMachine`, `sentinelHandleMaster` — what the timer does to a master.
-/

variable {M : Type} [DecidableEq M]

/-! ## The slave to promote -/

/-- The sign of `strcasecmp`. -/
def strcasecmp (s t : Bytes) : Int :=
  let s := (cstr s).map tolower
  let t := (cstr t).map tolower
  if s = t then 0 else if s < t then -1 else 1

/-- `compareSlavesForPromotion`. -/
def compareSlavesForPromotion (sa sb : Slave) : Int :=
  if sa.slavePriority ≠ sb.slavePriority then sa.slavePriority - sb.slavePriority
  else if sa.slaveReplOffset > sb.slaveReplOffset then -1
  else if sa.slaveReplOffset < sb.slaveReplOffset then 1
  else
    match sa.runid, sb.runid with
    | none, none => 0
    | none, some _ => 1
    | some _, none => -1
    | some a, some b => strcasecmp a b

/-- A slave `sentinelSelectSlave` considers. -/
def suitableSlave (now : Int) (master : Master) (slave : Slave) : Bool :=
  let maxMasterDownTime :=
    (if master.sDown then now - master.sDownSinceTime else 0) + master.downAfterPeriod * 10
  let infoValidityTime := if master.sDown then sentinelPingPeriod * 5 else sentinelInfoPeriod * 3
  !slave.sDown && !slave.link.disconnected &&
    !(now - slave.link.lastAvailTime > sentinelPingPeriod * 5) && slave.slavePriority ≠ 0 &&
    !(now - slave.infoRefresh > infoValidityTime) && !(slave.masterLinkDownTime > maxMasterDownTime)

/-- `sentinelSelectSlave`. -/
def sentinelSelectSlave (now : Int) (master : Master) : Option Slave :=
  ((master.slaves.filter (suitableSlave now master)).insertionSort
    (fun a b => compareSlavesForPromotion a b ≤ 0)).head?

/-! ## Commands -/

/-- `sentinelSendSlaveOf`: whether all five commands were taken, and the `SLAVEOF` among them
    (the second). -/
def sentinelSendSlaveOf (env : Env) (m : M) (ri : Slave) (target : Option Addr) :
    Bool × List (Effect M) :=
  (5 ≤ env.accept ri.name,
    if 2 ≤ env.accept ri.name then [.slaveOf m ri.name ri.promoted target] else [])

/-- One slave of the table changed. -/
def updateSlave (slaves : List Slave) (name : Bytes) (f : Slave → Slave) : List Slave :=
  slaves.map (fun slave => if slave.name = name then f slave else slave)

/-- A master with the effects of what was done to it. -/
def SentinelState.put (s : SentinelState M) (m : M) (r : Master) (es : List (Effect M)) :
    SentinelState M :=
  { s.set m r with trace := s.trace ++ es }

/-! ## The states -/

/-- The slaves, with `SRI_PROMOTED` taken from the promoted one. -/
def clearPromoted (ri : Master) : List Slave :=
  match ri.promotedSlave with
  | some name => updateSlave ri.slaves name (fun slave => { slave with promoted := false })
  | none => ri.slaves

/-- `sentinelAbortFailover`. -/
def sentinelAbortFailover (now : Int) (ri : Master) : Except Fault Master :=
  if !ri.failoverInProgress then throw .assertion
  else if FailoverState.waitPromotion.code < ri.failoverState.code then throw .assertion
  else
    pure { ri with
      failoverInProgress := false
      forceFailover := false
      failoverState := .none
      failoverStateChangeTime := now
      slaves := clearPromoted ri
      promotedSlave := none }

/-- `sentinelAbortFailover` on the entry of a master. -/
def abortFailover (env : Env) (s : SentinelState M) (m : M) : Except Fault (SentinelState M) := do
  let ri ← sentinelAbortFailover env.now (s.masters m)
  pure (s.set m ri)

/-- `sentinelFailoverWaitStart`. -/
def sentinelFailoverWaitStart (env : Env) (s : SentinelState M) (m : M) :
    Except Fault (SentinelState M) := do
  let r ← sentinelGetLeader env s m (s.masters m).failoverEpoch
  let s := r.1
  let ri := s.masters m
  let isleader := r.2.any (fun leader => strcaseeq leader s.myid)
  if !isleader && !ri.forceFailover then
    if env.now - ri.failoverStartTime > min sentinelElectionTimeout ri.failoverTimeout then
      abortFailover env s m
    else pure s
  else
    pure ((s.emit (.electedLeader m ri.failoverEpoch)).set m
      { ri with failoverState := .selectSlave, failoverStateChangeTime := env.now })

/-- `sentinelFailoverSelectSlave`. -/
def sentinelFailoverSelectSlave (env : Env) (s : SentinelState M) (m : M) :
    Except Fault (SentinelState M) :=
  let ri := s.masters m
  match sentinelSelectSlave env.now ri with
  | none => abortFailover env s m
  | some slave =>
    pure (s.set m { ri with
      slaves := updateSlave ri.slaves slave.name (fun slave => { slave with promoted := true })
      promotedSlave := some slave.name
      failoverState := .sendSlaveofNoone
      failoverStateChangeTime := env.now })

/-- `sentinelFailoverSendSlaveOfNoOne`. -/
def sentinelFailoverSendSlaveOfNoOne (env : Env) (s : SentinelState M) (m : M) :
    Except Fault (SentinelState M) :=
  let ri := s.masters m
  match ri.promoted with
  | none => throw .promotedSlave
  | some promoted =>
    if promoted.link.disconnected then
      if env.now - ri.failoverStateChangeTime > ri.failoverTimeout then abortFailover env s m
      else pure s
    else
      let sent := sentinelSendSlaveOf env m promoted none
      if sent.1 then
        pure (s.put m { ri with
          failoverState := .waitPromotion, failoverStateChangeTime := env.now } sent.2)
      else pure (s.put m ri sent.2)

/-- `sentinelFailoverWaitPromotion`. -/
def sentinelFailoverWaitPromotion (env : Env) (s : SentinelState M) (m : M) :
    Except Fault (SentinelState M) :=
  let ri := s.masters m
  if env.now - ri.failoverStateChangeTime > ri.failoverTimeout then abortFailover env s m
  else pure s

/-- The last attempt on the slaves when the failover ends by timeout
    (`sentinelFailoverDetectEnd`). -/
def reconfAtTimeout (env : Env) (m : M) (target : Addr) : List Slave → List Slave × List (Effect M)
  | [] => ([], [])
  | slave :: slaves =>
    let rest := reconfAtTimeout env m target slaves
    if slave.reconfDone || slave.reconfSent || slave.link.disconnected then
      (slave :: rest.1, rest.2)
    else
      let sent := sentinelSendSlaveOf env m slave (some target)
      ((if sent.1 then { slave with reconfSent := true } else slave) :: rest.1, sent.2 ++ rest.2)

/-- `sentinelFailoverDetectEnd`. -/
def sentinelFailoverDetectEnd (env : Env) (m : M) (master : Master) :
    Master × List (Effect M) :=
  match master.promoted with
  | none => (master, [])
  | some promoted =>
    if promoted.sDown then (master, [])
    else
      let notReconfigured := master.slaves.filter (fun slave =>
        !(slave.promoted || slave.reconfDone) && !slave.sDown)
      let timeout := env.now - master.failoverStateChangeTime > master.failoverTimeout
      let ended : Master :=
        if timeout ∨ notReconfigured = [] then
          { master with failoverState := .updateConfig, failoverStateChangeTime := env.now }
        else master
      if timeout then
        let r := reconfAtTimeout env m promoted.addr master.slaves
        ({ ended with slaves := r.1 }, r.2)
      else (ended, [])

/-- A slave that did not move on in time counts as reconfigured. -/
def reconfTimeout (now : Int) (slave : Slave) : Slave :=
  if slave.reconfSent && now - slave.slaveReconfSentTime > sentinelSlaveReconfTimeout
  then { slave with reconfSent := false, reconfDone := true } else slave

/-- The loop of `sentinelFailoverReconfNextSlave`, with the number of slaves in progress. -/
def reconfNextSlaves (env : Env) (m : M) (target : Option Addr) (parallelSyncs : Int) :
    Int → List Slave → Except Fault (List Slave × List (Effect M))
  | _, [] => pure ([], [])
  | inProgress, slave :: slaves =>
    if ¬ inProgress < parallelSyncs then pure (slave :: slaves, [])
    else if slave.promoted || slave.reconfDone then do
      let rest ← reconfNextSlaves env m target parallelSyncs inProgress slaves
      pure (slave :: rest.1, rest.2)
    else
      let slave := reconfTimeout env.now slave
      if slave.reconfSent || slave.reconfInprog || slave.link.disconnected then do
        let rest ← reconfNextSlaves env m target parallelSyncs inProgress slaves
        pure (slave :: rest.1, rest.2)
      else
        match target with
        | none => throw .promotedSlave
        | some addr => do
          let sent := sentinelSendSlaveOf env m slave (some addr)
          let slave :=
            if sent.1 then { slave with reconfSent := true, slaveReconfSentTime := env.now }
            else slave
          let rest ← reconfNextSlaves env m target parallelSyncs
            (if sent.1 then inProgress + 1 else inProgress) slaves
          pure (slave :: rest.1, sent.2 ++ rest.2)

/-- `sentinelFailoverReconfNextSlave`. -/
def sentinelFailoverReconfNextSlave (env : Env) (s : SentinelState M) (m : M) :
    Except Fault (SentinelState M) := do
  let master := s.masters m
  let inProgress := (master.slaves.filter (fun slave => slave.reconfSent || slave.reconfInprog)).length
  let r ← reconfNextSlaves env m (master.promoted.map (·.addr)) master.parallelSyncs inProgress
    master.slaves
  let ended := sentinelFailoverDetectEnd env m { master with slaves := r.1 }
  pure (s.put m ended.1 (r.2 ++ ended.2))

/-- `sentinelResetMasterAndChangeAddress`. -/
def sentinelResetMasterAndChangeAddress (R : Resolver) (env : Env) (s : SentinelState M) (m : M)
    (ip : Bytes) (port : Int) : SentinelState M :=
  match createSentinelAddr R env.now ip port with
  | none => s
  | some newaddr =>
    (s.set m (switchAddress R env.now (s.masters m) newaddr)).sentinelFlushConfig

/-- `sentinelFailoverSwitchToPromotedSlave`. -/
def sentinelFailoverSwitchToPromotedSlave (R : Resolver) (env : Env) (s : SentinelState M) (m : M) :
    SentinelState M :=
  let master := s.masters m
  let ref := (master.promoted.map (·.addr)).getD master.addr
  sentinelResetMasterAndChangeAddress R env s m ref.ip ref.port

/-- `sentinelFailoverStateMachine`. -/
def sentinelFailoverStateMachine (env : Env) (s : SentinelState M) (m : M) :
    Except Fault (SentinelState M) :=
  if (s.masters m).failoverInProgress then
    match (s.masters m).failoverState with
    | .waitStart => sentinelFailoverWaitStart env s m
    | .selectSlave => sentinelFailoverSelectSlave env s m
    | .sendSlaveofNoone => sentinelFailoverSendSlaveOfNoOne env s m
    | .waitPromotion => sentinelFailoverWaitPromotion env s m
    | .reconfSlaves => sentinelFailoverReconfNextSlave env s m
    | .none => pure s
    | .updateConfig => pure s
  else pure s

/-! ## The timer -/

/-- `tilt` ends after a time (`sentinelHandleRedisInstance`). -/
def leaveTilt (now : Int) (s : SentinelState M) : SentinelState M :=
  if s.tilt && !(now - s.tiltStartTime < sentinelTiltPeriod) then { s with tilt := false } else s

/-- The acting half of `sentinelHandleRedisInstance` for a master. -/
def sentinelHandleMaster (env : Env) (s : SentinelState M) (m : M) :
    Except Fault (SentinelState M) :=
  let s := leaveTilt env.now s
  if s.tilt then pure s
  else do
    let master := s.masters m
    let master := { master with
      toInstance := sentinelCheckSubjectivelyDown env.now true master.toInstance }
    let s := s.set m (sentinelCheckObjectivelyDown env.now master)
    let s := sentinelStartFailoverIfNeeded env s m
    let s ← sentinelFailoverStateMachine env s m
    pure (sentinelAskMasterStateToOtherSentinels env false s m)

/-- The acting half of `sentinelHandleRedisInstance` for a slave. -/
def sentinelHandleSlave (env : Env) (s : SentinelState M) (m : M) (name : Bytes) : SentinelState M :=
  let s := leaveTilt env.now s
  if s.tilt then s
  else
    let master := s.masters m
    s.set m { master with slaves := updateSlave master.slaves name (fun slave =>
      { slave with toInstance := sentinelCheckSubjectivelyDown env.now false slave.toInstance }) }

/-- One Sentinel of the table changed. -/
def updatePeer (sentinels : List Peer) (runid : Bytes) (f : Peer → Peer) : List Peer :=
  sentinels.map (fun ri => if ri.runid = runid then f ri else ri)

/-- The acting half of `sentinelHandleRedisInstance` for a Sentinel. -/
def sentinelHandlePeer (env : Env) (s : SentinelState M) (m : M) (runid : Bytes) : SentinelState M :=
  let s := leaveTilt env.now s
  if s.tilt then s
  else
    let master := s.masters m
    s.set m { master with sentinels := updatePeer master.sentinels runid (fun ri =>
      { ri with toInstance := sentinelCheckSubjectivelyDown env.now false ri.toInstance }) }

/-- `sentinelCheckTiltCondition`. -/
def sentinelCheckTiltCondition (now : Int) (s : SentinelState M) : SentinelState M :=
  let delta := now - s.previousTime
  let s := { s with previousTime := now }
  if delta < 0 || delta > sentinelTiltTrigger then { s with tilt := true, tiltStartTime := now }
  else s

end Redis.Sentinel
