import Redis.Sentinel.Failover

namespace Redis.Sentinel

/-!
# Sentinel — INFO, hello messages, commands

* `sentinelRefreshMasterInfo`, `sentinelRefreshSlaveInfo` — `sentinelRefreshInstanceInfo` by
  kind of instance;
* `sentinelProcessHelloMessage`, `helloOf` — hello messages, received and sent;
* `failoverCommand`, `resetCommand` — `SENTINEL FAILOVER` and `SENTINEL RESET`;
* `Action`, `step` — everything that can happen to a Sentinel, one call of the source each.
-/

variable {M : Type} [DecidableEq M]

/-! ## INFO -/

/-- The lines of an `INFO` reply that Sentinel reads. -/
inductive InfoLine where
  | runId (runid : Bytes)
  | slave (ip : Bytes) (port : Int)
  | masterLinkDownSinceSeconds (seconds : Int)
  | role (role : Role)
  | masterHost (host : Bytes)
  | masterPort (port : Int)
  | masterLinkStatus (up : Bool)
  | slavePriority (priority : Int)
  | slaveReplOffset (offset : Nat)
  deriving DecidableEq

/-- The role after the lines read so far: the last one named. -/
def infoRole (role : Role) : InfoLine → Role
  | .role r => r
  | _ => role

/-- A line of the reply of a master: only the slaves matter, and a new one is written. -/
def masterInfoLine (R : Resolver) (now : Int) (m : M) (s : SentinelState M) : InfoLine → SentinelState M
  | .slave ip port =>
    let master := s.masters m
    if master.slaves.any (·.name = anetFormatAddr ip port) then s
    else if (createSentinelAddr R now ip port).isSome then
      (s.set m (createSlave R now master ip port)).sentinelFlushConfig
    else s
  | _ => s

/-- The acting half that all instances share: remember when the role changed. -/
def roleChange (now : Int) (role : Role) (ri : Instance) : Instance :=
  if role = ri.roleReported then ri
  else { ri with roleReported := role, roleReportedTime := now }

/-- `sentinelRefreshInstanceInfo` of a master. -/
def sentinelRefreshMasterInfo (R : Resolver) (env : Env) (s : SentinelState M) (m : M)
    (info : List InfoLine) : SentinelState M :=
  let s := info.foldl (masterInfoLine R env.now m) s
  let master := s.masters m
  s.set m { master with
    toInstance := roleChange env.now (info.foldl infoRole .unknown)
      { master.toInstance with infoRefresh := env.now } }

/-- A line of the reply of a slave, after the role read so far. -/
def slaveInfoLine (now : Int) (p : Slave × Role) (line : InfoLine) : Slave × Role :=
  let slave := p.1
  let role := infoRole p.2 line
  match line with
  | .runId runid => ({ slave with runid := some runid }, role)
  | .masterLinkDownSinceSeconds n => ({ slave with masterLinkDownTime := n * 1000 }, role)
  | .masterHost host =>
    if role = .slave && !slave.slaveMasterHost.any (fun h => strcaseeq host h) then
      ({ slave with slaveMasterHost := some host, slaveConfChangeTime := now }, role)
    else (slave, role)
  | .masterPort port =>
    if role = .slave && slave.slaveMasterPort ≠ port then
      ({ slave with slaveMasterPort := port, slaveConfChangeTime := now }, role)
    else (slave, role)
  | .masterLinkStatus up =>
    if role = .slave then ({ slave with slaveMasterLinkUp := up }, role) else (slave, role)
  | .slavePriority n =>
    if role = .slave then ({ slave with slavePriority := n }, role) else (slave, role)
  | .slaveReplOffset n =>
    if role = .slave then ({ slave with slaveReplOffset := n }, role) else (slave, role)
  | .slave _ _ => (slave, role)
  | .role _ => (slave, role)

/-- The first half of `sentinelRefreshInstanceInfo` of a slave, with the change of role. -/
def slaveAfterInfo (now : Int) (slave : Slave) (info : List InfoLine) : Slave × Role :=
  let p := info.foldl (slaveInfoLine now) ({ slave with masterLinkDownTime := 0 }, .unknown)
  let changed := p.2 = .slave && slave.roleReported ≠ .slave
  ({ p.1 with
      toInstance := roleChange now p.2 { p.1.toInstance with infoRefresh := now }
      slaveConfChangeTime := if changed then now else p.1.slaveConfChangeTime }, p.2)

/-- The promoted slave has become a master: the failover moves on. -/
def promotionDone (env : Env) (s : SentinelState M) (m : M) : SentinelState M :=
  let master := s.masters m
  (s.set m { master with
    configEpoch := master.failoverEpoch
    failoverState := .reconfSlaves
    failoverStateChangeTime := env.now }).sentinelFlushConfig

/-- A slave that has become a master (`slave -> master role switch`). -/
def slaveReportsMaster (env : Env) (s : SentinelState M) (m : M) (ri : Slave) : SentinelState M :=
  let master := s.masters m
  if ri.promoted && master.failoverInProgress && master.failoverState = .waitPromotion then
    promotionDone env s m
  else if !ri.promoted && sentinelMasterLooksSane env.now master &&
      sentinelRedisInstanceNoDownFor env.now (sentinelPublishPeriod * 4) ri.toInstance &&
      env.now - ri.roleReportedTime > sentinelPublishPeriod * 4 then
    s.put m master (sentinelSendSlaveOf env m ri (some master.addr)).2
  else s

/-- Whether a slave replicates from another address than that of the master. -/
def replicatesElsewhere (master : Master) (ri : Slave) : Except Fault Bool :=
  if ri.slaveMasterPort ≠ master.addr.port then pure true
  else
    match ri.slaveMasterHost with
    | none => throw .slaveMasterHost
    | some host => pure !(strcaseeq host master.addr.ip)

/-- `+fix-slave-config`: a slave that has replicated from elsewhere for long is told the
    address of the master. -/
def fixSlaveConfig (env : Env) (m : M) (master : Master) (ri : Slave) : Except Fault (List (Effect M)) := do
  let elsewhere ← replicatesElsewhere master ri
  if elsewhere && sentinelMasterLooksSane env.now master &&
      sentinelRedisInstanceNoDownFor env.now master.failoverTimeout ri.toInstance &&
      env.now - ri.slaveConfChangeTime > master.failoverTimeout then
    pure (sentinelSendSlaveOf env m ri (some master.addr)).2
  else pure []

/-- `SRI_RECONF_SENT` to `SRI_RECONF_INPROG`. -/
def reconfInprogress (master : Master) (ri : Slave) : Except Fault Slave :=
  match ri.reconfSent, ri.slaveMasterHost with
  | true, some host =>
    match master.promoted with
    | none => throw .promotedSlave
    | some promoted =>
      pure (if cstr host = cstr promoted.addr.ip && ri.slaveMasterPort = promoted.addr.port
        then { ri with reconfSent := false, reconfInprog := true } else ri)
  | _, _ => pure ri

/-- `SRI_RECONF_INPROG` to `SRI_RECONF_DONE`. -/
def reconfFinished (ri : Slave) : Slave :=
  if ri.reconfInprog && ri.slaveMasterLinkUp
  then { ri with reconfInprog := false, reconfDone := true } else ri

/-- What `sentinelRefreshInstanceInfo` does about a slave that reports to be one. -/
def slaveReportsSlave (env : Env) (s : SentinelState M) (m : M) (ri : Slave) :
    Except Fault (SentinelState M) := do
  let master := s.masters m
  let es ← fixSlaveConfig env m master ri
  if ri.reconfSent || ri.reconfInprog then
    let ri ← reconfInprogress master ri
    pure (s.put m { master with
      slaves := updateSlave master.slaves ri.name (fun _ => reconfFinished ri) } es)
  else pure (s.put m master es)

/-- `sentinelRefreshInstanceInfo` of a slave. -/
def sentinelRefreshSlaveInfo (env : Env) (s : SentinelState M) (m : M) (ri : Slave)
    (info : List InfoLine) : Except Fault (SentinelState M) :=
  let p := slaveAfterInfo env.now ri info
  let master := s.masters m
  let s := s.set m { master with slaves := updateSlave master.slaves ri.name (fun _ => p.1) }
  if s.tilt then pure s
  else
    match p.2 with
    | .master => pure (slaveReportsMaster env s m p.1)
    | .slave => slaveReportsSlave env s m p.1
    | .unknown => pure s

/-! ## Hello messages -/

/-- A hello message. -/
structure Hello (M : Type) where
  addr : Addr
  runid : Bytes
  currentEpoch : Nat
  master : M
  masterAddr : Addr
  masterConfigEpoch : Nat

/-- `sentinelSendHello`: what is published about a master, under the address announced. -/
def helloOf (s : SentinelState M) (m : M) (announce : Addr) : Hello M where
  addr := announce
  runid := s.myid
  currentEpoch := s.currentEpoch
  master := m
  masterAddr := sentinelGetCurrentMasterAddress (s.masters m)
  masterConfigEpoch := (s.masters m).configEpoch

/-- `sentinelUpdateSentinelAddressInAllMasters`. -/
def sentinelUpdateSentinelAddressInAllMasters (s : SentinelState M) (runid : Bytes) (addr : Addr) :
    SentinelState M :=
  { s with masters := fun k =>
      { s.masters k with sentinels := updatePeer (s.masters k).sentinels runid (fun ri =>
        { ri with addr := addr, link := ri.link.closeCc.closePc }) } }

/-- `removeMatchingSentinelFromMaster`. -/
def removeMatchingSentinelFromMaster (s : SentinelState M) (m : M) (runid : Bytes) :
    SentinelState M :=
  let master := s.masters m
  s.set m { master with sentinels := master.sentinels.filter (fun ri => !(ri.runid = runid)) }

/-- Another Sentinel under the address announced: its address is no longer valid. -/
def invalidateOther (s : SentinelState M) (m : M) (addr : Addr) : SentinelState M :=
  match (s.masters m).sentinels.find? (fun ri => ri.addr = addr) with
  | some other => sentinelUpdateSentinelAddressInAllMasters s other.runid { addr with port := 0 }
  | none => s

/-- `createSentinelRedisInstance` with `SRI_SENTINEL`. -/
def insertPeer (now : Int) (s : SentinelState M) (m : M) (runid : Bytes) (addr : Addr) :
    SentinelState M :=
  let master := s.masters m
  s.set m { master with sentinels := master.sentinels ++ [newPeer now runid addr master] }

/-- A Sentinel not known under this address and run id is put into the table
    (`sentinelProcessHelloMessage`); the first component says whether it is there now. -/
def addPeer (R : Resolver) (now : Int) (s : SentinelState M) (h : Hello M) : Bool × SentinelState M :=
  let removed := (s.masters h.master).sentinels.any (·.runid = h.runid)
  let s := removeMatchingSentinelFromMaster s h.master h.runid
  let s := if removed then s else invalidateOther s h.master h.addr
  match createSentinelAddr R now h.addr.ip h.addr.port with
  | none => (false, s)
  | some addr =>
    let s := insertPeer now s h.master h.runid addr
    let s := if removed then sentinelUpdateSentinelAddressInAllMasters s h.runid addr else s
    (true, s.sentinelFlushConfig)

/-- The Sentinel a hello message comes from: known, or put into the table. -/
def helloPeer (R : Resolver) (now : Int) (s : SentinelState M) (h : Hello M) : Bool × SentinelState M :=
  if (s.masters h.master).sentinels.any (fun ri => ri.runid = h.runid && ri.addr = h.addr)
  then (true, s) else addPeer R now s h

/-- The configuration of the master in a hello message that is newer than ours. -/
def configUpdateFrom (R : Resolver) (env : Env) (s : SentinelState M) (h : Hello M) : SentinelState M :=
  let master := s.masters h.master
  if master.configEpoch < h.masterConfigEpoch then
    let s := s.set h.master { master with configEpoch := h.masterConfigEpoch }
    if h.masterAddr = master.addr then s
    else sentinelResetMasterAndChangeAddress R env s h.master h.masterAddr.ip h.masterAddr.port
  else s

/-- `sentinelProcessHelloMessage`. -/
def sentinelProcessHelloMessage (R : Resolver) (env : Env) (s : SentinelState M) (h : Hello M) :
    SentinelState M :=
  let p := helloPeer R env.now s h
  let s := raiseEpoch p.2 h.currentEpoch
  if p.1 then
    let s := configUpdateFrom R env s h
    let master := s.masters h.master
    s.set h.master { master with sentinels := updatePeer master.sentinels h.runid (fun ri =>
      { ri with lastHelloTime := env.now }) }
  else s

/-! ## Commands -/

/-- `SENTINEL FAILOVER`. -/
def failoverCommand (env : Env) (s : SentinelState M) (m : M) : SentinelState M :=
  let ri := s.masters m
  if ri.failoverInProgress then s
  else if (sentinelSelectSlave env.now ri).isNone then s
  else
    let s := sentinelStartFailover env s m
    s.set m { s.masters m with forceFailover := true }

/-- `SENTINEL RESET`, of the masters whose name matches. -/
def resetCommand (env : Env) (pattern : M → Bool) (s : SentinelState M) : SentinelState M :=
  { s with masters := fun m =>
      if pattern m then sentinelResetMaster env.now false (s.masters m) else s.masters m }

/-! ## Everything that can happen -/

/-- What happens to a Sentinel. -/
inductive Action (M : Type) where
  /-- Connections open and close, `PING` is sent and answered. -/
  | masterLink (m : M) (link : Link)
  | slaveLink (m : M) (name : Bytes) (link : Link)
  | peerLink (m : M) (runid : Bytes) (link : Link)
  /-- The parts of the timer. -/
  | checkTilt
  | handleMaster (m : M)
  | handleSlave (m : M) (name : Bytes)
  | handlePeer (m : M) (runid : Bytes)
  | switchToPromoted (m : M)
  /-- Replies and messages. -/
  | masterInfo (m : M) (info : List InfoLine)
  | slaveInfo (m : M) (ri : Slave) (info : List InfoLine)
  | downReply (m : M) (runid : Bytes) (r : DownReply)
  | hello (h : Hello M)
  /-- Commands. -/
  | downRequest (ri : Option M) (req : DownRequest)
  | failover (m : M)
  | reset (pattern : M → Bool)

/-- When the source makes the call: the timer switches a master only in its last state, a
    reply comes from a slave of the table, a request finds a master by its address, and the
    epochs of requests and hello messages are what `getLongLongFromObject` and `strtoull`
    read. -/
def Action.Enabled (s : SentinelState M) : Action M → Prop
  | .switchToPromoted m => (s.masters m).failoverState = .updateConfig
  | .slaveInfo m ri _ => ri ∈ (s.masters m).slaves
  | .downRequest (some m) req => req.Fits ∧ (s.masters m).addr = req.addr
  | .downRequest none req => req.Fits ∧ ∀ m, (s.masters m).addr ≠ req.addr
  | .hello h => h.currentEpoch < 18446744073709551616 ∧ h.masterConfigEpoch < 18446744073709551616
  | _ => True

/-- The effect of an action. -/
def step (R : Resolver) (env : Env) (s : SentinelState M) : Action M → Except Fault (SentinelState M)
  | .masterLink m link => pure (s.set m { s.masters m with link := link })
  | .slaveLink m name link =>
    let master := s.masters m
    pure (s.set m { master with
      slaves := updateSlave master.slaves name (fun slave => { slave with link := link }) })
  | .peerLink m runid link =>
    let master := s.masters m
    pure (s.set m { master with
      sentinels := updatePeer master.sentinels runid (fun ri => { ri with link := link }) })
  | .checkTilt => pure (sentinelCheckTiltCondition env.now s)
  | .handleMaster m => sentinelHandleMaster env s m
  | .handleSlave m name => pure (sentinelHandleSlave env s m name)
  | .handlePeer m runid => pure (sentinelHandlePeer env s m runid)
  | .switchToPromoted m => pure (sentinelFailoverSwitchToPromotedSlave R env s m)
  | .masterInfo m info => pure (sentinelRefreshMasterInfo R env s m info)
  | .slaveInfo m ri info => sentinelRefreshSlaveInfo env s m ri info
  | .downReply m runid r =>
    let master := s.masters m
    pure (s.set m { master with
      sentinels := updatePeer master.sentinels runid (sentinelReceiveIsMasterDownReply env.now r) })
  | .hello h => pure (sentinelProcessHelloMessage R env s h)
  | .downRequest ri req => pure (isMasterDownByAddr env s ri req).1
  | .failover m => pure (failoverCommand env s m)
  | .reset pattern => pure (resetCommand env pattern s)

/-- One step that meets a condition. -/
def Step (R : Resolver) (P : Env → SentinelState M → Action M → Prop) (s t : SentinelState M) : Prop :=
  ∃ env a, a.Enabled s ∧ P env s a ∧ step R env s a = .ok t

/-- A run whose steps meet a condition. -/
def Steps (R : Resolver) (P : Env → SentinelState M → Action M → Prop) :
    SentinelState M → SentinelState M → Prop :=
  Relation.ReflTransGen (Step R P)

variable {P : Env → SentinelState M → Action M → Prop} {s t : SentinelState M}

/-- What every step of a run keeps. -/
theorem Steps.invariant {R : Resolver} (h : Steps R P s t) (I : SentinelState M → Prop) (h0 : I s)
    (hstep : ∀ env a u v, a.Enabled u → P env u a → step R env u a = .ok v → I u → I v) : I t := by
  induction h with
  | refl => exact h0
  | tail _ hst ih =>
    obtain ⟨env, a, he, hp, hv⟩ := hst
    exact hstep env a _ _ he hp hv ih

/-- A weaker condition. -/
theorem Steps.mono {R : Resolver} {P Q : Env → SentinelState M → Action M → Prop} (h : Steps R P s t)
    (hPQ : ∀ env u a, P env u a → Q env u a) :
    Steps R Q s t :=
  Relation.ReflTransGen.mono
    (fun _ _ ⟨env, a, he, hp, hv⟩ => ⟨env, a, he, hPQ env _ a hp, hv⟩) _ _ h

/-! ## Runs to be evaluated -/

/-- Handlers one after the other, each chosen from the state it meets. -/
def exec (R : Resolver) : List (Env × (SentinelState M → Action M)) → SentinelState M →
    Except Fault (SentinelState M)
  | [], s => pure s
  | p :: acts, s =>
    match step R p.1 s (p.2 s) with
    | .ok t => exec R acts t
    | .error f => .error f

/-- An evaluated run is a run. -/
theorem steps_of_exec {R : Resolver} {acts : List (Env × (SentinelState M → Action M))}
    (h : exec R acts s = .ok t) (hacts : ∀ p ∈ acts, ∀ u, (p.2 u).Enabled u ∧ P p.1 u (p.2 u)) : Steps R P s t := by
  induction acts generalizing s with
  | nil =>
    cases h
    exact Relation.ReflTransGen.refl
  | cons p acts ih =>
    unfold exec at h
    cases hs : step R p.1 s (p.2 s) with
    | error f =>
      rw [hs] at h
      cases h
    | ok u =>
      rw [hs] at h
      obtain ⟨henabled, hP⟩ := hacts p List.mem_cons_self s
      refine Relation.ReflTransGen.head ⟨p.1, p.2 s, henabled, hP, hs⟩ (ih h ?_)
      exact fun q hq => hacts q (List.mem_cons_of_mem _ hq)

/-- A resolver for which every text is an address. -/
def literalResolver : Resolver where
  resolve := fun _ host => some host
  resolve_numeric := fun _ _ _ _ _ => rfl

/-- A handler at a time, over connections that take every command. -/
def envAt (now : Int) : Env where
  now := now
  rand := 0
  accept := fun _ => 5
  order := id
  order_perm := fun l => List.Perm.refl l

/-- A connected instance that has just replied. -/
def connectedLink (now : Int) : Link :=
  { createInstanceLink now with disconnected := false, cc := true, pc := true, actPingTime := 0 }

end Redis.Sentinel
