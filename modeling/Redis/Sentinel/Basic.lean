import Mathlib.Data.Fintype.Basic
import Mathlib.Data.Finset.Lattice.Fold
import Mathlib.Data.List.Sort
import Mathlib.Order.Lattice.Nat
import Redis.Libc

namespace Redis.Sentinel

/-!
# Sentinel — instances, addresses, configuration

The state of one Sentinel (`sentinel.c`) and what every handler uses.

* `Instance`, `Slave`, `Peer`, `Master`, `SentinelState` — `sentinelRedisInstance` by kind, and
  `struct sentinelState`, with the trace of what the process has made visible: the
  configurations it wrote, the events it published, the commands and replies it sent;
* `sentinelCheckSubjectivelyDown`, `sentinelCheckObjectivelyDown`;
* `sentinelResetMaster`, `sentinelResetMasterAndChangeAddress`,
  `sentinelGetCurrentMasterAddress`;
* `rewriteConfigSentinelOption`, `sentinelFlushConfig`, `sentinelHandleConfiguration` — what
  a restart keeps.

Epochs are `uint64_t`: naturals, with the one increment of the code taken modulo `2^64`.
-/

/-! ## Constants -/

def sentinelInfoPeriod : Int := 10000
def sentinelPingPeriod : Int := 1000
def sentinelAskPeriod : Int := 1000
def sentinelPublishPeriod : Int := 2000
def sentinelTiltTrigger : Int := 2000
def sentinelTiltPeriod : Int := sentinelPingPeriod * 30
def sentinelDefaultSlavePriority : Int := 100
def sentinelSlaveReconfTimeout : Int := 10000
def sentinelMinLinkReconnectPeriod : Int := 15000
def sentinelElectionTimeout : Int := 10000

/-! ## Data -/

/-- `sentinelAddr`. -/
structure Addr where
  ip : Bytes
  port : Int
  deriving DecidableEq

/-- `sentinelAddrIsEqual`. -/
def sentinelAddrIsEqual (a b : Addr) : Bool := a.port = b.port && strcaseeq a.ip b.ip

/-- `instanceLink`: whether the two connections exist, and the times failure detection reads. -/
structure Link where
  disconnected : Bool
  cc : Bool
  pc : Bool
  ccConnTime : Int
  pcConnTime : Int
  pcLastActivity : Int
  lastAvailTime : Int
  actPingTime : Int
  lastPongTime : Int
  deriving DecidableEq

/-- `role_reported`: an `INFO` reply may also name no role. -/
inductive Role where
  | unknown
  | master
  | slave
  deriving DecidableEq

/-- What masters, slaves and Sentinels have in common. -/
structure Instance where
  addr : Addr
  link : Link
  /-- `SRI_S_DOWN`. -/
  sDown : Bool
  sDownSinceTime : Int
  downAfterPeriod : Int
  infoRefresh : Int
  roleReported : Role
  roleReportedTime : Int
  deriving DecidableEq

/-- A slave of a monitored master. -/
structure Slave extends Instance where
  /-- The key in the table of slaves. -/
  name : Bytes
  runid : Option Bytes
  /-- `SRI_PROMOTED`. -/
  promoted : Bool
  /-- `SRI_RECONF_SENT`. -/
  reconfSent : Bool
  /-- `SRI_RECONF_INPROG`. -/
  reconfInprog : Bool
  /-- `SRI_RECONF_DONE`. -/
  reconfDone : Bool
  slaveConfChangeTime : Int
  masterLinkDownTime : Int
  slavePriority : Int
  slaveReconfSentTime : Int
  slaveMasterHost : Option Bytes
  slaveMasterPort : Int
  /-- `slave_master_link_status == SENTINEL_MASTER_LINK_STATUS_UP`. -/
  slaveMasterLinkUp : Bool
  slaveReplOffset : Nat
  deriving DecidableEq

/-- Another Sentinel, in the table of a master; its key there is its run id. -/
structure Peer extends Instance where
  runid : Bytes
  /-- `SRI_MASTER_DOWN`. -/
  masterDown : Bool
  lastMasterDownReplyTime : Int
  lastHelloTime : Int
  leader : Option Bytes
  leaderEpoch : Nat
  deriving DecidableEq

/-- `failover_state`. -/
inductive FailoverState where
  | none
  | waitStart
  | selectSlave
  | sendSlaveofNoone
  | waitPromotion
  | reconfSlaves
  | updateConfig
  deriving DecidableEq

/-- The number the code compares. -/
def FailoverState.code : FailoverState → Nat
  | .none => 0
  | .waitStart => 1
  | .selectSlave => 2
  | .sendSlaveofNoone => 3
  | .waitPromotion => 4
  | .reconfSlaves => 5
  | .updateConfig => 6

/-- A monitored master. -/
structure Master extends Instance where
  /-- `SRI_O_DOWN`. -/
  oDown : Bool
  oDownSinceTime : Int
  /-- `SRI_FAILOVER_IN_PROGRESS`. -/
  failoverInProgress : Bool
  /-- `SRI_FORCE_FAILOVER`. -/
  forceFailover : Bool
  configEpoch : Nat
  sentinels : List Peer
  slaves : List Slave
  quorum : Nat
  parallelSyncs : Int
  leader : Option Bytes
  leaderEpoch : Nat
  failoverEpoch : Nat
  failoverState : FailoverState
  failoverStateChangeTime : Int
  failoverStartTime : Int
  failoverTimeout : Int
  /-- The name of the slave the pointer is to. -/
  promotedSlave : Option Bytes
  deriving DecidableEq

/-- What the configuration file says about a master. -/
structure MasterConfig where
  addr : Addr
  quorum : Nat
  downAfterPeriod : Int
  failoverTimeout : Int
  parallelSyncs : Int
  configEpoch : Nat
  leaderEpoch : Nat
  knownSlaves : List Addr
  knownSentinels : List (Addr × Bytes)

/-- The configuration file. -/
structure Config (M : Type) where
  myid : Bytes
  masters : M → MasterConfig
  currentEpoch : Nat

/-- What a Sentinel makes visible, in the order it does. -/
inductive Effect (M : Type) where
  /-- The configuration file is written and synced. -/
  | flushed (c : Config M)
  /-- `+vote-for-leader`. -/
  | voteForLeader (m : M) (leader : Bytes) (epoch : Nat)
  /-- `+elected-leader`, in the epoch of the failover. -/
  | electedLeader (m : M) (epoch : Nat)
  /-- `SLAVEOF`, to a slave that carries `SRI_PROMOTED` or not; no target is `NO ONE`. -/
  | slaveOf (m : M) (slave : Bytes) (promoted : Bool) (target : Option Addr)
  /-- `SENTINEL is-master-down-by-addr`, to the Sentinel with that run id. -/
  | ask (m : M) (sentinel : Bytes) (addr : Addr) (epoch : Nat) (runid : Option Bytes)
  /-- The reply to a request for a vote. -/
  | voteReply (m : M) (leader : Option Bytes) (epoch : Nat)

/-- `struct sentinelState`. -/
structure SentinelState (M : Type) where
  myid : Bytes
  currentEpoch : Nat
  masters : M → Master
  tilt : Bool
  tiltStartTime : Int
  previousTime : Int
  trace : List (Effect M)

/-- The ways a Sentinel can crash. -/
inductive Fault where
  /-- A failed `serverAssert`. -/
  | assertion
  /-- `promoted_slave` is dereferenced and is `NULL`. -/
  | promotedSlave
  /-- `slave_master_host` is dereferenced and is `NULL`. -/
  | slaveMasterHost
  deriving DecidableEq

/-- What a handler reads from outside: the clock, `rand() % SENTINEL_MAX_DESYNC`, how many of
    the five commands of `sentinelSendSlaveOf` a slave's connection takes, and the order in
    which a table of votes is iterated. -/
structure Env where
  now : Int
  rand : Int
  accept : Bytes → Nat
  order : List (Bytes × Nat) → List (Bytes × Nat)
  order_perm : ∀ l, (order l).Perm l

/-- `anetResolve`, at a time: what it returns is an address in numbers, and that resolves to
    itself at any time. -/
structure Resolver where
  resolve : Int → Bytes → Option Bytes
  resolve_numeric : ∀ t host ip, resolve t host = some ip → ∀ t', resolve t' ip = some ip

namespace SentinelState

variable {M : Type} [DecidableEq M]

/-- The entry of one master replaced. -/
def set (s : SentinelState M) (m : M) (r : Master) : SentinelState M :=
  { s with masters := fun k => if k = m then r else s.masters k }

/-- One more visible effect. -/
def emit (s : SentinelState M) (e : Effect M) : SentinelState M := { s with trace := s.trace ++ [e] }

end SentinelState

/-! ## Failure detection -/

/-- `instanceLinkCloseConnection(link,link->cc)`. -/
def Link.closeCc (l : Link) : Link := if l.cc then { l with cc := false, disconnected := true } else l

/-- `instanceLinkCloseConnection(link,link->pc)`. -/
def Link.closePc (l : Link) : Link := if l.pc then { l with pc := false, disconnected := true } else l

/-- The connections `sentinelCheckSubjectivelyDown` gives up. -/
def Link.checkActivity (now downAfterPeriod : Int) (l : Link) : Link :=
  let l := if l.cc && now - l.ccConnTime > sentinelMinLinkReconnectPeriod && l.actPingTime ≠ 0 &&
      now - l.actPingTime > downAfterPeriod / 2 && now - l.lastPongTime > downAfterPeriod / 2
    then l.closeCc else l
  if l.pc && now - l.pcConnTime > sentinelMinLinkReconnectPeriod &&
      now - l.pcLastActivity > sentinelPublishPeriod * 3
    then l.closePc else l

/-- `sentinelCheckSubjectivelyDown`. -/
def sentinelCheckSubjectivelyDown (now : Int) (isMaster : Bool) (ri : Instance) : Instance :=
  let elapsed :=
    if ri.link.actPingTime ≠ 0 then now - ri.link.actPingTime
    else if ri.link.disconnected then now - ri.link.lastAvailTime else 0
  let link := ri.link.checkActivity now ri.downAfterPeriod
  if elapsed > ri.downAfterPeriod || (isMaster && ri.roleReported = .slave &&
      now - ri.roleReportedTime > ri.downAfterPeriod + sentinelInfoPeriod * 2) then
    if ri.sDown then { ri with link := link }
    else { ri with link := link, sDown := true, sDownSinceTime := now }
  else { ri with link := link, sDown := false }

/-- `sentinelCheckObjectivelyDown`. -/
def sentinelCheckObjectivelyDown (now : Int) (master : Master) : Master :=
  let quorum := 1 + (master.sentinels.filter (·.masterDown)).length
  if master.sDown && master.quorum ≤ quorum then
    if master.oDown then master else { master with oDown := true, oDownSinceTime := now }
  else { master with oDown := false }

/-- `sentinelRedisInstanceNoDownFor`, of a slave: slaves are never objectively down. -/
def sentinelRedisInstanceNoDownFor (now ms : Int) (ri : Instance) : Bool :=
  ri.sDownSinceTime = 0 || now - ri.sDownSinceTime > ms

/-- `sentinelMasterLooksSane`. -/
def sentinelMasterLooksSane (now : Int) (master : Master) : Bool :=
  master.roleReported = .master && !master.sDown && !master.oDown &&
    now - master.infoRefresh < sentinelInfoPeriod * 2

/-! ## Creation -/

/-- `createSentinelAddr`. -/
def createSentinelAddr (R : Resolver) (now : Int) (host : Bytes) (port : Int) : Option Addr :=
  if port < 0 || port > 65535 then none
  else (R.resolve now host).map (fun ip => { ip := ip, port := port })

/-- `anetFormatAddr`, into a buffer of `NET_PEER_ID_LEN` bytes. -/
def anetFormatAddr (ip : Bytes) (port : Int) : Bytes :=
  ((if (strchr ip 58).isSome then [91] ++ ip ++ [93, 58] else ip ++ [58]) ++ formatLd port).take 77

/-- `createInstanceLink`. -/
def createInstanceLink (now : Int) : Link where
  disconnected := true
  cc := false
  pc := false
  ccConnTime := 0
  pcConnTime := 0
  pcLastActivity := 0
  lastAvailTime := now
  actPingTime := now
  lastPongTime := now

/-- The part of `createSentinelRedisInstance` common to all kinds. -/
def createInstance (now : Int) (addr : Addr) (downAfterPeriod : Int) (role : Role) : Instance where
  addr := addr
  link := createInstanceLink now
  sDown := false
  sDownSinceTime := 0
  downAfterPeriod := downAfterPeriod
  infoRefresh := 0
  roleReported := role
  roleReportedTime := now

/-- `createSentinelRedisInstance` with `SRI_SLAVE`, before it is put into the table. -/
def newSlave (now : Int) (name : Bytes) (addr : Addr) (master : Master) : Slave where
  toInstance := createInstance now addr master.downAfterPeriod .slave
  name := name
  runid := none
  promoted := false
  reconfSent := false
  reconfInprog := false
  reconfDone := false
  slaveConfChangeTime := now
  masterLinkDownTime := 0
  slavePriority := sentinelDefaultSlavePriority
  slaveReconfSentTime := 0
  slaveMasterHost := none
  slaveMasterPort := 0
  slaveMasterLinkUp := false
  slaveReplOffset := 0

/-- `createSentinelRedisInstance` with `SRI_SLAVE`: nothing happens when the address is bad or
    the name is taken. -/
def createSlave (R : Resolver) (now : Int) (master : Master) (host : Bytes) (port : Int) : Master :=
  match createSentinelAddr R now host port with
  | none => master
  | some addr =>
    let name := anetFormatAddr host port
    if master.slaves.any (·.name = name) then master
    else { master with slaves := master.slaves ++ [newSlave now name addr master] }

/-- `createSentinelRedisInstance` with `SRI_SENTINEL`, before it is put into the table. -/
def newPeer (now : Int) (runid : Bytes) (addr : Addr) (master : Master) : Peer where
  toInstance := createInstance now addr master.downAfterPeriod .unknown
  runid := runid
  masterDown := false
  lastMasterDownReplyTime := now
  lastHelloTime := now
  leader := none
  leaderEpoch := 0

/-! ## Reset -/

/-- `sentinelResetMaster`. -/
def sentinelResetMaster (now : Int) (noSentinels : Bool) (ri : Master) : Master :=
  { ri with
    slaves := []
    sentinels := if noSentinels then ri.sentinels else []
    link := { ri.link.closeCc.closePc with
      actPingTime := now, lastAvailTime := now, lastPongTime := now }
    sDown := false
    oDown := false
    failoverInProgress := false
    forceFailover := false
    leader := none
    failoverState := .none
    failoverStateChangeTime := 0
    failoverStartTime := 0
    promotedSlave := none
    roleReportedTime := now
    roleReported := .master }

/-- The slaves `sentinelResetMasterAndChangeAddress` puts back: all the others, and the old
    master. -/
def slavesAfterSwitch (master : Master) (newaddr : Addr) : List Addr :=
  (master.slaves.map (·.addr)).filter (fun a => !sentinelAddrIsEqual a newaddr) ++
    (if sentinelAddrIsEqual newaddr master.addr then [] else [master.addr])

/-- `sentinelResetMasterAndChangeAddress` on the entry of the master, once the new address is
    known. -/
def switchAddress (R : Resolver) (now : Int) (master : Master) (newaddr : Addr) : Master :=
  (slavesAfterSwitch master newaddr).foldl (fun r a => createSlave R now r a.ip a.port)
    { sentinelResetMaster now true master with
      addr := newaddr, oDownSinceTime := 0, sDownSinceTime := 0 }

/-- The slave a pointer `promoted_slave` is to. -/
def Master.promoted (master : Master) : Option Slave :=
  master.promotedSlave.bind (fun n => master.slaves.find? (·.name = n))

/-- `sentinelGetCurrentMasterAddress`. -/
def sentinelGetCurrentMasterAddress (master : Master) : Addr :=
  match master.promoted with
  | some slave =>
    if master.failoverInProgress && FailoverState.reconfSlaves.code ≤ master.failoverState.code
    then slave.addr else master.addr
  | none => master.addr

/-! ## The configuration file -/

section Config

variable {M : Type}

/-- What `rewriteConfigSentinelOption` writes about a master. -/
def rewriteMaster (master : Master) : MasterConfig where
  addr := sentinelGetCurrentMasterAddress master
  quorum := master.quorum
  downAfterPeriod := master.downAfterPeriod
  failoverTimeout := master.failoverTimeout
  parallelSyncs := master.parallelSyncs
  configEpoch := master.configEpoch
  leaderEpoch := master.leaderEpoch
  knownSlaves := master.slaves.map (fun slave =>
    -- a slave already promoted changes places with the old master
    if sentinelAddrIsEqual slave.addr (sentinelGetCurrentMasterAddress master)
    then master.addr else slave.addr)
  knownSentinels := master.sentinels.map (fun ri => (ri.addr, ri.runid))

/-- `rewriteConfigSentinelOption`. -/
def rewriteConfigSentinelOption (s : SentinelState M) : Config M where
  myid := s.myid
  masters := fun m => rewriteMaster (s.masters m)
  currentEpoch := s.currentEpoch

/-- `sentinelFlushConfig`: the whole state is written. -/
def SentinelState.sentinelFlushConfig (s : SentinelState M) : SentinelState M :=
  s.emit (.flushed (rewriteConfigSentinelOption s))

/-- `sentinel monitor`, `config-epoch` and `leader-epoch`, before slaves and Sentinels are
    added. -/
def loadMonitor (now : Int) (c : MasterConfig) : Master where
  toInstance := createInstance now c.addr c.downAfterPeriod .master
  oDown := false
  oDownSinceTime := 0
  failoverInProgress := false
  forceFailover := false
  configEpoch := c.configEpoch
  sentinels := []
  slaves := []
  quorum := c.quorum
  parallelSyncs := c.parallelSyncs
  leader := none
  leaderEpoch := c.leaderEpoch
  failoverEpoch := 0
  failoverState := .none
  failoverStateChangeTime := 0
  failoverStartTime := 0
  failoverTimeout := c.failoverTimeout
  promotedSlave := none

/-- `sentinelHandleConfiguration` over the lines of one master. -/
def loadMaster (R : Resolver) (now : Int) (c : MasterConfig) : Master :=
  let master := c.knownSlaves.foldl (fun r a => createSlave R now r a.ip a.port) (loadMonitor now c)
  { master with
    sentinels := c.knownSentinels.map (fun p => newPeer now p.2 p.1 master) }

variable [Fintype M]

/-- A restart from a configuration file: `current-epoch` and every `config-epoch` raise the
    current epoch. -/
def sentinelHandleConfiguration (R : Resolver) (now : Int) (c : Config M)
    (trace : List (Effect M)) : SentinelState M where
  myid := c.myid
  currentEpoch := max c.currentEpoch (Finset.univ.sup (fun m => (c.masters m).configEpoch))
  masters := fun m => loadMaster R now (c.masters m)
  tilt := false
  tiltStartTime := 0
  previousTime := now
  trace := trace

end Config

end Redis.Sentinel
