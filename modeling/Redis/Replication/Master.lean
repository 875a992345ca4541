import Redis.Networking.Delivery
import Redis.Replication.Backlog

namespace Redis.Replication

open Buffer Outcome

/-!
# The master and its slaves

What a master without a master of its own does for its slaves (`replication.c`, and what
`rdb.c` and `networking.c` do for it).

* `replicationFeedSlaves` — a command for the backlog and for every slave;
* `startBgsaveForReplication`, `syncCommand` — a slave joins, with a data set of its own, with
  the one of another slave, or with what the backlog holds;
* `backgroundSaveDoneHandler`, `replicationCron` — the data set is ready, the next one is begun;
* `MasterOp`, `stepMaster`, `runMaster` — the runs.

A slave is the client of `networking.c` with its buffers, and what replication adds to it.
-/

/-- What the C code would do instead of returning. -/
inductive Fault
  | backlog (e : BacklogFault)
  | reply (e : ReplyFault)
  /-- A `serverAssert` that fails. -/
  | assertion
  deriving DecidableEq, Repr

/-- The states of a slave, `slave->replstate`. -/
inductive ReplState
  | none
  | waitBgsaveStart
  | waitBgsaveEnd
  | sendBulk
  | online
  deriving DecidableEq, Repr

/-- What `prepareClientToWrite` sees of the state. -/
def ReplState.forReplies : ReplState → SlaveState
  | .none => .none
  | .online => .online
  | _ => .other

/-- The handler of the writable event. -/
inductive WriteHandler
  | none
  | sendReplyToClient
  | sendBulkToSlave
  deriving DecidableEq, Repr

/-- `server.rdb_child_type`, when there is a child. -/
inductive RdbChildType
  | disk
  | socket
  deriving DecidableEq, Repr

/-- How a slave has been synchronized. -/
inductive Resync
  | waiting
  | full
  /-- `+CONTINUE`, from the byte with this number on. -/
  | continued (offset : Int)
  /-- `+CONTINUE` could not be written. -/
  | failed
  deriving DecidableEq, Repr

/-- A client in `server.slaves`. -/
structure Slave where
  id : Nat
  io : ReplyClient
  prePsync : Bool
  closeAsap : Bool
  replstate : ReplState
  slaveCapa : Nat
  psyncInitialOffset : Int
  writeHandler : WriteHandler
  /-- The line written to the socket past the buffers. -/
  greeting : Bytes
  /-- What `write` has accepted from the buffers since the client is a slave. -/
  accepted : Bytes
  resync : Resync

/-- What is fed: a `SELECT`, or a command with the database in which the master has executed
    it, if there is one. -/
inductive Fed
  | select (dictid : Int)
  | command (db : Option Nat) (argv : List ReplyObject)

/-- The part of `server` that the replication of a master uses. -/
structure Master where
  repl : ReplRun
  slaveseldb : Int
  slaves : List Slave
  rdbChild : Option RdbChildType
  /-- `server.aof_child_pid != -1`. -/
  aofChild : Bool
  replDisklessSync : Bool
  /-- What has been fed to the backlog, with the offset before it. -/
  log : List (Int × Fed)

/-- `SLAVE_CAPA_EOF`. -/
def SLAVE_CAPA_EOF : Nat := 1

/-- `LONG_STR_SIZE`. -/
def LONG_STR_SIZE : Nat := 21

/-- `PROTO_SHARED_SELECT_CMDS`. -/
def PROTO_SHARED_SELECT_CMDS : Int := 10

/-- The arguments of a command. -/
structure Argv where
  objs : List ReplyObject
  argc_lt : objs.length < 2 ^ 31
  valid : ∀ o ∈ objs, o.Valid

/-- An index of `server.db`. -/
abbrev Db := { n : Nat // n < 2 ^ 31 }

/-- A server that has just started. -/
def initMaster (runid : Bytes) (replDisklessSync : Bool) : Master where
  repl := initReplRun runid
  slaveseldb := -1
  slaves := []
  rdbChild := none
  aofChild := false
  replDisklessSync := replDisklessSync
  log := []

/-- The list of slaves, with its length in `server`. -/
def Master.setSlaves (m : Master) (slaves : List Slave) : Master :=
  { m with
    slaves := slaves
    repl := { m.repl with server := { m.repl.server with slaves := slaves.length } } }

/-- A loop over the slaves, in which some of them may be freed. -/
def Master.forSlaves (m : Master) (f : Slave → Except Fault (Option Slave)) : Except Fault Master := do
  let slaves ← m.slaves.mapM f
  return m.setSlaves slaves.reduceOption

/-! ### Feeding -/

/-- `sdigits10`. -/
def sdigits10 (v : Int) : Nat :=
  if v < 0 then digits10 (if v ≠ LLONG_MIN then (-v).toNat else LLONG_MAX + 1) + 1 else digits10 v.toNat

/-- `stringObjectLen`. -/
def stringObjectLen : ReplyObject → Nat
  | .sds _ s => s.bytes.length
  | .int n => sdigits10 n

/-- What `feedReplicationBacklogWithObject` feeds. -/
def backlogObject : ReplyObject → Bytes
  | .sds _ s => s.bytes
  | .int n => ll2string LONG_STR_SIZE n

/-- A line of `aux`: the prefix, the number and the end of the line. -/
def auxLine (c : UInt8) (n : Nat) : Bytes := [c] ++ ll2string (LONG_STR_SIZE + 2) n ++ [13, 10]

/-- What `replicationFeedSlaves` feeds to the backlog for a command, piece by piece. -/
def backlogPieces (argv : List ReplyObject) : List Bytes :=
  auxLine 42 argv.length ::
    argv.flatMap (fun o => [auxLine 36 (stringObjectLen o), backlogObject o, [13, 10]])

/-- The object `selectcmd`, with its text `*2\r\n$6\r\nSELECT\r\n$%d\r\n%s\r\n`. -/
def selectcmd (dictid : Int) : Bytes :=
  -- the commands for the first databases are made when the server starts
  let llstr := if 0 ≤ dictid ∧ dictid < PROTO_SHARED_SELECT_CMDS then ll2string 64 dictid
    else ll2string LONG_STR_SIZE dictid
  [42, 50, 13, 10, 36, 54, 13, 10, 83, 69, 76, 69, 67, 84, 13, 10, 36] ++ formatLd llstr.length ++ [13, 10] ++
    llstr ++ [13, 10]

/-- Pieces are fed to the backlog, if there is one. -/
def Master.feedBacklog (m : Master) (item : Fed) (pieces : List Bytes) : Except Fault Master := do
  if m.repl.server.replBacklog.isSome then
    let repl ← (pieces.foldlM (fun r p => stepRepl r (.feed p)) m.repl).mapError .backlog
    return { m with repl := repl, log := m.log ++ [(m.repl.server.masterReplOffset, item)] }
  else return m

/-- The replies are added to a slave, unless it waits for a BGSAVE to start. -/
def feedSlave (add : ReplyClient → Except ReplyFault ReplyClient) (s : Slave) : Except Fault (Option Slave) :=
  if s.replstate = .waitBgsaveStart then .ok (some s)
  else do
    let io ← (add s.io).mapError .reply
    return some { s with io := io }

section Blocks

variable (blocks : Blocks)

/-- `addReplyMultiBulkLen`. -/
def addReplyMultiBulkLen (c : ReplyClient) (length : Nat) : Except ReplyFault ReplyClient :=
  if length < OBJ_SHARED_BULKHDR_LEN then addReply blocks c (sharedObject blocks (headerLine 42 length))
  else addReplyLongLongWithPrefix blocks c length 42

/-- What a slave is replied for a command. -/
def addReplyCommand (argv : List ReplyObject) (c : ReplyClient) : Except ReplyFault ReplyClient := do
  let c ← addReplyMultiBulkLen blocks c argv.length
  argv.foldlM (addReplyBulk blocks) c

/-- The `SELECT` of `replicationFeedSlaves`. -/
def Master.feedSelect (dictid : Int) (m : Master) : Except Fault Master := do
  if m.slaveseldb ≠ dictid then
    let m ← m.feedBacklog (.select dictid) [selectcmd dictid]
    m.forSlaves (feedSlave (fun c => addReply blocks c (sharedObject blocks (selectcmd dictid))))
  else return m

/-- `replicationFeedSlaves`, of a command that the master has executed in `db`. -/
def replicationFeedSlaves (m : Master) (dictid : Int) (db : Option Nat) (argv : List ReplyObject) :
    Except Fault Master := do
  if m.repl.server.replBacklog.isNone ∧ m.slaves.length = 0 then return m
  else if m.slaves.length ≠ 0 ∧ m.repl.server.replBacklog.isNone then .error .assertion
  else do
    let m ← m.feedSelect blocks dictid
    let m := { m with slaveseldb := dictid }
    let m ← m.feedBacklog (.command db argv) (backlogPieces argv)
    m.forSlaves (feedSlave (addReplyCommand blocks argv))

end Blocks

/-! ### Full resynchronization -/

/-- What the system answers while slaves are synchronized. -/
structure SyncEnv where
  /-- `write` takes the line for the client with this id. -/
  written : Nat → Bool
  /-- `pipe` and `fork` succeed. -/
  piped : Bool
  forked : Bool
  /-- What fresh memory holds. -/
  junk : Nat → UInt8

/-- `getPsyncInitialOffset`. -/
def getPsyncInitialOffset (s : ReplServer) : Int :=
  -- the backlog will be created, and the offset incremented then
  if s.replBacklog.isNone then s.masterReplOffset + 1 else s.masterReplOffset

/-- `+FULLRESYNC %s %lld\r\n`. -/
def fullResyncLine (runid : Bytes) (offset : Int) : Bytes :=
  [43, 70, 85, 76, 76, 82, 69, 83, 89, 78, 67, 32] ++ runid ++ [32] ++ formatLd offset ++ [13, 10]

/-- `+CONTINUE\r\n`. -/
def continueLine : Bytes := [43, 67, 79, 78, 84, 73, 78, 85, 69, 13, 10]

/-- `slave->replstate` is set. -/
def Slave.setReplstate (s : Slave) (state : ReplState) : Slave :=
  { s with replstate := state, io := { s.io with replstate := state.forReplies } }

/-- `replicationSetupSlaveForFullResync`, on the slave. -/
def setupSlave (written : Nat → Bool) (runid : Bytes) (offset : Int) (s : Slave) : Slave :=
  let s := { s.setReplstate .waitBgsaveEnd with psyncInitialOffset := offset, resync := .full }
  if s.prePsync then s
  else if written s.id then { s with greeting := s.greeting ++ fullResyncLine runid offset }
  else { s with closeAsap := true }

/-- `replicationSetupSlaveForFullResync` for the slaves with `p`. -/
def Master.setupSlaves (env : SyncEnv) (offset : Int) (p : Slave → Bool) (m : Master) : Master :=
  { m.setSlaves (m.slaves.map (fun s => if p s then setupSlave env.written m.repl.server.runid offset s else s)) with
    -- the next command is preceded by a `SELECT`
    slaveseldb := if m.slaves.any p then -1 else m.slaveseldb }

/-- The slave waits for a BGSAVE to start. -/
def Slave.waits (s : Slave) : Bool := s.replstate = .waitBgsaveStart

/-- `rdbSaveBackground`: `none` is `C_ERR`. -/
def rdbSaveBackground (forked : Bool) (m : Master) : Option Master :=
  if m.aofChild ∨ m.rdbChild.isSome then none
  else if forked then some { m with rdbChild := some .disk }
  else none

/-- `rdbSaveToSlavesSockets`: whether it returns `C_OK`. -/
def rdbSaveToSlavesSockets (env : SyncEnv) (m : Master) : Bool × Master :=
  if m.aofChild ∨ m.rdbChild.isSome then (false, m)
  else if !env.piped then (false, m)
  else
    let waiting := m.slaves.filterMap (fun s => if s.waits then some s.id else none)
    let m := m.setupSlaves env (getPsyncInitialOffset m.repl.server) Slave.waits
    if env.forked then (true, { m with rdbChild := some .socket })
    else
      -- the states are set back, the slaves are going to be removed
      (false, m.setSlaves (m.slaves.map (fun s =>
        if s.id ∈ waiting then s.setReplstate .waitBgsaveStart else s)))

/-- `startBgsaveForReplication`. -/
def startBgsaveForReplication (env : SyncEnv) (mincapa : Nat) (m : Master) : Master :=
  let socketTarget := m.replDisklessSync && (mincapa &&& SLAVE_CAPA_EOF ≠ 0)
  let saved := if socketTarget then rdbSaveToSlavesSockets env m
    else ((rdbSaveBackground env.forked m).isSome, (rdbSaveBackground env.forked m).getD m)
  let m := saved.2
  if !saved.1 then
    -- no slaves any more: they are replied an error and closed
    m.setSlaves (m.slaves.filter (fun s => !s.waits))
  else if socketTarget then m
  else m.setupSlaves env (getPsyncInitialOffset m.repl.server) Slave.waits

/-- `copyClientOutputBuffer`. -/
def copyClientOutputBuffer (dst src : ReplyClient) : Except ReplyFault ReplyClient :=
  match overwrite? dst.buf 0 (src.buf.take src.bufpos) with
  | none => .error .outOfBounds
  | some buf =>
      .ok { dst with
        reply := src.reply
        nextNode := src.nextNode
        buf := buf
        bufpos := src.bufpos
        replyBytes := src.replyBytes }

/-! ### `SYNC` and `PSYNC` -/

/-- The replies of the client, as if `CLIENT REPLY` had never been used. -/
def answering (c : ReplyClient) : ReplyClient :=
  { c with flags := { c.flags with replyOff := false, replySkip := false } }

/-- A client that is not in `server.slaves`, when it sends a command. -/
structure Peer where
  id : Nat
  io : ReplyClient
  /-- `CLIENT_SLAVE`, which is set for a monitor as well. -/
  slave : Bool
  slaveCapa : Nat
  sane : (answering io).Sane
  lua : io.flags.lua = false
  replstate : io.replstate = .none
  /-- A write is only pending if there is something to write. -/
  pending : io.flags.pendingWrite = true → clientHasPendingReplies io = true

/-- `SYNC`, or `PSYNC` with its arguments. -/
inductive SyncRequest
  | sync
  | psync (masterRunid psyncOffset : Bytes)

/-- The client as a slave to be. -/
def Peer.toSlave (c : Peer) (request : SyncRequest) : Slave where
  id := c.id
  io := c.io
  prePsync := match request with
    | .sync => true
    | .psync _ _ => false
  closeAsap := false
  replstate := .none
  slaveCapa := c.slaveCapa
  psyncInitialOffset := 0
  -- nothing is pending
  writeHandler := .none
  greeting := []
  accepted := []
  resync := .waiting

/-- `listAddNodeTail(server.slaves,c)`. -/
def Master.addSlave (m : Master) (c : Slave) : Master := m.setSlaves (m.slaves ++ [c])

/-- `syncCommand` from `CASE 1` on. -/
def Master.serveSlave (env : SyncEnv) (c : Slave) (m : Master) : Except Fault Master :=
  match m.rdbChild with
  | some .disk =>
      match m.slaves.find? (fun s => s.replstate = .waitBgsaveEnd) with
      | some slave =>
          if c.slaveCapa &&& slave.slaveCapa = slave.slaveCapa then do
            let io ← (copyClientOutputBuffer c.io slave.io).mapError .reply
            let slaves := m.slaves.map (fun s => if s.id = c.id then { s with io := io } else s)
            return (m.setSlaves slaves).setupSlaves env slave.psyncInitialOffset (fun s => s.id = c.id)
          else return m
      | none => return m
  | some .socket => return m
  | none =>
      if m.replDisklessSync && (c.slaveCapa &&& SLAVE_CAPA_EOF ≠ 0) then return m
      else if !m.aofChild then return startBgsaveForReplication env c.slaveCapa m
      else return m

/-- The end of `syncCommand`: a backlog for the first slave. -/
def Master.ensureBacklog (env : SyncEnv) (m : Master) : Except Fault Master :=
  if m.slaves.length = 1 ∧ m.repl.server.replBacklog.isNone then do
    let repl ← (stepRepl m.repl (.create env.junk)).mapError .backlog
    return { m with repl := repl }
  else .ok m

/-- `syncCommand`, the full resynchronization. -/
def Master.fullResync (env : SyncEnv) (c : Slave) (m : Master) : Except Fault Master := do
  let c := c.setReplstate .waitBgsaveStart
  let m ← (m.addSlave c).serveSlave env c
  m.ensureBacklog env

section Blocks

variable (blocks : Blocks)

/-- `addReplyError`. -/
def addReplyError (c : ReplyClient) (err : String) : Except ReplyFault ReplyClient := do
  let c ← addReplyString blocks c [45, 69, 82, 82, 32]
  let c ← addReplyString blocks c (err.toList.map (fun ch => UInt8.ofNat ch.toNat))
  addReplyString blocks c [13, 10]

/-- `addReplySds` of what the backlog holds, if that is not nothing. -/
def addReplyBacklog (c : ReplyClient) (bytes : Bytes) : Except ReplyFault ReplyClient :=
  if bytes = [] then .ok c else addReplySds blocks c ⟨bytes, blocks.fresh c.allocs⟩

/-- What `masterTryPartialResynchronization` leaves: the client if it needs a full
    resynchronization, and the server. -/
def Master.afterPsync (c : Slave) (psyncOffset : Bytes) (m : Master) : PsyncReply → Except Fault (Option Slave × Master)
  | .needFullResync none => .ok (some c, m)
  | .needFullResync (some err) => do
      let io ← (addReplyError blocks c.io err).mapError .reply
      return (some { c with io := io }, m)
  | .closed => .ok (none, m.addSlave { c.setReplstate .online with closeAsap := true, resync := .failed })
  | .continued bytes => do
      let c := { c.setReplstate .online with
        greeting := c.greeting ++ continueLine
        resync := .continued ((string2ll psyncOffset).getD 0) }
      let io ← (addReplyBacklog blocks { c.io with replPutOnlineOnAck := false } bytes).mapError .reply
      return (none, m.addSlave { c with io := io })

/-- The request of a client without pending replies. -/
def Master.answerSync (env : SyncEnv) (c : Peer) (m : Master) : SyncRequest → Except Fault Master
  | .sync => m.fullResync env (c.toSlave .sync)
  | .psync masterRunid psyncOffset => do
      let slave := c.toSlave (.psync masterRunid psyncOffset)
      let reply ← (masterTryPartialResynchronization masterRunid psyncOffset (env.written c.id)
        m.repl.server).mapError .backlog
      match ← m.afterPsync blocks slave psyncOffset reply.1 with
      | (none, m) => return m
      | (some slave, m) => m.fullResync env slave

/-- `syncCommand` does not turn the client down. -/
def Master.handles (m : Master) (c : Peer) : Bool :=
  -- the slaves have the flag themselves
  !(c.slave || m.slaves.any (fun s => s.id = c.id)) && !clientHasPendingReplies c.io

/-- `resetClient`, after the command of the client with this id. -/
def Master.resetClient (id : Nat) (m : Master) : Master :=
  m.setSlaves (m.slaves.map (fun s =>
    if s.id = id then { s with io := { s.io with flags := { s.io.flags with replySkip := false } } } else s))

/-- `syncCommand`, and what follows a command. -/
def syncCommand (env : SyncEnv) (c : Peer) (request : SyncRequest) (m : Master) : Except Fault Master := do
  if m.handles c then
    let m ← m.answerSync blocks env c request
    return m.resetClient c.id
  else return m

end Blocks

/-! ### The end of a BGSAVE -/

/-- The slaves that wait for a BGSAVE to start: what all of them are capable of. -/
def mincapaOf (slaves : List Slave) : Option Nat :=
  (slaves.filter Slave.waits).foldl
    (fun mincapa s => some (mincapa.elim s.slaveCapa (· &&& s.slaveCapa))) none

/-- The loop of `updateSlavesWaitingBgsave` on a slave; `opened` tells whether the file can be
    sent. -/
def bgsaveDone (ok : Bool) (opened : Nat → Bool) (type : RdbChildType) (s : Slave) : Option Slave :=
  if s.replstate = .waitBgsaveEnd then
    match type with
    | .socket =>
        let s := s.setReplstate .online
        some { s with io := { s.io with replPutOnlineOnAck := true } }
    | .disk =>
        if ok && opened s.id then some { s.setReplstate .sendBulk with writeHandler := .sendBulkToSlave }
        else none
  else some s

/-- `updateSlavesWaitingBgsave`. -/
def updateSlavesWaitingBgsave (env : SyncEnv) (ok : Bool) (opened : Nat → Bool) (type : RdbChildType) (m : Master) :
    Master :=
  let mincapa := mincapaOf m.slaves
  let m := m.setSlaves (m.slaves.filterMap (bgsaveDone ok opened type))
  mincapa.elim m (fun mincapa => startBgsaveForReplication env mincapa m)

/-- `backgroundSaveDoneHandler`: the child has terminated, with success or not, and has
    reported the slaves that it has served. -/
def backgroundSaveDoneHandler (env : SyncEnv) (ok : Bool) (reported opened : Nat → Bool) (m : Master) : Master :=
  match m.rdbChild with
  | none => m
  | some .disk => updateSlavesWaitingBgsave env ok opened .disk { m with rdbChild := none }
  | some .socket =>
      let m := m.setSlaves (m.slaves.filter (fun s => s.replstate ≠ .waitBgsaveEnd || (ok && reported s.id)))
      updateSlavesWaitingBgsave env ok opened .socket { m with rdbChild := none }

/-- `replicationCron`: a BGSAVE for the slaves that wait, when the first of them has waited
    long enough. -/
def replicationCronBgsave (env : SyncEnv) (delayed : Bool) (m : Master) : Master :=
  if m.rdbChild.isNone ∧ !m.aofChild then
    (mincapaOf m.slaves).elim m (fun mincapa =>
      if !m.replDisklessSync || delayed then startBgsaveForReplication env mincapa m else m)
  else m

/-- `putSlaveOnline`; `installed` tells whether the event can be registered. -/
def putSlaveOnline (installed : Bool) (s : Slave) : Option Slave :=
  let s := s.setReplstate .online
  if installed then
    some { s with io := { s.io with replPutOnlineOnAck := false }, writeHandler := .sendReplyToClient }
  else none

/-! ### Writing to the sockets -/

/-- `writeToClient`: what is left, unless the client is freed. -/
def Slave.write (writes : List (WriteResult × Bool)) (s : Slave) : Except Fault (Option Slave) := do
  let result ← (writeToClient s.io writes).mapError .reply
  return if result.1 then some { s with io := result.2.1, accepted := s.accepted ++ result.2.2 } else none

/-- `handleClientsWithPendingWrites` on a slave. -/
def handlePendingWrite (writes : List (WriteResult × Bool)) (installed : Bool) (s : Slave) :
    Except Fault (Option Slave) := do
  if s.io.flags.pendingWrite then
    let s ← { s with io := { s.io with flags := { s.io.flags with pendingWrite := false } } }.write writes
    return s.map (fun s =>
      if !clientHasPendingReplies s.io then s
      else if installed then { s with writeHandler := .sendReplyToClient }
      else { s with closeAsap := true })
  else return some s

/-- `sendReplyToClient`, the handler. -/
def sendReplyToClient (writes : List (WriteResult × Bool)) (s : Slave) : Except Fault (Option Slave) := do
  if s.writeHandler = .sendReplyToClient then
    let s ← s.write writes
    return s.map (fun s => if clientHasPendingReplies s.io then s else { s with writeHandler := .none })
  else return some s

/-! ### Runs -/

/-- What can happen. -/
inductive MasterOp
  /-- A command that has been executed in a database. -/
  | feed (db : Db) (argv : Argv)
  /-- `PING` and `REPLCONF GETACK`, which are fed with `server.slaveseldb`. -/
  | feedSelected (argv : Argv)
  | sync (c : Peer) (request : SyncRequest) (env : SyncEnv)
  /-- A BGSAVE that is not for replication. -/
  | bgsave (forked : Bool)
  /-- An AOF rewrite begins, if it can, or ends. -/
  | rewriteaof (running : Bool)
  | bgsaveDone (env : SyncEnv) (ok : Bool) (reported opened : Nat → Bool)
  | cronBgsave (env : SyncEnv) (delayed : Bool)
  /-- `replicationCron`: no slave for long enough. -/
  | cronFreeBacklog
  | resizeBacklog (newsize : Int) (junk : Nat → UInt8)
  | configDiskless (yes : Bool)
  /-- `sendBulkToSlave` has sent the file. -/
  | bulkSent (id : Nat) (installed : Bool)
  | replconfAck (id : Nat) (installed : Bool)
  | handlePendingWrite (id : Nat) (writes : List (WriteResult × Bool)) (installed : Bool)
  | sendReplyToClient (id : Nat) (writes : List (WriteResult × Bool))
  | freeClientAsync (id : Nat)
  | freeClient (id : Nat)

/-- Something happens to the slave with this id. -/
def atSlave (id : Nat) (f : Slave → Except Fault (Option Slave)) (s : Slave) : Except Fault (Option Slave) :=
  if s.id = id then f s else .ok (some s)

section Runs

variable (blocks : Blocks)

/-- One step. -/
def stepMaster (m : Master) : MasterOp → Except Fault Master
  | .feed db argv => replicationFeedSlaves blocks m db.1 (some db.1) argv.objs
  | .feedSelected argv => replicationFeedSlaves blocks m m.slaveseldb none argv.objs
  | .sync c request env => syncCommand blocks env c request m
  | .bgsave forked => .ok ((rdbSaveBackground forked m).getD m)
  | .rewriteaof running =>
      .ok (if running && m.rdbChild.isSome then m else { m with aofChild := running })
  | .bgsaveDone env ok reported opened => .ok (backgroundSaveDoneHandler env ok reported opened m)
  | .cronBgsave env delayed => .ok (replicationCronBgsave env delayed m)
  | .cronFreeBacklog =>
      if m.slaves.length = 0 ∧ m.repl.server.replBacklog.isSome then do
        let repl ← (stepRepl m.repl .free).mapError .backlog
        return { m with repl := repl }
      else .ok m
  | .resizeBacklog newsize junk => do
      let repl ← (stepRepl m.repl (.resize newsize junk)).mapError .backlog
      return { m with repl := repl }
  | .configDiskless yes => .ok { m with replDisklessSync := yes }
  | .bulkSent id installed => m.forSlaves (atSlave id (fun s =>
      .ok (if s.replstate = .sendBulk then putSlaveOnline installed s else some s)))
  | .replconfAck id installed => m.forSlaves (atSlave id (fun s =>
      .ok (if s.io.replPutOnlineOnAck ∧ s.replstate = .online then putSlaveOnline installed s else some s)))
  | .handlePendingWrite id writes installed =>
      m.forSlaves (atSlave id (Replication.handlePendingWrite writes installed))
  | .sendReplyToClient id writes => m.forSlaves (atSlave id (Replication.sendReplyToClient writes))
  | .freeClientAsync id => m.forSlaves (atSlave id (fun s => .ok (some { s with closeAsap := true })))
  | .freeClient id => m.forSlaves (atSlave id (fun _ => .ok none))

/-- A run. -/
def runMaster (m : Master) (ops : List MasterOp) : Except Fault Master := ops.foldlM (stepMaster blocks) m

end Runs

end Redis.Replication
