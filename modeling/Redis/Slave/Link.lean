import Redis.Networking.Parsing

namespace Redis.Slave

open Networking

/-!
# The link of a slave to its master

The client of the master holds everything about the stream that is not executed yet: the
bytes that are not parsed, the arguments that are not complete, the selected database and
the queued transaction.  It is cached when the link breaks and used again when a partial
resynchronization is accepted.

* `processCommand`, `call` — what the commands of the master do to its client, and what the
  slave does for them;
* `replconfCommand`, `replicationSendAck` — the acknowledgements;
* `readQueryFromClient`, `processUnblockedClients` — the bytes;
* `freeClient`, `replicationCacheMaster`, `slaveTryPartialResynchronization`,
  `replicationResurrectCachedMaster` — the link.

The commands of a stream are not refused for reasons other than their name and the number
of their arguments, and none of them closes the client.
-/

/-- What the slave does. -/
inductive Effect
  /-- A command is executed in the selected database. -/
  | call (dbid : Nat) (argv : List Bytes)
  /-- EXEC begins to execute the queue. -/
  | multi
  /-- EXEC has executed the queue. -/
  | exec
  /-- `REPLCONF ACK` with this offset is sent to the master. -/
  | ack (offset : Int)
deriving DecidableEq, Repr

/-! ### Commands of the master -/

/-- The selected database and the transaction of a client. -/
structure Context where
  /-- `c->db`. -/
  dbid : Nat
  /-- `CLIENT_MULTI` and the queue. -/
  mstate : Option (List (List Bytes))
  /-- `CLIENT_DIRTY_EXEC`. -/
  dirtyExec : Bool
deriving DecidableEq, Repr

/-- The command has this name. -/
def named (argv : List Bytes) (name : Bytes) : Bool := strcaseeq (argv.headD []) name

/-- `EXEC`. -/
def isExec (argv : List Bytes) : Bool := named argv [101, 120, 101, 99]

/-- `DISCARD`. -/
def isDiscard (argv : List Bytes) : Bool := named argv [100, 105, 115, 99, 97, 114, 100]

/-- `MULTI`. -/
def isMulti (argv : List Bytes) : Bool := named argv [109, 117, 108, 116, 105]

/-- `WATCH`. -/
def isWatch (argv : List Bytes) : Bool := named argv [119, 97, 116, 99, 104]

/-- `SELECT`. -/
def isSelect (argv : List Bytes) : Bool := named argv [115, 101, 108, 101, 99, 116]

/-- `REPLCONF`. -/
def isReplconf (argv : List Bytes) : Bool := named argv [114, 101, 112, 108, 99, 111, 110, 102]

/-- `replicationSendAck`. -/
def replicationSendAck (reploff : Int) : Effect := .ack reploff

/-- The loop of `replconfCommand` over the options and values, for a client that is no
    slave. -/
def replconfOptions (reploff : Int) : List Bytes → List Effect
  | option :: value :: rest =>
      -- listening-port
      if strcaseeq option [108, 105, 115, 116, 101, 110, 105, 110, 103, 45, 112, 111, 114, 116] then
        if (string2ll value).isSome then replconfOptions reploff rest else []
      -- ip-address
      else if strcaseeq option [105, 112, 45, 97, 100, 100, 114, 101, 115, 115] then
        if value.length < 46 then replconfOptions reploff rest else []
      -- capa
      else if strcaseeq option [99, 97, 112, 97] then replconfOptions reploff rest
      -- ack
      else if strcaseeq option [97, 99, 107] then []
      -- getack
      else if strcaseeq option [103, 101, 116, 97, 99, 107] then
        replicationSendAck reploff :: replconfOptions reploff rest
      else []
  | _ => []

/-- `replconfCommand`. -/
def replconfCommand (reploff : Int) (argv : List Bytes) : List Effect :=
  if argv.length % 2 = 0 then [] else replconfOptions reploff argv.tail

section Commands

/- `server.dbnum`; and whether a command exists and has as many arguments as it needs. -/
variable (dbnum : Nat) (lookupCommand : List Bytes → Bool)

/-- `selectCommand`: the database afterwards. -/
def selectCommand (dbid : Nat) (argv : List Bytes) : Nat :=
  match string2ll (argv.getD 1 []) with
  | none => dbid
  | some id => if id < 0 ∨ id ≥ dbnum then dbid else id.toNat

/-- `call` of a command other than MULTI, EXEC and DISCARD: the database afterwards and what
    is done. -/
def call (reploff : Int) (dbid : Nat) (argv : List Bytes) : Nat × List Effect :=
  (if isSelect argv then selectCommand dbnum dbid argv else dbid,
    .call dbid argv :: (if isReplconf argv then replconfCommand reploff argv else []))

/-- The loop of `execCommand` over the queue. -/
def execQueue (reploff : Int) (dbid : Nat) : List (List Bytes) → Nat × List Effect
  | [] => (dbid, [])
  | argv :: queue =>
      let (dbid, effects) := call dbnum reploff dbid argv
      let (dbid, rest) := execQueue reploff dbid queue
      (dbid, effects ++ rest)

/-- `execCommand` with the queue of the client. -/
def execCommand (reploff : Int) (ctx : Context) (queue : List (List Bytes)) (argv : List Bytes) :
    Context × List Effect :=
  if ctx.dirtyExec then ({ ctx with mstate := none, dirtyExec := false }, [.call ctx.dbid argv])
  else
    let (dbid, effects) := execQueue dbnum reploff ctx.dbid queue
    ({ dbid, mstate := none, dirtyExec := false }, .multi :: effects ++ [.exec])

/-- `processCommand` of a client outside of a transaction. -/
def processPlain (reploff : Int) (ctx : Context) (argv : List Bytes) : Context × List Effect :=
  if isMulti argv then ({ ctx with mstate := some [] }, [.call ctx.dbid argv])
  -- EXEC and DISCARD without MULTI are errors
  else if isExec argv ∨ isDiscard argv then (ctx, [.call ctx.dbid argv])
  else
    let (dbid, effects) := call dbnum reploff ctx.dbid argv
    ({ ctx with dbid }, effects)

/-- `processCommand` of a client with these commands in its queue. -/
def processQueued (reploff : Int) (ctx : Context) (queue : List (List Bytes)) (argv : List Bytes) :
    Context × List Effect :=
  if isExec argv then execCommand dbnum reploff ctx queue argv
  else if isDiscard argv then ({ ctx with mstate := none, dirtyExec := false }, [.call ctx.dbid argv])
  -- both are errors inside of a transaction
  else if isMulti argv ∨ isWatch argv then (ctx, [.call ctx.dbid argv])
  -- `queueMultiCommand`
  else ({ ctx with mstate := some (queue ++ [argv]) }, [])

/-- `processCommand`. -/
def processCommand (reploff : Int) (ctx : Context) (argv : List Bytes) : Context × List Effect :=
  if lookupCommand argv then
    match ctx.mstate with
    | none       => processPlain dbnum reploff ctx argv
    | some queue => processQueued dbnum reploff ctx queue argv
  -- `flagTransaction`
  else ({ ctx with dirtyExec := ctx.dirtyExec || ctx.mstate.isSome }, [])

/-- The commands that have been parsed, one after the other. -/
def processCommands (reploff : Int) (ctx : Context) : List (List Bytes) → Context × List Effect
  | [] => (ctx, [])
  | argv :: rest =>
      let (ctx, effects) := processCommand dbnum lookupCommand reploff ctx argv
      let (ctx, more) := processCommands reploff ctx rest
      (ctx, effects ++ more)

end Commands

/-! ### The client of the master -/

/-- The client of the master. -/
structure MasterClient where
  /-- The bytes and what has been parsed of them. -/
  request : RequestClient
  ctx : Context
  reploff : Int
  /-- `CLIENT_UNBLOCKED`. -/
  unblocked : Bool
deriving DecidableEq, Repr

/-- A server that is a slave. -/
structure Server where
  /-- `server.master`. -/
  master : Option MasterClient
  /-- `server.cached_master`. -/
  cachedMaster : Option MasterClient
  /-- What the master sends over the link that the slave has not read. -/
  rest : Bytes
  /-- All bytes of the stream that have been read. -/
  received : Bytes
  log : List Effect
deriving DecidableEq, Repr

/-- `replicationCreateMasterClient`, after a full resynchronization at this offset. -/
def replicationCreateMasterClient (initialOffset : Int) : MasterClient where
  request := createRequestClient
  ctx := { dbid := 0, mstate := none, dirtyExec := false }
  reploff := initialOffset
  unblocked := false

/-- The offset of PSYNC in `slaveTryPartialResynchronization`. -/
def psyncOffset (c : MasterClient) : Int := c.reploff + 1

/-- `replicationCacheMaster`. -/
def replicationCacheMaster (s : Server) (c : MasterClient) : Except RequestFault Server :=
  if s.cachedMaster.isSome then .error .assertion
  else .ok { s with master := none, cachedMaster := some c }

/-- `freeClient` of the master: it is cached, unless it is in some unexpected state. -/
def freeClient (s : Server) (c : MasterClient) : Except RequestFault Server :=
  if c.request.protocolError.isSome ∨ c.request.blocked ∨ c.unblocked then .ok { s with master := none }
  else replicationCacheMaster s c

/-- `replicationResurrectCachedMaster`. -/
def replicationResurrectCachedMaster (c : MasterClient) : MasterClient :=
  { c with request := { c.request with protocolError := none } }

section Link

variable (dbnum : Nat) (lookupCommand : List Bytes → Bool)

/- `processInlineBuffer`, and whether the client is paused or blocked after the command with
this number. -/
variable (processInlineBuffer : RequestClient → Bool × RequestClient) (pauses blocks : Nat → Bool)

/-- The requests that have been parsed since are executed. -/
def processRequests (s : Server) (c : MasterClient) (request : RequestClient) : Server :=
  let r := processCommands dbnum lookupCommand c.reploff c.ctx (request.executed.drop c.request.executed.length)
  { s with master := some { c with request, ctx := r.1 }, log := s.log ++ r.2 }

/-- `readQueryFromClient`, when these bytes have arrived.  The offset is advanced before they
    are parsed. -/
def readQueryFromMaster (s : Server) (c : MasterClient) (n : Nat) : Except RequestFault Server := do
  let arrived := s.rest.take n
  let (request, left) ← readQueryFromClient processInlineBuffer pauses blocks c.request arrived
  let nread := arrived.length - left.length
  let s := { s with rest := s.rest.drop nread, received := s.received ++ s.rest.take nread }
  let c := { c with reploff := c.reploff + nread }
  if request.freed then freeClient s { c with request := { request with freed := false } }
  else .ok (processRequests dbnum lookupCommand s c request)

/-- `processUnblockedClients`, for the client of the master. -/
def processUnblockedMaster (s : Server) (c : MasterClient) : Except RequestFault Server := do
  let request ← processUnblockedClient processInlineBuffer pauses blocks c.request
  .ok (processRequests dbnum lookupCommand s { c with unblocked := false } request)

/-- The pause of the clients is a state of the server. -/
def MasterClient.setPaused (c : MasterClient) (paused : Bool) : MasterClient :=
  { c with request := { c.request with paused } }

/-- What can happen to a slave. -/
inductive Event
  /-- So many bytes arrive, or none and the link is closed. -/
  | read (n : Nat)
  /-- `CLIENT PAUSE` by any client. -/
  | pause
  /-- `clientsArePaused` finds that the pause is over. -/
  | unpause
  /-- `unblockClient`. -/
  | unblock
  /-- `processUnblockedClients`. -/
  | processUnblocked
  /-- `replicationCron` sends an acknowledgement. -/
  | cron
  /-- The link breaks. -/
  | disconnect
  /-- PSYNC is accepted, and the stream begins at the offset that was requested. -/
  | resync
deriving DecidableEq, Repr

/-- One event of a slave, whose master sends this stream from `initialOffset` on. -/
def step (stream : Bytes) (initialOffset : Int) (s : Server) : Event → Except RequestFault Server
  | .read n =>
      match s.master with
      | none   => .ok s
      | some c => readQueryFromMaster dbnum lookupCommand processInlineBuffer pauses blocks s c n
  | .pause =>
      .ok { s with
        master := s.master.map (·.setPaused true)
        cachedMaster := s.cachedMaster.map (·.setPaused true) }
  | .unpause =>
      .ok { s with
        -- all clients that are not blocked are put into the queue of unblocked clients
        master := s.master.map (fun c => { c.setPaused false with unblocked := c.unblocked || !c.request.blocked })
        cachedMaster := s.cachedMaster.map (·.setPaused false) }
  | .unblock =>
      .ok { s with
        master := s.master.map (fun c =>
          { c with
            request := { c.request with blocked := false }
            unblocked := c.unblocked || c.request.blocked }) }
  | .processUnblocked =>
      match s.master with
      | none => .ok s
      | some c =>
          if c.unblocked then processUnblockedMaster dbnum lookupCommand processInlineBuffer pauses blocks s c
          else .ok s
  | .cron =>
      .ok { s with log := s.log ++ (s.master.map (fun c => replicationSendAck c.reploff)).toList }
  | .disconnect =>
      match s.master with
      | none   => .ok s
      | some c => freeClient s c
  | .resync =>
      match s.master, s.cachedMaster with
      | none, some c =>
          .ok { s with
            master := some (replicationResurrectCachedMaster c)
            cachedMaster := none
            -- the first byte of the stream has the number `initialOffset + 1`
            rest := stream.drop (psyncOffset c - (initialOffset + 1)).toNat }
      | _, _ => .ok s

/-- A slave after a full resynchronization. -/
def start (stream : Bytes) (initialOffset : Int) : Server where
  master := some (replicationCreateMasterClient initialOffset)
  cachedMaster := none
  rest := stream
  received := []
  log := []

/-- The states that are reached by events that are permitted. -/
inductive Reach (permitted : Server → Event → Prop) (stream : Bytes) (initialOffset : Int) : Server → Prop
  | start : Reach permitted stream initialOffset (start stream initialOffset)
  | step {s s' : Server} (e : Event) (h : Reach permitted stream initialOffset s) (he : permitted s e)
      (hs : step dbnum lookupCommand processInlineBuffer pauses blocks stream initialOffset s e = .ok s') :
      Reach permitted stream initialOffset s'

end Link

end Redis.Slave
