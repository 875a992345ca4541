import Redis.Aof.Rewrite
import Redis.Db.Expiry
import Redis.Lib.Lines

namespace Redis.Migrate

open Lines
open Aof (arg rioWriteBulkCount rioWriteBulkString rioWriteBulkLongLong selectName)

/-!
# MIGRATE

`migrateCommand` and its cache of connections (`cluster.c`), and `syncReadLine` (`syncio.c`).
What the network and the target do is a parameter.

* `Exchange` — what happens on the connection of one attempt;
* `migrateGetSocket`, `migrateCloseSocket`, `migrateCloseTimedoutSockets`;
* `syncReadLine`, `readReplies` — the answers of the target, one for each command;
* `migrateAttempt` — from `try_again` to a `return` or to `socket_err`;
* `migrateCommand`.
-/

/-- `MIGRATE_SOCKET_CACHE_ITEMS`. -/
def MIGRATE_SOCKET_CACHE_ITEMS : Nat := 64

/-- `MIGRATE_SOCKET_CACHE_TTL`. -/
def MIGRATE_SOCKET_CACHE_TTL : Int := 10

/-- What is sent before a newline. -/
abbrev Line := { l : Bytes // (10 : UInt8) ∉ l }

/-- What the network and the target do in one attempt.  The target answers every command with one
    line, until it or the network fails. -/
structure Exchange where
  /-- The cached socket that is dropped when there are too many. -/
  victim : Nat
  /-- The error of `anetTcpNonBlockConnect`. -/
  refused : Option Bytes
  /-- `aeWait` finds the socket writable in time. -/
  writable : Bool
  /-- The `syncWrite` of a chunk fails; the value says whether by a timeout. -/
  writeFails : Nat → Option Bool
  answer : Nat → Line
  /-- How many bytes of the answers arrive. -/
  arriving : Nat
  /-- The read that finds no more fails by a timeout. -/
  timedOut : Bool

/-- `migrateCachedSocket`; `unread` are the bytes that have been received and not been read. -/
structure MigrateCachedSocket where
  lastDbid : Int
  lastUseTime : Int
  unread : Bytes
  deriving DecidableEq, Repr

/-- The replies of the command. -/
inductive MigrateReply
  | ok
  /-- `+NOKEY`. -/
  | nokey
  | error (text : String)
  /-- `-ERR Can't connect to target node: %s`. -/
  | connectError (neterr : Bytes)
  /-- `-ERR Target instance replied with error: %s`. -/
  | targetError (text : Bytes)
  deriving DecidableEq, Repr

/-- What happens in the course of a command, for the statements about it. -/
inductive Event
  /-- `try_again`. -/
  | attempt (i : Nat)
  /-- All of the commands are written, with or without a `SELECT`. -/
  | sent (i : Nat) (select : Bool)
  | deleted (key : Bytes)
  deriving DecidableEq, Repr

/-- The server, as far as the command reads it. -/
structure State (V : Type) where
  server : Server V
  /-- `server.migrate_cached_sockets`. -/
  sockets : List (Bytes × MigrateCachedSocket)
  dirty : Int

/-- The server and the client in the course of the command. -/
structure Call (V : Type) extends State V where
  argv : List Bytes
  replies : List MigrateReply
  /-- The latest first. -/
  log : List Event

/-- The options, and where the keys are. -/
structure Options where
  copy : Bool
  replace : Bool
  firstKey : Nat
  numKeys : Nat
  deriving DecidableEq, Repr

/-! ### The cache of connections -/

section Sockets

variable {V : Type}

/-- `host:port`. -/
def socketName (host port : Bytes) : Bytes := host ++ [58] ++ port

/-- `dictDelete`. -/
def deleteSocket (sockets : List (Bytes × MigrateCachedSocket)) (name : Bytes) : List (Bytes × MigrateCachedSocket) :=
  sockets.filter fun x => x.1 ≠ name

/-- A value of the dictionary is changed. -/
def updateSocket (sockets : List (Bytes × MigrateCachedSocket)) (name : Bytes)
    (f : MigrateCachedSocket → MigrateCachedSocket) : List (Bytes × MigrateCachedSocket) :=
  sockets.map fun x => if x.1 = name then (x.1, f x.2) else x

def Call.reply (c : Call V) (r : MigrateReply) : Call V := { c with replies := c.replies ++ [r] }

def Call.note (c : Call V) (e : Event) : Call V := { c with log := e :: c.log }

def ioError (writing : Bool) : MigrateReply :=
  .error (if writing then "IOERR error or timeout writing to target instance"
    else "IOERR error or timeout reading to target instance")

/-- `migrateGetSocket`. -/
def migrateGetSocket (x : Exchange) (unixtime : Int) (c : Call V) (host port : Bytes) :
    Call V × Option MigrateCachedSocket :=
  let name := socketName host port
  match c.sockets.lookup name with
  | some cs =>
      ({ c with sockets := updateSocket c.sockets name fun cs => { cs with lastUseTime := unixtime } },
        some { cs with lastUseTime := unixtime })
  | none =>
      -- too many items, drop one at random
      let c := if c.sockets.length = MIGRATE_SOCKET_CACHE_ITEMS then
        { c with sockets := c.sockets.eraseIdx (x.victim % MIGRATE_SOCKET_CACHE_ITEMS) } else c
      match x.refused with
      | some neterr => (c.reply (.connectError neterr), none)
      | none =>
          if x.writable = false then (c.reply (.error "IOERR error or timeout connecting to the client"), none)
          else
            let cs : MigrateCachedSocket := ⟨-1, unixtime, []⟩
            ({ c with sockets := (name, cs) :: c.sockets }, some cs)

/-- `migrateCloseSocket`, with the host and the port that the client has now. -/
def migrateCloseSocket (c : Call V) : Call V :=
  { c with sockets := deleteSocket c.sockets (socketName (arg c.argv 1) (arg c.argv 2)) }

/-- `migrateCloseTimedoutSockets`. -/
def migrateCloseTimedoutSockets (unixtime : Int) (s : State V) : State V :=
  { s with sockets := s.sockets.filter fun x => ¬ MIGRATE_SOCKET_CACHE_TTL < unixtime - x.2.lastUseTime }

end Sockets

/-! ### Reading a line -/

/-- `syncReadLine` with a buffer of `size` bytes: its result and the text in the buffer, or -1. -/
def syncReadLine (size : Nat) (input : Bytes) : Option (Nat × Bytes) × Bytes :=
  let r := takeLine 10 (size - 1) input
  -- the carriage return goes when the newline has been seen
  (r.1.map fun l => (l.1.length, if l.2 = true ∧ l.1.getLast? = some 13 then l.1.dropLast else l.1), r.2)

/-- A string as `%s` prints it, without newlines. -/
def errorText (buf : Bytes) : Bytes := (cstr (buf.drop 1)).map fun c => if c = 13 ∨ c = 10 then 32 else c

def isError (buf : Bytes) : Bool := buf.head? = some 45

/-- The state of the loop over the replies. -/
structure Reading (V : Type) where
  server : Server V
  dirty : Int
  input : Bytes
  lastDbid : Int
  replies : List MigrateReply
  log : List Event
  /-- The keys in `newargv`. -/
  newargv : List Bytes
  errorFromTarget : Bool
  /-- `socket_error`, and whether `errno` is `ETIMEDOUT` then. -/
  socketError : Option Bool
  j : Nat

section Replies

variable {V : Type}

/-- The branch for an error of the target: the first one is passed on. -/
def Reading.fail (r : Reading V) (text : Bytes) : Reading V :=
  if r.errorFromTarget then { r with j := r.j + 1 }
  else { r with lastDbid := -1, replies := r.replies ++ [.targetError text], errorFromTarget := true, j := r.j + 1 }

/-- The branch for a success. -/
def Reading.succeed (d : DbId) (copy : Bool) (r : Reading V) (key : Bytes) : Except ServerFault (Reading V) :=
  if copy then return { r with j := r.j + 1 }
  else do
    let s := r.server.setDb d (dbDelete (r.server.dbs d) key).1
    let s ← signalModifiedKey s d key
    return { r with server := s, dirty := r.dirty + 1, newargv := r.newargv ++ [key], log := .deleted key :: r.log,
                    j := r.j + 1 }

/-- The loop over the replies; `buf1` is the reply to the `SELECT`, if there was one. -/
def readReplies (timedOut : Bool) (d : DbId) (copy : Bool) (buf1 : Option Bytes) :
    List Bytes → Reading V → Except ServerFault (Reading V)
  | [], r => .ok r
  | key :: keys, r =>
      let line := syncReadLine 1024 r.input
      let r := { r with input := line.2 }
      match line.1 with
      | none => .ok { r with socketError := some timedOut }
      | some (nread, buf2) =>
          if nread = 0 then .ok { r with socketError := some false }
          else if buf1.any isError then readReplies timedOut d copy buf1 keys (r.fail (errorText (buf1.getD [])))
          else if isError buf2 then readReplies timedOut d copy buf1 keys (r.fail (errorText buf2))
          else do
            let r ← r.succeed d copy key
            readReplies timedOut d copy buf1 keys r

end Replies

/-! ### The command -/

section Command

variable {V : Type}

def copyName : Bytes := [99, 111, 112, 121]
def replaceName : Bytes := [114, 101, 112, 108, 97, 99, 101]
def keysName : Bytes := [107, 101, 121, 115]
def delName : Bytes := [68, 69, 76]
def restoreName : Bytes := [82, 69, 83, 84, 79, 82, 69]
def restoreAskingName : Bytes := restoreName ++ [45, 65, 83, 75, 73, 78, 71]
def upperReplaceName : Bytes := [82, 69, 80, 76, 65, 67, 69]

/-- The loop over the options, from the argument `j` on. -/
def parseOptions (argv : List Bytes) : Nat → List Bytes → Bool → Bool → Except MigrateReply Options
  | _, [], copy, replace => .ok ⟨copy, replace, 3, 1⟩
  | j, a :: args, copy, replace =>
      if strcaseeq a copyName then parseOptions argv (j + 1) args true replace
      else if strcaseeq a replaceName then parseOptions argv (j + 1) args copy true
      else if strcaseeq a keysName then
        if (arg argv 3).length ≠ 0 then
          .error (.error "ERR When using MIGRATE KEYS option, the key argument must be set to the empty string")
        -- all the remaining args are keys
        else .ok ⟨copy, replace, j + 1, argv.length - j - 1⟩
      else .error (.error "ERR syntax error")

/-- The arguments of the command: the options, `timeout` and `dbid`. -/
def parseArgs (argv : List Bytes) : Except MigrateReply (Options × Int × Int) := do
  let opts ← parseOptions argv 6 (argv.drop 6) false false
  match string2ll (arg argv 5), string2ll (arg argv 4) with
  | some timeout, some dbid => return (opts, if timeout ≤ 0 then 1000 else timeout, dbid)
  | _, _ => .error (.error "ERR value is not an integer or out of range")

/-- The keys of the command. -/
def Options.keys (o : Options) (argv : List Bytes) : List Bytes := (argv.drop o.firstKey).take o.numKeys

/-- The loop that fills `kv` and `ov`. -/
def lookupKeys (env : KeyEnv) (d : DbId) : Nat → List Bytes → Server V → Except ServerFault (Server V × List (Bytes × V))
  | _, [], s => .ok (s, [])
  | i, key :: keys, s => do
      let r ← lookupKeyRead env i (s.dbs d) key
      let t ← lookupKeys env d (i + 1) keys (s.setDb d r.1)
      return (t.1, (r.2.map (Prod.mk key)).toList ++ t.2)

/-- The `ttl` argument of a `RESTORE`. -/
def restoreTtl (mstime expireat : Int) : Int := if expireat = -1 then 0 else max 1 (wrap64 (expireat - mstime))

/-- One `RESTORE`. -/
def restoreBytes (env : KeyEnv) (payload : V → Bytes) (replace : Bool) (mstime expireat : Int) (kv : Bytes × V) : Bytes :=
  rioWriteBulkCount 42 (if replace then 5 else 4)
    ++ rioWriteBulkString (if env.clusterEnabled then restoreAskingName else restoreName)
    ++ rioWriteBulkString kv.1 ++ rioWriteBulkLongLong (restoreTtl mstime expireat)
    ++ rioWriteBulkString (payload kv.2) ++ (if replace then rioWriteBulkString upperReplaceName else [])

/-- The `RESTORE`s, from the reading `i` of the clock on. -/
def restoreCommands (env : KeyEnv) (payload : V → Bytes) (replace : Bool) (db : RedisDb V) :
    Nat → List (Bytes × V) → Except ServerFault Bytes
  | _, [] => .ok []
  | i, kv :: rest => do
      let expireat ← getExpire db kv.1
      let buf ← restoreCommands env payload replace db (i + 1) rest
      return restoreBytes env payload replace (env.mstime i) expireat kv ++ buf

def selectBytes (dbid : Int) : Bytes :=
  rioWriteBulkCount 42 2 ++ rioWriteBulkString selectName ++ rioWriteBulkLongLong dbid

/-- The transfer in chunks of 64K: whether it fails, and then whether by a timeout. -/
def transfer (x : Exchange) (buf : Bytes) : Option Bool :=
  (List.range ((buf.length + 65535) / 65536)).findSome? x.writeFails

/-- The bytes that arrive when `n` commands have been sent. -/
def Exchange.stream (x : Exchange) (n : Nat) : Bytes :=
  (unlines 10 ((List.range n).map fun i => (x.answer i).1)).take x.arriving

/-- How an attempt ends. -/
inductive Attempt (V : Type)
  | returned (c : Call V)
  /-- `socket_err`, with the flags that are read there. -/
  | socketErr (c : Call V) (writeError timedOut mayRetry argvRewritten : Bool)

/-- What follows the loop over the replies. -/
def afterReplies (name : Bytes) (copy : Bool) (dbid : Int) (mayRetry : Bool) (c : Call V) (r : Reading V) : Attempt V :=
  let c : Call V := { c with server := r.server, dirty := r.dirty, replies := r.replies, log := r.log,
                             sockets := updateSocket c.sockets name fun cs =>
                               { cs with lastDbid := r.lastDbid, unread := r.input } }
  -- nothing was processed and the first reply could not be read
  if r.errorFromTarget = false ∧ r.socketError = some false ∧ r.j = 0 ∧ mayRetry = true then
    .socketErr c false false mayRetry false
  else
    -- while the host and the port are still there
    let c := if r.socketError.isSome then migrateCloseSocket c else c
    let rewritten := !copy && !r.newargv.isEmpty
    let c := { c with argv := if rewritten then delName :: r.newargv else c.argv }
    match r.socketError with
    | some timedOut =>
        if r.errorFromTarget then .returned c else .socketErr c false timedOut false rewritten
    | none =>
        if r.errorFromTarget then .returned c
        else .returned ({ c with sockets := updateSocket c.sockets name fun cs => { cs with lastDbid := dbid } }.reply .ok)

/-- The parameters of the command that do not change. -/
structure Params (V : Type) where
  env : KeyEnv
  d : DbId
  unixtime : Int
  payload : V → Bytes
  opts : Options
  dbid : Int
  /-- `kv` and `ov`. -/
  kv : List (Bytes × V)

/-- The answers are read: to the `SELECT` if needed, and to the `RESTORE`s. -/
def readAnswers (p : Params V) (x : Exchange) (mayRetry select : Bool) (lastDbid : Int) (name input : Bytes) (c : Call V) :
    Except ServerFault (Attempt V) :=
  let line := syncReadLine 1024 input
  if select = true ∧ line.1.all (fun l => l.1 = 0) = true then
    .ok (.socketErr c false (line.1.isNone && x.timedOut) mayRetry false)
  else do
    let r ← readReplies x.timedOut p.d p.opts.copy (if select then line.1.map Prod.snd else none) (p.kv.map Prod.fst)
      { server := c.server, dirty := c.dirty, input := if select then line.2 else input, lastDbid := lastDbid,
        replies := c.replies, log := c.log, newargv := [], errorFromTarget := false, socketError := none, j := 0 }
    return afterReplies name p.opts.copy p.dbid mayRetry c r

/-- The commands are written to the socket, with the reading `t` of the clock, and the answers are read. -/
def migrateOver (p : Params V) (x : Exchange) (i t : Nat) (mayRetry : Bool) (cs : MigrateCachedSocket) (name : Bytes)
    (c : Call V) : Except ServerFault (Attempt V) := do
  let select : Bool := cs.lastDbid ≠ p.dbid
  let restores ← restoreCommands p.env p.payload p.opts.replace (c.server.dbs p.d) t p.kv
  match transfer x ((if select then selectBytes p.dbid else []) ++ restores) with
  | some timedOut => return .socketErr c true timedOut mayRetry false
  | none =>
      readAnswers p x mayRetry select cs.lastDbid name
        (cs.unread ++ x.stream ((if select then 1 else 0) + p.kv.length)) (c.note (.sent i select))

/-- From `try_again` on. -/
def migrateAttempt (p : Params V) (x : Exchange) (i t : Nat) (mayRetry : Bool) (c : Call V) : Except ServerFault (Attempt V) :=
  let got := migrateGetSocket x p.unixtime (c.note (.attempt i)) (arg c.argv 1) (arg c.argv 2)
  match got.2 with
  -- the error has been sent by `migrateGetSocket`
  | none => .ok (.returned got.1)
  | some cs => migrateOver p x i t mayRetry cs (socketName (arg c.argv 1) (arg c.argv 2)) got.1

/-- `socket_err` when there is no retry. -/
def giveUp (c : Call V) (writeError : Bool) : Call V := c.reply (ioError writeError)

/-- The cleanup at `socket_err`. -/
def cleanup (c : Call V) (argvRewritten : Bool) : Call V := if argvRewritten then c else migrateCloseSocket c

/-- The command after its keys have been looked up. -/
def migrateKeys (p : Params V) (net : Nat → Exchange) (t : Nat) (c : Call V) : Except ServerFault (Call V) := do
  match ← migrateAttempt p (net 0) 0 t true c with
  | .returned c => return c
  | .socketErr c writeError timedOut mayRetry argvRewritten =>
      let c := cleanup c argvRewritten
      if timedOut = false ∧ mayRetry = true then
        -- `may_retry` is 0 from here on
        match ← migrateAttempt p (net 1) 1 (t + p.kv.length) false c with
        | .returned c => return c
        | .socketErr c writeError _ _ argvRewritten => return giveUp (cleanup c argvRewritten) writeError
      else return giveUp c writeError

/-- `migrateCommand` of a client whose database is `d`. -/
def migrateCommand (env : KeyEnv) (payload : V → Bytes) (net : Nat → Exchange) (unixtime : Int) (d : DbId)
    (s : State V) (argv : List Bytes) : Except ServerFault (Call V) :=
  let c : Call V := { toState := s, argv := argv, replies := [], log := [] }
  match parseArgs argv with
  | .error e => .ok (c.reply e)
  | .ok (opts, _, dbid) => do
      let keys := opts.keys argv
      let r ← lookupKeys env d 0 keys s.server
      let c := { c with server := r.1 }
      if r.2.isEmpty then return c.reply .nokey
      else migrateKeys ⟨env, d, unixtime, payload, opts, dbid, r.2⟩ net keys.length c

/-- What `call` propagates after the command: its argument vector, if the dataset has been changed. -/
def Call.propagated (c : Call V) (s : State V) : Option (List Bytes) :=
  if 0 < c.dirty - s.dirty then some c.argv else none

end Command

end Redis.Migrate
