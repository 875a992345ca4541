import Redis.Blocking.Serve

namespace Redis.Blocking

/-!
# Blocked list clients — commands and events

The commands by what they do to the keys, and what happens to the server: a client connects,
its command or transaction runs and the blocked clients are served, a timeout passes, a client
goes away, a key expires.

* `Command`, `runCommand`;
* `Event`, `processEvent`, `Step`, `Steps`.

The clock stands still while an event is processed, so a key that is out of date when a command
looks it up has expired before the command.
-/

/-- The commands.  A function stands for what a command computes from the old value alone. -/
inductive Command (X : Type)
  /-- `LPUSH`, `RPUSH`. -/
  | push (key : Bytes) (value : Bytes) (values : List Bytes) (w : Where)
  /-- `LPUSHX`, `RPUSHX`. -/
  | pushx (key value : Bytes) (w : Where)
  /-- `LPOP`, `RPOP`. -/
  | pop (key : Bytes) (w : Where)
  /-- `LSET` and `LINSERT`, and with `trim` `LREM` and `LTRIM`, which delete an empty list. -/
  | edit (key : Bytes) (f : List Bytes → List Bytes) (trim : Bool)
  | rpoplpush (src dst : Bytes)
  | blpop (key : Bytes) (keys : List Bytes) (timeout : Option Int)
  | brpop (key : Bytes) (keys : List Bytes) (timeout : Option Int)
  | brpoplpush (src dst : Bytes) (timeout : Option Int)
  /-- `SET` and every other caller of `setKey` with a value that is no list. -/
  | set (key : Bytes) (x : X)
  /-- A command on a value that is no list: it creates, changes or deletes it. -/
  | update (key : Bytes) (f : Option X → Option X)
  /-- `SINTERSTORE`, `ZUNIONSTORE` and the like: the key is deleted, and added if there is a result. -/
  | store (key : Bytes) (x : Option X)
  | del (keys : List Bytes)
  /-- `RENAME`, `RENAMENX`. -/
  | rename (key newkey : Bytes) (nx : Bool)
  | move (key : Bytes) (db : Nat)
  /-- `RESTORE`, with what the payload loads as. -/
  | restore (key : Bytes) (payload : Option (Value X)) (replace : Bool)
  /-- `SORT … STORE`, with the sorted elements. -/
  | sortStore (key : Bytes) (result : List Bytes)
  | flushdb
  | flushall
  | select (db : Nat)
  /-- A command that leaves the keys as they are. -/
  | read

variable {C X : Type} [DecidableEq C]

/-! ## The commands of `t_list.c` -/

/-- `pushGenericCommand`. -/
def pushGenericCommand (s : Server C X) (p : Place) (values : List Bytes) (w : Where) :
    Except Fault (Server C X) :=
  match s.dict p with
  | some (.other _) => .ok s
  | some (.list _) => values.foldlM (fun s v => pushTo s p v w) s
  | none => do
    let s ← dbAdd s p (.list [])
    values.foldlM (fun s v => pushTo s p v w) s

/-- `pushxGenericCommand` without a pivot. -/
def pushxGenericCommand (s : Server C X) (p : Place) (value : Bytes) (w : Where) :
    Except Fault (Server C X) :=
  match s.dict p with
  | some (.list _) => pushTo s p value w
  | _ => .ok s

/-- `popGenericCommand`. -/
def popGenericCommand (s : Server C X) (p : Place) (w : Where) : Except Fault (Server C X) :=
  match s.dict p with
  | some (.list _) => do
    let r ← popFrom s p w
    match r.1 with
    | none => .ok r.2
    | some _ => deleteIfEmpty r.2 p
  | _ => .ok s

/-- `LSET`, `LINSERT`, `LREM`, `LTRIM`. -/
def editCommand (s : Server C X) (p : Place) (f : List Bytes → List Bytes) (trim : Bool) :
    Except Fault (Server C X) :=
  match s.dict p with
  | some (.list l) =>
    let s := s.setDict p (some (.list (f l)))
    if trim then deleteIfEmpty s p else .ok s
  | _ => .ok s

/-- `rpoplpushCommand`. -/
def rpoplpushCommand (s : Server C X) (c : C) (src dst : Bytes) : Except Fault (Server C X) :=
  let d := (s.client c).db
  match s.dict (d, src) with
  | some (.list l) =>
    if l.length = 0 then .ok s
    else
      match s.dict (d, dst) with
      | some (.other _) => .ok s
      | dobj => do
        let r ← popFrom s (d, src) .tail
        match r.1 with
        | none => .error .assertion
        | some value => do
          let s ← rpoplpushHandlePush r.2 c dst dobj.isSome value
          deleteIfEmpty s (d, src)
  | _ => .ok s

/-- The loop of `blockingPopGenericCommand`: the state after the reply, if there was one. -/
def popFirst (s : Server C X) (d : Nat) (w : Where) :
    List Bytes → Except Fault (Option (Server C X))
  | [] => .ok none
  | key :: keys =>
    match s.dict (d, key) with
    | some (.other _) => .ok (some s)
    | some (.list l) =>
      if l.length = 0 then popFirst s d w keys
      else do
        let r ← popFrom s (d, key) w
        match r.1 with
        | none => .error .assertion
        | some _ => do
          let s ← deleteIfEmpty r.2 (d, key)
          return some s
    | none => popFirst s d w keys

/-- `blockingPopGenericCommand`: a transaction or a script does not block. -/
def blockingPopGenericCommand (multi : Bool) (s : Server C X) (c : C) (keys : List Bytes)
    (timeout : Option Int) (w : Where) : Except Fault (Server C X) :=
  match timeout with
  | none => .ok s
  | some timeout => do
    let r ← popFirst s (s.client c).db w keys
    match r with
    | some s => .ok s
    | none => if multi then .ok s else .ok (blockForKeys s c keys timeout none)

/-- `brpoplpushCommand`. -/
def brpoplpushCommand (multi : Bool) (s : Server C X) (c : C) (src dst : Bytes)
    (timeout : Option Int) : Except Fault (Server C X) :=
  match timeout with
  | none => .ok s
  | some timeout =>
    match s.dict ((s.client c).db, src) with
    | none => if multi then .ok s else .ok (blockForKeys s c [src] timeout (some dst))
    | some (.other _) => .ok s
    | some (.list l) => if l.length = 0 then .error .assertion else rpoplpushCommand s c src dst

/-! ## The other commands -/

/-- A command on a value of another type. -/
def updateCommand (s : Server C X) (p : Place) (f : Option X → Option X) :
    Except Fault (Server C X) :=
  match s.dict p with
  | some (.list _) => .ok s
  | some (.other x) =>
    match f (some x) with
    | none => .ok (dbDelete s p)
    | some y => dbOverwrite s p (.other y)
  | none =>
    match f none with
    | none => .ok s
    | some y => dbAdd s p (.other y)

/-- The end of a command that stores a result. -/
def storeCommand (s : Server C X) (p : Place) (x : Option X) : Except Fault (Server C X) :=
  match x with
  | none => .ok (dbDelete s p)
  | some x => dbAdd (dbDelete s p) p (.other x)

/-- `renameGenericCommand`. -/
def renameGenericCommand (s : Server C X) (d : Nat) (key newkey : Bytes) (nx : Bool) :
    Except Fault (Server C X) :=
  match s.dict (d, key) with
  | none => .ok s
  | some o =>
    if key = newkey then .ok s
    else if (s.dict (d, newkey)).isSome ∧ nx = true then .ok s
    else do
      let s := if (s.dict (d, newkey)).isSome then dbDelete s (d, newkey) else s
      let s ← dbAdd s (d, newkey) o
      return dbDelete s (d, key)

/-- `moveCommand`. -/
def moveCommand (s : Server C X) (src : Nat) (key : Bytes) (dst : Nat) :
    Except Fault (Server C X) :=
  if s.dbnum ≤ dst then .ok s
  else if src = dst then .ok s
  else
    match s.dict (src, key) with
    | none => .ok s
    | some o =>
      -- the key already exists in the target
      if (s.dict (dst, key)).isSome then .ok s
      else do
        let s ← dbAdd s (dst, key) o
        return dbDelete s (src, key)

/-- `restoreCommand`. -/
def restoreCommand (s : Server C X) (p : Place) (payload : Option (Value X)) (replace : Bool) :
    Except Fault (Server C X) :=
  if replace = false ∧ (s.dict p).isSome then .ok s
  else
    match payload with
    | none => .ok s
    | some o => dbAdd (if replace then dbDelete s p else s) p o

/-- `SORT … STORE`. -/
def sortStoreCommand (s : Server C X) (p : Place) (result : List Bytes) :
    Except Fault (Server C X) :=
  if result.length = 0 then .ok (dbDelete s p) else setKey s p (.list result)

/-- The keys that are left when some are deleted. -/
def keepKeys (s : Server C X) (keep : Place → Bool) : Server C X :=
  { s with dict := fun p => if keep p then s.dict p else none }

/-- One command of a client, in a transaction or by itself. -/
def runCommand (multi : Bool) (s : Server C X) (c : C) (cmd : Command X) :
    Except Fault (Server C X) :=
  let d := (s.client c).db
  match cmd with
  | .push key value values w => pushGenericCommand s (d, key) (value :: values) w
  | .pushx key value w => pushxGenericCommand s (d, key) value w
  | .pop key w => popGenericCommand s (d, key) w
  | .edit key f trim => editCommand s (d, key) f trim
  | .rpoplpush src dst => rpoplpushCommand s c src dst
  | .blpop key keys timeout => blockingPopGenericCommand multi s c (key :: keys) timeout .head
  | .brpop key keys timeout => blockingPopGenericCommand multi s c (key :: keys) timeout .tail
  | .brpoplpush src dst timeout => brpoplpushCommand multi s c src dst timeout
  | .set key x => setKey s (d, key) (.other x)
  | .update key f => updateCommand s (d, key) f
  | .store key x => storeCommand s (d, key) x
  | .del keys => .ok (keys.foldl (fun s key => dbDelete s (d, key)) s)
  | .rename key newkey nx => renameGenericCommand s d key newkey nx
  | .move key dst => moveCommand s d key dst
  | .restore key payload replace => restoreCommand s (d, key) payload replace
  | .sortStore key result => sortStoreCommand s (d, key) result
  | .flushdb => .ok (keepKeys s (fun p => p.1 ≠ d))
  | .flushall => .ok (keepKeys s (fun _ => false))
  | .select dst => .ok (if dst < s.dbnum then s.setClient c { s.client c with db := dst } else s)
  | .read => .ok s

/-! ## Events -/

/-- What happens to the server. -/
inductive Event (C X : Type)
  | connect (c : C)
  | command (c : C) (cmd : Command X)
  /-- A `MULTI`/`EXEC` block or a script. -/
  | exec (c : C) (cmds : List (Command X))
  /-- The cron looks at the timeout of a client. -/
  | cron (c : C) (now : Int)
  /-- The client is freed. -/
  | disconnect (c : C)
  /-- The client is unblocked because the instance turns into a slave, or the slot moves. -/
  | unblock (c : C)
  | expire (p : Place)

/-- `processCommand` as far as `lastcmd`: the query buffer of a blocked client is not read. -/
def accepts (s : Server C X) (c : C) : Bool := decide (c ∈ s.clients) && !(s.client c).blocked

/-- `lastcmd` for a command. -/
def isBlpop : Command X → Bool
  | .blpop _ _ _ => true
  | _ => false

/-- `call` for a command that stands by itself. -/
def callCommand (s : Server C X) (c : C) (cmd : Command X) : Except Fault (Server C X) :=
  runCommand false (s.setClient c { s.client c with lastBlpop := isBlpop cmd }) c cmd

/-- `call` for `EXEC`. -/
def callExec (s : Server C X) (c : C) (cmds : List (Command X)) : Except Fault (Server C X) :=
  cmds.foldlM (fun s cmd => runCommand true s c cmd)
    (s.setClient c { s.client c with lastBlpop := false })

/-- `unblockClient` for a client that is blocked. -/
def unblockBlocked (s : Server C X) (c : C) : Except Fault (Server C X) :=
  if (s.client c).blocked then unblockClient s c else .ok s

/-- What the server does at an event, with the turns for the serving loop. -/
def processEvent (turns : Nat) (s : Server C X) (e : Event C X) : Except Fault (Server C X) :=
  match e with
  | .connect c =>
    if c ∈ s.clients then .ok s
    else .ok { s.setClient c Client.fresh with clients := s.clients ++ [c] }
  | .command c cmd =>
    if accepts s c then do
      let s ← callCommand s c cmd
      handleClientsBlockedOnLists turns s
    else .ok s
  | .exec c cmds =>
    if accepts s c then do
      let s ← callExec s c cmds
      handleClientsBlockedOnLists turns s
    else .ok s
  | .cron c now =>
    if (s.client c).blocked ∧ (s.client c).timeout ≠ 0 ∧ (s.client c).timeout < now then
      unblockClient s c
    else .ok s
  | .disconnect c => do
    let s ← unblockBlocked s c
    return { s with clients := s.clients.erase c }
  | .unblock c => unblockBlocked s c
  | .expire p => .ok (dbDelete s p)

/-- An event has been processed. -/
def Step (s : Server C X) (e : Event C X) (t : Server C X) : Prop :=
  ∃ turns, processEvent turns s e = .ok t

/-- A run whose events all satisfy a condition in the state they find. -/
inductive Steps (P : Server C X → Event C X → Prop) :
    Server C X → List (Event C X) → Server C X → Prop
  | nil (s : Server C X) : Steps P s [] s
  | cons {s t u : Server C X} {e : Event C X} {es : List (Event C X)} (cond : P s e)
      (step : Step s e t) (rest : Steps P t es u) : Steps P s (e :: es) u

/-- The server before any client has connected, with the keys it has loaded. -/
structure Start (s : Server C X) : Prop where
  clients : s.clients = []
  client : ∀ c, s.client c = Client.fresh
  blockingKeys : ∀ p, s.blockingKeys p = none
  ready : ∀ p, s.ready p = false
  readyKeys : s.readyKeys = []

/-- The server is in a state that a run reaches. -/
def Reachable (s : Server C X) : Prop :=
  ∃ s₀ es, Start s₀ ∧ Steps (fun _ _ => True) s₀ es s

end Redis.Blocking
