import Mathlib.Logic.Function.Basic
import Redis.Lib.Outcome
import Redis.Util

namespace Redis.Blocking

/-!
# Blocked list clients — keyspace, waiters, signals

The part of the server that `BLPOP`, `BRPOP` and `BRPOPLPUSH` work on: the values under the
keys, `db->blocking_keys`, `db->ready_keys`, `server.ready_keys`, and the `bpop` field of the
clients (`t_list.c`, `blocked.c`, `db.c`).

* `Value`, `Client`, `Server` — a key is a `Place`: a database and a name in it;
* `signalListAsReady`, `dbAdd`, `dbOverwrite`, `dbDelete`, `setKey`;
* `listTypePush`, `listTypePop`, and both on the object under a key;
* `blockForKeys`, `unblockClientWaitingData`, `unblockClient`.

A pointer to a value or to a list of waiters is read through the key again, so a read after
the object was released is a fault.
-/

/-- What stops the process, or the evaluation. -/
inductive Fault
  /-- A `serverAssert` fails. -/
  | assertion
  /-- A list node that is not there is read. -/
  | nullNode
  | useAfterFree
  /-- A loop has not ended within the turns it was given. -/
  | unfinished
  deriving DecidableEq, Repr

/-- An object: a list, or a value of another type. -/
inductive Value (X : Type)
  | list (elements : List Bytes)
  | other (x : X)
  deriving DecidableEq, Repr

/-- `LIST_HEAD`, `LIST_TAIL`. -/
inductive Where
  | head
  | tail
  deriving DecidableEq, Repr

/-- A database and a key of it. -/
abbrev Place := Nat × Bytes

/-- What is read of a client. -/
structure Client where
  db : Nat
  /-- `CLIENT_BLOCKED`, with `btype` `BLOCKED_LIST`. -/
  blocked : Bool
  /-- `bpop.keys`, in the order of their insertion. -/
  keys : List Bytes
  /-- `bpop.target`. -/
  target : Option Bytes
  /-- `bpop.timeout`, with `0` for none. -/
  timeout : Int
  /-- `lastcmd` is `BLPOP`. -/
  lastBlpop : Bool
  /-- The moment of the last blocking command, for the statements only. -/
  since : Nat
  deriving DecidableEq, Repr

/-- A client as it is created. -/
def Client.fresh : Client := ⟨0, false, [], none, 0, false, 0⟩

/-- What became of an element that was popped for a waiting client. -/
inductive Fate
  /-- It was sent to the client. -/
  | handed
  /-- It was pushed to the destination, and sent to the client. -/
  | moved (dst : Place)
  /-- The client got an error, and the element was put back. -/
  | putBack
  deriving DecidableEq, Repr

/-- One turn of the serving loop, for the statements only. -/
structure Service (C : Type) where
  client : C
  place : Place
  value : Bytes
  fate : Fate
  deriving DecidableEq, Repr

/-- What is read of the server and its databases. -/
structure Server (C X : Type) where
  dbnum : Nat
  /-- `server.clients`. -/
  clients : List C
  client : C → Client
  dict : Place → Option (Value X)
  /-- `db->blocking_keys`. -/
  blockingKeys : Place → Option (List C)
  /-- `db->ready_keys`. -/
  ready : Place → Bool
  /-- `server.ready_keys`. -/
  readyKeys : List Place
  /-- Counts the blocking commands, for the statements only. -/
  clock : Nat
  /-- The replies that the serving loop has sent. -/
  served : List (Service C)

variable {C X : Type} [DecidableEq C]

namespace Server

def setDict (s : Server C X) (p : Place) (v : Option (Value X)) : Server C X :=
  { s with dict := Function.update s.dict p v }

def setBlocking (s : Server C X) (p : Place) (l : Option (List C)) : Server C X :=
  { s with blockingKeys := Function.update s.blockingKeys p l }

def setReady (s : Server C X) (p : Place) (b : Bool) : Server C X :=
  { s with ready := Function.update s.ready p b }

def setClient (s : Server C X) (c : C) (cl : Client) : Server C X :=
  { s with client := Function.update s.client c cl }

def reply (s : Server C X) (e : Service C) : Server C X := { s with served := s.served ++ [e] }

/-- The clients that wait for a key, the first to have blocked first. -/
def waiters (s : Server C X) (p : Place) : List C := (s.blockingKeys p).getD []

/-- The elements of the list under a key. -/
def content (s : Server C X) (p : Place) : List Bytes :=
  match s.dict p with
  | some (.list l) => l
  | _ => []

end Server

/-! ## The keyspace -/

/-- The key holds a list. -/
def IsList (s : Server C X) (p : Place) : Prop := ∃ l, s.dict p = some (.list l)

/-- `signalListAsReady`. -/
def signalListAsReady (s : Server C X) (p : Place) : Server C X :=
  -- no clients blocking for this key
  if (s.blockingKeys p).isNone then s
  -- the key was already signaled
  else if s.ready p then s
  else { s.setReady p true with readyKeys := s.readyKeys ++ [p] }

/-- `dbAdd`. -/
def dbAdd (s : Server C X) (p : Place) (v : Value X) : Except Fault (Server C X) :=
  if (s.dict p).isSome then .error .assertion
  else
    match v with
    | .list l => .ok (signalListAsReady (s.setDict p (some (.list l))) p)
    | .other x => .ok (s.setDict p (some (.other x)))

/-- `dbOverwrite`. -/
def dbOverwrite (s : Server C X) (p : Place) (v : Value X) : Except Fault (Server C X) :=
  if (s.dict p).isNone then .error .assertion else .ok (s.setDict p (some v))

/-- `dbDelete`. -/
def dbDelete (s : Server C X) (p : Place) : Server C X := s.setDict p none

/-- `setKey`. -/
def setKey (s : Server C X) (p : Place) (v : Value X) : Except Fault (Server C X) :=
  if (s.dict p).isNone then dbAdd s p v else dbOverwrite s p v

/-! ## Lists -/

/-- `listTypePush`. -/
def listTypePush (l : List Bytes) (value : Bytes) : Where → List Bytes
  | .head => value :: l
  | .tail => l ++ [value]

/-- `listTypePop`. -/
def listTypePop (l : List Bytes) : Where → Option (Bytes × List Bytes)
  | .head => match l with
    | [] => none
    | v :: l => some (v, l)
  | .tail => match l.getLast? with
    | none => none
    | some v => some (v, l.dropLast)

/-- `listTypePush` on the object under a key. -/
def pushTo (s : Server C X) (p : Place) (value : Bytes) (w : Where) : Except Fault (Server C X) :=
  match s.dict p with
  | some (.list l) => .ok (s.setDict p (some (.list (listTypePush l value w))))
  | _ => .error .useAfterFree

/-- `listTypePop` on the object under a key. -/
def popFrom (s : Server C X) (p : Place) (w : Where) :
    Except Fault (Option Bytes × Server C X) :=
  match s.dict p with
  | some (.list l) =>
    match listTypePop l w with
    | none => .ok (none, s)
    | some (value, l') => .ok (some value, s.setDict p (some (.list l')))
  | _ => .error .useAfterFree

/-- Deletes the key if its list is empty. -/
def deleteIfEmpty (s : Server C X) (p : Place) : Except Fault (Server C X) :=
  match s.dict p with
  | some (.list l) => .ok (if l.length = 0 then dbDelete s p else s)
  | _ => .error .useAfterFree

/-! ## Blocking -/

/-- One turn of the loop of `blockForKeys`. -/
def blockForKey (c : C) (s : Server C X) (key : Bytes) : Server C X :=
  let cl := s.client c
  -- the key already exists in `bpop.keys`
  if key ∈ cl.keys then s
  else
    let s := s.setClient c { cl with keys := cl.keys ++ [key] }
    match s.blockingKeys (cl.db, key) with
    | none => s.setBlocking (cl.db, key) (some [c])
    | some l => s.setBlocking (cl.db, key) (some (l ++ [c]))

/-- `blockForKeys`. -/
def blockForKeys (s : Server C X) (c : C) (keys : List Bytes) (timeout : Int)
    (target : Option Bytes) : Server C X :=
  let s := s.setClient c { s.client c with timeout := timeout, target := target }
  let s := keys.foldl (blockForKey c) s
  { s.setClient c { s.client c with blocked := true, since := s.clock } with clock := s.clock + 1 }

/-- One turn of the loop of `unblockClientWaitingData`. -/
def unblockForKey (c : C) (s : Server C X) (key : Bytes) : Except Fault (Server C X) :=
  let p := ((s.client c).db, key)
  match s.blockingKeys p with
  | none => .error .assertion
  | some l =>
    if c ∈ l then
      -- a list of waiters that is empty now is removed
      if (l.erase c).length = 0 then .ok (s.setBlocking p none)
      else .ok (s.setBlocking p (some (l.erase c)))
    else .error .nullNode

/-- `unblockClientWaitingData`. -/
def unblockClientWaitingData (s : Server C X) (c : C) : Except Fault (Server C X) :=
  if (s.client c).keys.length = 0 then .error .assertion
  else do
    let s ← (s.client c).keys.foldlM (unblockForKey c) s
    return s.setClient c { s.client c with keys := [], target := none }

/-- `unblockClient`. -/
def unblockClient (s : Server C X) (c : C) : Except Fault (Server C X) := do
  let s ← unblockClientWaitingData s c
  return s.setClient c { s.client c with blocked := false }

end Redis.Blocking
