import Redis.Blocking.Basic

namespace Redis.Blocking

/-!
# Blocked list clients — serving

What runs after a command: every key that was signaled is visited, and the clients that wait
for it are served as long as its list has elements (`t_list.c`).

* `rpoplpushHandlePush` — the push of `RPOPLPUSH`, and of a waiting `BRPOPLPUSH`;
* `serveClientBlockedOnList` — one element for one client;
* `serveTurn`, `serveClients`, `serveKey` — the inner loop, over the clients that wait for a key;
* `handleReadyKey` — one node of the list of ready keys;
* `handleClientsBlockedOnLists` — the two outer loops, with a number of turns.
-/

variable {C X : Type} [DecidableEq C]

/-- `rpoplpushHandlePush`, with `exist` for `dstobj != NULL`. -/
def rpoplpushHandlePush (s : Server C X) (c : C) (dstkey : Bytes) (exist : Bool) (value : Bytes) :
    Except Fault (Server C X) := do
  -- the key is added with an empty list, and the element is pushed to it afterwards
  let s ← if exist then .ok s else dbAdd s ((s.client c).db, dstkey) (.list [])
  pushTo s ((s.client c).db, dstkey) value .head

/-- `serveClientBlockedOnList`: `false` is `C_ERR`. -/
def serveClientBlockedOnList (s : Server C X) (receiver : C) (p : Place) (dstkey : Option Bytes)
    (value : Bytes) : Except Fault (Server C X × Bool) :=
  match dstkey with
  | none => .ok (s.reply ⟨receiver, p, value, .handed⟩, true)
  | some dst =>
    match s.dict ((s.client receiver).db, dst) with
    | some (.other _) => .ok (s.reply ⟨receiver, p, value, .putBack⟩, false)
    | dstobj => do
      let t ← rpoplpushHandlePush s receiver dst dstobj.isSome value
      return (t.reply ⟨receiver, p, value, .moved ((s.client receiver).db, dst)⟩, true)

/-- One turn of the loop over the clients that wait for a key: `false` leaves the loop. -/
def serveTurn (s : Server C X) (p : Place) : Except Fault (Server C X × Bool) :=
  match s.blockingKeys p with
  -- `unblockClient` releases a list of waiters that is empty
  | none => .error .useAfterFree
  | some [] => .error .nullNode
  | some (receiver :: _) => do
    let dstkey := (s.client receiver).target
    let w : Where := if (s.client receiver).lastBlpop then .head else .tail
    let r ← popFrom s p w
    match r.1 with
    | none => .ok (r.2, false)
    | some value => do
      let s ← unblockClient r.2 receiver
      let t ← serveClientBlockedOnList s receiver p dstkey value
      -- the client was not served: undo the pop
      let s ← if t.2 then .ok t.1 else pushTo t.1 p value w
      return (s, true)

/-- The loop over the clients that wait for a key, with `numclients` turns left. -/
def serveClients : Nat → Server C X → Place → Except Fault (Server C X)
  | 0, s, _ => .ok s
  | numclients + 1, s, p => do
    let r ← serveTurn s p
    if r.2 then serveClients numclients r.1 p else .ok r.1

/-- The clients that wait for a key are served in the same order they blocked for it. -/
def serveKey (s : Server C X) (p : Place) : Except Fault (Server C X) :=
  match s.blockingKeys p with
  | none => .ok s
  | some clients => serveClients clients.length s p

/-- One node of the list of ready keys. -/
def handleReadyKey (s : Server C X) (p : Place) : Except Fault (Server C X) :=
  -- from here on the key can be signaled again
  let s := s.setReady p false
  match s.dict p with
  | some (.list _) => do
    let s ← serveKey s p
    deleteIfEmpty s p
  | _ => .ok s

/-- The loops of `handleClientsBlockedOnLists`: `l` is the list that is being run through, and
    `server.ready_keys` takes the keys that are signaled meanwhile. -/
def handleLoop : Nat → List Place → Server C X → Except Fault (Server C X)
  | 0, _, _ => .error .unfinished
  | turns + 1, [], s =>
    match s.readyKeys with
    | [] => .ok s
    | p :: l => handleLoop turns (p :: l) { s with readyKeys := [] }
  | turns + 1, p :: l, s => do
    let s ← handleReadyKey s p
    handleLoop turns l s

/-- `handleClientsBlockedOnLists`. -/
def handleClientsBlockedOnLists (turns : Nat) (s : Server C X) : Except Fault (Server C X) :=
  handleLoop turns [] s

end Redis.Blocking
