import Redis.Db.Watch
import Redis.Lib.Outcome
import Mathlib.Data.Finset.Card

namespace Redis.Pubsub

open Outcome

/-!
# Publish and subscribe

The functions of `pubsub.c`.  A subscription is stored twice: with the client, and with the
server, by channel or in the list of patterns.  The keys of a client's dictionary are a
finite set; the order in which an iterator visits them is an argument.

* `pubsubSubscribeChannel`, `pubsubUnsubscribeChannel`, `pubsubSubscribePattern`,
  `pubsubUnsubscribePattern` — one subscription;
* `pubsubUnsubscribeAllChannels`, `pubsubUnsubscribeAllPatterns` — all of a client;
* `pubsubPublishMessage` — a message;
* `step` — the commands, and clients that come and go (`createClient`, `freeClient`).
-/

/-- What is queued for a client: shared objects, bulk strings and numbers. -/
inductive Reply
  /-- `shared.mbulkhdr[n]`. -/
  | mbulkhdr (n : Nat)
  | subscribebulk
  | unsubscribebulk
  | psubscribebulk
  | punsubscribebulk
  | messagebulk
  | pmessagebulk
  | nullbulk
  | bulk (b : Bytes)
  | longLong (n : Nat)
  deriving DecidableEq, Repr

/-- `client`: the keys of `pubsub_channels`, the list `pubsub_patterns`, the flag
    `CLIENT_PUBSUB` and the output. -/
structure Client where
  channels : Finset Bytes
  patterns : List Bytes
  pubsub : Bool
  reply : List Reply
  deriving DecidableEq

/-- A client as `createClient` makes it. -/
def Client.new : Client := { channels := ∅, patterns := [], pubsub := false, reply := [] }

/-- `clientSubscriptionsCount`. -/
def Client.subscriptions (x : Client) : Nat := x.channels.card + x.patterns.length

/-- `server`: the list `clients`, the clients that are allocated, the dictionary
    `pubsub_channels` and the list `pubsub_patterns`. -/
structure Server where
  clients : List ClientId
  client : ClientId → Option Client
  channels : Bytes → Option (List ClientId)
  patterns : List (ClientId × Bytes)

/-- What the C code would do instead of returning. -/
inductive Fault
  /-- A client is used that is not allocated. -/
  | freed
  /-- `serverAssert` or `serverAssertWithInfo`. -/
  | assertion
  /-- `listDelNode` of the node that `listSearchKey` has not found. -/
  | nullNode
  deriving DecidableEq, Repr

namespace Server

/-- A server without clients. -/
def start : Server := { clients := [], client := fun _ => none, channels := fun _ => none, patterns := [] }

def setClient (s : Server) (c : ClientId) (x : Option Client) : Server :=
  { s with client := Function.update s.client c x }

def setChannel (s : Server) (channel : Bytes) (clients : Option (List ClientId)) : Server :=
  { s with channels := Function.update s.channels channel clients }

/-- The client behind a pointer. -/
def find (s : Server) (c : ClientId) : Except Fault Client :=
  match s.client c with
  | none => .error .freed
  | some x => .ok x

end Server

/-! ### Replies -/

/-- Some calls of `addReply` for one client. -/
def addReplies (s : Server) (c : ClientId) (rs : List Reply) : Except Fault Server := do
  let x ← s.find c
  return s.setClient c (some { x with reply := x.reply ++ rs })

/-- The notification of a (un)subscription, with the number of subscriptions that remain. -/
def notifyClient (s : Server) (c : ClientId) (kind name : Reply) : Except Fault Server := do
  let x ← s.find c
  addReplies s c [.mbulkhdr 3, kind, name, .longLong x.subscriptions]

/-! ### Channels -/

/-- Add the channel to the client's set, and the client to the channel's list. -/
def addChannel (s : Server) (c : ClientId) (x : Client) (channel : Bytes) : Server :=
  let s := s.setClient c (some { x with channels := insert channel x.channels })
  match s.channels channel with
  | none => s.setChannel channel (some [c])
  | some clients => s.setChannel channel (some (clients ++ [c]))

/-- `pubsubSubscribeChannel`: 1 unless the client was subscribed already. -/
def pubsubSubscribeChannel (s : Server) (c : ClientId) (channel : Bytes) :
    Except Fault (Server × Nat) := do
  let x ← s.find c
  let s ← notifyClient (if channel ∈ x.channels then s else addChannel s c x channel) c
    .subscribebulk (.bulk channel)
  return (s, if channel ∈ x.channels then 0 else 1)

/-- Remove the channel from the client's set, and the client from the channel's list; an
    empty list goes with its entry. -/
def removeChannel (s : Server) (c : ClientId) (x : Client) (channel : Bytes) : Except Fault Server :=
  let s := s.setClient c (some { x with channels := x.channels.erase channel })
  match s.channels channel with
  | none => .error .assertion
  | some clients =>
      if c ∈ clients then
        .ok (s.setChannel channel
          (if clients.erase c = [] then none else some (clients.erase c)))
      else .error .assertion

/-- `pubsubUnsubscribeChannel`: 1 if the client was subscribed. -/
def pubsubUnsubscribeChannel (s : Server) (c : ClientId) (channel : Bytes) (notify : Bool) :
    Except Fault (Server × Nat) := do
  let x ← s.find c
  let s ← (if channel ∈ x.channels then removeChannel s c x channel else .ok s)
  let s ← (if notify then notifyClient s c .unsubscribebulk (.bulk channel) else .ok s)
  return (s, if channel ∈ x.channels then 1 else 0)

/-! ### Patterns -/

/-- Add the pattern at the end of both lists. -/
def addPattern (s : Server) (c : ClientId) (x : Client) (pattern : Bytes) : Server :=
  let s := s.setClient c (some { x with patterns := x.patterns ++ [pattern] })
  { s with patterns := s.patterns ++ [(c, pattern)] }

/-- `pubsubSubscribePattern`: 1 unless the client was subscribed already. -/
def pubsubSubscribePattern (s : Server) (c : ClientId) (pattern : Bytes) :
    Except Fault (Server × Nat) := do
  let x ← s.find c
  let s ← notifyClient (if pattern ∈ x.patterns then s else addPattern s c x pattern) c
    .psubscribebulk (.bulk pattern)
  return (s, if pattern ∈ x.patterns then 0 else 1)

/-- Delete the first node with the pattern from both lists. -/
def removePattern (s : Server) (c : ClientId) (x : Client) (pattern : Bytes) : Except Fault Server :=
  let s := s.setClient c (some { x with patterns := x.patterns.erase pattern })
  if (c, pattern) ∈ s.patterns then .ok { s with patterns := s.patterns.erase (c, pattern) }
  else .error .nullNode

/-- `pubsubUnsubscribePattern`: 1 if the client was subscribed. -/
def pubsubUnsubscribePattern (s : Server) (c : ClientId) (pattern : Bytes) (notify : Bool) :
    Except Fault (Server × Nat) := do
  let x ← s.find c
  let s ← (if pattern ∈ x.patterns then removePattern s c x pattern else .ok s)
  let s ← (if notify then notifyClient s c .punsubscribebulk (.bulk pattern) else .ok s)
  return (s, if pattern ∈ x.patterns then 1 else 0)

/-! ### All subscriptions of a client -/

/-- The loop of both functions below over what the iterator returns, and the answer to a
    client that had no subscription. -/
def unsubscribeAll (one : Server → Bytes → Except Fault (Server × Nat)) (kind : Reply) (s : Server)
    (c : ClientId) (notify : Bool) (names : List Bytes) : Except Fault (Server × Nat) := do
  let r ← names.foldlM (fun r name => do
    let t ← one r.1 name
    return (t.1, r.2 + t.2)) (s, 0)
  let s ← (if notify = true ∧ r.2 = 0 then notifyClient r.1 c kind .nullbulk else .ok r.1)
  return (s, r.2)

/-- `pubsubUnsubscribeAllChannels`; `di` is what the iterator of the dictionary returns. -/
def pubsubUnsubscribeAllChannels (s : Server) (c : ClientId) (notify : Bool) (di : List Bytes) :
    Except Fault (Server × Nat) :=
  unsubscribeAll (fun s channel => pubsubUnsubscribeChannel s c channel notify) .unsubscribebulk s c
    notify di

/-- `pubsubUnsubscribeAllPatterns`.  The node an iterator has returned may be deleted. -/
def pubsubUnsubscribeAllPatterns (s : Server) (c : ClientId) (notify : Bool) :
    Except Fault (Server × Nat) := do
  let x ← s.find c
  unsubscribeAll (fun s pattern => pubsubUnsubscribePattern s c pattern notify) .punsubscribebulk s c
    notify x.patterns

/-! ### Messages -/

/-- What a subscriber of the channel gets. -/
def message (channel msg : Bytes) : List Reply := [.mbulkhdr 3, .messagebulk, .bulk channel, .bulk msg]

/-- What a subscriber of a matching pattern gets. -/
def pmessage (pattern channel msg : Bytes) : List Reply :=
  [.mbulkhdr 4, .pmessagebulk, .bulk pattern, .bulk channel, .bulk msg]

/-- `pubsubPublishMessage`: the number of messages.  `stringmatchlen` is the function of
    `util.c` on a pattern and a string; nothing here depends on which strings match. -/
def pubsubPublishMessage (stringmatchlen : Bytes → Bytes → Bool) (s : Server) (channel msg : Bytes) :
    Except Fault (Server × Nat) := do
  -- send to clients listening for that channel
  let r ← ((s.channels channel).getD []).foldlM (fun r c => do
    let s ← addReplies r.1 c (message channel msg)
    return (s, r.2 + 1)) (s, 0)
  -- send to clients listening to matching channels
  s.patterns.foldlM (fun r pat =>
    if stringmatchlen pat.2 channel then do
      let s ← addReplies r.1 pat.1 (pmessage pat.2 channel msg)
      return (s, r.2 + 1)
    else return r) r

/-! ### The commands -/

/-- What happens: a command with its arguments, or a client that comes or goes. -/
inductive Event
  | connect (c : ClientId)
  | subscribe (c : ClientId) (channels : List Bytes)
  | unsubscribe (c : ClientId) (channels : List Bytes) (di : List Bytes)
  | psubscribe (c : ClientId) (patterns : List Bytes)
  | punsubscribe (c : ClientId) (patterns : List Bytes)
  | publish (c : ClientId) (channel msg : Bytes)
  | disconnect (c : ClientId) (di : List Bytes)
  deriving DecidableEq, Repr

/-- A function for every argument. -/
def forEach (one : Server → Bytes → Except Fault (Server × Nat)) (s : Server) (names : List Bytes) :
    Except Fault Server :=
  names.foldlM (fun s name => do
    let r ← one s name
    return r.1) s

/-- `c->flags |= CLIENT_PUBSUB`. -/
def setPubsub (s : Server) (c : ClientId) : Except Fault Server := do
  let x ← s.find c
  return s.setClient c (some { x with pubsub := true })

/-- `if (clientSubscriptionsCount(c) == 0) c->flags &= ~CLIENT_PUBSUB`. -/
def clearPubsub (s : Server) (c : ClientId) : Except Fault Server := do
  let x ← s.find c
  return s.setClient c (some (if x.subscriptions = 0 then { x with pubsub := false } else x))

/-- `subscribeCommand`. -/
def subscribeCommand (s : Server) (c : ClientId) (channels : List Bytes) : Except Fault Server := do
  let s ← forEach (fun s channel => pubsubSubscribeChannel s c channel) s channels
  setPubsub s c

/-- `unsubscribeCommand`. -/
def unsubscribeCommand (s : Server) (c : ClientId) (channels di : List Bytes) : Except Fault Server := do
  let s ← (if channels = [] then (pubsubUnsubscribeAllChannels s c true di).map Prod.fst
    else forEach (fun s channel => pubsubUnsubscribeChannel s c channel true) s channels)
  clearPubsub s c

/-- `psubscribeCommand`. -/
def psubscribeCommand (s : Server) (c : ClientId) (patterns : List Bytes) : Except Fault Server := do
  let s ← forEach (fun s pattern => pubsubSubscribePattern s c pattern) s patterns
  setPubsub s c

/-- `punsubscribeCommand`. -/
def punsubscribeCommand (s : Server) (c : ClientId) (patterns : List Bytes) : Except Fault Server := do
  let s ← (if patterns = [] then (pubsubUnsubscribeAllPatterns s c true).map Prod.fst
    else forEach (fun s pattern => pubsubUnsubscribePattern s c pattern true) s patterns)
  clearPubsub s c

/-- `publishCommand`, without the propagation. -/
def publishCommand (stringmatchlen : Bytes → Bytes → Bool) (s : Server) (c : ClientId)
    (channel msg : Bytes) : Except Fault Server := do
  let r ← pubsubPublishMessage stringmatchlen s channel msg
  addReplies r.1 c [.longLong r.2]

/-- `createClient`. -/
def createClient (s : Server) (c : ClientId) : Server :=
  { s.setClient c (some .new) with clients := s.clients ++ [c] }

/-- `freeClient`: the subscriptions, the place in `server.clients`, the memory. -/
def freeClient (s : Server) (c : ClientId) (di : List Bytes) : Except Fault Server := do
  let r ← pubsubUnsubscribeAllChannels s c false di
  let r ← pubsubUnsubscribeAllPatterns r.1 c false
  -- `unlinkClient`
  if c ∈ r.1.clients then
    return { r.1.setClient c none with clients := r.1.clients.erase c }
  else .error .assertion

/-- One event. -/
def step (stringmatchlen : Bytes → Bytes → Bool) (s : Server) : Event → Except Fault Server
  | .connect c => .ok (createClient s c)
  | .subscribe c channels => subscribeCommand s c channels
  | .unsubscribe c channels di => unsubscribeCommand s c channels di
  | .psubscribe c patterns => psubscribeCommand s c patterns
  | .punsubscribe c patterns => punsubscribeCommand s c patterns
  | .publish c channel msg => publishCommand stringmatchlen s c channel msg
  | .disconnect c di => freeClient s c di

namespace Server

/-- The client is allocated. -/
def Connected (s : Server) (c : ClientId) : Prop := (s.client c).isSome = true

/-- `c->pubsub_channels`; nothing for a client that is not allocated. -/
def channelsOf (s : Server) (c : ClientId) : Finset Bytes := ((s.client c).map Client.channels).getD ∅

/-- `c->pubsub_patterns`. -/
def patternsOf (s : Server) (c : ClientId) : List Bytes := ((s.client c).map Client.patterns).getD []

/-- The list stored for the channel. -/
def subscribers (s : Server) (channel : Bytes) : List ClientId := (s.channels channel).getD []

/-- What has been queued for the client. -/
def replyOf (s : Server) (c : ClientId) : List Reply := ((s.client c).map Client.reply).getD []

end Server

/-- The iterator returns every key once. -/
def Enumerates (di : List Bytes) (keys : Finset Bytes) : Prop := di.Nodup ∧ di.toFinset = keys

/-- What can happen: commands of clients that are there, with the number of arguments that
    the command table asks for, and iterators that return every key once. -/
def Allowed (s : Server) : Event → Prop
  | .connect c => ¬ s.Connected c
  | .subscribe c channels => s.Connected c ∧ channels ≠ []
  | .unsubscribe c _ di => s.Connected c ∧ Enumerates di (s.channelsOf c)
  | .psubscribe c patterns => s.Connected c ∧ patterns ≠ []
  | .punsubscribe c _ => s.Connected c
  | .publish c _ _ => s.Connected c
  | .disconnect c di => s.Connected c ∧ Enumerates di (s.channelsOf c)

/-- The states in which the server can be. -/
inductive Reachable (stringmatchlen : Bytes → Bytes → Bool) : Server → Prop
  | start : Reachable stringmatchlen .start
  | step {s s' : Server} {e : Event} : Reachable stringmatchlen s → Allowed s e →
      step stringmatchlen s e = .ok s' → Reachable stringmatchlen s'

end Redis.Pubsub
