import Redis.Lib.Outcome
import Redis.Lib.Buffer
import Redis.Libc

namespace Redis

open Buffer

/-!
# The replies of `networking.c`

What is to be sent to a client is kept in a static buffer and, behind it, in a list of
strings.  A header whose number is not known yet is a node without a string.

* `addReplyToBuffer`, `addReplyToList` — the two places;
* `addReply`, `addReplySds`, `addReplyString`, `addReplyBulk`;
* `addDeferredMultiBulkLength`, `setDeferredMultiBulkLength`;
* `writeToClient` — the loop around `write`.
-/

/-- What the C code would do instead of returning. -/
inductive ReplyFault
  /-- `sdslen` of the NULL pointer of a header that is not set. -/
  | nullNode
  /-- A header is set that does not wait for it. -/
  | dangling
  | outOfBounds
  | fuel
  deriving DecidableEq, Repr

/-- `PROTO_REPLY_CHUNK_BYTES`. -/
def PROTO_REPLY_CHUNK_BYTES : Nat := 16 * 1024

/-- `NET_MAX_WRITES_PER_EVENT`. -/
def NET_MAX_WRITES_PER_EVENT : Nat := 1024 * 64

/-- `OBJ_SHARED_BULKHDR_LEN`. -/
def OBJ_SHARED_BULKHDR_LEN : Nat := 32

/-- `OBJ_ENCODING_EMBSTR_SIZE_LIMIT`. -/
def OBJ_ENCODING_EMBSTR_SIZE_LIMIT : Nat := 44

/-- The size of a block of memory; a block with the header of a string is not empty. -/
abbrev Mem := { m : Nat // 0 < m }

/-- A string, and the memory it takes (`sdsZmallocSize`). -/
structure Sds where
  bytes : Bytes
  mem : Mem
  deriving DecidableEq

/-- The encodings of string objects that hold a string. -/
inductive SdsEncoding
  | raw
  | embstr
  deriving DecidableEq, Repr

/-- A string object. -/
inductive ReplyObject
  | sds (encoding : SdsEncoding) (s : Sds)
  | int (n : Int)
  deriving DecidableEq

/-- A node of `c->reply`: its address and its object, where a header that is not set has
    the pointer NULL. -/
structure ReplyNode where
  addr : Nat
  encoding : SdsEncoding
  ptr : Option Sds
  deriving DecidableEq

/-- The flags that the modelled functions test. -/
structure ReplyFlags where
  lua : Bool
  replyOff : Bool
  replySkip : Bool
  master : Bool
  masterForceReply : Bool
  pendingWrite : Bool
  closeAfterReply : Bool
  deriving DecidableEq, Repr

/-- `c->replstate`, as far as it is told apart. -/
inductive SlaveState
  | none
  | online
  | other
  deriving DecidableEq, Repr

/-- The part of the client that replies use. -/
structure ReplyClient where
  fd : Int
  flags : ReplyFlags
  replstate : SlaveState
  replPutOnlineOnAck : Bool
  buf : Bytes
  bufpos : Nat
  reply : List ReplyNode
  replyBytes : Nat
  sentlen : Nat
  /-- The address of the next node. -/
  nextNode : Nat
  /-- How many blocks have been allocated. -/
  allocs : Nat

/-- The sizes of the blocks: of those allocated, in this order, and of the shared objects. -/
structure Blocks where
  fresh : Nat → Mem
  shared : Bytes → Mem

/-- `clientHasPendingReplies`. -/
def clientHasPendingReplies (c : ReplyClient) : Bool := c.bufpos ≠ 0 || c.reply.length ≠ 0

/-- `prepareClientToWrite`: `none` is `C_ERR`. -/
def prepareClientToWrite (c : ReplyClient) : Option ReplyClient :=
  if c.flags.lua then some c
  else if c.flags.replyOff || c.flags.replySkip then none
  else if c.flags.master && !c.flags.masterForceReply then none
  else if c.fd ≤ 0 then none
  else if !clientHasPendingReplies c && !c.flags.pendingWrite &&
      (c.replstate = .none || (c.replstate = .online && !c.replPutOnlineOnAck)) then
    some { c with flags := { c.flags with pendingWrite := true } }
  else some c

/-- `_addReplyToBuffer`: `none` is `C_ERR`. -/
def addReplyToBuffer (c : ReplyClient) (s : Bytes) : Except ReplyFault (Option ReplyClient) :=
  if c.flags.closeAfterReply then .ok (some c)
  -- what is in the list has to be sent first
  else if c.reply.length > 0 then .ok none
  else if s.length > PROTO_REPLY_CHUNK_BYTES - c.bufpos then .ok none
  else match overwrite? c.buf c.bufpos s with
    | none => .error .outOfBounds
    | some buf => .ok (some { c with buf := buf, bufpos := c.bufpos + s.length })

section Lists

variable (blocks : Blocks)

/-- `listAddNodeTail` of an object with its memory added to `c->reply_bytes`. -/
def pushReply (c : ReplyClient) (encoding : SdsEncoding) (s : Sds) : ReplyClient :=
  { c with
    reply := c.reply ++ [⟨c.nextNode, encoding, some s⟩]
    replyBytes := c.replyBytes + s.mem
    nextNode := c.nextNode + 1 }

/-- The three functions that add to the list: the string is glued to the last node where
    that is possible, else it gets a node of its own. -/
def addReplyToList (c : ReplyClient) (encoding : SdsEncoding) (s : Sds) : ReplyClient :=
  if c.flags.closeAfterReply then c
  else match c.reply.getLast? with
    | none => pushReply c encoding s
    | some tail =>
        match tail.ptr with
        | none => pushReply c encoding s
        | some t =>
            if tail.encoding = .raw ∧ t.bytes.length + s.bytes.length ≤ PROTO_REPLY_CHUNK_BYTES then
              { c with
                reply := c.reply.dropLast ++ [{ tail with ptr := some ⟨t.bytes ++ s.bytes, blocks.fresh c.allocs⟩ }]
                replyBytes := c.replyBytes - t.mem + blocks.fresh c.allocs
                allocs := c.allocs + 1 }
            else pushReply c encoding s

/-- `_addReplyObjectToList`. -/
def addReplyObjectToList (c : ReplyClient) (encoding : SdsEncoding) (s : Sds) : ReplyClient :=
  addReplyToList blocks c encoding s

/-- `_addReplySdsToList`: the object is made by `createObject`. -/
def addReplySdsToList (c : ReplyClient) (s : Sds) : ReplyClient := addReplyToList blocks c .raw s

/-- `_addReplyStringToList`: the object is made by `createStringObject`. -/
def addReplyStringToList (c : ReplyClient) (s : Bytes) : ReplyClient :=
  addReplyToList blocks { c with allocs := c.allocs + 1 }
    (if s.length ≤ OBJ_ENCODING_EMBSTR_SIZE_LIMIT then .embstr else .raw) ⟨s, blocks.fresh c.allocs⟩

/-- `addReply` of an object that holds a string, once the client is prepared. -/
def addReplyEncoded (c : ReplyClient) (encoding : SdsEncoding) (s : Sds) : Except ReplyFault ReplyClient := do
  match ← addReplyToBuffer c s.bytes with
  | some c => return c
  | none => return addReplyObjectToList blocks c encoding s

/-- `getDecodedObject` of an integer. -/
def decodedObject (c : ReplyClient) (n : Int) : SdsEncoding × Sds :=
  (.embstr, ⟨ll2string 32 n, blocks.fresh c.allocs⟩)

/-- `addReply`. -/
def addReply (c : ReplyClient) (obj : ReplyObject) : Except ReplyFault ReplyClient :=
  match prepareClientToWrite c with
  | none => .ok c
  | some c =>
      match obj with
      | .sds encoding s => addReplyEncoded blocks c encoding s
      | .int n =>
          let o := decodedObject blocks c n
          let d := { c with allocs := c.allocs + 1 }
          if c.reply.length = 0 ∧ PROTO_REPLY_CHUNK_BYTES - c.bufpos ≥ 32 then do
            match ← addReplyToBuffer c (ll2string 32 n) with
            | some c => return c
            | none => addReplyEncoded blocks d o.1 o.2
          else addReplyEncoded blocks d o.1 o.2

/-- `addReplySds`. -/
def addReplySds (c : ReplyClient) (s : Sds) : Except ReplyFault ReplyClient :=
  match prepareClientToWrite c with
  | none => .ok c
  | some c => do
      match ← addReplyToBuffer c s.bytes with
      | some c => return c
      | none => return addReplySdsToList blocks c s

/-- `addReplyString`. -/
def addReplyString (c : ReplyClient) (s : Bytes) : Except ReplyFault ReplyClient :=
  match prepareClientToWrite c with
  | none => .ok c
  | some c => do
      match ← addReplyToBuffer c s with
      | some c => return c
      | none => return addReplyStringToList blocks c s

/-- The shared object with these bytes: `shared.crlf`, `shared.bulkhdr[j]`, `shared.mbulkhdr[j]`. -/
def sharedObject (bytes : Bytes) : ReplyObject := .sds .raw ⟨bytes, blocks.shared bytes⟩

/-- The line of a header: the prefix, the number and the end of the line. -/
def headerLine (c : UInt8) (ll : Int) : Bytes := [c] ++ formatLd ll ++ [13, 10]

/-- A string of the protocol: the length, the bytes and the end of the line. -/
def bulkReply (b : Bytes) : Bytes := headerLine 36 b.length ++ (b ++ [13, 10])

/-- `addReplyLongLongWithPrefix`. -/
def addReplyLongLongWithPrefix (c : ReplyClient) (ll : Int) (p : UInt8) : Except ReplyFault ReplyClient :=
  if p = 42 ∧ ll < OBJ_SHARED_BULKHDR_LEN ∧ ll ≥ 0 then
    addReply blocks c (sharedObject blocks (headerLine 42 ll))
  else if p = 36 ∧ ll < OBJ_SHARED_BULKHDR_LEN ∧ ll ≥ 0 then
    addReply blocks c (sharedObject blocks (headerLine 36 ll))
  else addReplyString blocks c ([p] ++ ll2string 127 ll ++ [13, 10])

/-- The loop of `addReplyBulkLen`: how often the number can be divided by ten. -/
def bulkLenLoop : Nat → Int → Nat → Nat
  | 0, _, len => len
  | fuel + 1, n, len => if n.tdiv 10 ≠ 0 then bulkLenLoop fuel (n.tdiv 10) (len + 1) else len

/-- The length that `addReplyBulkLen` computes. -/
def bulkLen : ReplyObject → Nat
  | .sds _ s => s.bytes.length
  | .int n =>
      -- the negation of `LONG_MIN` is `LONG_MIN`
      if n < 0 then bulkLenLoop 20 (if n = LLONG_MIN then n else -n) 2 else bulkLenLoop 20 n 1

/-- `addReplyBulkLen`. -/
def addReplyBulkLen (c : ReplyClient) (obj : ReplyObject) : Except ReplyFault ReplyClient :=
  if bulkLen obj < OBJ_SHARED_BULKHDR_LEN then
    addReply blocks c (sharedObject blocks (headerLine 36 (bulkLen obj)))
  else addReplyLongLongWithPrefix blocks c (bulkLen obj) 36

/-- `addReplyBulk`. -/
def addReplyBulk (c : ReplyClient) (obj : ReplyObject) : Except ReplyFault ReplyClient := do
  let c ← addReplyBulkLen blocks c obj
  let c ← addReply blocks c obj
  addReply blocks c (sharedObject blocks [13, 10])

/-- `addDeferredMultiBulkLength`: the address of the node, or NULL. -/
def addDeferredMultiBulkLength (c : ReplyClient) : Option Nat × ReplyClient :=
  match prepareClientToWrite c with
  | none => (none, c)
  | some c =>
      (some c.nextNode,
        { c with reply := c.reply ++ [⟨c.nextNode, .raw, none⟩], nextNode := c.nextNode + 1 })

/-- `setDeferredMultiBulkLength`. -/
def setDeferredMultiBulkLength (c : ReplyClient) (node : Option Nat) (length : Int) :
    Except ReplyFault ReplyClient :=
  match node with
  | none => .ok c
  | some addr =>
      match c.reply.dropWhile (·.addr ≠ addr) with
      | [] => .error .dangling
      | ln :: behind =>
          let before := c.reply.takeWhile (·.addr ≠ addr)
          let len : Sds := ⟨headerLine 42 length, blocks.fresh c.allocs⟩
          let set := { c with
            reply := before ++ { ln with encoding := .raw, ptr := some len } :: behind
            replyBytes := c.replyBytes + len.mem
            allocs := c.allocs + 1 }
          match behind with
          | [] => .ok set
          | next :: rest =>
              match next.ptr with
              | none => .ok set
              -- the next node is glued to this one
              | some s =>
                  let glued : Sds := ⟨len.bytes ++ s.bytes, blocks.fresh (c.allocs + 1)⟩
                  .ok { c with
                    reply := before ++ { ln with encoding := .raw, ptr := some glued } :: rest
                    replyBytes := c.replyBytes + len.mem - len.mem - s.mem + glued.mem
                    allocs := c.allocs + 2 }

end Lists

/-! ### Sending -/

/-- The result of `write`. -/
inductive WriteResult
  /-- As many bytes as this have been accepted, if there are so many. -/
  | accepted (n : Nat)
  /-- -1 with `EAGAIN`. -/
  | again
  /-- -1 with another error. -/
  | failed
  deriving DecidableEq, Repr

/-- `nwritten`, when so many bytes are offered. -/
def WriteResult.nwritten (offered : Nat) : WriteResult → Nat
  | .accepted n => min n offered
  | _ => 0

/-- A round of the loop in `writeToClient`. -/
inductive WriteRound
  /-- An empty node is removed. -/
  | skip (c : ReplyClient)
  /-- The bytes given to `write`, and the client when so many of them have been accepted. -/
  | send (data : Bytes) (sent : Nat → ReplyClient)

/-- What the loop finds at the front: the static buffer, or else the first node. -/
def writeRound (c : ReplyClient) : Except ReplyFault WriteRound :=
  if c.bufpos > 0 then
    match slice? c.buf c.sentlen (c.bufpos - c.sentlen) with
    | none => .error .outOfBounds
    | some data =>
        .ok (.send data (fun n =>
          if c.sentlen + n = c.bufpos then { c with bufpos := 0, sentlen := 0 }
          else { c with sentlen := c.sentlen + n }))
  else match c.reply with
    | [] => .error .outOfBounds
    | o :: rest =>
        match o.ptr with
        | none => .error .nullNode
        | some s =>
            if s.bytes.length = 0 then
              .ok (.skip { c with reply := rest, replyBytes := c.replyBytes - s.mem })
            else match slice? s.bytes c.sentlen (s.bytes.length - c.sentlen) with
              | none => .error .outOfBounds
              | some data =>
                  .ok (.send data (fun n =>
                    if c.sentlen + n = s.bytes.length then
                      { c with reply := rest, sentlen := 0, replyBytes := c.replyBytes - s.mem }
                    else { c with sentlen := c.sentlen + n }))

/-- How the loop of `writeToClient` ends: the client, the bytes accepted, and whether the last
    `write` has failed with an error. -/
structure WriteState where
  client : ReplyClient
  accepted : Bytes
  failed : Bool

/-- The loop of `writeToClient`.  With each result of `write` comes whether the memory is over
    the limit then; when no result is left, `write` would block. -/
def writeLoop : Nat → ReplyClient → Nat → List (WriteResult × Bool) → Except ReplyFault WriteState
  | fuel, c, totwritten, writes =>
      if !clientHasPendingReplies c then .ok ⟨c, [], false⟩
      else match fuel with
        | 0 => .error .fuel
        | fuel + 1 => do
            match ← writeRound c with
            | .skip c => writeLoop fuel c totwritten writes
            | .send data sent =>
                match writes with
                | [] => .ok ⟨c, [], false⟩
                | (result, full) :: writes =>
                    let n := result.nwritten data.length
                    if n = 0 then .ok ⟨c, [], result = .failed⟩
                    else if totwritten + n > NET_MAX_WRITES_PER_EVENT ∧ !full then
                      .ok ⟨sent n, data.take n, false⟩
                    else do
                      let st ← writeLoop fuel (sent n) (totwritten + n) writes
                      return { st with accepted := data.take n ++ st.accepted }

/-- `writeToClient`: whether the client is still valid, the client, and the bytes accepted by
    `write`. -/
def writeToClient (c : ReplyClient) (writes : List (WriteResult × Bool)) :
    Except ReplyFault (Bool × ReplyClient × Bytes) := do
  let st ← writeLoop (writes.length + c.reply.length + 1) c 0 writes
  if st.failed then return (false, st.client, st.accepted)
  else if !clientHasPendingReplies st.client then
    return (!st.client.flags.closeAfterReply, { st.client with sentlen := 0 }, st.accepted)
  else return (true, st.client, st.accepted)

end Redis
