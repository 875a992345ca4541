import Redis.Networking.Reply

namespace Redis.Networking

open Buffer

/-!
# The requests of `networking.c`

The bytes of a client are collected in the query buffer and parsed as they arrive; how far
a request has been parsed is kept in the client between two reads.

* `processMultibulkBuffer` — the parser, with the two counters `multibulklen` and `bulklen`;
* `processInputBuffer` — the loop that executes what has been parsed;
* `readQueryFromClient` — one `read`, which asks for no more than a large argument needs.

A client that is paused or blocked is read from, but not parsed.
-/

/-- What the C code would do instead of returning. -/
inductive RequestFault
  /-- A `serverAssert` that fails. -/
  | assertion
  | fuel
  deriving DecidableEq, Repr

/-- `PROTO_INLINE_MAX_SIZE`. -/
def PROTO_INLINE_MAX_SIZE : Nat := 1024 * 64

/-- `PROTO_MBULK_BIG_ARG`. -/
def PROTO_MBULK_BIG_ARG : Nat := 1024 * 32

/-- `PROTO_IOBUF_LEN`. -/
def PROTO_IOBUF_LEN : Nat := 1024 * 16

/-- `PROTO_MAX_QUERYBUF_LEN`, the value of `server.client_max_querybuf_len`. -/
def PROTO_MAX_QUERYBUF_LEN : Nat := 1024 * 1024 * 1024

/-- `c->reqtype`, when it is known. -/
inductive ReqType
  | inline
  | multibulk
  deriving DecidableEq, Repr

/-- The part of the client that requests use. -/
structure RequestClient where
  querybuf : Bytes
  reqtype : Option ReqType
  multibulklen : Nat
  bulklen : Int
  argv : List Bytes
  /-- `clientsArePaused()`. -/
  paused : Bool
  /-- `CLIENT_BLOCKED`. -/
  blocked : Bool
  /-- The protocol error that has been replied; the client has `CLIENT_CLOSE_AFTER_REPLY` then. -/
  protocolError : Option String
  /-- The client has been freed. -/
  freed : Bool
  /-- The argument vectors given to `processCommand`. -/
  executed : List (List Bytes)
  deriving DecidableEq, Repr

/-- `createClient`. -/
def createRequestClient : RequestClient where
  querybuf := []
  reqtype := none
  multibulklen := 0
  bulklen := -1
  argv := []
  paused := false
  blocked := false
  protocolError := none
  freed := false
  executed := []

/-- `resetClient`. -/
def resetClient (c : RequestClient) : RequestClient :=
  { c with argv := [], reqtype := none, multibulklen := 0, bulklen := -1 }

/-- `addReplyError` and `setProtocolError`. -/
def setProtocolError (c : RequestClient) (error : String) (pos : Nat) : RequestClient :=
  { c with protocolError := some error, querybuf := c.querybuf.drop pos }

/-! ### The parser -/

/-- How the length of an argument is read. -/
inductive BulkLen
  /-- The line is not complete. -/
  | wait
  /-- A protocol error. -/
  | failed (c : RequestClient)
  /-- The length is known, and the argument begins at `pos`. -/
  | found (c : RequestClient) (pos : Nat)

/-- The first half of the loop in `processMultibulkBuffer`. -/
def readBulkLen (c : RequestClient) (pos : Nat) : BulkLen :=
  if c.bulklen = -1 then
    match strchr (c.querybuf.drop pos) 13 with
    | none =>
        -- the length of the whole buffer is tested, with the part before `pos`
        if c.querybuf.length > PROTO_INLINE_MAX_SIZE then
          .failed (setProtocolError c "Protocol error: too big bulk count string" 0)
        else .wait
    | some newline =>
        if ((pos + newline : Nat) : Int) > c.querybuf.length - 2 then .wait
        else if (c.querybuf.drop pos).head? ≠ some 36 then
          .failed (setProtocolError c "Protocol error: expected '$'" pos)
        else match string2ll ((c.querybuf.drop (pos + 1)).take (newline - 1)) with
          | none => .failed (setProtocolError c "Protocol error: invalid bulk length" pos)
          | some ll =>
              if ll < 0 ∨ ll > 512 * 1024 * 1024 then
                .failed (setProtocolError c "Protocol error: invalid bulk length" pos)
              else if ll ≥ PROTO_MBULK_BIG_ARG then
                -- a large argument is to begin where the buffer begins
                .found { c with querybuf := c.querybuf.drop (pos + newline + 2), bulklen := ll } 0
              else .found { c with bulklen := ll } (pos + newline + 2)
  else .found c pos

/-- How the loop of `processMultibulkBuffer` ends. -/
inductive BulkLoop
  /-- A protocol error. -/
  | failed (c : RequestClient)
  /-- The buffer has been parsed up to `pos`. -/
  | parsed (c : RequestClient) (pos : Nat)

/-- An argument that is complete: `createObject` of the buffer itself, or a copy. -/
def takeBulk (c : RequestClient) (pos : Nat) : RequestClient × Nat :=
  if pos = 0 ∧ c.bulklen ≥ PROTO_MBULK_BIG_ARG ∧ (c.querybuf.length : Int) = c.bulklen + 2 then
    ({ c with
      argv := c.argv ++ [c.querybuf.take (c.querybuf.length - 2)]
      querybuf := []
      bulklen := -1
      multibulklen := c.multibulklen - 1 }, 0)
  else
    ({ c with
      argv := c.argv ++ [(c.querybuf.drop pos).take c.bulklen.toNat]
      bulklen := -1
      multibulklen := c.multibulklen - 1 }, pos + c.bulklen.toNat + 2)

/-- The loop of `processMultibulkBuffer`; every round that goes on reads one of the
    `c->multibulklen` arguments. -/
def bulkLoop : Nat → RequestClient → Nat → BulkLoop
  | 0, c, pos => .parsed c pos
  | n + 1, c, pos =>
      match readBulkLen c pos with
      | .wait => .parsed c pos
      | .failed c => .failed c
      | .found c pos =>
          if (c.querybuf.length : Int) - pos < c.bulklen + 2 then .parsed c pos
          else bulkLoop n (takeBulk c pos).1 (takeBulk c pos).2

/-- `processMultibulkBuffer` from the loop on. -/
def readBulks (c : RequestClient) (pos : Nat) : Bool × RequestClient :=
  match bulkLoop c.multibulklen c pos with
  | .failed c => (false, c)
  | .parsed c pos =>
      let c := if pos ≠ 0 then { c with querybuf := c.querybuf.drop pos } else c
      (c.multibulklen = 0, c)

/-- `processMultibulkBuffer`: whether the result is `C_OK`. -/
def processMultibulkBuffer (c : RequestClient) : Except RequestFault (Bool × RequestClient) :=
  if c.multibulklen = 0 then
    if c.argv.length ≠ 0 then .error .assertion
    else match strchr c.querybuf 13 with
      | none =>
          if c.querybuf.length > PROTO_INLINE_MAX_SIZE then
            .ok (false, setProtocolError c "Protocol error: too big mbulk count string" 0)
          else .ok (false, c)
      | some newline =>
          if (newline : Int) > c.querybuf.length - 2 then .ok (false, c)
          else if c.querybuf.head? ≠ some 42 then .error .assertion
          else match string2ll ((c.querybuf.drop 1).take (newline - 1)) with
            | none => .ok (false, setProtocolError c "Protocol error: invalid multibulk length" 0)
            | some ll =>
                if ll > 1024 * 1024 then
                  .ok (false, setProtocolError c "Protocol error: invalid multibulk length" 0)
                else if ll ≤ 0 then .ok (true, { c with querybuf := c.querybuf.drop (newline + 2) })
                else .ok (readBulks { c with multibulklen := ll.toNat, argv := [] } (newline + 2))
  else .ok (readBulks c 0)

/-! ### The loops around it -/

section Input

/- `processInlineBuffer`, and whether the client is paused or blocked after the command with
this number. -/
variable (processInlineBuffer : RequestClient → Bool × RequestClient)
variable (pauses blocks : Nat → Bool)

/-- `processCommand`, as far as the requests are concerned. -/
def processCommand (c : RequestClient) : RequestClient :=
  { c with
    executed := c.executed ++ [c.argv]
    paused := c.paused || pauses c.executed.length
    blocked := c.blocked || blocks c.executed.length }

/-- A request has been parsed. -/
def afterRequest (c : RequestClient) : RequestClient :=
  if c.argv.length = 0 then resetClient c else resetClient (processCommand pauses blocks c)

/-- `processInputBuffer`. -/
def processInputBuffer : Nat → RequestClient → Except RequestFault RequestClient
  | fuel, c =>
      if c.querybuf.length = 0 then .ok c
      else if c.paused then .ok c
      else if c.blocked then .ok c
      else if c.protocolError.isSome then .ok c
      else match fuel with
        | 0 => .error .fuel
        | fuel + 1 =>
            let c := if c.reqtype.isNone then
                { c with reqtype := some (if c.querybuf.head? = some 42 then .multibulk else .inline) }
              else c
            if c.reqtype = some .inline then
              if (processInlineBuffer c).1 then processInputBuffer fuel (afterRequest pauses blocks (processInlineBuffer c).2)
              else .ok (processInlineBuffer c).2
            else do
              let r ← processMultibulkBuffer c
              if r.1 then processInputBuffer fuel (afterRequest pauses blocks r.2) else .ok r.2

/-- How many bytes `readQueryFromClient` asks for. -/
def readLen (c : RequestClient) : Int :=
  if c.reqtype = some .multibulk ∧ c.multibulklen ≠ 0 ∧ c.bulklen ≠ -1 ∧ c.bulklen ≥ PROTO_MBULK_BIG_ARG then
    -- as many as are missing of the argument, to be able to use the buffer as the object
    let remaining := c.bulklen + 2 - c.querybuf.length
    if remaining < PROTO_IOBUF_LEN then remaining else PROTO_IOBUF_LEN
  else PROTO_IOBUF_LEN

/-- `readQueryFromClient`, when these bytes have arrived; also the bytes not read yet. -/
def readQueryFromClient (c : RequestClient) (arrived : Bytes) : Except RequestFault (RequestClient × Bytes) :=
  let nread := min (readLen c).toNat arrived.length
  -- the end of the file
  if nread = 0 then .ok ({ c with freed := true }, arrived)
  else
    let c := { c with querybuf := c.querybuf ++ arrived.take nread }
    if c.querybuf.length > PROTO_MAX_QUERYBUF_LEN then .ok ({ c with freed := true }, arrived.drop nread)
    else do
      let c ← processInputBuffer processInlineBuffer pauses blocks (c.querybuf.length + 1) c
      return (c, arrived.drop nread)

/-- `processUnblockedClients`, for one client. -/
def processUnblockedClient (c : RequestClient) : Except RequestFault RequestClient :=
  if !c.blocked && c.querybuf.length > 0 then
    processInputBuffer processInlineBuffer pauses blocks (c.querybuf.length + 1) c
  else .ok c

end Input

end Redis.Networking
