import Redis.Libc

namespace Redis.Bitops

open Redis

/-!
# The bit fields of a string

BITFIELD and GETBIT, as they are executed on the value of one key.  `int64_t` and
`uint64_t` are the same 64 bits, compared with or without their sign.  Signed arithmetic
wraps, and a shift by the whole width is a shift by zero, as on the machines the server
runs on.

* `setUnsignedBitfield`, `getUnsignedBitfield`, `setSignedBitfield`, `getSignedBitfield`;
* `checkUnsignedBitfieldOverflow`, `checkSignedBitfieldOverflow`;
* `getBitOffsetFromArgument`, `getBitfieldTypeFromArgument`;
* `lookupStringForBitCommand`, `getObjectReadOnlyString`;
* `bitfieldOps`, `bitfieldOp`, `bitfieldCommand`, `getbitCommand`.
-/

/-- What must not happen: an access outside of a buffer. -/
inductive Fault
  | outOfBounds
deriving DecidableEq, Repr

inductive Reply
  | multiBulkLen (length : Nat)
  | longLong (ll : Int)
  | nullbulk
  | wrongtypeerr
  | syntaxerr
  | error (err : String)
deriving DecidableEq, Repr

/-- The value of a key, as the lookups find it. -/
inductive Robj
  /-- `OBJ_ENCODING_RAW` and `OBJ_ENCODING_EMBSTR`. -/
  | sds (ptr : Bytes)
  /-- `OBJ_ENCODING_INT`. -/
  | int (ptr : BitVec 64)
  /-- A value that is no string. -/
  | other
deriving DecidableEq, Repr

/-! ### Fields in a buffer -/

/-- The loop of `setUnsignedBitfield`, `j` steps before its end. -/
def setUnsignedBitfieldLoop : Nat → Bytes → Nat → BitVec 64 → Except Fault Bytes
  | 0, p, _, _ => .ok p
  | j + 1, p, offset, value =>
      let bitval := if value &&& (1#64 <<< j) ≠ 0#64 then 1#64 else 0#64
      let byte := offset >>> 3
      let bit := 7 - (offset &&& 7)
      match p[byte]? with
      | none => .error .outOfBounds
      | some b =>
          let byteval := b.toBitVec.setWidth 64
          let byteval := byteval &&& ~~~(1#64 <<< bit)
          let byteval := byteval ||| (bitval <<< bit)
          setUnsignedBitfieldLoop j (p.set byte ⟨(byteval &&& 0xff).setWidth 8⟩) (offset + 1) value

/-- `setUnsignedBitfield`. -/
def setUnsignedBitfield (p : Bytes) (offset bits : Nat) (value : BitVec 64) : Except Fault Bytes :=
  setUnsignedBitfieldLoop bits p offset value

/-- `setSignedBitfield`. -/
def setSignedBitfield (p : Bytes) (offset bits : Nat) (value : BitVec 64) : Except Fault Bytes :=
  setUnsignedBitfield p offset bits value

/-- The loop of `getUnsignedBitfield`, `j` steps before its end. -/
def getUnsignedBitfieldLoop (p : Bytes) : Nat → Nat → BitVec 64 → Except Fault (BitVec 64)
  | 0, _, value => .ok value
  | j + 1, offset, value =>
      let byte := offset >>> 3
      let bit := 7 - (offset &&& 7)
      match p[byte]? with
      | none => .error .outOfBounds
      | some b =>
          let bitval := (b.toBitVec.setWidth 64 >>> bit) &&& 1#64
          getUnsignedBitfieldLoop p j (offset + 1) ((value <<< 1) ||| bitval)

/-- `getUnsignedBitfield`. -/
def getUnsignedBitfield (p : Bytes) (offset bits : Nat) : Except Fault (BitVec 64) :=
  getUnsignedBitfieldLoop p bits offset 0#64

/-- `(uint64_t)-1 << bits`. -/
def highBits (bits : Nat) : BitVec 64 := BitVec.allOnes 64 <<< (bits % 64)

/-- `getSignedBitfield`. -/
def getSignedBitfield (p : Bytes) (offset bits : Nat) : Except Fault (BitVec 64) := do
  let value ← getUnsignedBitfield p offset bits
  .ok (if value &&& (1#64 <<< (bits - 1)) ≠ 0#64 then value ||| highBits bits else value)

/-! ### Overflow -/

/-- `BFOVERFLOW_WRAP`, `BFOVERFLOW_SAT` and `BFOVERFLOW_FAIL`. -/
inductive Owtype
  | wrap | sat | fail
deriving DecidableEq, Repr

/-- `handle_wrap` of `checkUnsignedBitfieldOverflow`. -/
def wrapUnsigned (value incr : BitVec 64) (bits : Nat) : BitVec 64 := (value + incr) &&& ~~~(highBits bits)

/-- `checkUnsignedBitfieldOverflow`: the result and what `*limit` is afterwards, which
    stays what it was unless the function sets it. -/
def checkUnsignedBitfieldOverflow (value incr : BitVec 64) (bits : Nat) (owtype : Owtype) (limit : BitVec 64) :
    Int × BitVec 64 :=
  let max := if bits = 64 then BitVec.allOnes 64 else (1#64 <<< bits) - 1#64
  let maxincr := max - value
  let minincr := -value
  if max.ult value ∨ ((0#64).slt incr ∧ maxincr.slt incr) then
    match owtype with
    | .wrap => (1, wrapUnsigned value incr bits)
    | .sat  => (1, max)
    | .fail => (1, limit)
  else if incr.slt 0#64 ∧ incr.slt minincr then
    match owtype with
    | .wrap => (1, wrapUnsigned value incr bits)
    | .sat  => (-1, 0#64)
    | .fail => (-1, limit)
  else (0, limit)

/-- `handle_wrap` of `checkSignedBitfieldOverflow`. -/
def wrapSigned (value incr : BitVec 64) (bits : Nat) : BitVec 64 :=
  let c := value + incr
  if c &&& (1#64 <<< (bits - 1)) ≠ 0#64 then c ||| highBits bits else c &&& ~~~(highBits bits)

/-- `checkSignedBitfieldOverflow`. -/
def checkSignedBitfieldOverflow (value incr : BitVec 64) (bits : Nat) (owtype : Owtype) (limit : BitVec 64) :
    Int × BitVec 64 :=
  let max := if bits = 64 then BitVec.intMax 64 else (1#64 <<< (bits - 1)) - 1#64
  let min := -max - 1#64
  let maxincr := max - value
  let minincr := min - value
  if max.slt value ∨ (bits ≠ 64 ∧ maxincr.slt incr)
      ∨ ((0#64).sle value ∧ (0#64).slt incr ∧ maxincr.slt incr) then
    match owtype with
    | .wrap => (1, wrapSigned value incr bits)
    | .sat  => (1, max)
    | .fail => (1, limit)
  else if value.slt min ∨ (bits ≠ 64 ∧ incr.slt minincr)
      ∨ (value.slt 0#64 ∧ incr.slt 0#64 ∧ incr.slt minincr) then
    match owtype with
    | .wrap => (1, wrapSigned value incr bits)
    | .sat  => (-1, min)
    | .fail => (-1, limit)
  else (0, limit)

/-! ### Arguments -/

/-- `getBitOffsetFromArgument`. -/
def getBitOffsetFromArgument (p : Bytes) (hash : Bool) (bits : Nat) : Except Reply Nat :=
  let err := "bit offset is not an integer or out of range"
  -- handle #<offset> form
  let usehash : Bool := p.head? = some 35 ∧ hash ∧ 0 < bits
  match string2ll (p.drop usehash.toNat) with
  | none => .error (.error err)
  | some loffset =>
      -- adjust the offset by 'bits' for #<offset> form
      let loffset := if usehash then (loffset * bits).bmod (2 ^ 64) else loffset
      -- limit offset to 512MB in bytes
      if loffset < 0 ∨ loffset.toNat >>> 3 ≥ 512 * 1024 * 1024 then .error (.error err)
      else .ok loffset.toNat

/-- `getBitfieldTypeFromArgument`: `sign` and `bits`. -/
def getBitfieldTypeFromArgument (p : Bytes) : Except Reply (Bool × Nat) :=
  let err := "Invalid bitfield type. Use something like i16 u8. Note that u64 is not supported but i64 is."
  if p.head? ≠ some 105 ∧ p.head? ≠ some 117 then .error (.error err)
  else
    let sign : Bool := p.head? = some 105
    match string2ll (cstr (p.drop 1)) with
    | none => .error (.error err)
    | some llbits =>
        if llbits < 1 ∨ (sign ∧ llbits > 64) ∨ (!sign ∧ llbits > 63) then .error (.error err)
        else .ok (sign, llbits.toNat)

/-- `getLongLongFromObjectOrReply` of an argument, without a message of its own. -/
def getLongLongFromObjectOrReply (p : Bytes) : Except Reply Int :=
  match string2ll p with
  | none => .error (.error "value is not an integer or out of range")
  | some value => .ok value

/-! ### The value of the key -/

/-- `sdsgrowzero`. -/
def sdsgrowzero (s : Bytes) (len : Nat) : Bytes := s ++ List.replicate (len - s.length) 0

/-- `dbUnshareStringValue`: the string itself, written out if it was a number. -/
def dbUnshareStringValue : Robj → Bytes
  | .sds ptr => ptr
  | .int ptr => ll2string 32 ptr.toInt
  | .other   => []

/-- `lookupStringForBitCommand`: the string of the key, long enough for `maxbit`. -/
def lookupStringForBitCommand (o : Option Robj) (maxbit : Nat) : Except Reply Bytes :=
  let byte := maxbit >>> 3
  match o with
  | none        => .ok (List.replicate (byte + 1) 0)
  | some .other => .error .wrongtypeerr
  | some o      => .ok (sdsgrowzero (dbUnshareStringValue o) (byte + 1))

/-- `getObjectReadOnlyString`: the bytes, as many as `*len` says. -/
def getObjectReadOnlyString : Robj → Bytes
  | .sds ptr => ptr
  | .int ptr => ll2string 21 ptr.toInt
  | .other   => []

/-! ### The commands -/

/-- `BITFIELDOP_GET`, `BITFIELDOP_SET` and `BITFIELDOP_INCRBY`. -/
inductive Opcode
  | get | set | incrby
deriving DecidableEq, Repr

/-- `struct bitfieldOp`. -/
structure BitfieldOp where
  offset : Nat
  i64    : BitVec 64
  opcode : Opcode
  owtype : Owtype
  bits   : Nat
  sign   : Bool
deriving DecidableEq, Repr

/-- What the loop over the arguments leaves: `ops`, and the highest bit that is written,
    unless there is none (`readonly`). -/
structure Parsed where
  ops : List BitfieldOp
  readonly : Bool
  higest_write_offset : Nat
deriving DecidableEq, Repr

/-- `owtype` of a name. -/
def owtypeOf (owtypename : Bytes) : Except Reply Owtype :=
  if strcaseeq owtypename [119, 114, 97, 112] then .ok .wrap
  else if strcaseeq owtypename [115, 97, 116] then .ok .sat
  else if strcaseeq owtypename [102, 97, 105, 108] then .ok .fail
  else .error (.error "Invalid OVERFLOW type specified")

/-- One operation of known `opcode`, from the arguments after its name. -/
def parseOp (opcode : Opcode) (owtype : Owtype) (type offset : Bytes) (value : Option Bytes) :
    Except Reply BitfieldOp := do
  let (sign, bits) ← getBitfieldTypeFromArgument type
  let bitoffset ← getBitOffsetFromArgument offset true bits
  -- INCRBY and SET require another argument
  let i64 ← (value.map getLongLongFromObjectOrReply).getD (.ok 0)
  .ok { offset := bitoffset, i64 := BitVec.ofInt 64 i64, opcode, owtype, bits, sign }

/-- The operation that was parsed, put before those that come after it. -/
def Parsed.cons (op : BitfieldOp) (rest : Parsed) : Parsed :=
  if op.opcode = .get then { rest with ops := op :: rest.ops }
  else
    { ops := op :: rest.ops, readonly := false,
      higest_write_offset := max (op.offset + op.bits - 1) rest.higest_write_offset }

/-- The loop of `bitfieldCommand` over the arguments from the third one on. -/
def bitfieldOps (owtype : Owtype) : List Bytes → Except Reply Parsed
  | [] => .ok { ops := [], readonly := true, higest_write_offset := 0 }
  | [_] => .error .syntaxerr
  | [subcmd, a] =>
      if strcaseeq subcmd [111, 118, 101, 114, 102, 108, 111, 119] then do
        let owtype ← owtypeOf a
        bitfieldOps owtype []
      else .error .syntaxerr
  | subcmd :: a :: b :: rest =>
      if strcaseeq subcmd [103, 101, 116] then do
        let op ← parseOp .get owtype a b none
        let parsed ← bitfieldOps owtype rest
        .ok (parsed.cons op)
      else if strcaseeq subcmd [115, 101, 116] ∧ rest ≠ [] then do
        let op ← parseOp .set owtype a b rest.head?
        let parsed ← bitfieldOps owtype rest.tail
        .ok (parsed.cons op)
      else if strcaseeq subcmd [105, 110, 99, 114, 98, 121] ∧ rest ≠ [] then do
        let op ← parseOp .incrby owtype a b rest.head?
        let parsed ← bitfieldOps owtype rest.tail
        .ok (parsed.cons op)
      else if strcaseeq subcmd [111, 118, 101, 114, 102, 108, 111, 119] then do
        let owtype ← owtypeOf a
        bitfieldOps owtype (b :: rest)
      else .error .syntaxerr
termination_by args => args.length
decreasing_by all_goals simp; try omega

/-- SET and INCRBY, for the functions of a signed or of an unsigned field.  `wrapped` is
    what the variable of that name holds before. -/
def storeOp (get : Bytes → Nat → Nat → Except Fault (BitVec 64))
    (check : BitVec 64 → BitVec 64 → Nat → Owtype → BitVec 64 → Int × BitVec 64)
    (set : Bytes → Nat → Nat → BitVec 64 → Except Fault Bytes)
    (wrapped : BitVec 64) (p : Bytes) (thisop : BitfieldOp) : Except Fault (Bytes × Reply) := do
  let oldval ← get p thisop.offset thisop.bits
  -- the value that is checked, and what is added to it
  let base := if thisop.opcode = .incrby then oldval else thisop.i64
  let incr := if thisop.opcode = .incrby then thisop.i64 else 0#64
  let (overflow, wrapped) := check base incr thisop.bits thisop.owtype wrapped
  let newval := if overflow ≠ 0 then wrapped else base + incr
  let retval := if thisop.opcode = .incrby then newval else oldval
  -- on overflow of type is "FAIL", don't write and return NULL to signal the condition
  if overflow ≠ 0 ∧ thisop.owtype = .fail then .ok (p, .nullbulk)
  else do
    let p ← set p thisop.offset thisop.bits newval
    .ok (p, .longLong retval.toInt)

/-- SET and INCRBY. -/
def writeOp (wrapped : BitVec 64) (p : Bytes) (thisop : BitfieldOp) : Except Fault (Bytes × Reply) :=
  if thisop.sign then
    storeOp getSignedBitfield checkSignedBitfieldOverflow setSignedBitfield wrapped p thisop
  else storeOp getUnsignedBitfield checkUnsignedBitfieldOverflow setUnsignedBitfield wrapped p thisop

/-- GET, on a copy of up to 9 bytes that is zero-padded. -/
def readOp (o : Option Robj) (thisop : BitfieldOp) : Except Fault Reply := do
  let src := (o.map getObjectReadOnlyString).getD []
  let byte := thisop.offset >>> 3
  let buf := (List.range 9).map (fun i => src.getD (i + byte) 0)
  let val ←
    if thisop.sign then getSignedBitfield buf (thisop.offset - byte * 8) thisop.bits
    else getUnsignedBitfield buf (thisop.offset - byte * 8) thisop.bits
  .ok (.longLong val.toInt)

/-- What a command leaves: the value of the key, the replies and the increment of
    `server.dirty`. -/
structure Ran where
  object  : Option Robj
  replies : List Reply
  dirty   : Nat
deriving DecidableEq, Repr

/-- One operation. -/
def runOp (wrapped : BitVec 64) (o : Option Robj) (thisop : BitfieldOp) : Except Fault Ran :=
  if thisop.opcode = .get then do
    let reply ← readOp o thisop
    .ok { object := o, replies := [reply], dirty := 0 }
  else
    match o with
    | some (.sds p) => do
        let (p, reply) ← writeOp wrapped p thisop
        .ok { object := some (.sds p), replies := [reply], dirty := 1 }
    | _ => .error .outOfBounds

/-- The operations, one after the other. -/
def runOps (wrapped : BitVec 64) (o : Option Robj) : List BitfieldOp → Except Fault Ran
  | [] => .ok { object := o, replies := [], dirty := 0 }
  | thisop :: ops => do
      let ran ← runOp wrapped o thisop
      let rest ← runOps wrapped ran.object ops
      .ok { rest with replies := ran.replies ++ rest.replies, dirty := ran.dirty + rest.dirty }

/-- `addReplyMultiBulkLen(c,numops)` and the operations. -/
def replyOps (wrapped : BitVec 64) (o : Option Robj) (ops : List BitfieldOp) : Except Fault Ran := do
  let ran ← runOps wrapped o ops
  .ok { ran with replies := .multiBulkLen ops.length :: ran.replies }

/-- `bitfieldCommand`.  `wrapped` is what the variables of that name hold when they are
    not initialized. -/
def bitfieldCommand (wrapped : BitVec 64) (o : Option Robj) (argv : List Bytes) : Except Fault Ran :=
  match bitfieldOps .wrap (argv.drop 2) with
  | .error reply => .ok { object := o, replies := [reply], dirty := 0 }
  | .ok parsed =>
      if parsed.readonly then
        if o = some .other then .ok { object := o, replies := [.wrongtypeerr], dirty := 0 }
        else replyOps wrapped o parsed.ops
      else
        -- make room up to the farest bit reached by this operation
        match lookupStringForBitCommand o parsed.higest_write_offset with
        | .error reply => .ok { object := o, replies := [reply], dirty := 0 }
        | .ok p => replyOps wrapped (some (.sds p)) parsed.ops

/-- `getbitCommand`. -/
def getbitCommand (o : Option Robj) (argv : List Bytes) : Reply :=
  match getBitOffsetFromArgument (argv.getD 2 []) false 0 with
  | .error reply => reply
  | .ok bitoffset =>
      let byte := bitoffset >>> 3
      let bit := 7 - (bitoffset &&& 7)
      let bitval (s : Bytes) : Bool :=
        byte < s.length ∧ (s.getD byte 0).toBitVec.setWidth 64 &&& (1#64 <<< bit) ≠ 0#64
      match o with
      | none            => .longLong 0
      | some .other     => .wrongtypeerr
      | some (.sds ptr) => .longLong (bitval ptr).toNat
      | some (.int ptr) => .longLong (bitval (ll2string 32 ptr.toInt)).toNat

end Redis.Bitops
