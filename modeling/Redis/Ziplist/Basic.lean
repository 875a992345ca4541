import Redis.Lib.Outcome
import Redis.Lib.Buffer
import Redis.Libc

namespace Redis

open Buffer

/-!
# The ziplist of `ziplist.c`

A ziplist is one block of memory: `zlbytes`, `zltail`, `zllen`, the entries and a final
`ZIP_END`.  An entry starts with the raw length of the entry before it, in 1 or 5 bytes,
then come its encoding and length and its data.  Pointers are offsets into the block.

* `zipEncodeLength` … `zipLoadInteger` — the encoding of one entry;
* `zipEntry`, `zipRawEntryLength` — decoding at a pointer;
* `ziplistCascadeUpdate`, `ziplistDeleteAt`, `ziplistInsertAt` — the updates
  (`__ziplistCascadeUpdate`, `__ziplistDelete`, `__ziplistInsert`);
* `ziplistIndex`, `ziplistNext`, `ziplistPrev`, `ziplistGet` — reading.

Every access is checked against the block, and `ziplistResize` refuses a size that does
not fit the 32 bits of `zlbytes`.
-/

/-- What the C code would do instead of returning. -/
inductive ZipFault
  /-- An access outside the block. -/
  | outOfBounds
  /-- A block of this size is requested, which does not fit `zlbytes`. -/
  | overflow (len : Nat)
  /-- `assert(NULL)` or `assert(prevlen > 0)`. -/
  | assertion
  /-- A loop runs longer than the block is. -/
  | fuel
  deriving DecidableEq, Repr

/-- The total size of the block would reach `2^32` bytes. -/
def ZipFault.Overflows (fault : ZipFault) : Prop := ∃ len, fault = .overflow len ∧ 2 ^ 32 ≤ len

/-- An access that may leave the block. -/
def zipCheck {α : Type} : Option α → Except ZipFault α
  | some a => .ok a
  | none => .error .outOfBounds

/-- `p[0]`. -/
def readByte (zl : Bytes) (p : Nat) : Except ZipFault UInt8 := zipCheck zl[p]?

/-- A little-endian number of `w` bytes at `p`. -/
def readLE (zl : Bytes) (p w : Nat) : Except ZipFault Nat := do
  let bs ← zipCheck (slice? zl p w)
  return leNat bs

/-- `memcpy` into the block. -/
def writeBytes (zl : Bytes) (p : Nat) (bs : Bytes) : Except ZipFault Bytes :=
  zipCheck (overwrite? zl p bs)

/-- `memmove` inside the block. -/
def moveBytes (zl : Bytes) (dst src n : Nat) : Except ZipFault Bytes :=
  zipCheck (memmove? zl dst src n)

/-- A pointer moved back or forth; it must not leave the block at its front. -/
def pointerAdd (p : Nat) (d : Int) : Except ZipFault Nat :=
  if 0 ≤ (p : Int) + d then .ok ((p : Int) + d).toNat else .error .outOfBounds

/-- Reduction to `uint32_t`. -/
def uint32 (n : Int) : Nat := (n % 2 ^ 32).toNat

/-! ### Constants -/

def ZIP_END : UInt8 := 255
def ZIP_BIGLEN : Nat := 254
def ZIP_STR_MASK : UInt8 := 0xc0
def ZIP_STR_06B : UInt8 := 0x00
def ZIP_STR_14B : UInt8 := 0x40
def ZIP_STR_32B : UInt8 := 0x80
def ZIP_INT_16B : UInt8 := 0xc0
def ZIP_INT_32B : UInt8 := 0xd0
def ZIP_INT_64B : UInt8 := 0xe0
def ZIP_INT_24B : UInt8 := 0xf0
def ZIP_INT_8B : UInt8 := 0xfe
def ZIP_INT_IMM_MASK : UInt8 := 0x0f
def ZIP_INT_IMM_MIN : UInt8 := 0xf1
def ZIP_INT_IMM_MAX : UInt8 := 0xfd
def ZIPLIST_HEADER_SIZE : Nat := 10
def UINT16_MAX : Nat := 2 ^ 16 - 1

/-! ### The header -/

/-- `ZIPLIST_BYTES(zl)`. -/
def ziplistBytes (zl : Bytes) : Except ZipFault Nat := readLE zl 0 4

/-- `ZIPLIST_TAIL_OFFSET(zl)`. -/
def ziplistTailOffset (zl : Bytes) : Except ZipFault Nat := readLE zl 4 4

/-- `ZIPLIST_LENGTH(zl)`. -/
def ziplistLength (zl : Bytes) : Except ZipFault Nat := readLE zl 8 2

/-- `ZIPLIST_TAIL_OFFSET(zl) = n`. -/
def setTailOffset (zl : Bytes) (n : Int) : Except ZipFault Bytes :=
  writeBytes zl 4 (leBytes 4 (uint32 n))

/-- `ZIPLIST_INCR_LENGTH(zl,incr)`: the counter sticks at its maximum. -/
def incrLength (zl : Bytes) (incr : Int) : Except ZipFault Bytes := do
  let len ← ziplistLength zl
  if len < UINT16_MAX then
    writeBytes zl 8 (leBytes 2 (((len : Int) + incr) % 2 ^ 16).toNat)
  else
    return zl

/-! ### Encoding an entry -/

/-- `ZIP_IS_STR`. -/
def zipIsStr (encoding : UInt8) : Bool := encoding &&& ZIP_STR_MASK < ZIP_STR_MASK

/-- `zipIntSize`. -/
def zipIntSize (encoding : UInt8) : Nat :=
  if encoding = ZIP_INT_8B then 1
  else if encoding = ZIP_INT_16B then 2
  else if encoding = ZIP_INT_24B then 3
  else if encoding = ZIP_INT_32B then 4
  else if encoding = ZIP_INT_64B then 8
  else 0

/-- `zipEncodeLength`: the bytes written; the result is their number. -/
def zipEncodeLength (encoding : UInt8) (rawlen : Nat) : Bytes :=
  if zipIsStr encoding then
    if rawlen ≤ 0x3f then
      [ZIP_STR_06B ||| UInt8.ofNat rawlen]
    else if rawlen ≤ 0x3fff then
      [ZIP_STR_14B ||| UInt8.ofNat ((rawlen >>> 8) &&& 0x3f), UInt8.ofNat (rawlen &&& 0xff)]
    else
      [ZIP_STR_32B, UInt8.ofNat ((rawlen >>> 24) &&& 0xff), UInt8.ofNat ((rawlen >>> 16) &&& 0xff),
        UInt8.ofNat ((rawlen >>> 8) &&& 0xff), UInt8.ofNat (rawlen &&& 0xff)]
  else
    [encoding]

/-- `zipPrevEncodeLengthForceLarge`: the five bytes written. -/
def zipPrevEncodeLengthForceLarge (len : Nat) : Bytes := UInt8.ofNat ZIP_BIGLEN :: leBytes 4 len

/-- `zipPrevEncodeLength`: the bytes written; the result is their number. -/
def zipPrevEncodeLength (len : Nat) : Bytes :=
  if len < ZIP_BIGLEN then [UInt8.ofNat len] else UInt8.ofNat ZIP_BIGLEN :: leBytes 4 len

/-- `zipTryEncoding`: the value and its encoding if the string is a number. -/
def zipTryEncoding (entry : Bytes) : Option (Int × UInt8) :=
  if entry.length ≥ 32 ∨ entry.length = 0 then none
  else match string2ll entry with
    | none => none
    | some value =>
        if 0 ≤ value ∧ value ≤ 12 then some (value, ZIP_INT_IMM_MIN + UInt8.ofNat value.toNat)
        else if -2 ^ 7 ≤ value ∧ value ≤ 2 ^ 7 - 1 then some (value, ZIP_INT_8B)
        else if -2 ^ 15 ≤ value ∧ value ≤ 2 ^ 15 - 1 then some (value, ZIP_INT_16B)
        else if -0x7fffff - 1 ≤ value ∧ value ≤ 0x7fffff then some (value, ZIP_INT_24B)
        else if -2 ^ 31 ≤ value ∧ value ≤ 2 ^ 31 - 1 then some (value, ZIP_INT_32B)
        else some (value, ZIP_INT_64B)

/-- `zipSaveInteger`: the bytes stored. -/
def zipSaveInteger (value : Int) (encoding : UInt8) : Except ZipFault Bytes :=
  if encoding = ZIP_INT_8B then .ok (intBytes 1 value)
  else if encoding = ZIP_INT_16B then .ok (intBytes 2 value)
  -- `i32 = value<<8`, stored without its low byte
  else if encoding = ZIP_INT_24B then .ok ((intBytes 4 (value * 256)).drop 1)
  else if encoding = ZIP_INT_32B then .ok (intBytes 4 value)
  else if encoding = ZIP_INT_64B then .ok (intBytes 8 value)
  else if ZIP_INT_IMM_MIN ≤ encoding ∧ encoding ≤ ZIP_INT_IMM_MAX then .ok []
  else .error .assertion

/-- `zipLoadInteger`. -/
def zipLoadInteger (zl : Bytes) (p : Nat) (encoding : UInt8) : Except ZipFault Int :=
  if encoding = ZIP_INT_8B then do return bytesInt (← zipCheck (slice? zl p 1))
  else if encoding = ZIP_INT_16B then do return bytesInt (← zipCheck (slice? zl p 2))
  else if encoding = ZIP_INT_32B then do return bytesInt (← zipCheck (slice? zl p 4))
  -- the three bytes are the high bytes of an `int32_t`, shifted down again
  else if encoding = ZIP_INT_24B then do return bytesInt (0 :: (← zipCheck (slice? zl p 3))) / 256
  else if encoding = ZIP_INT_64B then do return bytesInt (← zipCheck (slice? zl p 8))
  else if ZIP_INT_IMM_MIN ≤ encoding ∧ encoding ≤ ZIP_INT_IMM_MAX then
    .ok (((encoding &&& ZIP_INT_IMM_MASK).toNat : Int) - 1)
  else .error .assertion

/-! ### Decoding at a pointer -/

/-- `zlentry`. -/
structure ZlEntry where
  prevrawlensize : Nat
  prevrawlen : Nat
  lensize : Nat
  len : Nat
  headersize : Nat
  encoding : UInt8
  p : Nat
  deriving DecidableEq, Repr

/-- `ZIP_DECODE_PREVLENSIZE`. -/
def zipDecodePrevlensize (zl : Bytes) (ptr : Nat) : Except ZipFault Nat := do
  let b ← readByte zl ptr
  return if b.toNat < ZIP_BIGLEN then 1 else 5

/-- `ZIP_DECODE_PREVLEN`: the size of the field and its value. -/
def zipDecodePrevlen (zl : Bytes) (ptr : Nat) : Except ZipFault (Nat × Nat) := do
  let prevlensize ← zipDecodePrevlensize zl ptr
  if prevlensize = 1 then
    let b ← readByte zl ptr
    return (prevlensize, b.toNat)
  else
    let prevlen ← readLE zl (ptr + 1) 4
    return (prevlensize, prevlen)

/-- `ZIP_DECODE_LENGTH`: the encoding, the size of the length and the length. -/
def zipDecodeLength (zl : Bytes) (ptr : Nat) : Except ZipFault (UInt8 × Nat × Nat) := do
  let b0 ← readByte zl ptr
  let encoding := if b0 < ZIP_STR_MASK then b0 &&& ZIP_STR_MASK else b0
  if encoding < ZIP_STR_MASK then
    if encoding = ZIP_STR_06B then
      return (encoding, 1, b0.toNat &&& 0x3f)
    else if encoding = ZIP_STR_14B then
      let b1 ← readByte zl (ptr + 1)
      return (encoding, 2, ((b0.toNat &&& 0x3f) <<< 8) ||| b1.toNat)
    else if encoding = ZIP_STR_32B then
      let b1 ← readByte zl (ptr + 1)
      let b2 ← readByte zl (ptr + 2)
      let b3 ← readByte zl (ptr + 3)
      let b4 ← readByte zl (ptr + 4)
      return (encoding, 5,
        (b1.toNat <<< 24) ||| (b2.toNat <<< 16) ||| (b3.toNat <<< 8) ||| b4.toNat)
    else
      .error .assertion
  else
    return (encoding, 1, zipIntSize encoding)

/-- `zipEntry`. -/
def zipEntry (zl : Bytes) (p : Nat) : Except ZipFault ZlEntry := do
  let (prevrawlensize, prevrawlen) ← zipDecodePrevlen zl p
  let (encoding, lensize, len) ← zipDecodeLength zl (p + prevrawlensize)
  return {
    prevrawlensize := prevrawlensize
    prevrawlen := prevrawlen
    lensize := lensize
    len := len
    headersize := prevrawlensize + lensize
    encoding := encoding
    p := p }

/-- `zipRawEntryLength`. -/
def zipRawEntryLength (zl : Bytes) (p : Nat) : Except ZipFault Nat := do
  let prevlensize ← zipDecodePrevlensize zl p
  let (_, lensize, len) ← zipDecodeLength zl (p + prevlensize)
  return prevlensize + lensize + len

/-- `zipPrevLenByteDiff`. -/
def zipPrevLenByteDiff (zl : Bytes) (p len : Nat) : Except ZipFault Int := do
  let prevlensize ← zipDecodePrevlensize zl p
  return ((zipPrevEncodeLength len).length : Int) - prevlensize

/-! ### Updates -/

/-- `ziplistNew`. -/
def ziplistNew : Bytes :=
  leBytes 4 (ZIPLIST_HEADER_SIZE + 1) ++ (leBytes 4 ZIPLIST_HEADER_SIZE ++ (leBytes 2 0 ++ [ZIP_END]))

section Updates

-- what fresh memory holds at each offset
variable (junk : Nat → UInt8)

/-- `ziplistResize`. -/
def ziplistResize (zl : Bytes) (len : Nat) : Except ZipFault Bytes :=
  if 2 ^ 32 ≤ len then .error (.overflow len)
  else do
    let zl := zrealloc junk zl len
    let zl ← writeBytes zl 0 (leBytes 4 len)
    let last ← pointerAdd len (-1)
    writeBytes zl last [ZIP_END]

/-- `ZIPLIST_TAIL_OFFSET(zl) = ZIPLIST_TAIL_OFFSET(zl) + d`. -/
def addTailOffset (zl : Bytes) (d : Int) : Except ZipFault Bytes := do
  let tail ← ziplistTailOffset zl
  setTailOffset zl ((tail : Int) + d)

/-- "Update tail offset when next element is not the tail element." -/
def cascadeTail (zl : Bytes) (np extra : Nat) : Except ZipFault Bytes := do
  let tail ← ziplistTailOffset zl
  if tail ≠ np then setTailOffset zl ((tail : Int) + (extra : Int)) else return zl

/-- The branch of `__ziplistCascadeUpdate` that gives the field at `np` more bytes. -/
def cascadeGrow (zl : Bytes) (curlen np rawlen prevrawlensize : Nat) : Except ZipFault Bytes := do
  let rawlensize := (zipPrevEncodeLength rawlen).length
  let extra := rawlensize - prevrawlensize
  let zl ← ziplistResize junk zl (curlen + extra)
  let zl ← cascadeTail zl np extra
  -- move the tail to the back
  let zl ← moveBytes zl (np + rawlensize) (np + prevrawlensize) (curlen - np - prevrawlensize - 1)
  writeBytes zl np (zipPrevEncodeLength rawlen)

/-- The loop of `__ziplistCascadeUpdate`. -/
def ziplistCascadeLoop : Nat → Bytes → Nat → Nat → Except ZipFault Bytes
  | 0, _, _, _ => .error .fuel
  | fuel + 1, zl, curlen, p => do
      if (← readByte zl p) = ZIP_END then
        return zl
      let cur ← zipEntry zl p
      let rawlen := cur.headersize + cur.len
      let rawlensize := (zipPrevEncodeLength rawlen).length
      -- abort if there is no next entry
      if (← readByte zl (p + rawlen)) = ZIP_END then
        return zl
      let next ← zipEntry zl (p + rawlen)
      -- abort when "prevlen" has not changed
      if next.prevrawlen = rawlen then
        return zl
      if next.prevrawlensize < rawlensize then
        let zl ← cascadeGrow junk zl curlen (p + rawlen) rawlen next.prevrawlensize
        ziplistCascadeLoop fuel zl (curlen + (rawlensize - next.prevrawlensize)) (p + rawlen)
      else if next.prevrawlensize > rawlensize then
        -- shrinking is avoided: "rawlen" is set in the available bytes
        writeBytes zl (p + rawlen) (zipPrevEncodeLengthForceLarge rawlen)
      else
        writeBytes zl (p + rawlen) (zipPrevEncodeLength rawlen)

/-- `__ziplistCascadeUpdate`. -/
def ziplistCascadeUpdate (zl : Bytes) (p : Nat) : Except ZipFault Bytes := do
  let curlen ← ziplistBytes zl
  ziplistCascadeLoop junk (zl.length + 1) zl curlen p

/-- `if (nextdiff != 0) zl = __ziplistCascadeUpdate(zl,p);` -/
def cascadeIf (zl : Bytes) (p : Nat) (nextdiff : Int) : Except ZipFault Bytes :=
  if nextdiff ≠ 0 then ziplistCascadeUpdate junk zl p else return zl

/-- "When the tail contains more than one entry, we need to take nextdiff in account as
    well", for the entry at `p`. -/
def tailNextdiff (zl : Bytes) (p : Nat) (nextdiff : Int) : Except ZipFault Bytes := do
  let tail ← zipEntry zl p
  if (← readByte zl (p + (tail.headersize + tail.len))) ≠ ZIP_END then
    addTailOffset zl nextdiff
  else
    return zl

/-- The loop of `__ziplistDelete` that skips the entries to delete: the end pointer and
    their number. -/
def ziplistSkip (zl : Bytes) : Nat → Nat → Nat → Except ZipFault (Nat × Nat)
  | 0, p, deleted => do
      let _ ← readByte zl p
      return (p, deleted)
  | num + 1, p, deleted => do
      if (← readByte zl p) = ZIP_END then
        return (p, deleted)
      let rawlen ← zipRawEntryLength zl p
      ziplistSkip zl num (p + rawlen) (deleted + 1)

/-- The part of `__ziplistDelete` that moves what follows the deleted entries to their
    place, or makes the entry before them the tail: the block and `nextdiff`. -/
def deleteClose (zl : Bytes) (first : ZlEntry) (p totlen : Nat) : Except ZipFault (Bytes × Int) := do
  if (← readByte zl p) ≠ ZIP_END then
    let nextdiff ← zipPrevLenByteDiff zl p first.prevrawlen
    let p ← pointerAdd p (-nextdiff)
    let zl ← writeBytes zl p (zipPrevEncodeLength first.prevrawlen)
    let zl ← addTailOffset zl (-(totlen : Int))
    let zl ← tailNextdiff zl p nextdiff
    let bytes ← ziplistBytes zl
    let zl ← moveBytes zl first.p p (bytes - p - 1)
    return (zl, nextdiff)
  else
    -- the entire tail was deleted, no need to move memory
    let zl ← setTailOffset zl ((first.p : Int) - first.prevrawlen)
    return (zl, 0)

/-- `__ziplistDelete`. -/
def ziplistDeleteAt (zl : Bytes) (p num : Nat) : Except ZipFault Bytes := do
  let first ← zipEntry zl p
  let (p, deleted) ← ziplistSkip zl num p 0
  let totlen := p - first.p
  if totlen > 0 then
    let (zl, nextdiff) ← deleteClose zl first p totlen
    let bytes ← ziplistBytes zl
    let len ← pointerAdd bytes (nextdiff - totlen)
    let zl ← ziplistResize junk zl len
    let zl ← incrLength zl (-(deleted : Int))
    cascadeIf junk zl first.p nextdiff
  else
    return zl

/-- "Find out prevlen for the entry that is inserted." -/
def insertPrevlen (zl : Bytes) (p : Nat) : Except ZipFault Nat := do
  if (← readByte zl p) ≠ ZIP_END then
    let (_, prevlen) ← zipDecodePrevlen zl p
    return prevlen
  else
    let ptail ← ziplistTailOffset zl
    if (← readByte zl ptail) ≠ ZIP_END then zipRawEntryLength zl ptail else return 0

/-- The encoding `__ziplistInsert` uses: untouched, that is 0, for strings. -/
def insertEncoding (s : Bytes) : UInt8 := ((zipTryEncoding s).map Prod.snd).getD 0

/-- `reqlen`: the payload, the `prevlen` field and the encoded length. -/
def insertReqlen (s : Bytes) (prevlen : Nat) : Nat :=
  (match zipTryEncoding s with
    | some (_, encoding) => zipIntSize encoding
    | none => s.length)
  + (zipPrevEncodeLength prevlen).length + (zipEncodeLength (insertEncoding s) s.length).length

/-- `nextdiff` before the correction: the growth of the field of the entry at `p`. -/
def insertNextdiff (zl : Bytes) (p reqlen : Nat) : Except ZipFault Int := do
  if (← readByte zl p) ≠ ZIP_END then zipPrevLenByteDiff zl p reqlen else return 0

/-- "Apply memory move when necessary and update tail offset." -/
def insertOpen (zl : Bytes) (curlen p reqlen : Nat) (nextdiff : Int) (forcelarge : Bool) :
    Except ZipFault Bytes := do
  if (← readByte zl p) ≠ ZIP_END then
    let src ← pointerAdd p (-nextdiff)
    let count ← pointerAdd (curlen - p - 1) nextdiff
    let zl ← moveBytes zl (p + reqlen) src count
    -- encode this entry's raw length in the next entry
    let zl ← writeBytes zl (p + reqlen)
      (if forcelarge then zipPrevEncodeLengthForceLarge reqlen else zipPrevEncodeLength reqlen)
    let zl ← addTailOffset zl reqlen
    tailNextdiff zl (p + reqlen) nextdiff
  else
    -- this element will be the new tail
    setTailOffset zl p

/-- "Write the entry." -/
def insertWrite (zl : Bytes) (p prevlen : Nat) (s : Bytes) : Except ZipFault Bytes := do
  let zl ← writeBytes zl p (zipPrevEncodeLength prevlen)
  let p := p + (zipPrevEncodeLength prevlen).length
  let zl ← writeBytes zl p (zipEncodeLength (insertEncoding s) s.length)
  let p := p + (zipEncodeLength (insertEncoding s) s.length).length
  match zipTryEncoding s with
  | some (value, encoding) => do
      let bs ← zipSaveInteger value encoding
      writeBytes zl p bs
  | none => writeBytes zl p s

/-- `__ziplistInsert`. -/
def ziplistInsertAt (zl : Bytes) (p : Nat) (s : Bytes) : Except ZipFault Bytes := do
  let curlen ← ziplistBytes zl
  let prevlen ← insertPrevlen zl p
  let reqlen := insertReqlen s prevlen
  let diff ← insertNextdiff zl p reqlen
  let forcelarge : Bool := diff = -4 ∧ reqlen < 4
  let nextdiff := if forcelarge then 0 else diff
  let len ← pointerAdd (curlen + reqlen) nextdiff
  let zl ← ziplistResize junk zl len
  let zl ← insertOpen zl curlen p reqlen nextdiff forcelarge
  let zl ← cascadeIf junk zl (p + reqlen) nextdiff
  let zl ← insertWrite zl p prevlen s
  incrLength zl 1

/-- `ZIPLIST_ENTRY_END(zl)`. -/
def ziplistEntryEnd (zl : Bytes) : Except ZipFault Nat := do
  let bytes ← ziplistBytes zl
  pointerAdd bytes (-1)

/-- `ZIPLIST_HEAD` and `ZIPLIST_TAIL`. -/
inductive ZipWhere
  | head
  | tail
  deriving DecidableEq, Repr

/-- `ziplistPush`. -/
def ziplistPush (zl : Bytes) (s : Bytes) (place : ZipWhere) : Except ZipFault Bytes := do
  let p ← if place = .head then pure ZIPLIST_HEADER_SIZE else ziplistEntryEnd zl
  ziplistInsertAt junk zl p s

/-- `ziplistInsert`. -/
def ziplistInsert (zl : Bytes) (p : Nat) (s : Bytes) : Except ZipFault Bytes :=
  ziplistInsertAt junk zl p s

/-- `ziplistDelete`; the pointer the caller keeps stays the same offset. -/
def ziplistDelete (zl : Bytes) (p : Nat) : Except ZipFault Bytes :=
  ziplistDeleteAt junk zl p 1

end Updates

/-! ### Reading -/

/-- The backward loop of `ziplistIndex`. -/
def ziplistIndexBack (zl : Bytes) : Nat → Nat → Nat → Except ZipFault (Option Nat)
  | 0, p, _ => return some p
  | index + 1, p, prevlen =>
      if prevlen > 0 then do
        let p ← pointerAdd p (-(prevlen : Int))
        let (_, prevlen) ← zipDecodePrevlen zl p
        ziplistIndexBack zl index p prevlen
      else
        return none

/-- The forward loop of `ziplistIndex`. -/
def ziplistIndexFwd (zl : Bytes) : Nat → Nat → Except ZipFault (Option Nat)
  | 0, p => do
      if (← readByte zl p) = ZIP_END then return none else return some p
  | index + 1, p => do
      if (← readByte zl p) = ZIP_END then
        return none
      let rawlen ← zipRawEntryLength zl p
      ziplistIndexFwd zl index (p + rawlen)

/-- `ziplistIndex`: `none` is `NULL`. -/
def ziplistIndex (zl : Bytes) (index : Int) : Except ZipFault (Option Nat) :=
  if index < 0 then do
    let p ← ziplistTailOffset zl
    if (← readByte zl p) = ZIP_END then
      return none
    let (_, prevlen) ← zipDecodePrevlen zl p
    ziplistIndexBack zl (-index - 1).toNat p prevlen
  else
    ziplistIndexFwd zl index.toNat ZIPLIST_HEADER_SIZE

/-- `ziplistNext`: `none` is `NULL`. -/
def ziplistNext (zl : Bytes) (p : Nat) : Except ZipFault (Option Nat) := do
  if (← readByte zl p) = ZIP_END then
    return none
  let rawlen ← zipRawEntryLength zl p
  if (← readByte zl (p + rawlen)) = ZIP_END then
    return none
  return some (p + rawlen)

/-- `ziplistPrev`: `none` is `NULL`. -/
def ziplistPrev (zl : Bytes) (p : Nat) : Except ZipFault (Option Nat) := do
  if (← readByte zl p) = ZIP_END then
    let ptail ← ziplistTailOffset zl
    if (← readByte zl ptail) = ZIP_END then return none else return some ptail
  else if p = ZIPLIST_HEADER_SIZE then
    return none
  else
    let (_, prevlen) ← zipDecodePrevlen zl p
    if prevlen > 0 then
      let p ← pointerAdd p (-(prevlen : Int))
      return some p
    else
      .error .assertion

/-- `ziplistGet`: the string or the integer of an entry, nothing at `ZIP_END`. -/
def ziplistGet (zl : Bytes) (p : Nat) : Except ZipFault (Option (Bytes ⊕ Int)) := do
  if (← readByte zl p) = ZIP_END then
    return none
  let entry ← zipEntry zl p
  if zipIsStr entry.encoding then
    let sstr ← zipCheck (slice? zl (p + entry.headersize) entry.len)
    return some (.inl sstr)
  else
    let sval ← zipLoadInteger zl (p + entry.headersize) entry.encoding
    return some (.inr sval)

/-- The string a caller makes of an entry: integers are printed with `ll2string`. -/
def zipValueString : Bytes ⊕ Int → Bytes
  | .inl sstr => sstr
  | .inr sval => ll2string 32 sval

/-- `ziplistDeleteRange`. -/
def ziplistDeleteRange (junk : Nat → UInt8) (zl : Bytes) (index : Int) (num : Nat) :
    Except ZipFault Bytes := do
  match ← ziplistIndex zl index with
  | none => return zl
  | some p => ziplistDeleteAt junk zl p num

end Redis
