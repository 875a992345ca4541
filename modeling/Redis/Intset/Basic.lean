import Redis.Lib.Outcome
import Redis.Lib.Buffer
import Redis.Libc

namespace Redis

open Buffer

/-!
# The intset of `intset.c`

An intset is a sorted array of integers, all stored with the width that the largest one
needs.  A wider value rewrites the array in place, from the back to the front.

* `intsetGetEncoded`, `intsetSet` — one element, as bytes;
* `intsetSearch` — the binary search, whose result is also the place to insert at;
* `intsetUpgradeAndAdd`, `intsetMoveTail` — the changes of the array;
* `intsetAdd`, `intsetRemove`, `intsetFind`, `intsetGet`.

Every access is checked against the block, and `intsetResize` refuses a size that does not
fit 32 bits.
-/

/-- What the C code would do instead of returning. -/
inductive IntsetFault
  /-- An access outside the block. -/
  | outOfBounds
  /-- A block of this size is requested, which does not fit 32 bits. -/
  | overflow (size : Nat)
  | fuel
  deriving DecidableEq, Repr

/-- `INTSET_ENC_INT16`, `INTSET_ENC_INT32` and `INTSET_ENC_INT64`. -/
inductive IntsetEnc
  | int16
  | int32
  | int64
  deriving DecidableEq, Repr

/-- The value of the constant: the width of an element. -/
def IntsetEnc.size : IntsetEnc → Nat
  | .int16 => 2
  | .int32 => 4
  | .int64 => 8

/-- `intset`. -/
structure Intset where
  encoding : IntsetEnc
  length : Nat
  contents : Bytes
  deriving DecidableEq, Repr

/-- `_intsetValueEncoding`. -/
def intsetValueEncoding (v : Int) : IntsetEnc :=
  if v < -2147483648 ∨ 2147483647 < v then .int64
  else if v < -32768 ∨ 32767 < v then .int32
  else .int16

/-- `_intsetGetEncoded`. -/
def intsetGetEncoded (is : Intset) (pos : Int) (enc : IntsetEnc) : Except IntsetFault Int :=
  if pos < 0 then .error .outOfBounds
  else match slice? is.contents (pos.toNat * enc.size) enc.size with
    | some bs => .ok (bytesInt bs)
    | none => .error .outOfBounds

/-- `_intsetGet`. -/
def intsetGetAt (is : Intset) (pos : Int) : Except IntsetFault Int := intsetGetEncoded is pos is.encoding

/-- `_intsetSet`. -/
def intsetSet (is : Intset) (pos : Int) (value : Int) : Except IntsetFault Intset :=
  if pos < 0 then .error .outOfBounds
  else match overwrite? is.contents (pos.toNat * is.encoding.size) (intBytes is.encoding.size value) with
    | some contents => .ok { is with contents := contents }
    | none => .error .outOfBounds

/-- `intsetNew`. -/
def intsetNew : Intset := ⟨.int16, 0, []⟩

/-- The loop of `intsetSearch`: `min`, `mid` and `cur` when it ends. -/
def intsetSearchLoop (is : Intset) (value : Int) : Nat → Int → Int → Int → Int → Except IntsetFault (Int × Int × Int)
  | 0, _, _, _, _ => .error .fuel
  | fuel + 1, min, max, mid, cur =>
      if max ≥ min then do
        -- the sum is one of unsigned numbers
        let mid := (min + max) % 4294967296 / 2
        let cur ← intsetGetAt is mid
        if value > cur then intsetSearchLoop is value fuel (mid + 1) max mid cur
        else if value < cur then intsetSearchLoop is value fuel min (mid - 1) mid cur
        else return (min, mid, cur)
      else return (min, mid, cur)

/-- `intsetSearch`: whether the value is there, and `*pos`. -/
def intsetSearch (is : Intset) (value : Int) : Except IntsetFault (Bool × Int) :=
  if is.length = 0 then return (false, 0)
  else do
    let last ← intsetGetAt is (is.length - 1)
    if value > last then return (false, is.length)
    else do
      let first ← intsetGetAt is 0
      if value < first then return (false, 0)
      else do
        let r ← intsetSearchLoop is value (is.length + 1) 0 (is.length - 1) (-1) (-1)
        if value = r.2.2 then return (true, r.2.1) else return (false, r.1)

/-- `intsetMoveTail`. -/
def intsetMoveTail (is : Intset) (src dst : Nat) : Except IntsetFault Intset :=
  match memmove? is.contents (dst * is.encoding.size) (src * is.encoding.size)
      ((is.length - src) * is.encoding.size) with
  | some contents => .ok { is with contents := contents }
  | none => .error .outOfBounds

/-- `if (pos < ..) intsetMoveTail(is,src,dst)`. -/
def moveTailIf (c : Bool) (is : Intset) (src dst : Nat) : Except IntsetFault Intset :=
  if c then intsetMoveTail is src dst else .ok is

/-- `intsetFind`. -/
def intsetFind (is : Intset) (value : Int) : Except IntsetFault Bool :=
  if (intsetValueEncoding value).size ≤ is.encoding.size then do
    let r ← intsetSearch is value
    return r.1
  else return false

/-- `intsetGet`: `none` for a position out of range. -/
def intsetGet (is : Intset) (pos : Nat) : Except IntsetFault (Option Int) :=
  if pos < is.length then do
    let v ← intsetGetAt is pos
    return some v
  else return none

/-- The loop of `intsetUpgradeAndAdd`, from the last element to the first. -/
def upgradeLoop (curenc : IntsetEnc) (prepend : Nat) : Nat → Intset → Except IntsetFault Intset
  | 0, is => return is
  | n + 1, is => do
      let v ← intsetGetEncoded is n curenc
      let is ← intsetSet is (n + prepend : Nat) v
      upgradeLoop curenc prepend n is

section Updates

-- what fresh memory holds at each offset
variable (junk : Nat → UInt8)

/-- `intsetResize`. -/
def intsetResize (is : Intset) (len : Nat) : Except IntsetFault Intset :=
  if 4294967296 ≤ 8 + len * is.encoding.size then .error (.overflow (8 + len * is.encoding.size))
  else return { is with contents := zrealloc junk is.contents (len * is.encoding.size) }

/-- `intsetUpgradeAndAdd`. -/
def intsetUpgradeAndAdd (is : Intset) (value : Int) : Except IntsetFault Intset := do
  let curenc := is.encoding
  let prepend := if value < 0 then 1 else 0
  -- first set new encoding and resize
  let is ← intsetResize junk { is with encoding := intsetValueEncoding value } (is.length + 1)
  let is ← upgradeLoop curenc prepend is.length is
  -- set the value at the beginning or the end
  let is ← intsetSet is (if prepend = 1 then 0 else is.length) value
  return { is with length := is.length + 1 }

/-- `intsetAdd`, with `*success`. -/
def intsetAdd (is : Intset) (value : Int) : Except IntsetFault (Intset × Bool) :=
  if (intsetValueEncoding value).size > is.encoding.size then do
    let is ← intsetUpgradeAndAdd junk is value
    return (is, true)
  else do
    let r ← intsetSearch is value
    if r.1 then return (is, false)
    else do
      let is ← intsetResize junk is (is.length + 1)
      let is ← moveTailIf (r.2.toNat < is.length) is r.2.toNat (r.2.toNat + 1)
      let is ← intsetSet is r.2 value
      return ({ is with length := is.length + 1 }, true)

/-- `intsetRemove`, with `*success`. -/
def intsetRemove (is : Intset) (value : Int) : Except IntsetFault (Intset × Bool) :=
  if (intsetValueEncoding value).size ≤ is.encoding.size then do
    let r ← intsetSearch is value
    if r.1 then do
      let len := is.length
      -- overwrite value with tail
      let is ← moveTailIf (r.2.toNat < len - 1) is (r.2.toNat + 1) r.2.toNat
      let is ← intsetResize junk is (len - 1)
      return ({ is with length := len - 1 }, true)
    else return (is, false)
  else return (is, false)

end Updates

end Redis
