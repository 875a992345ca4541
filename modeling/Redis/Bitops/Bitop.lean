import Redis.Bitops.Frame
import Redis.Lib.Words

namespace Redis.Bitops

open Redis

/-!
# BITOP

The strings of the source keys are combined four words at a time as far as all of them
reach, and one byte at a time from there on.  An `unsigned long` is 8 bytes, of which the
first one is the lowest.

* `bitopName` — the operation;
* `lookupSources` — the strings of the keys, and the shortest and the longest length;
* `bitopFast`, `bitopBytes`, `bitopResult` — the resulting string;
* `bitopCommand`.
-/

/-- `BITOP_AND`, `BITOP_OR`, `BITOP_XOR` and `BITOP_NOT`. -/
inductive BitopName
  | and | or | xor | not
deriving DecidableEq, Repr

/-- The keys of a database, as the lookups find them. -/
abbrev Keys := Bytes → Option Robj

/-- What BITOP leaves. -/
structure BitopRan where
  db    : Keys
  reply : Reply
  dirty : Nat

/-- `op`, from the name of the operation. -/
def bitopName (opname : Bytes) : Option BitopName :=
  if strcaseeq opname [97, 110, 100] then some .and
  else if strcaseeq opname [111, 114] then some .or
  else if strcaseeq opname [120, 111, 114] then some .xor
  else if strcaseeq opname [110, 111, 116] then some .not
  else none

/-- `getDecodedObject`. -/
def getDecodedObject : Robj → Bytes
  | .sds ptr => ptr
  | .int ptr => ll2string 32 ptr.toInt
  | .other   => []

/-- The strings of the keys, none for a key that is missing, unless one of the keys is not a
    string. -/
def lookupSources (db : Keys) : List Bytes → Option (List Bytes)
  | [] => some []
  | key :: keys =>
      match db key with
      | none        => (lookupSources db keys).map ([] :: ·)
      | some .other => none
      | some o      => (lookupSources db keys).map (getDecodedObject o :: ·)

/-- `maxlen`, `j` keys having been looked up. -/
def maxlenLoop (maxlen : Nat) : List Bytes → Nat
  | [] => maxlen
  | s :: srcs => maxlenLoop (if s.length > maxlen then s.length else maxlen) srcs

/-- `minlen`, of keys of which those that are missing set it to zero. -/
def minlenLoop (db : Keys) (j minlen : Nat) : List Bytes → List Bytes → Nat
  | key :: keys, s :: srcs =>
      let minlen :=
        if db key = none then 0 else if j = 0 ∨ s.length < minlen then s.length else minlen
      minlenLoop db (j + 1) minlen keys srcs
  | _, _ => minlen

/-! ### The words -/

/-- `&=`, `|=` and `^=`, of a word or a byte. -/
def combine (op : BitopName) (w : Nat) (x y : BitVec w) : BitVec w :=
  match op with
  | .and => x &&& y
  | .or  => x ||| y
  | .xor => x ^^^ y
  | .not => ~~~x

/-- `p[0]` for an `unsigned long *p` that stands at byte `off`. -/
def loadLong (p : Bytes) (off : Nat) : Except Fault (BitVec 64) :=
  if off + 8 ≤ p.length then .ok (Words.load p off 8) else .error .outOfBounds

/-- `lres[0] op= lp[0]`, or `lres[0] = ~lres[0]` when `lp` is the source itself, both at byte `off`. -/
def combineLong (op : BitopName) (s res : Bytes) (off : Nat) : Except Fault Bytes := do
  let x ← loadLong res off
  let y ← loadLong s off
  .ok (Words.splice res off (Words.unload (n := 8) (combine op 64 x y)))

/-- The four words at `j`. -/
def combineFour (op : BitopName) (j : Nat) (res s : Bytes) : Except Fault Bytes := do
  let res ← combineLong op s res j
  let res ← combineLong op s res (j + 8)
  let res ← combineLong op s res (j + 16)
  combineLong op s res (j + 24)

/-- The body of the `while`: every source after the first one, or the complement. -/
def combineStep (op : BitopName) (srcs : List Bytes) (j : Nat) (res : Bytes) : Except Fault Bytes :=
  if op = .not then combineFour op j res res else srcs.tail.foldlM (combineFour op j) res

/-- The `while` of the fast path: `j` and `res`. -/
def combineWhile (op : BitopName) (srcs : List Bytes) (minlen j : Nat) (res : Bytes) : Except Fault (Nat × Bytes) :=
  if 8 * 4 ≤ minlen then do
    let res ← combineStep op srcs j res
    combineWhile op srcs (minlen - 8 * 4) (j + 8 * 4) res
  else .ok (j, res)
termination_by minlen

/-- The fast path. -/
def bitopFast (op : BitopName) (srcs : List Bytes) (minlen : Nat) (res : Bytes) : Except Fault (Nat × Bytes) :=
  if minlen ≥ 8 * 4 ∧ srcs.length ≤ 16 then
    -- memcpy(res,src[0],minlen)
    combineWhile op srcs minlen 0 (Words.splice res 0 ((srcs.headD []).take minlen))
  else .ok (0, res)

/-! ### The bytes -/

/-- `(len[i] <= j) ? 0 : src[i][j]`. -/
def sourceByte (j : Nat) (s : Bytes) : UInt8 := if s.length ≤ j then 0 else s.getD j 0

/-- `output` after the byte of each source. -/
def outputByte (op : BitopName) (srcs : List Bytes) (j : Nat) : UInt8 :=
  let output := sourceByte j (srcs.headD [])
  let output := if op = .not then ~~~output else output
  srcs.tail.foldl
    (fun output s =>
      match op with
      | .and => output &&& sourceByte j s
      | .or  => output ||| sourceByte j s
      | .xor => output ^^^ sourceByte j s
      | .not => output)
    output

/-- The `for` over the bytes, `fuel` bytes before its end. -/
def bitopBytes (op : BitopName) (srcs : List Bytes) : Nat → Nat → Bytes → Bytes
  | 0, _, res => res
  | fuel + 1, j, res => bitopBytes op srcs fuel (j + 1) (res.set j (outputByte op srcs j))

/-- The string that is computed. -/
def bitopResult (op : BitopName) (srcs : List Bytes) (minlen maxlen : Nat) : Except Fault Bytes := do
  let (j, res) ← bitopFast op srcs minlen (List.replicate maxlen 0)
  .ok (bitopBytes op srcs (maxlen - j) j res)

/-! ### The command -/

/-- The part of `bitopCommand` from the lookups on. -/
def bitopKeys (db : Keys) (op : BitopName) (targetkey : Bytes) (keys : List Bytes) : Except Fault BitopRan :=
  match lookupSources db keys with
  | none => .ok { db, reply := .wrongtypeerr, dirty := 0 }
  | some srcs =>
      let maxlen := maxlenLoop 0 srcs
      let minlen := minlenLoop db 0 0 keys srcs
      -- compute the bit operation, if at least one string is not empty
      if maxlen ≠ 0 then do
        let res ← bitopResult op srcs minlen maxlen
        .ok { db := Function.update db targetkey (some (.sds res)), reply := .longLong maxlen, dirty := 1 }
      else .ok { db := Function.update db targetkey none, reply := .longLong maxlen, dirty := 1 }

/-- `bitopCommand`. -/
def bitopCommand (db : Keys) (argv : List Bytes) : Except Fault BitopRan :=
  match bitopName (argv.getD 1 []) with
  | none => .ok { db, reply := .syntaxerr, dirty := 0 }
  | some op =>
      if op = .not ∧ argv.length ≠ 4 then
        .ok { db, reply := .error "BITOP NOT must be called with a single source key.", dirty := 0 }
      else bitopKeys db op (argv.getD 2 []) (argv.drop 3)

end Redis.Bitops
