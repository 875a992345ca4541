import Redis.Object.Counter
import Redis.Sort.Pqsort

namespace Redis.Sort

open Outcome Object

/-!
# `SORT`

`sortCommand` of `sort.c`.  The library functions on numbers and the order of `qsort` are
arguments; `errno` is a state that `strtod` sets and nothing clears.  A key is read as
`lookupKeyRead` finds it; that it is deleted when it is out of date is left out here.

* `lookupKeyByPattern` — the keys of `BY` and `GET`;
* `parseOptions` — the options;
* `sortRange`, `loadVector` — the range of `LIMIT` and the elements, by the type of the value;
* `loadScores` — the weights;
* `sortVector`, `sortOutput`, `sortCommand` — sorting, and the reply or the list that is stored.
-/

/-- A list, a set or a sorted set, as the iterators return its elements; a sorted set is kept
    by rank and in a dictionary. -/
inductive Collection
  | list (elements : List StringObject)
  | set (elements : List StringObject)
  | zset (ranked elements : List StringObject)

/-- What `strtod` returns for a string: the number, the offset of `*endptr`, and whether `errno`
    is set to `ERANGE`. -/
structure Strtod (D : Type) where
  value : D
  endptr : Nat
  erange : Bool

/-- An entry of the vector. -/
structure SortObject (D : Type) where
  obj : StringObject
  score : D
  cmpobj : Option Bytes

/-- What the command takes from the C library, and what it reads from the server and the client. -/
structure SortEnv (D : Type) where
  strtod : Bytes → Strtod D
  ofLong : Int → D
  zero : D
  isnan : D → Bool
  gt : D → D → Bool
  strcoll : Bytes → Bytes → Int
  qsort : (SortObject D → SortObject D → Int) → List (SortObject D) → List (SortObject D)
  /-- Where `zmalloc` puts the vector. -/
  vector : Nat
  clusterEnabled : Bool
  /-- `CLIENT_LUA`. -/
  lua : Bool

inductive SortReply
  | error (text : String)
  /-- The announced length and the elements; nothing stands for the null bulk. -/
  | multibulk (len : Nat) (elements : List (Option Bytes))
  | int (n : Nat)
  deriving DecidableEq, Repr

/-- What ends the process. -/
inductive SortFault
  | server (fault : ServerFault)
  /-- `j == vectorlen`, or the sorted set has no further node. -/
  | assertion
  /-- An index outside of the vector. -/
  | outOfBounds
  /-- A vector of negative length. -/
  | outOfMemory
  /-- `pqsort` does not end. -/
  | endless
  deriving DecidableEq, Repr

/-! ### The keys of `BY` and `GET` -/

/-- `strstr(s,"->")`. -/
def strstrArrow (s : Bytes) : Option Nat :=
  (List.range (cstr s).length).find? (fun i => (cstr s).getD i 0 = 45 && (cstr s).getD (i + 1) 0 = 62)

/-- The place of the field in the pattern, behind the asterisk at `p`. -/
def patternField (spat : Bytes) (p : Nat) : Option Nat :=
  match strstrArrow (spat.drop (p + 1)) with
  | none => none
  | some f => if (cstr (spat.drop (p + 1))).getD (f + 2) 0 = 0 then none else some (p + 1 + f)

/-- `lookupKeyByPattern`; `read` is `lookupKeyRead` of the database. -/
def lookupKeyByPattern (read : Bytes → Option (Value Collection)) (spat : Bytes) (subst : StringObject) :
    Option StringObject :=
  if spat.getD 0 0 = 35 ∧ spat.getD 1 0 = 0 then some subst
  else match strchr spat 42 with
    | none => none
    | some p =>
        match patternField spat p with
        | none =>
            match read (spat.take p ++ getDecodedObject subst ++ spat.drop (p + 1)) with
            | some (.string o) => some o
            | _ => none
        | some f =>
            match read (spat.take p ++ getDecodedObject subst ++ (spat.take f).drop (p + 1)) with
            | some (.hash o) => hashTypeGetObject o (spat.drop (f + 2))
            | _ => none

/-! ### The options -/

/-- The local variables of `sortCommand` that the options set. -/
structure SortOptions where
  desc : Bool
  alpha : Bool
  limitStart : Int
  limitCount : Int
  sortby : Option Bytes
  dontsort : Bool
  gets : List Bytes
  storekey : Option Bytes
  deriving DecidableEq, Repr

/-- The options before the first is read. -/
def SortOptions.start : SortOptions := ⟨false, false, 0, -1, none, false, [], none⟩

def ascName : Bytes := [97, 115, 99]
def descName : Bytes := [100, 101, 115, 99]
def alphaName : Bytes := [97, 108, 112, 104, 97]
def limitName : Bytes := [108, 105, 109, 105, 116]
def storeName : Bytes := [115, 116, 111, 114, 101]
def byName : Bytes := [98, 121]
def getName : Bytes := [103, 101, 116]

/-- The loop over the options.  An option that lacks its arguments is a syntax error. -/
def parseOptions (clusterEnabled : Bool) : List Bytes → SortOptions → Except String SortOptions
  | [], o => .ok o
  | a :: argv, o =>
      if strcaseeq a ascName then parseOptions clusterEnabled argv { o with desc := false }
      else if strcaseeq a descName then parseOptions clusterEnabled argv { o with desc := true }
      else if strcaseeq a alphaName then parseOptions clusterEnabled argv { o with alpha := true }
      else match argv with
        | [] => .error "ERR syntax error"
        | x :: argv =>
            if strcaseeq a limitName then
              match argv with
              | [] => .error "ERR syntax error"
              | y :: argv =>
                  match string2ll x, string2ll y with
                  | some limitStart, some limitCount =>
                      parseOptions clusterEnabled argv { o with limitStart := limitStart, limitCount := limitCount }
                  | _, _ => .error "ERR value is not an integer or out of range"
            else if strcaseeq a storeName then parseOptions clusterEnabled argv { o with storekey := some x }
            else if strcaseeq a byName then
              if strchr x 42 = none then
                parseOptions clusterEnabled argv { o with sortby := some x, dontsort := true }
              else if clusterEnabled then .error "ERR BY option of SORT denied in Cluster mode."
              else parseOptions clusterEnabled argv { o with sortby := some x }
            else if strcaseeq a getName then
              if clusterEnabled then .error "ERR GET option of SORT denied in Cluster mode."
              else parseOptions clusterEnabled argv { o with gets := o.gets ++ [x] }
            else .error "ERR syntax error"

/-- A set without an order is sorted by its elements, where the order would be seen. -/
def forceAlpha (lua : Bool) (v : Collection) (o : SortOptions) : SortOptions :=
  match v with
  | .set _ =>
      if o.dontsort = true ∧ (o.storekey.isSome = true ∨ lua = true) then
        { o with dontsort := false, alpha := true, sortby := none }
      else o
  | _ => o

/-! ### The range and the vector -/

/-- The conversion to `int`. -/
def wrap32 (n : Int) : Int := Int.bmod n 4294967296

/-- The number of elements, as an `int`. -/
def vectorLength : Collection → Int
  | .list elements | .set elements | .zset _ elements => wrap32 elements.length

/-- `start` and `end`. -/
def sortRange (limitStart limitCount vectorlen : Int) : Int × Int :=
  let start := if limitStart < 0 then 0 else limitStart
  let fin := if limitCount < 0 then vectorlen - 1 else wrap64 (wrap64 (start + limitCount) - 1)
  let r := if start ≥ vectorlen then (vectorlen - 1, vectorlen - 2) else (start, fin)
  (r.1, if r.2 ≥ vectorlen then vectorlen - 1 else r.2)

/-- The elements from a rank on, from either end. -/
def elementsFrom (desc : Bool) (start : Int) (elements : List StringObject) : List StringObject :=
  (if desc then elements.reverse else elements).drop start.toNat

/-- The vector of all elements. -/
def loadAll (elements : List StringObject) (vectorlen : Int) : Except SortFault (List StringObject) :=
  if vectorlen < 0 then .error .outOfMemory
  else if vectorlen < elements.length then .error .outOfBounds
  else if (elements.length : Int) = vectorlen then .ok elements else .error .assertion

/-- The vector of the range, if there is nothing to sort. -/
def loadRange (desc : Bool) (elements : List StringObject) (vectorlen start : Int) :
    Except SortFault (List StringObject) :=
  if vectorlen < 0 then .error .outOfMemory
  else
    let l := (elementsFrom desc start elements).take vectorlen.toNat
    if (l.length : Int) = vectorlen then .ok l else .error .assertion

/-- The vector, with `start` and `end` as the output uses them. -/
def loadVector (o : SortOptions) (v : Collection) (start fin : Int) :
    Except SortFault (List StringObject × Int × Int) :=
  let vectorlen := vectorLength v
  let shorter := if start ≠ 0 ∨ fin ≠ vectorlen - 1 then wrap32 (fin - start + 1) else vectorlen
  match v with
  | .list elements =>
      if o.dontsort then do
        let l ← loadRange o.desc (if fin ≥ start then elements else []) shorter start
        return (l, if fin ≥ start then (0, fin - start) else (start, fin))
      else do
        let l ← loadAll elements vectorlen
        return (l, start, fin)
  | .set elements => do
      let l ← loadAll elements vectorlen
      return (l, start, fin)
  | .zset ranked elements =>
      if o.dontsort then do
        let l ← loadRange o.desc ranked shorter start
        return (l, 0, wrap64 (fin - start))
      else do
        let l ← loadAll elements vectorlen
        return (l, start, fin)

section Model

variable {D : Type} (env : SortEnv D)

/-! ### The weights -/

/-- The object that an element is sorted by. -/
def weightOf (read : Bytes → Option (Value Collection)) (o : SortOptions) (obj : StringObject) : Option StringObject :=
  match o.sortby with
  | some pattern => lookupKeyByPattern read pattern obj
  | none => some obj

/-- One round of the loop that loads the scores: the entry, whether `errno` is `ERANGE`, and
    `int_convertion_error`. -/
def loadScore (read : Bytes → Option (Value Collection)) (o : SortOptions)
    (st : List (SortObject D) × Bool × Bool) (obj : StringObject) : List (SortObject D) × Bool × Bool :=
  match weightOf read o obj with
  | none => (st.1 ++ [⟨obj, env.zero, none⟩], st.2)
  | some byval =>
      if o.alpha then
        (st.1 ++ [⟨obj, env.zero, if o.sortby.isSome then some (getDecodedObject byval) else none⟩], st.2)
      else match byval with
        | .sds ptr =>
            let r := env.strtod ptr
            let erange := r.erange || st.2.1
            let bad := decide (ptr.getD r.endptr 0 ≠ 0) || erange || env.isnan r.value
            (st.1 ++ [⟨obj, r.value, none⟩], erange, bad || st.2.2)
        | .int ptr _ => (st.1 ++ [⟨obj, env.ofLong ptr.val, none⟩], st.2)

/-- The entries for the vector, from the `errno` that is found. -/
def loadScores (read : Bytes → Option (Value Collection)) (o : SortOptions) (erange : Bool)
    (vector : List StringObject) : List (SortObject D) × Bool × Bool :=
  if o.dontsort then (vector.map (fun obj => ⟨obj, env.zero, none⟩), erange, false)
  else vector.foldl (loadScore env read o) ([], erange, false)

/-! ### Sorting -/

/-- The sign of `memcmp`, then the difference of the lengths. -/
def compareBytes : Bytes → Bytes → Int
  | [], [] => 0
  | [], _ :: _ => -1
  | _ :: _, [] => 1
  | a :: s, b :: t => if a < b then -1 else if b < a then 1 else compareBytes s t

/-- `sortCompare`. -/
def sortCompare (o : SortOptions) (so1 so2 : SortObject D) : Int :=
  let text1 := getDecodedObject so1.obj
  let text2 := getDecodedObject so2.obj
  let compare := if o.storekey.isSome then compareBytes else env.strcoll
  let cmp :=
    if o.alpha = false then
      if env.gt so1.score so2.score then 1
      else if env.gt so2.score so1.score then -1
      else compareBytes text1 text2
    else if o.sortby.isSome then
      match so1.cmpobj, so2.cmpobj with
      | none, none => 0
      | none, some _ => -1
      | some _, none => 1
      | some c1, some c2 => compare c1 c2
    else compare text1 text2
  if o.desc then -cmp else cmp

/-- `pqsort` of the vector. -/
def pqsortVector {α : Type} (cmp : α → α → Int) (base : Nat) (v : List α) (start fin : Int) : Option (List α) :=
  match v with
  | [] => some []
  | x :: _ =>
      (pqsort cmp (v.length + 1) base (fun i => v.getD i x) v.length 16 start fin).map
        (fun m => (List.range v.length).map m)

/-- The vector sorted, as far as it is needed. -/
def sortVector (o : SortOptions) (v : List (SortObject D)) (start fin : Int) : Option (List (SortObject D)) :=
  if o.dontsort then some v
  else if o.sortby.isSome = true ∧ (start ≠ 0 ∨ fin ≠ (v.length : Int) - 1) then
    pqsortVector (sortCompare env o) env.vector v start fin
  else some (env.qsort (sortCompare env o) v)

/-! ### Output -/

/-- What is sent for an entry: itself, or what the `GET` patterns yield. -/
def sortElement (read : Bytes → Option (Value Collection)) (o : SortOptions) (x : SortObject D) : List (Option Bytes) :=
  if o.gets = [] then [some (getDecodedObject x.obj)]
  else o.gets.map (fun pattern => (lookupKeyByPattern read pattern x.obj).map getDecodedObject)

/-- The loops `for (j = start; j <= end; j++)`. -/
def sortElements (read : Bytes → Option (Value Collection)) (o : SortOptions) (v : List (SortObject D))
    (start fin : Int) : Except SortFault (List (Option Bytes)) :=
  if start ≤ fin then
    if start < 0 ∨ fin ≥ v.length then .error .outOfBounds
    else .ok (((v.drop start.toNat).take (fin - start + 1).toNat).flatMap (sortElement read o))
  else .ok []

/-- `outputlen`, an `unsigned int`. -/
def outputLength (o : SortOptions) (start fin : Int) : Nat :=
  ((if o.gets = [] then fin - start + 1 else o.gets.length * (fin - start + 1)) % 4294967296).toNat

/-- The reply, or the list that is stored. -/
def sortOutput (kenv : KeyEnv) (s : Server (Value Collection)) (d : DbId) (read : Bytes → Option (Value Collection))
    (o : SortOptions) (v : List (SortObject D)) (start fin : Int) :
    Except SortFault (Server (Value Collection) × SortReply) := do
  let outputlen := outputLength o start fin
  let elements ← sortElements read o v start fin
  match o.storekey with
  | none => return (s, .multibulk outputlen elements)
  | some storekey =>
      let sobj := Collection.list (elements.map (fun e => .sds (e.getD [])))
      let s ← (if outputlen ≠ 0 then (setKey kenv s d storekey (.other sobj)).mapError .server
        else if (dbDelete (s.dbs d) storekey).2 then
          (signalModifiedKey (s.setDb d (dbDelete (s.dbs d) storekey).1) d storekey).mapError .server
        else .ok (s.setDb d (dbDelete (s.dbs d) storekey).1))
      return (s, .int outputlen)

def scoreError : String := "ERR One or more scores can't be converted into double"

/-- `sortCommand` once the options are known; the last part of the result is whether `errno` is `ERANGE`. -/
def sortWith (kenv : KeyEnv) (s : Server (Value Collection)) (d : DbId) (v : Collection) (o : SortOptions)
    (erange : Bool) : Except SortFault (Server (Value Collection) × SortReply × Bool) := do
  let read := readValue kenv 0 (s.dbs d)
  let o := forceAlpha env.lua v o
  let range := sortRange o.limitStart o.limitCount (vectorLength v)
  let loaded ← loadVector o v range.1 range.2
  let scores := loadScores env read o erange loaded.1
  match sortVector env o scores.1 loaded.2.1 loaded.2.2 with
  | none => .error .endless
  | some vector =>
      if scores.2.2 then
        return (s, .error scoreError, scores.2.1)
      else do
        let r ← sortOutput kenv s d read o vector loaded.2.1 loaded.2.2
        return (r.1, r.2, scores.2.1)

/-- `sortCommand`. -/
def sortCommand (kenv : KeyEnv) (s : Server (Value Collection)) (d : DbId) (key : Bytes) (argv : List Bytes)
    (erange : Bool) : Except SortFault (Server (Value Collection) × SortReply × Bool) :=
  let run := fun v => match parseOptions env.clusterEnabled argv .start with
    | .error text => .ok (s, .error text, erange)
    | .ok o => sortWith env kenv s d v o erange
  match readValue kenv 0 (s.dbs d) key with
  | none => run (.list [])
  | some (.other v) => run v
  | some _ => .ok (s, .error "WRONGTYPE Operation against a key holding the wrong kind of value", erange)

end Model

end Redis.Sort
