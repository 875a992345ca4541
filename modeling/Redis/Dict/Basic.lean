import Redis.Lib.Outcome
import Mathlib.Data.List.Perm.Basic
import Mathlib.Data.Nat.Bitwise

namespace Redis

/-!
# The hash table of `dict.c`

A `Dict` owns two chained tables.  While `rehashidx` is not `-1` the buckets of `ht[0]`
are moved one by one to `ht[1]`; every operation first moves a bucket, additions go to
`ht[1]` and lookups search both tables.

* `DictEntry`, `DictHt`, `Dict` — the C structures.  A bucket is the list of its chain;
  a `NULL` table is the empty list of buckets (an allocated one has at least four).
* `dictRehash` — the migration loop with its `n*10` bound on empty buckets.
* `dictExpand`, `dictResize`, `dictExpandIfNeeded` — the three ways to start a rehash.
* `dictAddRaw` … `dictGenericDelete` — the operations on keys.

Memory errors are explicit: a program returns a `DictFault` where the C code would fail
its assertion, read outside a table or dereference `NULL`.
-/

/-- `dictEntry` without its `next` pointer.  The value is `none` between `dictAddRaw`
    and the caller's assignment: the union is not initialised there. -/
structure DictEntry (K V : Type) where
  key : K
  v : Option V
  deriving DecidableEq, Repr

/-- `dictht`: buckets, their number, the index mask and the number of entries. -/
structure DictHt (K V : Type) where
  table : List (List (DictEntry K V))
  size : Nat
  sizemask : Nat
  used : Nat
  deriving DecidableEq, Repr

/-- `dict`: the two tables, the rehash position (`-1` when idle) and the number of safe
    iterators. -/
structure Dict (K V : Type) where
  ht0 : DictHt K V
  ht1 : DictHt K V
  rehashidx : Int
  iterators : Nat
  deriving DecidableEq, Repr

/-- What the C code would do instead of returning. -/
inductive DictFault
  /-- `assert(d->ht[0].size > (unsigned long)d->rehashidx)` fails in `dictRehash`. -/
  | assertRehashidx
  /-- The scan for a non-empty bucket reads past the end of `ht[0].table`. -/
  | tableOverrun
  /-- The loop of `dictRehash` runs longer than the table is. -/
  | rehashFuel
  /-- `dictReplace` dereferences the `NULL` returned by `dictFind`. -/
  | nullEntry
  /-- A table of `2^31` buckets or more is requested: indices no longer fit the `int`
      of `dictAddRaw`, and the model stops there. -/
  | tooManyBuckets
  /-- The inner loop of `dictScan` runs longer than the larger table is. -/
  | scanFuel
  /-- The loop of `dictNext` runs longer than the two tables are. -/
  | iterFuel
  /-- An iterator follows a pointer to an entry that has been unlinked. -/
  | danglingEntry
  deriving DecidableEq, Repr

/-- `DICT_OK` and `DICT_ERR`. -/
inductive DictStatus
  | ok
  | err
  deriving DecidableEq, Repr

/-- `dictEntry *`: the table it lives in (0 or 1), its bucket, and its key, which names
    the entry inside the chain. -/
structure DictEntryRef (K : Type) where
  table : Nat
  index : Nat
  key : K
  deriving DecidableEq, Repr

/-- `DICT_HT_INITIAL_SIZE`. -/
def DICT_HT_INITIAL_SIZE : Nat := 4

/-- `dict_force_resize_ratio`. -/
def dict_force_resize_ratio : Nat := 5

/-- `LONG_MAX` for a 64-bit `long`. -/
def LONG_MAX : Nat := 2 ^ 63 - 1

variable {K V : Type}

namespace DictHt

/-- `_dictReset`: the table of no buckets. -/
def reset : DictHt K V := { table := [], size := 0, sizemask := 0, used := 0 }

/-- The table `dictExpand` allocates: `n` buckets set to `NULL`. -/
def alloc (n : Nat) : DictHt K V :=
  { table := List.replicate n [], size := n, sizemask := n - 1, used := 0 }

/-- The chain at index `i`. -/
def bucket (t : DictHt K V) (i : Nat) : List (DictEntry K V) := t.table.getD i []

/-- Replace the chain at index `i`. -/
def setBucket (t : DictHt K V) (i : Nat) (b : List (DictEntry K V)) : DictHt K V :=
  { t with table := t.table.set i b }

/-- `e->next = ht->table[i]; ht->table[i] = e; ht->used++`. -/
def push (t : DictHt K V) (i : Nat) (e : DictEntry K V) : DictHt K V :=
  { t with table := t.table.set i (e :: t.bucket i), used := t.used + 1 }

/-- All entries, bucket by bucket. -/
def entries (t : DictHt K V) : List (DictEntry K V) := t.table.flatten

end DictHt

namespace Dict

/-- `dictIsRehashing`. -/
def isRehashing (d : Dict K V) : Bool := d.rehashidx != -1

/-- `dictSize`. -/
def dictSize (d : Dict K V) : Nat := d.ht0.used + d.ht1.used

/-- All entries of the two tables. -/
def entries (d : Dict K V) : List (DictEntry K V) := d.ht0.entries ++ d.ht1.entries

/-- All keys of the two tables. -/
def keys (d : Dict K V) : List K := d.entries.map DictEntry.key

/-- `ht[i]`. -/
def ht (d : Dict K V) (i : Nat) : DictHt K V := if i = 0 then d.ht0 else d.ht1

/-- Write back `ht[i]`. -/
def setHt (d : Dict K V) (i : Nat) (t : DictHt K V) : Dict K V :=
  if i = 0 then { d with ht0 := t } else { d with ht1 := t }

end Dict

/-- `dictCreate`. -/
def dictCreate : Dict K V :=
  { ht0 := .reset, ht1 := .reset, rehashidx := -1, iterators := 0 }

/-! ### Starting a rehash -/

/-- The doubling loop of `_dictNextPower`. -/
def dictNextPowerLoop (size : Nat) : Nat → Nat → Nat
  | 0, i        => i
  | fuel + 1, i => if size ≤ i then i else dictNextPowerLoop size fuel (i * 2)

/-- `_dictNextPower`.  Below `LONG_MAX` sixty-one doublings of the initial size suffice
    (`le_dictNextPower`). -/
def dictNextPower (size : Nat) : Nat :=
  if LONG_MAX ≤ size then LONG_MAX else dictNextPowerLoop size 61 DICT_HT_INITIAL_SIZE

/-- `dictExpand`. -/
def dictExpand (d : Dict K V) (size : Nat) : Except DictFault (DictStatus × Dict K V) :=
  let realsize := dictNextPower size
  if d.isRehashing ∨ size < d.ht0.used then
    .ok (.err, d)
  else if realsize = d.ht0.size then
    .ok (.err, d)
  else if 2 ^ 31 ≤ realsize then
    .error .tooManyBuckets
  else
    -- first initialisation: not really a rehash, the table just accepts keys
    if d.ht0.table.isEmpty then .ok (.ok, { d with ht0 := .alloc realsize })
    else .ok (.ok, { d with ht1 := .alloc realsize, rehashidx := 0 })

/-- `dictResize`.  `minimal` is an `int`: the count is reduced to 32 bits first. -/
def dictResize (dict_can_resize : Bool) (d : Dict K V) :
    Except DictFault (DictStatus × Dict K V) :=
  if !dict_can_resize || d.isRehashing then
    .ok (.err, d)
  else
    let minimal := Int.bmod d.ht0.used (2 ^ 32)
    let minimal := if minimal < DICT_HT_INITIAL_SIZE then (DICT_HT_INITIAL_SIZE : Int) else minimal
    dictExpand d minimal.toNat

/-- `_dictExpandIfNeeded`. -/
def dictExpandIfNeeded (dict_can_resize : Bool) (d : Dict K V) :
    Except DictFault (DictStatus × Dict K V) :=
  if d.isRehashing then
    .ok (.ok, d)
  else if d.ht0.size = 0 then
    dictExpand d DICT_HT_INITIAL_SIZE
  else if d.ht0.size ≤ d.ht0.used ∧
      (dict_can_resize ∨ dict_force_resize_ratio < d.ht0.used / d.ht0.size) then
    dictExpand d (d.ht0.used * 2)
  else
    .ok (.ok, d)

/-! ### Incremental rehashing -/

section Hash

variable (hash : K → BitVec 32)

/-- `dictHashKey(d, key) & ht.sizemask`. -/
def DictHt.index (t : DictHt K V) (key : K) : Nat := (hash key).toNat &&& t.sizemask

/-- The outcome of the scan for the next non-empty bucket. -/
inductive DictSkip
  /-- `table[rehashidx]` is not `NULL`. -/
  | found (rehashidx : Int) (empty_visits : Int)
  /-- `--empty_visits == 0`: `dictRehash` returns 1. -/
  | gaveUp (rehashidx : Int)
  deriving DecidableEq, Repr

/-- `while(d->ht[0].table[d->rehashidx] == NULL) { rehashidx++; if (--empty_visits == 0)
    return 1; }`, run on the buckets from `rehashidx` on. -/
def dictSkipEmpty : List (List (DictEntry K V)) → Int → Int → Except DictFault DictSkip
  | [], _, _ => .error .tableOverrun
  | [] :: rest, rehashidx, empty_visits =>
      if empty_visits - 1 = 0 then .ok (.gaveUp (rehashidx + 1))
      else dictSkipEmpty rest (rehashidx + 1) (empty_visits - 1)
  | (_ :: _) :: _, rehashidx, empty_visits => .ok (.found rehashidx empty_visits)

/-- `while(de) { ... }`: push every entry of the chain on its bucket of `ht[1]`. -/
def dictMoveChain : List (DictEntry K V) → DictHt K V → DictHt K V → DictHt K V × DictHt K V
  | [], t0, t1 => (t0, t1)
  | de :: nextde, t0, t1 =>
      dictMoveChain nextde { t0 with used := t0.used - 1 } (t1.push (t1.index hash de.key) de)

/-- Move the bucket at `rehashidx`, clear it and advance. -/
def dictMoveBucket (d : Dict K V) : Dict K V :=
  let i := d.rehashidx.toNat
  let (t0, t1) := dictMoveChain hash (d.ht0.bucket i) d.ht0 d.ht1
  { d with ht0 := t0.setBucket i [], ht1 := t1, rehashidx := d.rehashidx + 1 }

/-- `while(n-- && d->ht[0].used != 0) { ... }`.  The flag tells an early `return 1`. -/
def dictRehashLoop : Nat → Int → Int → Dict K V → Except DictFault (Bool × Dict K V)
  | 0, _, _, _ => .error .rehashFuel
  | fuel + 1, n, empty_visits, d =>
      if n = 0 ∨ d.ht0.used = 0 then
        .ok (false, d)
      else if (d.ht0.size : Int) ≤ d.rehashidx then
        .error .assertRehashidx
      else do
        match ← dictSkipEmpty (d.ht0.table.drop d.rehashidx.toNat) d.rehashidx empty_visits with
        | .gaveUp rehashidx => return (true, { d with rehashidx := rehashidx })
        | .found rehashidx empty_visits =>
            dictRehashLoop fuel (n - 1) empty_visits
              (dictMoveBucket hash { d with rehashidx := rehashidx })

/-- `dictRehash`: the result tells whether there are still keys to move.  Each round of
    the loop moves `rehashidx`, so `ht[0].size + 1` rounds are enough. -/
def dictRehash (d : Dict K V) (n : Int) : Except DictFault (Bool × Dict K V) :=
  if !d.isRehashing then
    .ok (false, d)
  else do
    let (stopped, d) ← dictRehashLoop hash (d.ht0.size + 1) n (n * 10) d
    if stopped then
      return (true, d)
    else if d.ht0.used = 0 then
      return (false, { d with ht0 := d.ht1, ht1 := .reset, rehashidx := -1 })
    else
      return (true, d)

/-- `_dictRehashStep`: nothing moves while a safe iterator is running. -/
def dictRehashStep (d : Dict K V) : Except DictFault (Dict K V) :=
  if d.iterators = 0 then do
    let (_, d) ← dictRehash hash d 1
    return d
  else
    .ok d

/-- `if (dictIsRehashing(d)) _dictRehashStep(d);`, the first line of the operations. -/
def dictRehashStepIfNeeded (d : Dict K V) : Except DictFault (Dict K V) :=
  if d.isRehashing then dictRehashStep hash d else .ok d

/-! ### Operations on keys -/

variable [DecidableEq K]

/-- Walk a chain comparing keys. -/
def chainHas (chain : List (DictEntry K V)) (key : K) : Bool :=
  chain.any (fun e => e.key = key)

/-- `_dictKeyIndex`: `none` is the result `-1`. -/
def dictKeyIndex (dict_can_resize : Bool) (d : Dict K V) (key : K) :
    Except DictFault (Option Nat × Dict K V) := do
  let (status, d) ← dictExpandIfNeeded dict_can_resize d
  if status = .err then
    return (none, d)
  let idx := d.ht0.index hash key
  if chainHas (d.ht0.bucket idx) key then
    return (none, d)
  else if !d.isRehashing then
    return (some idx, d)
  else
    let idx := d.ht1.index hash key
    if chainHas (d.ht1.bucket idx) key then
      return (none, d)
    else
      return (some idx, d)

/-- `dictAddRaw`: `none` is `NULL`, the key already exists. -/
def dictAddRaw (dict_can_resize : Bool) (d : Dict K V) (key : K) :
    Except DictFault (Option (DictEntryRef K) × Dict K V) := do
  let d ← dictRehashStepIfNeeded hash d
  let (index, d) ← dictKeyIndex hash dict_can_resize d key
  match index with
  | none => return (none, d)
  | some index =>
      let table := if d.isRehashing then 1 else 0
      let d := d.setHt table ((d.ht table).push index { key := key, v := none })
      return (some { table := table, index := index, key := key }, d)

/-- `dictSetVal` through an entry pointer. -/
def dictSetVal (d : Dict K V) (entry : DictEntryRef K) (val : V) : Dict K V :=
  let t := d.ht entry.table
  let chain := (t.bucket entry.index).map
    (fun e => if e.key = entry.key then { e with v := some val } else e)
  d.setHt entry.table (t.setBucket entry.index chain)

/-- `dictGetVal` through an entry pointer. -/
def dictGetVal (d : Dict K V) (entry : DictEntryRef K) : Option V :=
  (((d.ht entry.table).bucket entry.index).find? (fun e => e.key = entry.key)).bind DictEntry.v

/-- `dictAdd`. -/
def dictAdd (dict_can_resize : Bool) (d : Dict K V) (key : K) (val : V) :
    Except DictFault (DictStatus × Dict K V) := do
  let (entry, d) ← dictAddRaw hash dict_can_resize d key
  match entry with
  | none => return (.err, d)
  | some entry => return (.ok, dictSetVal d entry val)

/-- `dictFind`: `none` is `NULL`.  The lookup itself may move a bucket. -/
def dictFind (d : Dict K V) (key : K) :
    Except DictFault (Option (DictEntryRef K) × Dict K V) := do
  if d.ht0.used + d.ht1.used = 0 then
    return (none, d)
  let d ← dictRehashStepIfNeeded hash d
  let idx := d.ht0.index hash key
  if chainHas (d.ht0.bucket idx) key then
    return (some { table := 0, index := idx, key := key }, d)
  else if !d.isRehashing then
    return (none, d)
  else
    let idx := d.ht1.index hash key
    if chainHas (d.ht1.bucket idx) key then
      return (some { table := 1, index := idx, key := key }, d)
    else
      return (none, d)

/-- `dictReplace`: the result is 1 (`true`) when the key was added. -/
def dictReplace (dict_can_resize : Bool) (d : Dict K V) (key : K) (val : V) :
    Except DictFault (Bool × Dict K V) := do
  let (status, d) ← dictAdd hash dict_can_resize d key val
  if status = .ok then
    return (true, d)
  let (entry, d) ← dictFind hash d key
  match entry with
  | none => .error .nullEntry
  | some entry => return (false, dictSetVal d entry val)

/-- `dictReplaceRaw`: the entry of the key, added when missing. -/
def dictReplaceRaw (dict_can_resize : Bool) (d : Dict K V) (key : K) :
    Except DictFault (Option (DictEntryRef K) × Dict K V) := do
  let (entry, d) ← dictFind hash d key
  match entry with
  | some entry => return (some entry, d)
  | none => dictAddRaw hash dict_can_resize d key

/-- Unlink the entry of `key` from `ht[table]` if its chain holds it. -/
def dictUnlink (d : Dict K V) (table : Nat) (key : K) : Option (Dict K V) :=
  let t := d.ht table
  let idx := t.index hash key
  if chainHas (t.bucket idx) key then
    let t := t.setBucket idx ((t.bucket idx).eraseP (fun e => e.key = key))
    some (d.setHt table { t with used := t.used - 1 })
  else
    none

/-- `dictGenericDelete` (the `nofree` argument only tells who frees key and value). -/
def dictGenericDelete (d : Dict K V) (key : K) : Except DictFault (DictStatus × Dict K V) := do
  if d.ht0.size = 0 then
    return (.err, d)
  let d ← dictRehashStepIfNeeded hash d
  match dictUnlink hash d 0 key with
  | some d => return (.ok, d)
  | none =>
      if !d.isRehashing then
        return (.err, d)
      else match dictUnlink hash d 1 key with
        | some d => return (.ok, d)
        | none => return (.err, d)

/-- `dictDelete`. -/
def dictDelete (d : Dict K V) (key : K) : Except DictFault (DictStatus × Dict K V) :=
  dictGenericDelete hash d key

end Hash

end Redis
