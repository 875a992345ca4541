import Redis.Aof.RoundTrip
import Redis.Db.Database

namespace Redis.Aof

/-!
# AOF — the rewritten file

`rewriteAppendOnlyFile` (`aof.c`), without the difference that the parent sends meanwhile: for every
key a command that makes its value, in groups where the value has many items.

* `Item`, `Object` — the values by type and encoding, as their iterators see them;
* `rioWriteBulkString`, … — what is written for one argument (`rio.c`);
* `rewriteLoop` — the loop over the items, with `rewriteListObject` and the others made of it;
* `rewriteAppendOnlyFile` — the file;
* `groups`, `rewriteCommands` — the argument vectors;
* `rewriteAppendOnlyFile_eq` — the file is their text: every count that is announced is right.
-/

/-- A string object, or an entry of a ziplist: the text, or the number that it is encoded as. -/
inductive Item
  | str (s : Bytes)
  | int (v : Int)
  deriving DecidableEq, Repr

/-- A value by its type and encoding. -/
inductive Object (S : Type)
  | string (o : Item)
  /-- `OBJ_ENCODING_QUICKLIST`. -/
  | list (entries : List Item)
  | setIntset (contents : List Int)
  | setHt (elements : List Item)
  /-- An element and its score, and so on. -/
  | zsetZiplist (zl : List Item)
  /-- The dictionary of it. -/
  | zsetSkiplist (dict : List (Item × S))
  /-- A field and its value, and so on. -/
  | hashZiplist (zl : List Item)
  | hashHt (dict : List (Item × Item))

/-- The `double` of the C library. -/
structure Doubles (S : Type) where
  /-- `%.17g`. -/
  print : S → Bytes
  /-- `getDoubleFromObject`. -/
  parse : Bytes → Option S
  /-- `strtod`, as `zzlGetScore` calls it. -/
  strtod : Bytes → S
  /-- The conversion of a `long long`. -/
  ofInt : Int → S
  /-- The sum, unless it is not a number. -/
  add : S → S → Option S
  /-- `==`. -/
  eq : S → S → Bool

/-! ## One argument -/

/-- `rioWriteBulkCount`, whose `count` is an `int`. -/
def rioWriteBulkCount (c : UInt8) (count : Int) : Bytes := c :: (ll2string 127 (Int.bmod count (2 ^ 32)) ++ [13, 10])

/-- `rioWriteBulkString`. -/
def rioWriteBulkString (buf : Bytes) : Bytes := rioWriteBulkCount 36 buf.length ++ (buf ++ [13, 10])

/-- `rioWriteBulkLongLong`. -/
def rioWriteBulkLongLong (l : Int) : Bytes := rioWriteBulkString (ll2string 32 l)

/-- `rioWriteBulkObject`, and what the loops do for an entry of a ziplist. -/
def rioWriteBulkObject : Item → Bytes
  | .str s => rioWriteBulkString s
  | .int v => rioWriteBulkLongLong v

/-! ## One value -/

def AOF_REWRITE_ITEMS_PER_CMD : Nat := 64

/-- `"RPUSH"`. -/
def rpushName : Bytes := [82, 80, 85, 83, 72]

/-- `"SADD"`. -/
def saddName : Bytes := [83, 65, 68, 68]

/-- `"ZADD"`. -/
def zaddName : Bytes := [90, 65, 68, 68]

/-- `"HMSET"`. -/
def hmsetName : Bytes := [72, 77, 83, 69, 84]

section Model

variable {S : Type}

/-- The loop over the items of a value: a header in front of every group, then the item. -/
def rewriteLoop {α : Type} (header : Int → Bytes) (item : α → Bytes) : Nat → Int → List α → Bytes
  | _, _, [] => []
  | count, items, x :: xs =>
    let cmd_items := if (AOF_REWRITE_ITEMS_PER_CMD : Int) < items then (AOF_REWRITE_ITEMS_PER_CMD : Int) else items
    (if count = 0 then header cmd_items else [])
      ++ (item x ++ rewriteLoop header item (if count + 1 = AOF_REWRITE_ITEMS_PER_CMD then 0 else count + 1) (items - 1) xs)

/-- The header of a group, whose items are `width` arguments each. -/
def rewriteHeader (name key : Bytes) (width : Nat) (cmd_items : Int) : Bytes :=
  rioWriteBulkCount 42 (2 + cmd_items * width) ++ (rioWriteBulkString name ++ rioWriteBulkString key)

/-- `rewriteListObject`. -/
def rewriteListObject (key : Bytes) (entries : List Item) : Bytes :=
  rewriteLoop (rewriteHeader rpushName key 1) rioWriteBulkObject 0 entries.length entries

/-- `rewriteSetObject` of an intset. -/
def rewriteSetIntset (key : Bytes) (contents : List Int) : Bytes :=
  rewriteLoop (rewriteHeader saddName key 1) rioWriteBulkLongLong 0 contents.length contents

/-- `rewriteSetObject` of a dictionary. -/
def rewriteSetHt (key : Bytes) (elements : List Item) : Bytes :=
  rewriteLoop (rewriteHeader saddName key 1) rioWriteBulkObject 0 elements.length elements

/-- The entries of a ziplist in pairs. -/
def ziplistPairs : List Item → List (Item × Item)
  | e :: s :: zl => (e, s) :: ziplistPairs zl
  | _ => []

/-- `zzlGetScore`. -/
def zzlGetScore (d : Doubles S) : Item → S
  | .str s => d.strtod s
  | .int v => d.ofInt v

/-- `rewriteSortedSetObject` of elements with their scores. -/
def rewriteSortedSetObject (d : Doubles S) (key : Bytes) (pairs : List (Item × S)) : Bytes :=
  rewriteLoop (rewriteHeader zaddName key 2) (fun x => rioWriteBulkString (d.print x.2) ++ rioWriteBulkObject x.1) 0
    pairs.length pairs

/-- `rewriteHashObject` of fields with their values. -/
def rewriteHashObject (key : Bytes) (pairs : List (Item × Item)) : Bytes :=
  rewriteLoop (rewriteHeader hmsetName key 2) (fun x => rioWriteBulkObject x.1 ++ rioWriteBulkObject x.2) 0
    pairs.length pairs

/-- The elements of a sorted set that is a ziplist. -/
def zzlPairs (d : Doubles S) (zl : List Item) : List (Item × S) :=
  (ziplistPairs zl).map fun x => (x.1, zzlGetScore d x.2)

/-- The commands that make a value. -/
def rewriteObject (d : Doubles S) (key : Bytes) : Object S → Bytes
  -- `*3\r\n$3\r\nSET\r\n`
  | .string o => [42, 51, 13, 10, 36, 51, 13, 10] ++ setName ++ [13, 10] ++ (rioWriteBulkString key ++ rioWriteBulkObject o)
  | .list entries => rewriteListObject key entries
  | .setIntset contents => rewriteSetIntset key contents
  | .setHt elements => rewriteSetHt key elements
  | .zsetZiplist zl => rewriteSortedSetObject d key (zzlPairs d zl)
  | .zsetSkiplist dict => rewriteSortedSetObject d key dict
  | .hashZiplist zl => rewriteHashObject key (ziplistPairs zl)
  | .hashHt dict => rewriteHashObject key dict

/-! ## The file -/

/-- One turn of the loop over the keys. -/
def rewriteKey (d : Doubles S) (now : Int) (key : Bytes) (o : Object S) (expiretime : Int) : Bytes :=
  -- a key that is out of date is skipped
  if expiretime ≠ -1 ∧ expiretime < now then []
  else
    rewriteObject d key o
      -- `*3\r\n$9\r\nPEXPIREAT\r\n`
      ++ (if expiretime ≠ -1 then [42, 51, 13, 10, 36, 57, 13, 10] ++ pexpireatName ++ [13, 10]
          ++ (rioWriteBulkString key ++ rioWriteBulkLongLong expiretime)
        else [])

/-- One turn of the loop over the databases. -/
def rewriteDb (d : Doubles S) (now : Int) (j : Nat) (db : Database (Object S)) : Bytes :=
  if db.dict.length = 0 then []
  else
    -- `*2\r\n$6\r\nSELECT\r\n`
    [42, 50, 13, 10, 36, 54, 13, 10] ++ selectName ++ [13, 10] ++ (rioWriteBulkLongLong j
      ++ db.dict.flatMap fun e => rewriteKey d now e.1 e.2 (db.getExpire e.1))

/-- The loop over the databases, from the one with the index `j` on. -/
def rewriteDbs (d : Doubles S) (now : Int) : Nat → List (Database (Object S)) → Bytes
  | _, [] => []
  | j, db :: dbs => rewriteDb d now j db ++ rewriteDbs d now (j + 1) dbs

/-- `rewriteAppendOnlyFile`. -/
def rewriteAppendOnlyFile (d : Doubles S) (now : Int) (dbs : List (Database (Object S))) : Bytes :=
  rewriteDbs d now 0 dbs

/-! ## The same as argument vectors -/

/-- What an item stands for. -/
def Item.text : Item → Bytes
  | .str s => s
  | .int v => ll2string 32 v

/-- The groups of the loop. -/
def groups {α : Type} (xs : List α) : List (List α) :=
  match xs with
  | [] => []
  | x :: xs => (x :: xs.take 63) :: groups (xs.drop 63)
termination_by xs.length
decreasing_by simp only [List.length_drop, List.length_cons]; omega

/-- One command for each group. -/
def groupCommands {α : Type} (name key : Bytes) (args : α → List Bytes) (xs : List α) : List (List Bytes) :=
  (groups xs).map fun g => name :: key :: g.flatMap args

/-- The commands that make a value. -/
def objectCommands (d : Doubles S) (key : Bytes) : Object S → List (List Bytes)
  | .string o => [[setName, key, o.text]]
  | .list entries => groupCommands rpushName key (fun e => [e.text]) entries
  | .setIntset contents => groupCommands saddName key (fun v => [ll2string 32 v]) contents
  | .setHt elements => groupCommands saddName key (fun e => [e.text]) elements
  | .zsetZiplist zl => groupCommands zaddName key (fun x => [d.print x.2, x.1.text]) (zzlPairs d zl)
  | .zsetSkiplist dict => groupCommands zaddName key (fun x => [d.print x.2, x.1.text]) dict
  | .hashZiplist zl => groupCommands hmsetName key (fun x => [x.1.text, x.2.text]) (ziplistPairs zl)
  | .hashHt dict => groupCommands hmsetName key (fun x => [x.1.text, x.2.text]) dict

/-- The commands for a key. -/
def keyCommands (d : Doubles S) (now : Int) (key : Bytes) (o : Object S) (expiretime : Int) : List (List Bytes) :=
  if expiretime ≠ -1 ∧ expiretime < now then []
  else objectCommands d key o ++ (if expiretime ≠ -1 then [[pexpireatName, key, ll2string 32 expiretime]] else [])

/-- The commands for a database. -/
def dbCommands (d : Doubles S) (now : Int) (j : Nat) (db : Database (Object S)) : List (List Bytes) :=
  if db.dict.length = 0 then []
  else selectArgv j :: db.dict.flatMap fun e => keyCommands d now e.1 e.2 (db.getExpire e.1)

/-- The commands for the databases from the one with the index `j` on. -/
def rewriteCommands (d : Doubles S) (now : Int) : Nat → List (Database (Object S)) → List (List Bytes)
  | _, [] => []
  | j, db :: dbs => dbCommands d now j db ++ rewriteCommands d now (j + 1) dbs

end Model

/-! ## One argument is written -/

/-- An `int` that is not negative. -/
theorem rioWriteBulkCount_eq (c : UInt8) {n : Nat} (h : n < 2 ^ 31) :
    rioWriteBulkCount c n = c :: (ll2string 32 n ++ [13, 10]) := by
  have hmod : Int.bmod (n : Int) (2 ^ 32) = n := Int.bmod_eq_of_le (by omega) (by omega)
  rw [rioWriteBulkCount, hmod, ll2string_eq_of_le (by omega) (by omega) (by omega), ll2string_natCast (by omega),
    if_neg (by omega), Int.natAbs_natCast, List.nil_append]

theorem rioWriteBulkString_eq {s : Bytes} (h : s.length < 2 ^ 31) : rioWriteBulkString s = catBulk s := by
  rw [rioWriteBulkString, rioWriteBulkCount_eq 36 h, catBulk]
  simp

/-- The size of a string object, and of a number. -/
def Item.Ok : Item → Prop
  | .str s => s.length < 2 ^ 31
  | .int v => -2 ^ 63 ≤ v ∧ v < 2 ^ 63

theorem length_ll2string {v : Int} (hlo : -2 ^ 63 ≤ v) (hhi : v < 2 ^ 63) : (ll2string 32 v).length < 2 ^ 31 := by
  rw [ll2string_eq hlo hhi, List.length_append]
  have hlen : (decimal v.natAbs).length ≤ 19 := length_decimal_le (show v.natAbs < 10 ^ (18 + 1) by omega)
  have hsign : (if v < 0 then [45] else [] : Bytes).length ≤ 1 := by
    by_cases hv : v < 0 <;> simp [hv]
  omega

theorem Item.Ok.length {o : Item} (h : o.Ok) : o.text.length < 2 ^ 31 := by
  cases o with
  | str s => exact h
  | int v => exact length_ll2string h.1 h.2

theorem rioWriteBulkLongLong_eq {v : Int} (hlo : -2 ^ 63 ≤ v) (hhi : v < 2 ^ 63) :
    rioWriteBulkLongLong v = catBulk (ll2string 32 v) :=
  rioWriteBulkString_eq (length_ll2string hlo hhi)

theorem rioWriteBulkObject_eq {o : Item} (h : o.Ok) : rioWriteBulkObject o = catBulk o.text := by
  cases o with
  | str s => exact rioWriteBulkString_eq h
  | int v => exact rioWriteBulkLongLong_eq h.1 h.2

/-! ## The groups are written -/

section Groups

variable {α : Type} {header : Int → Bytes} {item : α → Bytes}

/-- In the middle of a group: the rest of it, then the other ones. -/
theorem rewriteLoop_group (xs : List α) : ∀ {count : Nat} {items : Int}, 0 < count → count < 64 →
    rewriteLoop header item count items xs
      = (xs.take (64 - count)).flatMap item ++ rewriteLoop header item 0 (items - (64 - count : Nat)) (xs.drop (64 - count)) := by
  induction xs with
  | nil => simp [rewriteLoop]
  | cons x xs ih =>
    intro count items hpos hlt
    obtain ⟨k, hk⟩ : ∃ k, 64 - count = k + 1 := ⟨63 - count, by omega⟩
    rw [rewriteLoop, if_neg (by omega), List.nil_append, hk, List.take_succ_cons, List.drop_succ_cons,
      List.flatMap_cons, List.append_assoc]
    by_cases hlast : count + 1 = 64
    · have hzero : k = 0 := by omega
      simp [hzero, hlast, AOF_REWRITE_ITEMS_PER_CMD]
    · rw [AOF_REWRITE_ITEMS_PER_CMD, if_neg hlast, ih (by omega) (by omega), show 64 - (count + 1) = k by omega]
      congr 3
      push_cast
      omega

/-- A group and its header, then the other ones. -/
theorem rewriteLoop_cons (x : α) (xs : List α) :
    rewriteLoop header item 0 (x :: xs).length (x :: xs)
      = header (x :: xs.take 63).length ++ ((x :: xs.take 63).flatMap item
        ++ rewriteLoop header item 0 (xs.drop 63).length (xs.drop 63)) := by
  have hitems : (if (AOF_REWRITE_ITEMS_PER_CMD : Int) < (x :: xs).length then (AOF_REWRITE_ITEMS_PER_CMD : Int)
      else ((x :: xs).length : Int)) = ((x :: xs.take 63).length : Int) := by
    simp only [AOF_REWRITE_ITEMS_PER_CMD, List.length_cons, List.length_take]
    split_ifs <;> omega
  rw [rewriteLoop, if_pos rfl, hitems]
  simp only [AOF_REWRITE_ITEMS_PER_CMD, Nat.reduceAdd, Nat.reduceEqDiff, if_false]
  rw [rewriteLoop_group xs (by decide) (by decide), List.flatMap_cons, List.append_assoc]
  congr 3
  by_cases hmore : xs.length ≤ 63
  · -- this is the last group
    simp [List.drop_eq_nil_of_le hmore, rewriteLoop]
  · congr 1
    simp only [List.length_cons, List.length_drop]
    omega

/-- What the loop writes is the text of one command for each group. -/
theorem rewriteLoop_eq {name key : Bytes} {args : α → List Bytes} {width : Nat} (hname : name.length < 2 ^ 31)
    (hkey : key.length < 2 ^ 31) (hwidth : ∀ x, (args x).length = width) (hsmall : width ≤ 2) :
    ∀ (xs : List α), (∀ x ∈ xs, item x = (args x).flatMap catBulk) →
      rewriteLoop (rewriteHeader name key width) item 0 xs.length xs = text (groupCommands name key args xs) := by
  intro xs
  induction xs using groups.induct with
  | case1 => simp [rewriteLoop, groupCommands, groups, text]
  | case2 x xs ih =>
    intro hitem
    have hrest := ih fun y hy => hitem y (List.mem_cons_of_mem _ (List.mem_of_mem_drop hy))
    have hgroup : ∀ g : List α, (g.flatMap args).length = g.length * width := by
      intro g
      induction g with
      | nil => simp
      | cons y g ih => rw [List.flatMap_cons, List.length_append, hwidth, ih, List.length_cons, Nat.succ_mul, Nat.add_comm]
    have hwrite : (x :: xs.take 63).flatMap item = ((x :: xs.take 63).flatMap args).flatMap catBulk := by
      rw [List.flatMap_assoc]
      refine List.flatMap_congr fun y hy => hitem y ?_
      rcases List.mem_cons.mp hy with rfl | hy
      · exact List.mem_cons_self
      · exact List.mem_cons_of_mem _ (List.mem_of_mem_take hy)
    have hcount : ((2 : Int) + ((x :: xs.take 63).length : Int) * width)
        = ((name :: key :: (x :: xs.take 63).flatMap args).length : Nat) := by
      simp only [List.length_cons, hgroup]
      push_cast
      ring
    have hbound : (name :: key :: (x :: xs.take 63).flatMap args).length < 2 ^ 31 := by
      rw [List.length_cons, List.length_cons, hgroup]
      have hle : (x :: xs.take 63).length * width ≤ 64 * 2 :=
        Nat.mul_le_mul (by simp only [List.length_cons, List.length_take]; omega) hsmall
      omega
    rw [rewriteLoop_cons, hrest, rewriteHeader, hcount, rioWriteBulkCount_eq 42 hbound, rioWriteBulkString_eq hname,
      rioWriteBulkString_eq hkey, hwrite]
    simp only [groupCommands, groups, List.map_cons, text, List.flatMap_cons, catAppendOnlyGenericCommand,
      List.cons_append, List.nil_append, List.append_assoc]

end Groups

/-! ## The file is written -/

section File

variable {S : Type}

/-- The values of the keys: none is empty, no element and no field is there twice. -/
def Object.WellFormed : Object S → Prop
  | .string o => o.Ok
  | .list entries => entries ≠ [] ∧ ∀ e ∈ entries, e.Ok
  | .setIntset contents => contents ≠ [] ∧ contents.Nodup ∧ ∀ v ∈ contents, (Item.int v).Ok
  | .setHt elements => elements ≠ [] ∧ (elements.map Item.text).Nodup ∧ ∀ e ∈ elements, e.Ok
  | .zsetZiplist zl =>
    zl ≠ [] ∧ 2 ∣ zl.length ∧ ((ziplistPairs zl).map fun x => x.1.text).Nodup ∧ ∀ e ∈ zl, e.Ok
  | .zsetSkiplist dict => dict ≠ [] ∧ (dict.map fun x => x.1.text).Nodup ∧ ∀ x ∈ dict, x.1.Ok
  | .hashZiplist zl =>
    zl ≠ [] ∧ 2 ∣ zl.length ∧ ((ziplistPairs zl).map fun x => x.1.text).Nodup ∧ ∀ e ∈ zl, e.Ok
  | .hashHt dict => dict ≠ [] ∧ (dict.map fun x => x.1.text).Nodup ∧ ∀ x ∈ dict, x.1.Ok ∧ x.2.Ok

/-- The option words of `ZADD`. -/
def isZaddOption (a : Bytes) : Bool :=
  -- nx, xx, ch, incr
  strcaseeq a [110, 120] || strcaseeq a [120, 120] || strcaseeq a [99, 104] || strcaseeq a [105, 110, 99, 114]

/-- A score is read back as it was printed, and no option is a number. -/
structure Doubles.RoundTrips (d : Doubles S) : Prop where
  parse : ∀ s, d.parse (d.print s) = some s
  /-- `sizeof(dbuf)`. -/
  length : ∀ s, (d.print s).length < 128
  option : ∀ a, isZaddOption a = true → d.parse a = none

theorem mem_ziplistPairs {zl : List Item} {x : Item × Item} (h : x ∈ ziplistPairs zl) : x.1 ∈ zl ∧ x.2 ∈ zl := by
  induction zl using ziplistPairs.induct with
  | case1 e s zl ih =>
    rw [ziplistPairs, List.mem_cons] at h
    rcases h with rfl | h
    · simp
    · exact ⟨List.mem_cons_of_mem _ (List.mem_cons_of_mem _ (ih h).1),
        List.mem_cons_of_mem _ (List.mem_cons_of_mem _ (ih h).2)⟩
  | case2 zl hzl => simp [ziplistPairs] at h

variable {d : Doubles S} {key : Bytes}

theorem rewriteItems_eq {name : Bytes} (hname : name.length < 2 ^ 31) (hkey : key.length < 2 ^ 31)
    {entries : List Item} (h : ∀ e ∈ entries, e.Ok) :
    rewriteLoop (rewriteHeader name key 1) rioWriteBulkObject 0 entries.length entries
      = text (groupCommands name key (fun e => [e.text]) entries) := by
  apply rewriteLoop_eq hname hkey
  · intro x
    rfl
  · omega
  · intro e he
    simp [rioWriteBulkObject_eq (h e he)]

theorem rewriteSortedSetObject_eq (hd : d.RoundTrips) (hkey : key.length < 2 ^ 31) {pairs : List (Item × S)}
    (h : ∀ x ∈ pairs, x.1.Ok) : rewriteSortedSetObject d key pairs
      = text (groupCommands zaddName key (fun x => [d.print x.2, x.1.text]) pairs) := by
  rw [rewriteSortedSetObject]
  apply rewriteLoop_eq (by simp [zaddName]) hkey
  · intro x
    rfl
  · omega
  · intro x hx
    have hlen := hd.length x.2
    simp [rioWriteBulkObject_eq (h x hx), rioWriteBulkString_eq (show (d.print x.2).length < 2 ^ 31 by omega)]

theorem rewriteHashObject_eq (hkey : key.length < 2 ^ 31) {pairs : List (Item × Item)}
    (h : ∀ x ∈ pairs, x.1.Ok ∧ x.2.Ok) : rewriteHashObject key pairs
      = text (groupCommands hmsetName key (fun x => [x.1.text, x.2.text]) pairs) := by
  rw [rewriteHashObject]
  apply rewriteLoop_eq (by simp [hmsetName]) hkey
  · intro x
    rfl
  · omega
  · intro x hx
    simp [rioWriteBulkObject_eq (h x hx).1, rioWriteBulkObject_eq (h x hx).2]

/-- What is written for a value. -/
theorem rewriteObject_eq (hd : d.RoundTrips) (hkey : key.length < 2 ^ 31) {o : Object S} (h : o.WellFormed) :
    rewriteObject d key o = text (objectCommands d key o) := by
  cases o with
  | string o =>
    have hbulk : catBulk setName = [36, 51, 13, 10] ++ setName ++ [13, 10] := rfl
    have hthree : ll2string 32 (([setName, key, o.text] : List Bytes).length : Nat) = [51] := rfl
    rw [rewriteObject, rioWriteBulkString_eq hkey, rioWriteBulkObject_eq h]
    simp only [objectCommands, text, catAppendOnlyGenericCommand, hthree, List.flatMap_cons, List.flatMap_nil, hbulk,
      List.append_assoc, List.append_nil, List.cons_append, List.nil_append]
  | list entries => exact rewriteItems_eq (by simp [rpushName]) hkey h.2
  | setIntset contents =>
    rw [rewriteObject, rewriteSetIntset]
    apply rewriteLoop_eq (by simp [saddName]) hkey
    · intro v
      rfl
    · omega
    · intro v hv
      simp [rioWriteBulkLongLong_eq (h.2.2 v hv).1 (h.2.2 v hv).2]
  | setHt elements => exact rewriteItems_eq (by simp [saddName]) hkey h.2.2
  | zsetZiplist zl =>
    refine rewriteSortedSetObject_eq hd hkey fun x hx => ?_
    obtain ⟨y, hy, rfl⟩ := List.mem_map.mp hx
    exact h.2.2.2 y.1 (mem_ziplistPairs hy).1
  | zsetSkiplist dict => exact rewriteSortedSetObject_eq hd hkey h.2.2
  | hashZiplist zl =>
    exact rewriteHashObject_eq hkey fun x hx => ⟨h.2.2.2 _ (mem_ziplistPairs hx).1, h.2.2.2 _ (mem_ziplistPairs hx).2⟩
  | hashHt dict => exact rewriteHashObject_eq hkey h.2.2

/-- What is written for a key. -/
theorem rewriteKey_eq (hd : d.RoundTrips) (hkey : key.length < 2 ^ 31) {o : Object S} (h : o.WellFormed)
    (now : Int) {expiretime : Int} (htime : -2 ^ 63 ≤ expiretime ∧ expiretime < 2 ^ 63) :
    rewriteKey d now key o expiretime = text (keyCommands d now key o expiretime) := by
  rw [rewriteKey, keyCommands]
  by_cases hskip : expiretime ≠ -1 ∧ expiretime < now
  · rw [if_pos hskip, if_pos hskip]
    rfl
  · rw [if_neg hskip, if_neg hskip, rewriteObject_eq hd hkey h, text_append]
    by_cases hnone : expiretime ≠ -1
    · have hcount : catAppendOnlyGenericCommand [pexpireatName, key, ll2string 32 expiretime]
          = [42, 51, 13, 10] ++ [pexpireatName, key, ll2string 32 expiretime].flatMap catBulk := rfl
      have hbulk : catBulk pexpireatName = [36, 57, 13, 10] ++ pexpireatName ++ [13, 10] := rfl
      rw [if_pos hnone, if_pos hnone, rioWriteBulkString_eq hkey, rioWriteBulkLongLong_eq htime.1 htime.2]
      simp [text, hcount, hbulk]
    · rw [if_neg hnone, if_neg hnone]
      rfl

/-- The databases that can be written: the keys fit a string, the values are well-formed. -/
structure Writeable (db : Database (Object S)) : Prop where
  keys : db.WellFormed
  key : ∀ e ∈ db.dict, e.1.length < 2 ^ 31
  value : ∀ e ∈ db.dict, e.2.WellFormed

/-- The file is the text of the commands. -/
theorem rewriteAppendOnlyFile_eq (hd : d.RoundTrips) (now : Int) {dbs : List (Database (Object S))} :
    ∀ {j : Nat}, (∀ db ∈ dbs, Writeable db) → j + dbs.length ≤ 2 ^ 31 →
      rewriteDbs d now j dbs = text (rewriteCommands d now j dbs) := by
  induction dbs with
  | nil => exact fun _ _ => rfl
  | cons db dbs ih =>
    intro j h hj
    rw [List.length_cons] at hj
    have hdb := h db List.mem_cons_self
    have hkeys : (db.dict.flatMap fun e => rewriteKey d now e.1 e.2 (db.getExpire e.1))
        = text (db.dict.flatMap fun e => keyCommands d now e.1 e.2 (db.getExpire e.1)) := by
      rw [text, List.flatMap_assoc]
      exact List.flatMap_congr fun e he => rewriteKey_eq hd (hdb.key e he) (hdb.value e he) now (hdb.keys.getExpire e.1)
    rw [rewriteDbs, rewriteCommands, text_append, ih (fun x hx => h x (List.mem_cons_of_mem _ hx)) (by omega)]
    congr 1
    rw [rewriteDb, dbCommands]
    by_cases hempty : db.dict.length = 0
    · rw [if_pos hempty, if_pos hempty]
      rfl
    · have hselect : catAppendOnlyGenericCommand (selectArgv j)
          = [42, 50, 13, 10] ++ (catBulk selectName ++ catBulk (formatLd j)) := by
        rw [catAppendOnlyGenericCommand, selectArgv]
        have htwo : ll2string 32 (([selectName, formatLd j] : List Bytes).length : Nat) = [50] := rfl
        rw [htwo]
        simp
      have hnum : rioWriteBulkLongLong j = catBulk (formatLd j) := by
        rw [rioWriteBulkLongLong_eq (by omega) (by omega), ll2string_natCast (by omega), formatLd_natCast]
      have hbulk : catBulk selectName = [36, 54, 13, 10] ++ selectName ++ [13, 10] := rfl
      rw [if_neg hempty, if_neg hempty, text_cons, hselect, hnum, hkeys, hbulk]
      simp

end File

end Redis.Aof
