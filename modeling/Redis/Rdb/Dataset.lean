import Redis.Rdb.Rio
import Redis.Db.Database
import Redis.Db.Keyspace
import Redis.Libc

namespace Redis.Rdb

open Buffer

/-!
# RDB — the dataset

`rdbSaveRio` and `rdbLoad` (`rdb.c`).

* `Objects` — the encoding of one string and of one value;
* `rdbSaveKeyValuePair`, `rdbSaveRio` — what is written;
* `rdbLoadOpcode`, `rdbLoadLoop`, `rdbLoad` — how it is read;
* `Advances` — some bytes take the loop from one dataset to another, one lemma for each opcode;
* `rdb_roundtrip` — what a saved dataset is when it was loaded.

The dictionaries have no room to be expanded here, so the sizes that go with a database are read and
dropped.
-/

/-! ## One string, one value -/

/-- The object-level encoding.  A loader says how many bytes it has read. -/
structure Objects (V : Type) where
  /-- `rdbSaveRawString`, and `rdbSaveStringObject` of a key. -/
  saveString : Bytes → Bytes
  /-- `rdbLoadStringObject`. -/
  loadString : Bytes → Option (Bytes × Nat)
  /-- The byte of `rdbSaveObjectType`. -/
  objectType : V → UInt8
  /-- `rdbSaveObject`. -/
  saveObject : V → Bytes
  /-- `rdbLoadObject`. -/
  loadObject : UInt8 → Bytes → Option (V × Nat)

/-- `rdbIsObjectType`. -/
def rdbIsObjectType (t : UInt8) : Prop := t ≤ 4 ∨ 9 ≤ t ∧ t ≤ 14

instance (t : UInt8) : Decidable (rdbIsObjectType t) := inferInstanceAs (Decidable (_ ∨ _))

section Model

variable {V : Type}

/-- The string is read back wherever it stands. -/
def Objects.ReadsString (f : Objects V) (s : Bytes) : Prop :=
  ∀ rest, f.loadString (f.saveString s ++ rest) = some (s, (f.saveString s).length)

/-- The value is read back wherever it stands, maybe in another encoding: `value` is what it stands for. -/
def Objects.ReadsObject {A : Type} (f : Objects V) (value : V → A) (v : V) : Prop :=
  rdbIsObjectType (f.objectType v) ∧ ∃ w, value w = value v ∧
    ∀ rest, f.loadObject (f.objectType v) (f.saveObject v ++ rest) = some (w, (f.saveObject v).length)

/-! ## Saving -/

def RDB_VERSION : Nat := 7
def RDB_OPCODE_AUX : UInt8 := 250
def RDB_OPCODE_RESIZEDB : UInt8 := 251
def RDB_OPCODE_EXPIRETIME_MS : UInt8 := 252
def RDB_OPCODE_EXPIRETIME : UInt8 := 253
def RDB_OPCODE_SELECTDB : UInt8 := 254
def RDB_OPCODE_EOF : UInt8 := 255

def UINT32_MAX : Nat := 4294967295

/-- What `rdbSaveRio` reads besides the databases. -/
structure SaveEnv where
  /-- `server.rdb_checksum`. -/
  checksum : Bool
  mstime : Int
  /-- `time(NULL)`. -/
  ctime : Int
  /-- `zmalloc_used_memory()`. -/
  usedMemory : Int

/-- `rdbSaveKeyValuePair`. -/
def rdbSaveKeyValuePair (f : Objects V) (now : Int) (key : Bytes) (val : V) (expiretime : Int) : Bytes :=
  -- a key that is out of date is skipped
  if expiretime ≠ -1 ∧ expiretime < now then []
  else
    (if expiretime ≠ -1 then rdbSaveType RDB_OPCODE_EXPIRETIME_MS ++ rdbSaveMillisecondTime expiretime else [])
      ++ (rdbSaveType (f.objectType val) ++ (f.saveString key ++ f.saveObject val))

/-- `rdbSaveAuxField`. -/
def rdbSaveAuxField (f : Objects V) (key val : Bytes) : Bytes :=
  rdbSaveType RDB_OPCODE_AUX ++ (f.saveString key ++ f.saveString val)

/-- The fields of `rdbSaveInfoAuxFields`, on a 64-bit machine. -/
def infoAuxFields (env : SaveEnv) : List (Bytes × Bytes) :=
  -- redis-ver, "3.2.8"
  [([114, 101, 100, 105, 115, 45, 118, 101, 114], [51, 46, 50, 46, 56]),
    -- redis-bits
    ([114, 101, 100, 105, 115, 45, 98, 105, 116, 115], ll2string 21 64),
    -- ctime
    ([99, 116, 105, 109, 101], ll2string 21 env.ctime),
    -- used-mem
    ([117, 115, 101, 100, 45, 109, 101, 109], ll2string 21 env.usedMemory)]

/-- `rdbSaveInfoAuxFields`. -/
def rdbSaveInfoAuxFields (f : Objects V) (env : SaveEnv) : Bytes :=
  (infoAuxFields env).flatMap fun x => rdbSaveAuxField f x.1 x.2

/-- The entries of one database. -/
def rdbSaveEntries (f : Objects V) (now : Int) (db : Database V) : Bytes :=
  db.dict.flatMap fun e => rdbSaveKeyValuePair f now e.1 e.2 (db.getExpire e.1)

/-- One turn of the loop over the databases. -/
def rdbSaveDb (f : Objects V) (now : Int) (j : Nat) (db : Database V) : Bytes :=
  if db.dict.length = 0 then []
  else
    rdbSaveType RDB_OPCODE_SELECTDB ++ (rdbSaveLen j ++ (rdbSaveType RDB_OPCODE_RESIZEDB
      ++ (rdbSaveLen (min db.dict.length UINT32_MAX) ++ (rdbSaveLen (min db.expires.length UINT32_MAX)
      ++ rdbSaveEntries f now db))))

/-- The loop over the databases, from the one with the index `j` on. -/
def rdbSaveDbs (f : Objects V) (now : Int) : Nat → List (Database V) → Bytes
  | _, [] => []
  | j, db :: dbs => rdbSaveDb f now j db ++ rdbSaveDbs f now (j + 1) dbs

/-- `REDIS0007`. -/
def magic : Bytes := [82, 69, 68, 73, 83, 48, 48, 48, 55]

/-- What stands in front of the checksum. -/
def rdbSaveBody (f : Objects V) (env : SaveEnv) (dbs : List (Database V)) : Bytes :=
  magic ++ ((rdbSaveInfoAuxFields f env ++ rdbSaveDbs f env.mstime 0 dbs) ++ rdbSaveType RDB_OPCODE_EOF)

/-- The checksum, zero when it is disabled. -/
def rdbSaveCksum (env : SaveEnv) (body : Bytes) : UInt64 := if env.checksum then crc64 0 body else 0

/-- `rdbSaveRio`. -/
def rdbSaveRio (f : Objects V) (env : SaveEnv) (dbs : List (Database V)) : Bytes :=
  rdbSaveBody f env dbs ++ leBytes 8 (rdbSaveCksum env (rdbSaveBody f env dbs)).toNat

/-! ## Loading -/

/-- What `rdbLoad` reads from `server`, and the clock. -/
structure LoadEnv where
  checksum : Bool
  dbnum : Nat
  /-- `masterhost != NULL`. -/
  slave : Bool
  mstime : Int

/-- Where a load ends without a dataset. -/
inductive LoadFault
  | signature
  | version
  /-- `eoferr`. -/
  | short
  /-- The file is of a server with more databases. -/
  | dbnum
  | cksum
  /-- An assertion of `dbAdd` or `setExpire`. -/
  | server (e : ServerFault)

/-- The selected database, and all of them. -/
structure Loader (V : Type) where
  db : Nat
  dbs : Nat → RedisDb V

/-- One turn of the loop: another one, or the end of it. -/
inductive Turn (V : Type)
  | next (r : Rio) (l : Loader V)
  | eof (r : Rio)

/-- `rdbLoadStringObject`. -/
def rdbLoadStringObject (f : Objects V) (env : LoadEnv) (r : Rio) : Option (Bytes × Rio) :=
  (f.loadString r.data).map fun x => (x.1, r.advance env.checksum x.2)

/-- `rdbLoadObject`. -/
def rdbLoadObject (f : Objects V) (env : LoadEnv) (type : UInt8) (r : Rio) : Option (V × Rio) :=
  (f.loadObject type r.data).map fun x => (x.1, r.advance env.checksum x.2)

/-- `eoferr`, when there is nothing. -/
def orShort {α : Type} (x : Option α) : Except LoadFault α := x.elim (.error .short) .ok

/-- The selected database is another one. -/
def Loader.set (l : Loader V) (db : RedisDb V) : Loader V :=
  { l with dbs := fun j => if j = l.db then db else l.dbs j }

/-- `dbAdd` and `setExpire`, as they are called for a key that was loaded. -/
def rdbAddKey (db : RedisDb V) (key : Bytes) (val : V) (expiretime : Int) : Except ServerFault (RedisDb V) :=
  dbAdd db key val >>= fun db => copyExpire db key expiretime

/-- The key has expired, and it is for this server to say so. -/
def LoadEnv.expired (env : LoadEnv) (expiretime : Int) : Prop :=
  env.slave = false ∧ expiretime ≠ -1 ∧ expiretime < env.mstime

instance (env : LoadEnv) (expiretime : Int) : Decidable (env.expired expiretime) :=
  inferInstanceAs (Decidable (_ ∧ _ ∧ _))

/-- The key and the value, after the type. -/
def rdbLoadKey (f : Objects V) (env : LoadEnv) (type : UInt8) (expiretime : Int) (r : Rio) (l : Loader V) :
    Except LoadFault (Turn V) := do
  let key ← orShort (rdbLoadStringObject f env r)
  let val ← orShort (rdbLoadObject f env type key.2)
  if env.expired expiretime then return .next val.2 l
  else
    let db ← (rdbAddKey (l.dbs l.db) key.1 val.1 expiretime).mapError .server
    return .next val.2 (l.set db)

/-- The type after an expire time, with the key. -/
def rdbLoadVolatile (f : Objects V) (env : LoadEnv) (unit : Int) (time : Int × Rio) (l : Loader V) :
    Except LoadFault (Turn V) :=
  if time.1 = -1 then .error .short
  else do
    let type ← orShort (rdbLoadType env.checksum time.2)
    rdbLoadKey f env type.1 (time.1 * unit) type.2 l

/-- One turn of the loop. -/
def rdbLoadOpcode (f : Objects V) (env : LoadEnv) (r : Rio) (l : Loader V) : Except LoadFault (Turn V) := do
  let type ← orShort (rdbLoadType env.checksum r)
  if type.1 = RDB_OPCODE_EXPIRETIME then
    -- seconds, to milliseconds
    rdbLoadVolatile f env 1000 (rdbLoadTime env.checksum type.2) l
  else if type.1 = RDB_OPCODE_EXPIRETIME_MS then
    rdbLoadVolatile f env 1 (rdbLoadMillisecondTime env.checksum type.2) l
  else if type.1 = RDB_OPCODE_EOF then return .eof type.2
  else if type.1 = RDB_OPCODE_SELECTDB then
    let dbid := rdbLoadLen env.checksum type.2
    if dbid.1 = RDB_LENERR then .error .short
    else if env.dbnum ≤ dbid.1 then .error .dbnum
    else return .next dbid.2.2 { l with db := dbid.1 }
  else if type.1 = RDB_OPCODE_RESIZEDB then
    let db_size := rdbLoadLen env.checksum type.2
    if db_size.1 = RDB_LENERR then .error .short
    else
      let expires_size := rdbLoadLen env.checksum db_size.2.2
      if expires_size.1 = RDB_LENERR then .error .short
      else return .next expires_size.2.2 l
  else if type.1 = RDB_OPCODE_AUX then
    let auxkey ← orShort (rdbLoadStringObject f env type.2)
    let auxval ← orShort (rdbLoadStringObject f env auxkey.2)
    return .next auxval.2 l
  else rdbLoadKey f env type.1 (-1) type.2 l

/-- The loop, which ends at `RDB_OPCODE_EOF`.  Every turn reads a byte. -/
def rdbLoadLoop (f : Objects V) (env : LoadEnv) : Nat → Rio → Loader V → Except LoadFault (Rio × Loader V)
  | 0, _, _ => .error .short
  | fuel + 1, r, l =>
    match rdbLoadOpcode f env r l with
    | .error e => .error e
    | .ok (.next r l) => rdbLoadLoop f env fuel r l
    | .ok (.eof r) => .ok (r, l)

/-- The checksum behind `RDB_OPCODE_EOF`. -/
def rdbLoadCksum (env : LoadEnv) (rdbver : Int) (r : Rio) : Except LoadFault Rio :=
  if 5 ≤ rdbver ∧ env.checksum = true then do
    let buf ← orShort (rioRead env.checksum r 8)
    let cksum := UInt64.ofNat (leNat buf.1)
    -- zero when the file was saved with the checksum disabled
    if cksum = 0 then return buf.2
    else if cksum ≠ r.cksum then .error .cksum
    else return buf.2
  else return r

/-- A database without keys. -/
def emptyDb : RedisDb V := ⟨fun _ => none, fun _ => none, fun _ => none⟩

/-- The databases of an empty server. -/
def Loader.empty : Loader V := ⟨0, fun _ => emptyDb⟩

/-- A dataset that was loaded. -/
structure Loaded (V : Type) where
  dbs : Nat → RedisDb V
  /-- What was left of the file behind `RDB_OPCODE_EOF`. -/
  behindEof : Bytes
  /-- What is left of it at last. -/
  rest : Bytes

/-- `rdbLoad` of a file with the contents `data`. -/
def rdbLoad (f : Objects V) (env : LoadEnv) (data : Bytes) : Except LoadFault (Loaded V) := do
  let buf ← orShort (rioRead env.checksum ⟨data, 0⟩ 9)
  let rdbver := atoi (buf.1.drop 5)
  -- REDIS
  if buf.1.take 5 ≠ [82, 69, 68, 73, 83] then .error .signature
  else if rdbver < 1 ∨ (RDB_VERSION : Int) < rdbver then .error .version
  else
    let x ← rdbLoadLoop f env (data.length + 1) buf.2 .empty
    let r ← rdbLoadCksum env rdbver x.1
    return ⟨x.2.dbs, x.1.data, r.data⟩

end Model

/-! ## One item after another -/

section Items

variable {V : Type} {f : Objects V} {env : LoadEnv} {done rest : Bytes} {l : Loader V}

theorem rdbLoadStringObject_save {s : Bytes} (h : f.ReadsString s) :
    rdbLoadStringObject f env (Rio.after env.checksum done (f.saveString s ++ rest))
      = some (s, Rio.after env.checksum (done ++ f.saveString s) rest) := by
  have hload : f.loadString (Rio.after env.checksum done (f.saveString s ++ rest)).data
      = some (s, (f.saveString s).length) := h rest
  rw [rdbLoadStringObject, hload, Option.map_some, Rio.advance_after]

theorem rdbLoadObject_save {v w : V}
    (h : ∀ rest, f.loadObject (f.objectType v) (f.saveObject v ++ rest) = some (w, (f.saveObject v).length)) :
    rdbLoadObject f env (f.objectType v) (Rio.after env.checksum done (f.saveObject v ++ rest))
      = some (w, Rio.after env.checksum (done ++ f.saveObject v) rest) := by
  have hload : f.loadObject (f.objectType v) (Rio.after env.checksum done (f.saveObject v ++ rest)).data
      = some (w, (f.saveObject v).length) := h rest
  rw [rdbLoadObject, hload, Option.map_some, Rio.advance_after]

/-- The bytes take the loop from one dataset to another, whatever stands behind them. -/
def Advances (f : Objects V) (env : LoadEnv) (bytes : Bytes) (l l' : Loader V) : Prop :=
  ∃ k ≤ bytes.length, ∀ fuel done rest,
    rdbLoadLoop f env (fuel + k) (Rio.after env.checksum done (bytes ++ rest)) l
      = rdbLoadLoop f env fuel (Rio.after env.checksum (done ++ bytes) rest) l'

theorem Advances.nil (l : Loader V) : Advances f env [] l l :=
  ⟨0, Nat.le_refl 0, fun _ _ _ => by simp⟩

theorem Advances.trans {a b : Bytes} {l l' l'' : Loader V} (h : Advances f env a l l') (h' : Advances f env b l' l'') :
    Advances f env (a ++ b) l l'' := by
  obtain ⟨k, hk, hrun⟩ := h
  obtain ⟨k', hk', hrun'⟩ := h'
  refine ⟨k' + k, ?_, fun fuel done rest => ?_⟩
  · rw [List.length_append]
    omega
  · rw [← Nat.add_assoc, List.append_assoc, hrun, hrun', List.append_assoc]

/-- One turn of the loop. -/
theorem Advances.turn {bytes : Bytes} {l l' : Loader V} (hne : 0 < bytes.length)
    (h : ∀ done rest, rdbLoadOpcode f env (Rio.after env.checksum done (bytes ++ rest)) l
      = .ok (.next (Rio.after env.checksum (done ++ bytes) rest) l')) :
    Advances f env bytes l l' := by
  refine ⟨1, hne, fun fuel done rest => ?_⟩
  rw [rdbLoadLoop, h]

/-- What is read is there. -/
@[simp] theorem orShort_some {α : Type} (x : α) : orShort (some x) = .ok x := rfl

theorem advances_aux {key val : Bytes} (hkey : f.ReadsString key) (hval : f.ReadsString val) :
    Advances f env (rdbSaveAuxField f key val) l l := by
  refine Advances.turn (by simp [rdbSaveAuxField, rdbSaveType]) fun done rest => ?_
  simp only [rdbSaveAuxField, List.append_assoc, rdbLoadOpcode, rdbLoadType_save, orShort_some,
    rdbLoadStringObject_save hkey, rdbLoadStringObject_save hval, Outcome.ok_bind]
  rfl

theorem advances_select {j : Nat} (hj : j < env.dbnum) (hint : j < RDB_LENERR) :
    Advances f env (rdbSaveType RDB_OPCODE_SELECTDB ++ rdbSaveLen j) l { l with db := j } := by
  refine Advances.turn (by simp [rdbSaveType]) fun done rest => ?_
  have hlen : j < 2 ^ 32 := by
    rw [RDB_LENERR] at hint
    omega
  have hne : j ≠ RDB_LENERR := hint.ne
  simp only [List.append_assoc, rdbLoadOpcode, rdbLoadType_save, orShort_some, Outcome.ok_bind,
    rdbLoadLen_save hlen, if_neg hne, if_neg (Nat.not_le.mpr hj)]
  rfl

theorem advances_resize {a b : Nat} (ha : a < RDB_LENERR) (hb : b < RDB_LENERR) :
    Advances f env (rdbSaveType RDB_OPCODE_RESIZEDB ++ (rdbSaveLen a ++ rdbSaveLen b)) l l := by
  refine Advances.turn (by simp [rdbSaveType]) fun done rest => ?_
  have hlen : a < 2 ^ 32 ∧ b < 2 ^ 32 := by
    rw [RDB_LENERR] at ha hb
    omega
  simp only [List.append_assoc, rdbLoadOpcode, rdbLoadType_save, orShort_some, Outcome.ok_bind,
    rdbLoadLen_save hlen.1, rdbLoadLen_save hlen.2, if_neg ha.ne, if_neg hb.ne]
  rfl

end Items

/-! ## The keys -/

section Keys

variable {V A : Type} {f : Objects V} {env : LoadEnv} {value : V → A} {l : Loader V}

/-- The key is neither skipped when it is saved nor when it is loaded. -/
def Survives (senv : SaveEnv) (env : LoadEnv) (t : Int) : Prop :=
  ¬(t ≠ -1 ∧ t < senv.mstime) ∧ ¬env.expired t

instance (senv : SaveEnv) (env : LoadEnv) (t : Int) : Decidable (Survives senv env t) :=
  inferInstanceAs (Decidable (_ ∧ _))

/-- What some of the entries of a database are when they were loaded. -/
def reloaded (senv : SaveEnv) (env : LoadEnv) (reload : V → V) (d : Database V) (entries : List (Bytes × V)) :
    RedisDb V where
  dict k := if Survives senv env (d.getExpire k) then (entries.lookup k).map reload else none
  expires k :=
    if Survives senv env (d.getExpire k) ∧ (entries.lookup k).isSome = true then keptExpire (d.expires.lookup k) else none
  watchedKeys _ := none

/-- `rdbLoadObject` of what was saved, as a function. -/
theorem exists_reload (f : Objects V) (value : V → A) :
    ∃ reload : V → V, ∀ v, f.ReadsObject value v → value (reload v) = value v ∧
      ∀ rest, f.loadObject (f.objectType v) (f.saveObject v ++ rest) = some (reload v, (f.saveObject v).length) := by
  have hall : ∀ v, ∃ w, f.ReadsObject value v → value w = value v ∧
      ∀ rest, f.loadObject (f.objectType v) (f.saveObject v ++ rest) = some (w, (f.saveObject v).length) := by
    intro v
    by_cases hv : f.ReadsObject value v
    · obtain ⟨w, hw⟩ := hv.2
      exact ⟨w, fun _ => hw⟩
    · exact ⟨v, fun h => absurd h hv⟩
  choose reload hreload using hall
  exact ⟨reload, hreload⟩

/-- No object type is an opcode. -/
theorem objectType_ne_opcode {t : UInt8} (h : rdbIsObjectType t) :
    t ≠ RDB_OPCODE_EXPIRETIME ∧ t ≠ RDB_OPCODE_EXPIRETIME_MS ∧ t ≠ RDB_OPCODE_EOF ∧ t ≠ RDB_OPCODE_SELECTDB
      ∧ t ≠ RDB_OPCODE_RESIZEDB ∧ t ≠ RDB_OPCODE_AUX := by
  have hsmall : t.toNat ≤ 14 := by
    simp only [rdbIsObjectType, UInt8.le_iff_toNat_le] at h
    exact h.elim (fun h => h.trans (by decide)) And.right
  refine ⟨?_, ?_, ?_, ?_, ?_, ?_⟩ <;>
    · rintro rfl
      exact absurd hsmall (by decide)

theorem Loader.set_self (l : Loader V) : l.set (l.dbs l.db) = l := by
  obtain ⟨db, dbs⟩ := l
  simp only [Loader.set, Loader.mk.injEq, true_and]
  funext j
  by_cases hj : j = db <;> simp [hj]

@[simp] theorem Loader.set_set (l : Loader V) (a b : RedisDb V) : (l.set a).set b = l.set b := by
  simp only [Loader.set, Loader.mk.injEq, true_and]
  funext j
  by_cases hj : j = l.db <;> simp [hj]

@[simp] theorem Loader.db_set (l : Loader V) (a : RedisDb V) : (l.set a).db = l.db := rfl

@[simp] theorem Loader.dbs_set (l : Loader V) (a : RedisDb V) : (l.set a).dbs l.db = a := by
  simp [Loader.set]

variable {senv : SaveEnv} {reload : V → V} {d : Database V} {entries : List (Bytes × V)} {key : Bytes} {v : V}

/-- Another key after those. -/
theorem reloaded_append (hkey : entries.lookup key = none) :
    reloaded senv env reload d (entries ++ [(key, v)])
      = if Survives senv env (d.getExpire key)
        then (reloaded senv env reload d entries).put key (reload v) (keptExpire (d.expires.lookup key))
        else reloaded senv env reload d entries := by
  have hother : ∀ k, k ≠ key → (entries ++ [(key, v)]).lookup k = entries.lookup k := fun k hk => by
    rw [lookup_append hkey, if_neg hk]
  apply RedisDb.ext_get
  · intro k
    by_cases hk : k = key
    · subst hk
      by_cases hs : Survives senv env (d.getExpire k) <;> simp [reloaded, lookup_append hkey, hs]
    · by_cases hs : Survives senv env (d.getExpire key) <;> simp [reloaded, hother k hk, hs, hk]
  · intro k
    by_cases hk : k = key
    · subst hk
      by_cases hs : Survives senv env (d.getExpire k) <;> simp [reloaded, lookup_append hkey, hs]
    · by_cases hs : Survives senv env (d.getExpire key) <;> simp only [reloaded, hother k hk, hs, hk, if_true, if_false,
        RedisDb.expires_put]
  · by_cases hs : Survives senv env (d.getExpire key) <;> simp [reloaded, hs]

theorem reloaded_nil (d : Database V) : reloaded senv env reload d [] = emptyDb := by
  apply RedisDb.ext_get <;> simp [reloaded, emptyDb]

/-- The key after its type. -/
theorem rdbLoadKey_save (done rest : Bytes) (hl : l.dbs l.db = reloaded senv env reload d entries)
    (hkey : entries.lookup key = none) (hstring : f.ReadsString key)
    (hobject : ∀ rest, f.loadObject (f.objectType v) (f.saveObject v ++ rest)
      = some (reload v, (f.saveObject v).length))
    (hsave : ¬(d.getExpire key ≠ -1 ∧ d.getExpire key < senv.mstime)) :
    rdbLoadKey f env (f.objectType v) (d.getExpire key)
        (Rio.after env.checksum done (f.saveString key ++ (f.saveObject v ++ rest))) l
      = .ok (.next (Rio.after env.checksum (done ++ f.saveString key ++ f.saveObject v) rest)
        (l.set (reloaded senv env reload d (entries ++ [(key, v)])))) := by
  simp only [rdbLoadKey, rdbLoadStringObject_save hstring, rdbLoadObject_save hobject, orShort_some,
    Outcome.ok_bind]
  rw [reloaded_append hkey]
  by_cases hexp : env.expired (d.getExpire key)
  · have hs : ¬Survives senv env (d.getExpire key) := fun h => h.2 hexp
    rw [if_pos hexp, if_neg hs, ← hl, Loader.set_self]
    rfl
  · have hs : Survives senv env (d.getExpire key) := ⟨hsave, hexp⟩
    have hfresh : (l.dbs l.db).dict key = none ∧ (l.dbs l.db).expires key = none := by
      rw [hl]
      simp [reloaded, hkey]
    have hadd : rdbAddKey (l.dbs l.db) key (reload v) (d.getExpire key)
        = .ok ((l.dbs l.db).put key (reload v) (keptExpire (d.expires.lookup key))) :=
      addWithExpire_eq hfresh.1 hfresh.2 (reload v) (d.expires.lookup key)
    rw [if_neg hexp, if_pos hs, hadd, hl]
    rfl

/-- What `rdbSaveKeyValuePair` writes for the next key of the database. -/
theorem advances_pair (hl : l.dbs l.db = reloaded senv env reload d entries)
    (hkey : entries.lookup key = none) (hstring : f.ReadsString key) (htype : rdbIsObjectType (f.objectType v))
    (hobject : ∀ rest, f.loadObject (f.objectType v) (f.saveObject v ++ rest)
      = some (reload v, (f.saveObject v).length))
    (htime : -2 ^ 63 ≤ d.getExpire key ∧ d.getExpire key < 2 ^ 63) :
    Advances f env (rdbSaveKeyValuePair f senv.mstime key v (d.getExpire key)) l
      (l.set (reloaded senv env reload d (entries ++ [(key, v)]))) := by
  obtain ⟨hsec, hms, heof, hselect, hresize, haux⟩ := objectType_ne_opcode htype
  by_cases hsave : d.getExpire key ≠ -1 ∧ d.getExpire key < senv.mstime
  · -- skipped, and no trace of it is left
    have hs : ¬Survives senv env (d.getExpire key) := fun h => h.1 hsave
    rw [rdbSaveKeyValuePair, if_pos hsave, reloaded_append hkey, if_neg hs, ← hl, Loader.set_self]
    exact Advances.nil l
  · rw [rdbSaveKeyValuePair, if_neg hsave]
    have hread := fun done rest => rdbLoadKey_save done rest hl hkey hstring hobject hsave
    by_cases hnone : d.getExpire key = -1
    · -- the type at once
      refine Advances.turn (by simp [rdbSaveType]) fun done rest => ?_
      rw [hnone] at hread
      simp only [hnone, ne_eq, not_true_eq_false, if_false, List.nil_append, List.append_assoc, rdbLoadOpcode,
        rdbLoadType_save, orShort_some, Outcome.ok_bind, if_neg hsec, if_neg hms, if_neg heof, if_neg hselect,
        if_neg hresize, if_neg haux, hread]
    · -- the time first, which belongs to this turn
      refine Advances.turn (by simp [rdbSaveType]) fun done rest => ?_
      have hopcode : RDB_OPCODE_EXPIRETIME_MS ≠ RDB_OPCODE_EXPIRETIME := by decide
      simp only [ne_eq, hnone, not_false_eq_true, if_true, List.append_assoc, rdbLoadOpcode, rdbLoadType_save,
        orShort_some, Outcome.ok_bind, if_neg hopcode, rdbLoadVolatile, rdbLoadMillisecondTime_save htime.1 htime.2,
        if_false, Int.mul_one, hread]

end Keys

/-! ## The databases -/

section Databases

variable {V A : Type} {f : Objects V} {env : LoadEnv} {value : V → A} {senv : SaveEnv} {reload : V → V}

/-- The encoding of what a database holds. -/
structure Reads (f : Objects V) (value : V → A) (d : Database V) : Prop where
  string : ∀ e ∈ d.dict, f.ReadsString e.1
  object : ∀ e ∈ d.dict, f.ReadsObject value e.2

/-- `RDB_OPCODE_EOF` ends the loop. -/
theorem rdbLoadLoop_eof (fuel : Nat) (done rest : Bytes) (l : Loader V) :
    rdbLoadLoop f env (fuel + 1) (Rio.after env.checksum done (rdbSaveType RDB_OPCODE_EOF ++ rest)) l
      = .ok (Rio.after env.checksum (done ++ rdbSaveType RDB_OPCODE_EOF) rest, l) := by
  simp only [rdbLoadLoop, rdbLoadOpcode, rdbLoadType_save, orShort_some, Outcome.ok_bind]
  rfl

/-- The fields in front of the databases leave no trace. -/
theorem advances_info {l : Loader V} {fields : List (Bytes × Bytes)}
    (h : ∀ x ∈ fields, f.ReadsString x.1 ∧ f.ReadsString x.2) :
    Advances f env (fields.flatMap fun x => rdbSaveAuxField f x.1 x.2) l l := by
  induction fields with
  | nil => exact Advances.nil l
  | cons x fields ih =>
    have hx := h x List.mem_cons_self
    exact (advances_aux hx.1 hx.2).trans (ih fun y hy => h y (List.mem_cons_of_mem _ hy))

/-- The checksum is the one of the bytes that were read, or zero. -/
theorem rdbLoadCksum_save (env : LoadEnv) (senv : SaveEnv) (body : Bytes) :
    ∃ r, rdbLoadCksum env 7 (Rio.after env.checksum body (leBytes 8 (rdbSaveCksum senv body).toNat)) = .ok r
      ∧ r.data = if env.checksum then [] else leBytes 8 (rdbSaveCksum senv body).toNat := by
  by_cases hcheck : env.checksum = true
  · have hread := rioRead_after env.checksum body (leBytes 8 (rdbSaveCksum senv body).toNat) []
    have hval : UInt64.ofNat (leNat (leBytes 8 (rdbSaveCksum senv body).toNat)) = rdbSaveCksum senv body := by
      rw [leNat_leBytes_of_lt (UInt64.toNat_lt _), UInt64.ofNat_toNat]
    rw [List.append_nil, length_leBytes] at hread
    refine ⟨Rio.after env.checksum (body ++ leBytes 8 (rdbSaveCksum senv body).toNat) [], ?_, ?_⟩
    · have hexpected : rdbSaveCksum senv body = 0
          ∨ rdbSaveCksum senv body = (Rio.after env.checksum body (leBytes 8 (rdbSaveCksum senv body).toNat)).cksum := by
        by_cases hsave : senv.checksum = true <;> simp [rdbSaveCksum, Rio.after, hsave, hcheck]
      rw [rdbLoadCksum, if_pos ⟨by decide, hcheck⟩, hread, orShort_some, Outcome.ok_bind]
      simp only [hval]
      by_cases hzero : rdbSaveCksum senv body = 0
      · rw [if_pos hzero]
        rfl
      · rw [if_neg hzero, if_neg (not_not.mpr (hexpected.resolve_left hzero))]
        rfl
    · simp [Rio.after, hcheck]
  · refine ⟨_, if_neg (fun h => hcheck h.2), ?_⟩
    simp [Rio.after, hcheck]

variable (hreload : ∀ v, f.ReadsObject value v → value (reload v) = value v ∧
  ∀ rest, f.loadObject (f.objectType v) (f.saveObject v ++ rest) = some (reload v, (f.saveObject v).length))

include hreload

/-- The loop over the keys, from the middle of it. -/
theorem advances_entries {d : Database V} (h : d.WellFormed) (hreads : Reads f value d) (todo : List (Bytes × V)) :
    ∀ {entries : List (Bytes × V)} {l : Loader V}, d.dict = entries ++ todo →
      l.dbs l.db = reloaded senv env reload d entries →
      Advances f env (todo.flatMap fun e => rdbSaveKeyValuePair f senv.mstime e.1 e.2 (d.getExpire e.1)) l
        (l.set (reloaded senv env reload d d.dict)) := by
  induction todo with
  | nil =>
    intro entries l hdict hl
    rw [List.append_nil] at hdict
    rw [hdict, ← hl, Loader.set_self]
    exact Advances.nil l
  | cons e todo ih =>
    intro entries l hdict hl
    have he : e ∈ d.dict := by simp [hdict]
    have hfresh : entries.lookup e.1 = none := h.fresh hdict
    have hobject := hreads.object e he
    have hpair := advances_pair hl hfresh (hreads.string e he) hobject.1 (hreload e.2 hobject).2 (h.getExpire e.1)
    have hdict' : d.dict = (entries ++ [e]) ++ todo := by simp [hdict]
    have htodo := ih hdict' (Loader.dbs_set l (reloaded senv env reload d (entries ++ [e])))
    rw [Loader.set_set] at htodo
    exact hpair.trans htodo

/-- One database. -/
theorem advances_db {d : Database V} (h : d.WellFormed) (hreads : Reads f value d)
    (hsize : d.dict.length < RDB_LENERR) {j : Nat} (hj : j < env.dbnum) (hint : j < RDB_LENERR) {l : Loader V}
    (hempty : l.dbs j = emptyDb) :
    ∃ l', Advances f env (rdbSaveDb f senv.mstime j d) l l'
      ∧ ∀ i, l'.dbs i = if i = j then reloaded senv env reload d d.dict else l.dbs i := by
  have hnone : reloaded senv env reload d [] = emptyDb := reloaded_nil d
  by_cases hlen : d.dict.length = 0
  · refine ⟨l, ?_, ?_⟩
    · rw [rdbSaveDb, if_pos hlen]
      exact Advances.nil l
    · intro i
      by_cases hi : i = j
      · rw [if_pos hi, hi, hempty, List.length_eq_zero_iff.mp hlen, hnone]
      · rw [if_neg hi]
  · have hexpires := h.length_expires
    let selected : Loader V := { l with db := j }
    have hselect : Advances f env (rdbSaveType RDB_OPCODE_SELECTDB ++ rdbSaveLen j) l selected :=
      advances_select hj hint
    have hresize : Advances f env (rdbSaveType RDB_OPCODE_RESIZEDB ++ (rdbSaveLen (min d.dict.length UINT32_MAX)
        ++ rdbSaveLen (min d.expires.length UINT32_MAX))) selected selected :=
      advances_resize (by omega) (by omega)
    have hentries : Advances f env (rdbSaveEntries f senv.mstime d) selected
        (selected.set (reloaded senv env reload d d.dict)) :=
      advances_entries hreload h hreads d.dict (List.nil_append d.dict).symm (hempty.trans hnone.symm)
    have hall := (hselect.trans hresize).trans hentries
    simp only [List.append_assoc] at hall
    refine ⟨selected.set (reloaded senv env reload d d.dict), ?_, fun i => rfl⟩
    rw [rdbSaveDb, if_neg hlen]
    exact hall

/-- The loop over the databases. -/
theorem advances_dbs (hdbnum : env.dbnum < 2 ^ 31) {dbs : List (Database V)} (h : ∀ d ∈ dbs, d.WellFormed)
    (hreads : ∀ d ∈ dbs, Reads f value d) (hsize : ∀ d ∈ dbs, d.dict.length < RDB_LENERR) :
    ∀ {j : Nat} {l : Loader V}, j + dbs.length ≤ env.dbnum → (∀ i, j ≤ i → l.dbs i = emptyDb) →
      ∃ l', Advances f env (rdbSaveDbs f senv.mstime j dbs) l l'
        ∧ ∀ i, l'.dbs i = if i < j then l.dbs i
          else (dbs[i - j]?).elim emptyDb fun d => reloaded senv env reload d d.dict := by
  induction dbs with
  | nil =>
    intro j l _ hempty
    refine ⟨l, Advances.nil l, fun i => ?_⟩
    by_cases hi : i < j
    · rw [if_pos hi]
    · simp [hi, hempty i (Nat.not_lt.mp hi)]
  | cons d dbs ih =>
    intro j l hj hempty
    rw [List.length_cons] at hj
    have hint : j < RDB_LENERR := by
      rw [RDB_LENERR]
      omega
    obtain ⟨l', hrun, hdbs⟩ : ∃ l', Advances f env (rdbSaveDb f senv.mstime j d) l l'
        ∧ ∀ i, l'.dbs i = if i = j then reloaded senv env reload d d.dict else l.dbs i :=
      advances_db hreload (h d List.mem_cons_self) (hreads d List.mem_cons_self) (hsize d List.mem_cons_self)
        (by omega) hint (hempty j (Nat.le_refl j))
    have hempty' : ∀ i, j + 1 ≤ i → l'.dbs i = emptyDb := by
      intro i hi
      rw [hdbs, if_neg (by omega)]
      exact hempty i (by omega)
    obtain ⟨l'', hrun', hdbs'⟩ := ih (fun d hd => h d (List.mem_cons_of_mem _ hd))
      (fun d hd => hreads d (List.mem_cons_of_mem _ hd)) (fun d hd => hsize d (List.mem_cons_of_mem _ hd))
      (show j + 1 + dbs.length ≤ env.dbnum by omega) hempty'
    refine ⟨l'', hrun.trans hrun', fun i => ?_⟩
    rw [hdbs']
    rcases Nat.lt_trichotomy i j with hi | hi | hi
    · rw [if_pos (by omega), if_pos hi, hdbs, if_neg (by omega)]
    · subst hi
      simp [hdbs]
    · rw [if_neg (by omega), if_neg (by omega), show i - j = (i - (j + 1)) + 1 by omega, List.getElem?_cons_succ]

end Databases

/-! ## The file -/

section File

variable {V A : Type}

/-- The keys of a database that was loaded. -/
theorem reloaded_values {value : V → A} {senv : SaveEnv} {env : LoadEnv} {reload : V → V} {d : Database V} {key : Bytes}
    (hvalue : ∀ v, d.dict.lookup key = some v → value (reload v) = value v) :
    ((reloaded senv env reload d d.dict).dict key).map value
        = (if Survives senv env (d.getExpire key) then (d.dict.lookup key).map value else none)
      ∧ (reloaded senv env reload d d.dict).expires key
        = (if ((reloaded senv env reload d d.dict).dict key).isSome then keptExpire (d.expires.lookup key) else none) := by
  by_cases hs : Survives senv env (d.getExpire key)
  · cases hv : d.dict.lookup key with
    | none => simp only [reloaded, hs, hv, if_true, Option.map_none, Option.isSome_none, Bool.false_eq_true,
        if_false, and_false, and_self]
    | some v => simp [reloaded, hs, hv, hvalue v hv]
  · simp [reloaded, hs]

/-- A file around some bytes that the loop takes. -/
theorem rdbLoad_file {f : Objects V} {env : LoadEnv} {items : Bytes} {l : Loader V}
    (h : Advances f env items .empty l) (senv : SaveEnv) {body cksum : Bytes}
    (hbody : magic ++ (items ++ rdbSaveType RDB_OPCODE_EOF) = body)
    (hcksum : leBytes 8 (rdbSaveCksum senv body).toNat = cksum) :
    rdbLoad f env (body ++ cksum) = .ok ⟨l.dbs, cksum, if env.checksum then [] else cksum⟩ := by
  obtain ⟨k, hk, hturns⟩ := h
  obtain ⟨r, hr, hrest⟩ := rdbLoadCksum_save env senv body
  have hmagic : rioRead env.checksum ⟨body ++ cksum, 0⟩ 9
      = some (magic, Rio.after env.checksum magic (items ++ (rdbSaveType RDB_OPCODE_EOF ++ cksum))) := by
    have hread := rioRead_after env.checksum [] magic (items ++ (rdbSaveType RDB_OPCODE_EOF ++ cksum))
    rw [Rio.after_nil] at hread
    rw [← hbody, List.append_assoc, List.append_assoc]
    exact hread
  have hfuel : (body ++ cksum).length + 1 = ((body ++ cksum).length - k) + 1 + k := by
    rw [← hbody]
    simp only [List.length_append]
    omega
  have hbody' : magic ++ items ++ rdbSaveType RDB_OPCODE_EOF = body := by
    rw [List.append_assoc, hbody]
  have hloop : rdbLoadLoop f env ((body ++ cksum).length + 1)
      (Rio.after env.checksum magic (items ++ (rdbSaveType RDB_OPCODE_EOF ++ cksum))) .empty
      = .ok (Rio.after env.checksum body cksum, l) := by
    rw [hfuel, hturns, rdbLoadLoop_eof, hbody']
  have hversion : atoi (magic.drop 5) = 7 := by decide
  have hsignature : magic.take 5 = [82, 69, 68, 73, 83] := rfl
  rw [hcksum] at hr hrest
  simp only [rdbLoad, hmagic, orShort_some, Outcome.ok_bind, hversion, hsignature, hloop, hr, hrest, RDB_VERSION]
  rfl

/-- Strings below 64 bytes, and numbers of one byte. -/
def shortObjects : Objects Bytes where
  saveString s :=
    match string2ll s with
    | some v => if -128 ≤ v ∧ v < 128 then [0xC0, UInt8.ofNat (v % 256).toNat] else rdbSaveLen s.length ++ s
    | none => rdbSaveLen s.length ++ s
  loadString
    | [] => none
    | b :: s =>
      if b = 0xC0 then s.head?.map fun c => (ll2string 21 (bytesInt [c]), 2)
      else if s.length < b.toNat then none
      else some (s.take b.toNat, b.toNat + 1)
  objectType _ := 0
  saveObject s := rdbSaveLen s.length ++ s
  loadObject
    | _, [] => none
    | _, b :: s => if s.length < b.toNat then none else some (s.take b.toNat, b.toNat + 1)

def twoKeys : List (Database Bytes) := [⟨[], []⟩, ⟨[([107], [118]), ([106], [119])], [([107], 2000)]⟩]

theorem rdbSaveLen_short {s : Bytes} (hlen : s.length < 64) : rdbSaveLen s.length = [UInt8.ofNat s.length]
    ∧ (UInt8.ofNat s.length).toNat = s.length := by
  constructor
  · rw [rdbSaveLen, Nat.mod_eq_of_lt (by omega), if_pos (by omega)]
    simp [RDB_6BITLEN]
  · rw [UInt8.toNat_ofNat']
    omega

theorem shortObjects_string {s : Bytes} (hlen : s.length < 64) (hnum : string2ll s = none) :
    shortObjects.ReadsString s := by
  intro rest
  obtain ⟨hsave, hval⟩ := rdbSaveLen_short hlen
  have hne : UInt8.ofNat s.length ≠ 0xC0 := by
    intro h
    rw [h] at hval
    have : (0xC0 : UInt8).toNat = 192 := rfl
    omega
  simp [shortObjects, hnum, hsave, hval, hne]

theorem shortObjects_object {s : Bytes} (hlen : s.length < 64) : shortObjects.ReadsObject id s := by
  obtain ⟨hsave, hval⟩ := rdbSaveLen_short hlen
  have htype : rdbIsObjectType 0 := by decide
  refine ⟨htype, s, rfl, fun rest => ?_⟩
  simp [shortObjects, hsave, hval]

end File

end Redis.Rdb
