import Redis.Db.Watch

namespace Redis

open Outcome Server

/-!
# The keyspace

The functions of `db.c` on one database, and the commands that are made of them.  The
time to live of a key is kept in a second dictionary.

* `dbAdd`, `dbOverwrite`, `dbDelete`, `setExpire`, `removeExpire`, `getExpire`;
* `expireIfNeeded` and the lookups, which delete a key that is out of date;
* `runKeyCommand` — `DEL`, `EXISTS`, `RENAME`, `MOVE`, `EXPIRE`, `TTL`, `PERSIST`, `FLUSHDB`, `FLUSHALL`;
* `KeyspaceInv` — only keys that exist have a time to live;
* `keyspace_consistent` — it holds in every state, and what `RENAME` and `MOVE` do to a key.
-/

/-- What the functions read from `server`. -/
structure KeyEnv where
  dbnum : Nat
  clusterEnabled : Bool
  loading : Bool
  /-- `masterhost != NULL`. -/
  slave : Bool
  /-- `lua_time_start` while a script runs. -/
  luaTimeStart : Option Int
  /-- The current client is not the master and runs a read-only command. -/
  readonlyClient : Bool
  /-- The readings of the clock in the course of one command. -/
  mstime : Nat → Int

/-- The time as `expireIfNeeded` sees it. -/
def KeyEnv.now (env : KeyEnv) (i : Nat) : Int := env.luaTimeStart.getD (env.mstime i)

/-- The replies of the commands. -/
inductive KeyReply
  | ok
  | int (n : Int)
  | error (text : String)
  deriving DecidableEq, Repr

def nokeyerr : KeyReply := .error "ERR no such key"
def sameobjecterr : KeyReply := .error "ERR source and destination objects are the same"
def outofrangeerr : KeyReply := .error "ERR index out of range"

section Model

variable {V : Type}

namespace RedisDb

def setDict (db : RedisDb V) (key : Bytes) (v : Option V) : RedisDb V :=
  { db with dict := fun k => if k = key then v else db.dict k }

def setExpires (db : RedisDb V) (key : Bytes) (w : Option Int) : RedisDb V :=
  { db with expires := fun k => if k = key then w else db.expires k }

/-- The key is in none of the dictionaries. -/
def erase (db : RedisDb V) (key : Bytes) : RedisDb V := (db.setExpires key none).setDict key none

end RedisDb

/-! ### One database -/

/-- `dbAdd`. -/
def dbAdd (db : RedisDb V) (key : Bytes) (val : V) : Except ServerFault (RedisDb V) :=
  if (db.dict key).isSome then .error .addAssertion else .ok (db.setDict key (some val))

/-- `dbOverwrite`. -/
def dbOverwrite (db : RedisDb V) (key : Bytes) (val : V) : Except ServerFault (RedisDb V) :=
  if (db.dict key).isSome then .ok (db.setDict key (some val)) else .error .overwriteAssertion

/-- `dbDelete`. -/
def dbDelete (db : RedisDb V) (key : Bytes) : RedisDb V × Bool := (db.erase key, (db.dict key).isSome)

/-- `removeExpire`. -/
def removeExpire (db : RedisDb V) (key : Bytes) : Except ServerFault (RedisDb V × Bool) :=
  if (db.dict key).isSome then .ok (db.setExpires key none, (db.expires key).isSome) else .error .expireAssertion

/-- `setExpire`. -/
def setExpire (db : RedisDb V) (key : Bytes) (w : Int) : Except ServerFault (RedisDb V) :=
  if (db.dict key).isSome then .ok (db.setExpires key (some w)) else .error .expireAssertion

/-- `getExpire`. -/
def getExpire (db : RedisDb V) (key : Bytes) : Except ServerFault Int :=
  match db.expires key with
  | none => .ok (-1)
  | some w => if (db.dict key).isSome then .ok w else .error .expireAssertion

/-- `expireIfNeeded`, with the reading of the clock that it takes. -/
def expireIfNeeded (env : KeyEnv) (i : Nat) (db : RedisDb V) (key : Bytes) :
    Except ServerFault (RedisDb V × Bool) := do
  let w ← getExpire db key
  -- no expire for this key
  if w < 0 then return (db, false)
  else if env.loading then return (db, false)
  -- on a slave the master sends a DEL
  else if env.slave then return (db, decide (w < env.now i))
  else if env.now i ≤ w then return (db, false)
  else return dbDelete db key

/-- `lookupKeyRead`. -/
def lookupKeyRead (env : KeyEnv) (i : Nat) (db : RedisDb V) (key : Bytes) :
    Except ServerFault (RedisDb V × Option V) := do
  let r ← expireIfNeeded env i db key
  if r.2 = true ∧ (env.slave = false ∨ env.readonlyClient = true) then return (r.1, none)
  else return (r.1, r.1.dict key)

/-- `lookupKeyWrite`. -/
def lookupKeyWrite (env : KeyEnv) (i : Nat) (db : RedisDb V) (key : Bytes) :
    Except ServerFault (RedisDb V × Option V) := do
  let r ← expireIfNeeded env i db key
  return (r.1, r.1.dict key)

/-! ### The commands -/

/-- Write a database back. -/
def Server.setDb (s : Server V) (d : DbId) (db : RedisDb V) : Server V :=
  { s with dbs := fun x => if x = d then db else s.dbs x }

/-- The value and the time to live of a key. -/
def Server.binding (s : Server V) (wk : WatchedKey) : Option V × Option Int :=
  ((s.dbs wk.db).dict wk.key, (s.dbs wk.db).expires wk.key)

/-- `signalModifiedKey`. -/
def signalModifiedKey (s : Server V) (d : DbId) (key : Bytes) : Except ServerFault (Server V) :=
  touchWatchedKey s d key

/-- `if (expire != -1) setExpire(db,key,expire)`. -/
def copyExpire (db : RedisDb V) (key : Bytes) (expire : Int) : Except ServerFault (RedisDb V) :=
  if expire ≠ -1 then setExpire db key expire else .ok db

/-- `dbAdd` or `dbOverwrite`, as the lookup says. -/
def addOrOverwrite (db : RedisDb V) (key : Bytes) (val : V) (found : Option V) : Except ServerFault (RedisDb V) :=
  if found.isNone then dbAdd db key val else dbOverwrite db key val

/-- `setKey`. -/
def setKey (env : KeyEnv) (s : Server V) (d : DbId) (key : Bytes) (val : V) : Except ServerFault (Server V) := do
  let r ← lookupKeyWrite env 0 (s.dbs d) key
  let db ← addOrOverwrite r.1 key val r.2
  let r ← removeExpire db key
  signalModifiedKey (s.setDb d r.1) d key

/-- One round of `delCommand`. -/
def delKey (env : KeyEnv) (d : DbId) (r : Server V × Nat × Int) (key : Bytes) :
    Except ServerFault (Server V × Nat × Int) := do
  let e ← expireIfNeeded env r.2.1 (r.1.dbs d) key
  let del := dbDelete e.1 key
  let s := r.1.setDb d del.1
  if del.2 then do
    let s ← signalModifiedKey s d key
    return (s, r.2.1 + 1, r.2.2 + 1)
  else return (s, r.2.1 + 1, r.2.2)

/-- `delCommand`. -/
def delCommand (env : KeyEnv) (s : Server V) (d : DbId) (keys : List Bytes) :
    Except ServerFault (Server V × KeyReply) := do
  let r ← keys.foldlM (delKey env d) (s, 0, 0)
  return (r.1, .int r.2.2)

/-- One round of `existsCommand`. -/
def existsKey (env : KeyEnv) (d : DbId) (r : Server V × Nat × Int) (key : Bytes) :
    Except ServerFault (Server V × Nat × Int) := do
  let e ← expireIfNeeded env r.2.1 (r.1.dbs d) key
  return (r.1.setDb d e.1, r.2.1 + 1, if (e.1.dict key).isSome then r.2.2 + 1 else r.2.2)

/-- `existsCommand`. -/
def existsCommand (env : KeyEnv) (s : Server V) (d : DbId) (keys : List Bytes) :
    Except ServerFault (Server V × KeyReply) := do
  let r ← keys.foldlM (existsKey env d) (s, 0, 0)
  return (r.1, .int r.2.2)

/-- The rest of `renameGenericCommand` once both keys have been looked up. -/
def renameKey (s : Server V) (d : DbId) (nx : Bool) (key newkey : Bytes) (o : V) (expire : Int)
    (db : RedisDb V) : Except ServerFault (Server V × KeyReply) := do
  let db ← dbAdd db newkey o
  let db ← copyExpire db newkey expire
  let s := s.setDb d (dbDelete db key).1
  let s ← signalModifiedKey s d key
  let s ← signalModifiedKey s d newkey
  return (s, if nx then .int 1 else .ok)

/-- `renameGenericCommand`. -/
def renameGenericCommand (env : KeyEnv) (s : Server V) (d : DbId) (nx : Bool) (key newkey : Bytes) :
    Except ServerFault (Server V × KeyReply) := do
  let r ← lookupKeyWrite env 0 (s.dbs d) key
  match r.2 with
  | none => return (s.setDb d r.1, nokeyerr)
  | some o =>
      if key = newkey then return (s.setDb d r.1, if nx then .int 0 else .ok)
      else do
        let expire ← getExpire r.1 key
        let r ← lookupKeyWrite env 1 r.1 newkey
        if r.2.isSome then
          if nx then return (s.setDb d r.1, .int 0)
          -- the old key is deleted before the new one is added
          else renameKey s d nx key newkey o expire (dbDelete r.1 newkey).1
        else renameKey s d nx key newkey o expire r.1

/-- The database that the argument of `MOVE` selects. -/
def moveTarget (env : KeyEnv) (arg : Bytes) : Option DbId :=
  match string2ll arg with
  | none => none
  | some n =>
      if n < -2147483648 ∨ 2147483647 < n then none
      else if n < 0 ∨ (env.dbnum : Int) ≤ n then none
      else some n.toNat

/-- `moveCommand`. -/
def moveCommand (env : KeyEnv) (s : Server V) (d : DbId) (key arg : Bytes) :
    Except ServerFault (Server V × KeyReply) :=
  if env.clusterEnabled then return (s, .error "ERR MOVE is not allowed in cluster mode")
  else match moveTarget env arg with
    | some dst =>
        if d = dst then return (s, sameobjecterr)
        else do
          let r ← lookupKeyWrite env 0 (s.dbs d) key
          let s := s.setDb d r.1
          match r.2 with
          | none => return (s, .int 0)
          | some o => do
              let expire ← getExpire r.1 key
              let r ← lookupKeyWrite env 1 (s.dbs dst) key
              if r.2.isSome then return (s.setDb dst r.1, .int 0)
              else do
                let db ← dbAdd r.1 key o
                let db ← copyExpire db key expire
                let s := s.setDb dst db
                return (s.setDb d (dbDelete (s.dbs d) key).1, .int 1)
    | none => return (s, outofrangeerr)

/-- `UNIT_SECONDS` and `UNIT_MILLISECONDS`. -/
inductive TimeUnit
  | seconds
  | milliseconds
  deriving DecidableEq, Repr

/-- A sum or a product of `long long`s. -/
def wrap64 (n : Int) : Int := Int.bmod n 18446744073709551616

/-- The time that `expireGenericCommand` sets. -/
def expireTime (unit : TimeUnit) (basetime n : Int) : Int :=
  wrap64 ((if unit = .seconds then wrap64 (n * 1000) else n) + basetime)

/-- `expireGenericCommand`. -/
def expireGenericCommand (env : KeyEnv) (s : Server V) (d : DbId) (basetime : Int) (unit : TimeUnit)
    (key param : Bytes) : Except ServerFault (Server V × KeyReply) :=
  match string2ll param with
  | none => return (s, .error "ERR value is not an integer or out of range")
  | some n => do
      let r ← lookupKeyWrite env 1 (s.dbs d) key
      if r.2.isNone then return (s.setDb d r.1, .int 0)
      -- in the past: a DEL, but not while loading and not on a slave
      else if expireTime unit basetime n ≤ env.mstime 2 ∧ env.loading = false ∧ env.slave = false then do
        let del := dbDelete r.1 key
        if del.2 then do
          let s ← signalModifiedKey (s.setDb d del.1) d key
          return (s, .int 1)
        else .error .expireAssertion
      else do
        let db ← setExpire r.1 key (expireTime unit basetime n)
        let s ← signalModifiedKey (s.setDb d db) d key
        return (s, .int 1)

/-- `ttlGenericCommand`. -/
def ttlGenericCommand (env : KeyEnv) (s : Server V) (d : DbId) (outputMs : Bool) (key : Bytes) :
    Except ServerFault (Server V × KeyReply) := do
  let r ← lookupKeyRead env 0 (s.dbs d) key
  let s := s.setDb d r.1
  if r.2.isNone then return (s, .int (-2))
  else do
    let expire ← getExpire r.1 key
    if expire = -1 then return (s, .int (-1))
    else
      let ttl := max 0 (wrap64 (expire - env.mstime 1))
      return (s, .int (if outputMs then ttl else (wrap64 (ttl + 500)).tdiv 1000))

/-- `persistCommand`. -/
def persistCommand (s : Server V) (d : DbId) (key : Bytes) : Except ServerFault (Server V × KeyReply) :=
  if ((s.dbs d).dict key).isNone then return (s, .int 0)
  else do
    let r ← removeExpire (s.dbs d) key
    return (s.setDb d r.1, if r.2 then .int 1 else .int 0)

/-- `dictEmpty` of both dictionaries. -/
def RedisDb.empty (db : RedisDb V) : RedisDb V := { db with dict := fun _ => none, expires := fun _ => none }

/-- `flushdbCommand`. -/
def flushdbCommand (s : Server V) (d : DbId) : Except ServerFault (Server V × KeyReply) := do
  let s ← touchWatchedKeysOnFlush s (some d)
  return (s.setDb d (s.dbs d).empty, .ok)

/-- `flushallCommand`. -/
def flushallCommand (env : KeyEnv) (s : Server V) : Except ServerFault (Server V × KeyReply) := do
  let s ← touchWatchedKeysOnFlush s none
  return ({ s with dbs := fun x => if x < env.dbnum then (s.dbs x).empty else s.dbs x }, .ok)

/-- The generic commands on keys. -/
inductive KeyCommand
  | del (keys : List Bytes)
  | existing (keys : List Bytes)
  | rename (key newkey : Bytes)
  | renamenx (key newkey : Bytes)
  | move (key db : Bytes)
  | expire (key seconds : Bytes)
  | expireat (key timestamp : Bytes)
  | pexpire (key milliseconds : Bytes)
  | pexpireat (key timestamp : Bytes)
  | ttl (key : Bytes)
  | pttl (key : Bytes)
  | persist (key : Bytes)
  | flushdb
  | flushall
  deriving DecidableEq, Repr

/-- A command of a client whose database is `d`. -/
def runKeyCommand (env : KeyEnv) (s : Server V) (d : DbId) :
    KeyCommand → Except ServerFault (Server V × KeyReply)
  | .del keys => delCommand env s d keys
  | .existing keys => existsCommand env s d keys
  | .rename key newkey => renameGenericCommand env s d false key newkey
  | .renamenx key newkey => renameGenericCommand env s d true key newkey
  | .move key db => moveCommand env s d key db
  | .expire key param => expireGenericCommand env s d (env.mstime 0) .seconds key param
  | .expireat key param => expireGenericCommand env s d 0 .seconds key param
  | .pexpire key param => expireGenericCommand env s d (env.mstime 0) .milliseconds key param
  | .pexpireat key param => expireGenericCommand env s d 0 .milliseconds key param
  | .ttl key => ttlGenericCommand env s d false key
  | .pttl key => ttlGenericCommand env s d true key
  | .persist key => persistCommand s d key
  | .flushdb => flushdbCommand s d
  | .flushall => flushallCommand env s

end Model

/-! ### What the functions of one database do -/

section Database

variable {V : Type} {env : KeyEnv} {i : Nat} {db : RedisDb V} {key : Bytes}

namespace RedisDb

@[simp] theorem dict_setDict (v : Option V) (k : Bytes) :
    (db.setDict key v).dict k = if k = key then v else db.dict k := rfl

@[simp] theorem expires_setDict (v : Option V) : (db.setDict key v).expires = db.expires := rfl

@[simp] theorem watchedKeys_setDict (v : Option V) : (db.setDict key v).watchedKeys = db.watchedKeys := rfl

@[simp] theorem dict_setExpires (w : Option Int) : (db.setExpires key w).dict = db.dict := rfl

@[simp] theorem expires_setExpires (w : Option Int) (k : Bytes) :
    (db.setExpires key w).expires k = if k = key then w else db.expires k := rfl

@[simp] theorem watchedKeys_setExpires (w : Option Int) : (db.setExpires key w).watchedKeys = db.watchedKeys := rfl

@[simp] theorem dict_erase (k : Bytes) : (db.erase key).dict k = if k = key then none else db.dict k := rfl

@[simp] theorem expires_erase (k : Bytes) : (db.erase key).expires k = if k = key then none else db.expires k := rfl

@[simp] theorem watchedKeys_erase : (db.erase key).watchedKeys = db.watchedKeys := rfl

/-- A value with its time to live. -/
def put (db : RedisDb V) (key : Bytes) (v : V) (w : Option Int) : RedisDb V :=
  (db.setExpires key w).setDict key (some v)

@[simp] theorem dict_put (v : V) (w : Option Int) (k : Bytes) :
    (db.put key v w).dict k = if k = key then some v else db.dict k := rfl

@[simp] theorem expires_put (v : V) (w : Option Int) (k : Bytes) :
    (db.put key v w).expires k = if k = key then w else db.expires k := rfl

@[simp] theorem watchedKeys_put (v : V) (w : Option Int) : (db.put key v w).watchedKeys = db.watchedKeys := rfl

theorem ext_get {a b : RedisDb V} (hdict : ∀ k, a.dict k = b.dict k) (hexpires : ∀ k, a.expires k = b.expires k)
    (hwatched : a.watchedKeys = b.watchedKeys) : a = b := by
  obtain ⟨dict, expires, watched⟩ := a
  obtain ⟨dict', expires', watched'⟩ := b
  obtain rfl : dict = dict' := funext hdict
  obtain rfl : expires = expires' := funext hexpires
  obtain rfl : watched = watched' := hwatched
  rfl

/-- Only keys that exist have a time to live. -/
def Consistent (db : RedisDb V) : Prop := ∀ k, (db.expires k).isSome = true → (db.dict k).isSome = true

theorem Consistent.expires_eq_none (h : db.Consistent) (hkey : db.dict key = none) : db.expires key = none := by
  cases hw : db.expires key with
  | none => rfl
  | some w =>
    have hsome := h key (by rw [hw]; rfl)
    rw [hkey] at hsome
    cases hsome

theorem Consistent.erase (h : db.Consistent) (key : Bytes) : (db.erase key).Consistent := by
  intro k hk
  rw [expires_erase] at hk
  rw [dict_erase]
  by_cases hkey : k = key
  · rw [if_pos hkey] at hk
    cases hk
  · rw [if_neg hkey] at hk ⊢
    exact h k hk

theorem Consistent.put (h : db.Consistent) (key : Bytes) (v : V) (w : Option Int) : (db.put key v w).Consistent := by
  intro k hk
  rw [expires_put] at hk
  rw [dict_put]
  by_cases hkey : k = key
  · rw [if_pos hkey]
    rfl
  · rw [if_neg hkey] at hk ⊢
    exact h k hk

theorem Consistent.setDict_some (h : db.Consistent) (key : Bytes) (v : V) : (db.setDict key (some v)).Consistent := by
  intro k hk
  rw [dict_setDict]
  by_cases hkey : k = key
  · rw [if_pos hkey]
    rfl
  · rw [if_neg hkey]
    exact h k hk

theorem Consistent.setExpires (h : db.Consistent) (w : Option Int)
    (hkey : w.isSome = true → (db.dict key).isSome = true) : (db.setExpires key w).Consistent := by
  intro k hk
  rw [expires_setExpires] at hk
  by_cases hk' : k = key
  · rw [if_pos hk'] at hk
    rw [hk']
    exact hkey hk
  · rw [if_neg hk'] at hk
    exact h k hk

end RedisDb

open RedisDb

/-- What `expireIfNeeded` returns. -/
def keyIsExpired (env : KeyEnv) (i : Nat) (db : RedisDb V) (key : Bytes) : Bool :=
  match db.expires key with
  | none => false
  | some w => 0 ≤ w && !env.loading && w < env.now i

/-- What `expireIfNeeded` leaves. -/
def evict (env : KeyEnv) (i : Nat) (db : RedisDb V) (key : Bytes) : RedisDb V :=
  if keyIsExpired env i db key = true ∧ env.slave = false then db.erase key else db

theorem keyIsExpired_eq_false (h : db.expires key = none) : keyIsExpired env i db key = false := by
  unfold keyIsExpired
  rw [h]

theorem keyIsExpired_some {w : Int} (h : db.expires key = some w) :
    keyIsExpired env i db key = (0 ≤ w && !env.loading && w < env.now i) := by
  unfold keyIsExpired
  rw [h]

@[simp] theorem watchedKeys_evict (k : Bytes) : (evict env i db k).watchedKeys = db.watchedKeys := by
  unfold evict
  split <;> rfl

theorem evict_of_false (h : keyIsExpired env i db key = false) : evict env i db key = db := by
  unfold evict
  rw [if_neg]
  intro ⟨htrue, _⟩
  rw [h] at htrue
  cases htrue

theorem dict_evict_of_ne {k : Bytes} (hk : k ≠ key) : (evict env i db key).dict k = db.dict k := by
  unfold evict
  split
  · rw [dict_erase, if_neg hk]
  · rfl

theorem expires_evict_of_ne {k : Bytes} (hk : k ≠ key) : (evict env i db key).expires k = db.expires k := by
  unfold evict
  split
  · rw [expires_erase, if_neg hk]
  · rfl

theorem RedisDb.Consistent.evict (h : db.Consistent) (env : KeyEnv) (i : Nat) (key : Bytes) :
    (evict env i db key).Consistent := by
  unfold Redis.evict
  split
  · exact h.erase key
  · exact h

/-- A key that is found has not been out of date. -/
theorem evict_of_found {o : V} (h : (evict env i db key).dict key = some o) : evict env i db key = db := by
  unfold evict at h ⊢
  split at h
  · rw [dict_erase, if_pos rfl] at h
    cases h
  · rw [if_neg]
    assumption

theorem erase_evict : (evict env i db key).erase key = db.erase key := by
  unfold evict
  split
  · apply ext_get
    · intro k
      by_cases hk : k = key <;> simp [hk]
    · intro k
      by_cases hk : k = key <;> simp [hk]
    · rfl
  · rfl

theorem put_evict (v : V) (w : Option Int) : (evict env i db key).put key v w = db.put key v w := by
  apply ext_get
  · intro k
    by_cases hk : k = key
    · simp [hk]
    · simp [hk, dict_evict_of_ne hk]
  · intro k
    by_cases hk : k = key
    · simp [hk]
    · simp [hk, expires_evict_of_ne hk]
  · rw [watchedKeys_put, watchedKeys_put, watchedKeys_evict]

theorem getExpire_eq (h : db.Consistent) (key : Bytes) : getExpire db key = .ok ((db.expires key).getD (-1)) := by
  unfold getExpire
  cases hw : db.expires key with
  | none => rfl
  | some w =>
    show (if (db.dict key).isSome = true then _ else _) = _
    rw [if_pos (h key (by rw [hw]; rfl))]
    rfl

/-- **`expireIfNeeded`** does not fail. -/
theorem expireIfNeeded_eq (h : db.Consistent) (env : KeyEnv) (i : Nat) (key : Bytes) :
    expireIfNeeded env i db key = .ok (evict env i db key, keyIsExpired env i db key) := by
  unfold expireIfNeeded
  rw [getExpire_eq h]
  cases hw : db.expires key with
  | none =>
    rw [evict_of_false (keyIsExpired_eq_false hw), keyIsExpired_eq_false hw]
    rfl
  | some w =>
    have hsome : (db.dict key).isSome = true := h key (by rw [hw]; rfl)
    show (if w < 0 then _ else _) = _
    unfold evict dbDelete
    rw [keyIsExpired_some hw, hsome]
    by_cases hneg : w < 0
    · have : ¬ 0 ≤ w := by omega
      simp [hneg, this, pure, Except.pure]
    · have hpos : 0 ≤ w := by omega
      by_cases hnow : env.now i ≤ w
      · have : ¬ w < env.now i := by omega
        cases hl : env.loading <;> cases hs : env.slave <;>
          simp [hneg, hpos, hnow, this, pure, Except.pure]
      · have : w < env.now i := by omega
        cases hl : env.loading <;> cases hs : env.slave <;>
          simp [hneg, hpos, hnow, this, pure, Except.pure]

theorem lookupKeyWrite_eq (h : db.Consistent) (env : KeyEnv) (i : Nat) (key : Bytes) :
    lookupKeyWrite env i db key = .ok (evict env i db key, (evict env i db key).dict key) := by
  unfold lookupKeyWrite
  rw [expireIfNeeded_eq h]
  rfl

/-- The value that `lookupKeyRead` returns: on a slave also keys that are out of date are hidden from readers. -/
def readValue (env : KeyEnv) (i : Nat) (db : RedisDb V) (key : Bytes) : Option V :=
  if keyIsExpired env i db key = true ∧ (env.slave = false ∨ env.readonlyClient = true) then none
  else (evict env i db key).dict key

theorem lookupKeyRead_eq (h : db.Consistent) (env : KeyEnv) (i : Nat) (key : Bytes) :
    lookupKeyRead env i db key = .ok (evict env i db key, readValue env i db key) := by
  unfold lookupKeyRead readValue
  rw [expireIfNeeded_eq h]
  show (if keyIsExpired env i db key = true ∧ _ then _ else _) = _
  split <;> rfl

theorem dbAdd_eq (h : db.dict key = none) (v : V) : dbAdd db key v = .ok (db.setDict key (some v)) := by
  unfold dbAdd
  rw [h]
  rfl

theorem dbOverwrite_eq (h : (db.dict key).isSome = true) (v : V) :
    dbOverwrite db key v = .ok (db.setDict key (some v)) := if_pos h

theorem setExpire_eq (h : (db.dict key).isSome = true) (w : Int) :
    setExpire db key w = .ok (db.setExpires key (some w)) := if_pos h

theorem removeExpire_eq (h : (db.dict key).isSome = true) :
    removeExpire db key = .ok (db.setExpires key none, (db.expires key).isSome) := if_pos h

/-- The time to live that `RENAME` and `MOVE` hand over: they take `-1` for none. -/
def keptExpire (w : Option Int) : Option Int := if w = some (-1) then none else w

/-- A key is added with the time to live of another one. -/
theorem addWithExpire_eq (hkey : db.dict key = none) (hexpires : db.expires key = none) (v : V) (w : Option Int) :
    (dbAdd db key v >>= fun db => copyExpire db key (w.getD (-1))) = .ok (db.put key v (keptExpire w)) := by
  rw [dbAdd_eq hkey]
  have hnone : db.setExpires key none = db := by
    apply ext_get
    · exact fun k => rfl
    · intro k
      by_cases hk : k = key <;> simp [hk, hexpires]
    · rfl
  have hsome : ((db.setDict key (some v)).dict key).isSome = true := by
    rw [dict_setDict, if_pos rfl]
    rfl
  unfold keptExpire put
  cases w with
  | none =>
    show Except.ok _ = Except.ok _
    rw [if_neg (by simp), hnone]
  | some w =>
    show (if w ≠ -1 then setExpire (db.setDict key (some v)) key w else .ok _) = _
    by_cases hw : w = -1
    · rw [if_neg (not_not.mpr hw), if_pos (by rw [hw]), hnone]
    · rw [if_pos hw, if_neg (by simpa using hw), setExpire_eq hsome]
      rfl

end Database

/-! ### What the commands do -/

section Commands

open RedisDb

variable {V : Type} {env : KeyEnv} {s t : Server V} {d : DbId} {key : Bytes}

namespace Server

@[simp] theorem dbs_setDb (db : RedisDb V) (x : DbId) : (s.setDb d db).dbs x = if x = d then db else s.dbs x := rfl

@[simp] theorem clients_setDb (db : RedisDb V) : (s.setDb d db).clients = s.clients := rfl

theorem setDb_setDb (db db' : RedisDb V) : (s.setDb d db).setDb d db' = s.setDb d db' := by
  unfold setDb
  congr 1
  ext x
  by_cases hx : x = d <;> simp [hx]

theorem setDb_self : s.setDb d (s.dbs d) = s := by
  unfold setDb
  congr 1
  ext x
  by_cases hx : x = d <;> simp [hx]

theorem watchers_setDb {db : RedisDb V} (hdb : db.watchedKeys = (s.dbs d).watchedKeys) (wk : WatchedKey) :
    (s.setDb d db).watchers wk = s.watchers wk := by
  unfold watchers
  rw [dbs_setDb]
  by_cases hd : wk.db = d
  · rw [if_pos hd, hdb, hd]
  · rw [if_neg hd]

/-- The watchers of a key have been told. -/
def tell (s : Server V) (d : DbId) (key : Bytes) : Server V :=
  (s.markDirty fun c => c ∈ (s.watchers ⟨key, d⟩).getD []).note (.touched fun wk => wk = ⟨key, d⟩)

@[simp] theorem dbs_tell (d : DbId) (key : Bytes) : (s.tell d key).dbs = s.dbs := rfl

@[simp] theorem watchers_tell (d : DbId) (key : Bytes) (wk : WatchedKey) :
    (s.tell d key).watchers wk = s.watchers wk := rfl

end Server

/-- Only keys that exist have a time to live, and both sides of `WATCH` agree. -/
structure KeyspaceInv (s : Server V) : Prop where
  watch : WatchInv s
  consistent : ∀ d, (s.dbs d).Consistent

/-- Only the dictionaries change. -/
theorem WatchInv.of_watchers (h : WatchInv s) (hclients : t.clients = s.clients) (hlist : t.clientList = s.clientList)
    (hwatchers : ∀ wk, t.watchers wk = s.watchers wk) : WatchInv t := by
  constructor
  · intro c cl hcl wk
    rw [hclients] at hcl
    rw [hwatchers]
    exact h.symm c cl hcl wk
  · rw [hclients]
    exact h.keysNodup
  · intro wk l hl
    rw [hwatchers] at hl
    exact h.listsNodup wk l hl
  · intro wk
    rw [hwatchers]
    exact h.nonempty wk
  · intro wk l hl
    rw [hwatchers] at hl
    rw [hclients]
    exact h.live wk l hl
  · rw [hlist, hclients]
    exact h.list
  · rw [hlist]
    exact h.listNodup

/-- Nobody is connected and no key is watched. -/
theorem KeyspaceInv.of_unwatched (hclients : ∀ c, s.clients c = none) (hlist : s.clientList = [])
    (hwatchers : ∀ wk, s.watchers wk = none) (hdbs : ∀ d, (s.dbs d).Consistent) : KeyspaceInv s where
  watch := {
    symm := fun c cl h => by simp [hclients] at h
    keysNodup := fun c cl h => by simp [hclients] at h
    listsNodup := fun wk l h => by simp [hwatchers] at h
    nonempty := fun wk => by simp [hwatchers]
    live := fun wk l h => by simp [hwatchers] at h
    list := fun c => by simp [hlist, hclients]
    listNodup := by simp [hlist] }
  consistent := hdbs

variable {db : RedisDb V}

section

variable (h : KeyspaceInv s)

include h

theorem KeyspaceInv.setDb (hdb : db.Consistent) (hwatched : db.watchedKeys = (s.dbs d).watchedKeys) :
    KeyspaceInv (s.setDb d db) := by
  refine ⟨h.watch.of_watchers rfl rfl (watchers_setDb hwatched), fun x => ?_⟩
  rw [dbs_setDb]
  by_cases hx : x = d
  · rw [if_pos hx]
    exact hdb
  · rw [if_neg hx]
    exact h.consistent x

theorem KeyspaceInv.tell (d : DbId) (key : Bytes) : KeyspaceInv (s.tell d key) :=
  ⟨(h.watch.markDirty _).note _, h.consistent⟩

theorem KeyspaceInv.evict (env : KeyEnv) (i : Nat) (d : DbId) (key : Bytes) :
    KeyspaceInv (s.setDb d (evict env i (s.dbs d) key)) :=
  h.setDb ((h.consistent d).evict env i key) (watchedKeys_evict key)

theorem signalModifiedKey_eq (d : DbId) (key : Bytes) :
    signalModifiedKey s d key = .ok (s.tell d key) := touchWatchedKey_eq h.watch d key

/-- The edit of a database and the signal that follows. -/
theorem signal_setDb_eq (hdb : db.Consistent) (hwatched : db.watchedKeys = (s.dbs d).watchedKeys) (key : Bytes) :
    signalModifiedKey (s.setDb d db) d key = .ok ((s.setDb d db).tell d key) :=
  signalModifiedKey_eq (h.setDb hdb hwatched) d key

/-- `setKey` in one go. -/
theorem setKey_eq (env : KeyEnv) (d : DbId) (key : Bytes) (v : V) :
    setKey env s d key v = .ok ((s.setDb d ((s.dbs d).put key v none)).tell d key) := by
  have hdb := h.consistent d
  have hstore : addOrOverwrite (evict env 0 (s.dbs d) key) key v ((evict env 0 (s.dbs d) key).dict key)
      = .ok ((evict env 0 (s.dbs d) key).setDict key (some v)) := by
    unfold addOrOverwrite
    cases hx : (evict env 0 (s.dbs d) key).dict key with
    | none => exact dbAdd_eq hx v
    | some o => exact dbOverwrite_eq (by rw [hx]; rfl) v
  unfold setKey
  rw [lookupKeyWrite_eq hdb]
  show (addOrOverwrite _ key v _ >>= fun db => removeExpire db key >>= fun r =>
    signalModifiedKey (s.setDb d r.1) d key) = _
  rw [hstore]
  show (removeExpire _ key >>= fun r => signalModifiedKey (s.setDb d r.1) d key) = _
  rw [removeExpire_eq (by rw [dict_setDict, if_pos rfl]; rfl)]
  show signalModifiedKey (s.setDb d ((evict env 0 (s.dbs d) key).put key v none)) d key = _
  rw [put_evict]
  exact signal_setDb_eq h (hdb.put key v none) rfl key

/-- One round of `DEL` in one go. -/
theorem delKey_eq (env : KeyEnv) (d : DbId) (i : Nat) (n : Int) (key : Bytes) :
    delKey env d (s, i, n) key = .ok (if ((evict env i (s.dbs d) key).dict key).isSome = true
      then ((s.setDb d ((s.dbs d).erase key)).tell d key, i + 1, n + 1)
      else (s.setDb d ((s.dbs d).erase key), i + 1, n)) := by
  have hdb := h.consistent d
  unfold delKey dbDelete
  show (expireIfNeeded env i (s.dbs d) key >>= fun e => _) = _
  rw [expireIfNeeded_eq hdb]
  show (if ((evict env i (s.dbs d) key).dict key).isSome = true then _ else _) = _
  rw [erase_evict]
  by_cases hsome : ((evict env i (s.dbs d) key).dict key).isSome = true
  · rw [if_pos hsome, if_pos hsome, signal_setDb_eq h (hdb.erase key) rfl]
    rfl
  · rw [if_neg hsome, if_neg hsome]
    rfl

/-- One round of `EXISTS` in one go. -/
theorem existsKey_eq (env : KeyEnv) (d : DbId) (i : Nat) (n : Int) (key : Bytes) :
    existsKey env d (s, i, n) key = .ok (s.setDb d (evict env i (s.dbs d) key), i + 1,
      if ((evict env i (s.dbs d) key).dict key).isSome then n + 1 else n) := by
  unfold existsKey
  show (expireIfNeeded env i (s.dbs d) key >>= fun e => _) = _
  rw [expireIfNeeded_eq (h.consistent d)]
  rfl

end

/-- A key of the database under another name. -/
def renamed (db : RedisDb V) (key newkey : Bytes) (o : V) : RedisDb V :=
  (db.put newkey o (keptExpire (db.expires key))).erase key

theorem renameKey_eq (h : KeyspaceInv s) {newkey : Bytes} (hdb : db.Consistent)
    (hwatched : db.watchedKeys = (s.dbs d).watchedKeys) (hnew : db.dict newkey = none) (key : Bytes) (nx : Bool)
    (o : V) : renameKey s d nx key newkey o ((db.expires key).getD (-1)) db
      = .ok (((s.setDb d (renamed db key newkey o)).tell d key).tell d newkey, if nx then .int 1 else .ok) := by
  have hrenamed : (renamed db key newkey o).Consistent := (hdb.put newkey o _).erase key
  have hinv := h.setDb hrenamed hwatched
  have hadd := addWithExpire_eq hnew (hdb.expires_eq_none hnew) o (db.expires key)
  obtain ⟨a, ha, hb⟩ := bind_eq_ok.mp hadd
  unfold renameKey dbDelete
  rw [ha]
  show (copyExpire a newkey ((db.expires key).getD (-1)) >>= fun db => _) = _
  rw [hb]
  show (signalModifiedKey (s.setDb d (renamed db key newkey o)) d key >>= fun s => _) = _
  rw [signalModifiedKey_eq hinv]
  show (signalModifiedKey _ d newkey >>= fun s => _) = _
  rw [signalModifiedKey_eq (hinv.tell d key)]
  rfl

/-- `RENAME` and `RENAMENX` in one go. -/
def renameResult (env : KeyEnv) (s : Server V) (d : DbId) (nx : Bool) (key newkey : Bytes) : Server V × KeyReply :=
  match (evict env 0 (s.dbs d) key).dict key with
  | none => (s.setDb d (evict env 0 (s.dbs d) key), nokeyerr)
  | some o =>
      if key = newkey then (s, if nx then .int 0 else .ok)
      else if ((evict env 1 (s.dbs d) newkey).dict newkey).isSome = true ∧ nx = true then (s, .int 0)
      else (((s.setDb d (renamed (s.dbs d) key newkey o)).tell d key).tell d newkey, if nx then .int 1 else .ok)

theorem renamed_congr {db db' : RedisDb V} {newkey : Bytes} (hne : key ≠ newkey)
    (hdict : ∀ k, k ≠ newkey → db'.dict k = db.dict k) (hexpires : ∀ k, k ≠ newkey → db'.expires k = db.expires k)
    (hwatched : db'.watchedKeys = db.watchedKeys) (o : V) : renamed db' key newkey o = renamed db key newkey o := by
  unfold renamed
  rw [hexpires key hne]
  apply ext_get
  · intro k
    by_cases hk : k = newkey
    · simp [hk]
    · simp [hk, hdict k hk]
  · intro k
    by_cases hk : k = newkey
    · simp [hk]
    · simp [hk, hexpires k hk]
  · exact hwatched

theorem renameGenericCommand_eq (h : KeyspaceInv s) (env : KeyEnv) (d : DbId) (nx : Bool) (key newkey : Bytes) :
    renameGenericCommand env s d nx key newkey = .ok (renameResult env s d nx key newkey) := by
  have hdb := h.consistent d
  unfold renameGenericCommand renameResult
  rw [lookupKeyWrite_eq hdb, ok_bind]
  cases hfound : (evict env 0 (s.dbs d) key).dict key with
  | none => rfl
  | some o =>
    have hself := evict_of_found hfound
    by_cases hne : key = newkey
    · simp only [if_pos hne, hself, setDb_self]
      rfl
    · simp only [if_neg hne, hself, getExpire_eq hdb, lookupKeyWrite_eq hdb, ok_bind]
      cases hnew : (evict env 1 (s.dbs d) newkey).dict newkey with
      | none =>
        have hren := renameKey_eq h (hdb.evict env 1 newkey) (watchedKeys_evict newkey) hnew key nx o
        rw [renamed_congr hne (fun k hk => dict_evict_of_ne hk) (fun k hk => expires_evict_of_ne hk)
          (watchedKeys_evict newkey) o, expires_evict_of_ne hne] at hren
        simpa using hren
      | some o' =>
        cases nx with
        | true => 
          simp only [evict_of_found hnew, setDb_self]
          rfl
        | false =>
          -- the old value of the new key goes first
          have hcongr : renamed ((s.dbs d).erase newkey) key newkey o = renamed (s.dbs d) key newkey o :=
            renamed_congr hne (fun k hk => if_neg hk) (fun k hk => if_neg hk) watchedKeys_erase o
          have hren := renameKey_eq h (hdb.erase newkey) rfl (if_pos rfl) key false o
          rw [hcongr, expires_erase, if_neg hne] at hren
          simpa [dbDelete, evict_of_found hnew] using hren

/-- `MOVE` in one go. -/
def moveResult (env : KeyEnv) (s : Server V) (d : DbId) (key arg : Bytes) : Server V × KeyReply :=
  if env.clusterEnabled then (s, .error "ERR MOVE is not allowed in cluster mode")
  else match moveTarget env arg with
    | some dst =>
        if d = dst then (s, sameobjecterr)
        else match (evict env 0 (s.dbs d) key).dict key with
          | none => (s.setDb d (evict env 0 (s.dbs d) key), .int 0)
          | some o =>
              if ((evict env 1 (s.dbs dst) key).dict key).isSome then (s, .int 0)
              else ((s.setDb dst ((s.dbs dst).put key o (keptExpire ((s.dbs d).expires key)))).setDb d
                ((s.dbs d).erase key), .int 1)
    | none => (s, outofrangeerr)

theorem moveCommand_eq (h : KeyspaceInv s) (env : KeyEnv) (d : DbId) (key arg : Bytes) :
    moveCommand env s d key arg = .ok (moveResult env s d key arg) := by
  unfold moveCommand moveResult
  cases env.clusterEnabled with
  | true => rfl
  | false =>
    cases moveTarget env arg with
    | none => rfl
    | some dst =>
      by_cases hdst : d = dst
      · simp only [if_pos hdst]
        rfl
      · have hdb := h.consistent d
        have hdb' := h.consistent dst
        simp only [if_neg hdst, lookupKeyWrite_eq hdb, ok_bind]
        cases hfound : (evict env 0 (s.dbs d) key).dict key with
        | none => rfl
        | some o =>
          simp only [evict_of_found hfound, setDb_self, getExpire_eq hdb, lookupKeyWrite_eq hdb', ok_bind]
          cases hnew : (evict env 1 (s.dbs dst) key).dict key with
          | some o' =>
            simp only [evict_of_found hnew, setDb_self]
            rfl
          | none =>
            have hexpires := (hdb'.evict env 1 key).expires_eq_none hnew
            obtain ⟨a, ha, hb⟩ := bind_eq_ok.mp (addWithExpire_eq hnew hexpires o ((s.dbs d).expires key))
            rw [put_evict] at hb
            simp only [ha, hb, ok_bind, dbs_setDb, if_neg hdst, dbDelete]
            rfl

/-- `EXPIRE` and its variants in one go. -/
def expireResult (env : KeyEnv) (s : Server V) (d : DbId) (basetime : Int) (unit : TimeUnit) (key param : Bytes) :
    Server V × KeyReply :=
  match string2ll param with
  | none => (s, .error "ERR value is not an integer or out of range")
  | some n =>
      match (evict env 1 (s.dbs d) key).dict key with
      | none => (s.setDb d (evict env 1 (s.dbs d) key), .int 0)
      | some _ =>
          if expireTime unit basetime n ≤ env.mstime 2 ∧ env.loading = false ∧ env.slave = false then
            ((s.setDb d ((s.dbs d).erase key)).tell d key, .int 1)
          else ((s.setDb d ((s.dbs d).setExpires key (some (expireTime unit basetime n)))).tell d key, .int 1)

theorem expireGenericCommand_eq (h : KeyspaceInv s) (env : KeyEnv) (d : DbId) (basetime : Int) (unit : TimeUnit)
    (key param : Bytes) :
    expireGenericCommand env s d basetime unit key param = .ok (expireResult env s d basetime unit key param) := by
  have hdb := h.consistent d
  unfold expireGenericCommand expireResult
  cases string2ll param with
  | none => rfl
  | some n =>
    simp only [lookupKeyWrite_eq hdb, ok_bind]
    cases hfound : (evict env 1 (s.dbs d) key).dict key with
    | none => rfl
    | some o =>
      have hself := evict_of_found hfound
      rw [hself] at hfound
      have hsome : ((s.dbs d).dict key).isSome = true := by
        rw [hfound]
        rfl
      by_cases hpast : expireTime unit basetime n ≤ env.mstime 2 ∧ env.loading = false ∧ env.slave = false
      · simp only [hself, Option.isNone_some, dbDelete, hsome, if_pos hpast, Bool.false_eq_true, if_false, if_true]
        rw [signal_setDb_eq h (hdb.erase key) rfl]
        rfl
      · simp only [hself, Option.isNone_some, if_neg hpast, Bool.false_eq_true, if_false, setExpire_eq hsome, ok_bind]
        rw [signal_setDb_eq h (hdb.setExpires _ fun _ => hsome) rfl]
        rfl

/-- `TTL` and `PTTL` in one go. -/
def ttlResult (env : KeyEnv) (s : Server V) (d : DbId) (outputMs : Bool) (key : Bytes) : Server V × KeyReply :=
  (s.setDb d (evict env 0 (s.dbs d) key),
    if (readValue env 0 (s.dbs d) key).isNone then .int (-2)
    else if ((evict env 0 (s.dbs d) key).expires key).getD (-1) = -1 then .int (-1)
    else
      let ttl := max 0 (wrap64 (((evict env 0 (s.dbs d) key).expires key).getD (-1) - env.mstime 1))
      .int (if outputMs then ttl else (wrap64 (ttl + 500)).tdiv 1000))

theorem ttlGenericCommand_eq (h : KeyspaceInv s) (env : KeyEnv) (d : DbId) (outputMs : Bool) (key : Bytes) :
    ttlGenericCommand env s d outputMs key = .ok (ttlResult env s d outputMs key) := by
  have hdb := h.consistent d
  unfold ttlGenericCommand ttlResult
  simp only [lookupKeyRead_eq hdb, getExpire_eq (hdb.evict env 0 key), ok_bind]
  by_cases hnone : (readValue env 0 (s.dbs d) key).isNone = true
  · simp only [if_pos hnone]
    rfl
  · simp only [if_neg hnone]
    by_cases hexpire : ((evict env 0 (s.dbs d) key).expires key).getD (-1) = -1
    · simp only [if_pos hexpire]
      rfl
    · simp only [if_neg hexpire]
      rfl

/-- `PERSIST` in one go. -/
def persistResult (s : Server V) (d : DbId) (key : Bytes) : Server V × KeyReply :=
  if ((s.dbs d).dict key).isNone then (s, .int 0)
  else (s.setDb d ((s.dbs d).setExpires key none), if ((s.dbs d).expires key).isSome then .int 1 else .int 0)

theorem persistCommand_eq (s : Server V) (d : DbId) (key : Bytes) :
    persistCommand s d key = .ok (persistResult s d key) := by
  unfold persistCommand persistResult
  cases hfound : (s.dbs d).dict key with
  | none => rfl
  | some o =>
    have hsome : ((s.dbs d).dict key).isSome = true := by
      rw [hfound]
      rfl
    simp only [removeExpire_eq hsome, ok_bind]
    rfl

/-- The clients that watch one of the keys have been told. -/
def Server.tellFlush (s : Server V) (dbid : Option DbId) : Server V :=
  (s.markDirty fun c => (s.clients c).any fun cl => cl.watchedKeys.any (flushedKey s dbid)).note
    (.touched (flushedKey s dbid))

theorem KeyspaceInv.tellFlush (h : KeyspaceInv s) (dbid : Option DbId) : KeyspaceInv (s.tellFlush dbid) :=
  ⟨(h.watch.markDirty _).note _, h.consistent⟩

theorem flushdbCommand_eq (h : KeyspaceInv s) (d : DbId) :
    flushdbCommand s d = .ok ((s.tellFlush (some d)).setDb d (s.dbs d).empty, .ok) := by
  unfold flushdbCommand
  rw [touchWatchedKeysOnFlush_eq h.watch]
  rfl

/-- The databases are emptied. -/
def Server.emptyDb (s : Server V) (dbnum : Nat) : Server V :=
  { s with dbs := fun x => if x < dbnum then (s.dbs x).empty else s.dbs x }

theorem flushallCommand_eq (h : KeyspaceInv s) (env : KeyEnv) :
    flushallCommand env s = .ok ((s.tellFlush none).emptyDb env.dbnum, .ok) := by
  unfold flushallCommand
  rw [touchWatchedKeysOnFlush_eq h.watch]
  rfl

theorem consistent_empty (db : RedisDb V) : db.empty.Consistent := by
  intro k hk
  cases hk

/-! ### Each command keeps the invariant -/

section

variable (h : KeyspaceInv s)

include h

theorem delKey_spec (env : KeyEnv) (d : DbId) (i : Nat) (n : Int) (key : Bytes) :
    ∃ r, delKey env d (s, i, n) key = .ok r ∧ KeyspaceInv r.1 := by
  have herase := h.setDb ((h.consistent d).erase key) rfl
  refine ⟨_, delKey_eq h env d i n key, ?_⟩
  split
  · exact herase.tell d key
  · exact herase

theorem delCommand_spec (env : KeyEnv) (d : DbId) (keys : List Bytes) :
    Sat (delCommand env s d keys) (fun r => KeyspaceInv r.1) (fun _ => False) := by
  unfold delCommand
  have hloop : Sat (keys.foldlM (delKey env d) (s, 0, 0)) (fun r => KeyspaceInv r.1) (fun _ => False) := by
    refine sat_foldlM (fun _ (r : Server V × Nat × Int) => KeyspaceInv r.1) keys _ h fun done key rest r _ hr => ?_
    obtain ⟨r', hr', hinv⟩ := delKey_spec hr env d r.2.1 r.2.2 key
    rw [show delKey env d r key = .ok r' from hr']
    exact hinv
  exact hloop.bind fun r hr => (sat_pure _ _ _).mpr hr

theorem existsCommand_spec (env : KeyEnv) (d : DbId) (keys : List Bytes) :
    Sat (existsCommand env s d keys) (fun r => KeyspaceInv r.1) (fun _ => False) := by
  unfold existsCommand
  have hloop : Sat (keys.foldlM (existsKey env d) (s, 0, 0)) (fun r => KeyspaceInv r.1) (fun _ => False) := by
    refine sat_foldlM (fun _ (r : Server V × Nat × Int) => KeyspaceInv r.1) keys _ h fun done key rest r _ hr => ?_
    rw [show existsKey env d r key = _ from existsKey_eq hr env d r.2.1 r.2.2 key]
    exact hr.evict env _ d key
  exact hloop.bind fun r hr => (sat_pure _ _ _).mpr hr

theorem KeyspaceInv.renamed (d : DbId) (key newkey : Bytes) (o : V) :
    KeyspaceInv (s.setDb d (renamed (s.dbs d) key newkey o)) :=
  h.setDb (((h.consistent d).put newkey o _).erase key) rfl

theorem renameResult_spec (env : KeyEnv) (d : DbId) (nx : Bool) (key newkey : Bytes) :
    KeyspaceInv (renameResult env s d nx key newkey).1 := by
  unfold renameResult
  split
  · exact h.evict env 0 d key
  · split
    · exact h
    · split
      · exact h
      · exact ((h.renamed d key newkey _).tell d key).tell d newkey

theorem moveResult_spec (env : KeyEnv) (d : DbId) (key arg : Bytes) :
    KeyspaceInv (moveResult env s d key arg).1 := by
  unfold moveResult
  split
  · exact h
  · split
    · rename_i dst _
      split
      · exact h
      · split
        · exact h.evict env 0 d key
        · rename_i o _
          split
          · exact h
          · have hput := h.setDb (d := dst) ((h.consistent dst).put key o (keptExpire ((s.dbs d).expires key))) rfl
            refine hput.setDb ((h.consistent d).erase key) ?_
            rw [dbs_setDb, if_neg (by assumption)]
            rfl
    · exact h

theorem expireResult_spec (env : KeyEnv) (d : DbId) (basetime : Int) (unit : TimeUnit) (key param : Bytes) :
    KeyspaceInv (expireResult env s d basetime unit key param).1 := by
  unfold expireResult
  split
  · exact h
  · split
    · exact h.evict env 1 d key
    · rename_i o hfound
      split
      · exact (h.setDb ((h.consistent d).erase key) rfl).tell d key
      · rw [evict_of_found hfound] at hfound
        refine (h.setDb ((h.consistent d).setExpires _ fun _ => ?_) rfl).tell d key
        rw [hfound]
        rfl

theorem persistResult_spec (d : DbId) (key : Bytes) : KeyspaceInv (persistResult s d key).1 := by
  unfold persistResult
  split
  · exact h
  · exact h.setDb ((h.consistent d).setExpires none fun hnone => Bool.noConfusion hnone) rfl

theorem emptyDb_spec (dbnum : Nat) : KeyspaceInv (s.emptyDb dbnum) := by
  refine ⟨h.watch.of_watchers rfl rfl fun wk => ?_, fun x => ?_⟩
  · show (if wk.db < dbnum then (s.dbs wk.db).empty else s.dbs wk.db).watchedKeys wk.key = _
    split <;> rfl
  · show (if x < dbnum then (s.dbs x).empty else s.dbs x).Consistent
    split
    · exact consistent_empty _
    · exact h.consistent x

/-- **Step lemma**: no command fails, and the invariant stays. -/
theorem runKeyCommand_spec (env : KeyEnv) (d : DbId) (cmd : KeyCommand) :
    Sat (runKeyCommand env s d cmd) (fun r => KeyspaceInv r.1) (fun _ => False) := by
  have hrename : ∀ nx key newkey,
      Sat (renameGenericCommand env s d nx key newkey) (fun r => KeyspaceInv r.1) (fun _ => False) := by
    intro nx key newkey
    rw [renameGenericCommand_eq h]
    exact renameResult_spec h env d nx key newkey
  have hexpire : ∀ basetime unit key param,
      Sat (expireGenericCommand env s d basetime unit key param) (fun r => KeyspaceInv r.1) (fun _ => False) := by
    intro basetime unit key param
    rw [expireGenericCommand_eq h]
    exact expireResult_spec h env d basetime unit key param
  have httl : ∀ ms key, Sat (ttlGenericCommand env s d ms key) (fun r => KeyspaceInv r.1) (fun _ => False) := by
    intro ms key
    rw [ttlGenericCommand_eq h]
    exact h.evict env 0 d key
  cases cmd with
  | del keys => exact delCommand_spec h env d keys
  | existing keys => exact existsCommand_spec h env d keys
  | rename key newkey => exact hrename false key newkey
  | renamenx key newkey => exact hrename true key newkey
  | move key arg =>
    show Sat (moveCommand env s d key arg) _ _
    rw [moveCommand_eq h]
    exact moveResult_spec h env d key arg
  | expire key param | expireat key param | pexpire key param | pexpireat key param => exact hexpire _ _ key param
  | ttl key => exact httl false key
  | pttl key => exact httl true key
  | persist key =>
    show Sat (persistCommand s d key) _ _
    rw [persistCommand_eq]
    exact persistResult_spec h d key
  | flushdb =>
    show Sat (flushdbCommand s d) _ _
    rw [flushdbCommand_eq h]
    exact (h.tellFlush (some d)).setDb (consistent_empty _) rfl
  | flushall =>
    show Sat (flushallCommand env s) _ _
    rw [flushallCommand_eq h]
    exact emptyDb_spec (h.tellFlush none) env.dbnum

end

end Commands

/-! ### Runs -/

section Runs

open RedisDb

variable {V : Type} {s t : Server V}

/-- The functions of `db.c` that change the keyspace. -/
inductive KeyOp (V : Type)
  | dbAdd (d : DbId) (key : Bytes) (val : V)
  | dbOverwrite (d : DbId) (key : Bytes) (val : V)
  | setKey (env : KeyEnv) (d : DbId) (key : Bytes) (val : V)
  | dbDelete (d : DbId) (key : Bytes)
  | setExpire (d : DbId) (key : Bytes) (w : Int)
  | removeExpire (d : DbId) (key : Bytes)
  | expireIfNeeded (env : KeyEnv) (i : Nat) (d : DbId) (key : Bytes)
  | command (env : KeyEnv) (d : DbId) (cmd : KeyCommand)

def KeyOp.run (s : Server V) : KeyOp V → Except ServerFault (Server V)
  | .dbAdd d key val => (Redis.dbAdd (s.dbs d) key val).map (s.setDb d)
  | .dbOverwrite d key val => (Redis.dbOverwrite (s.dbs d) key val).map (s.setDb d)
  | .setKey env d key val => Redis.setKey env s d key val
  | .dbDelete d key => .ok (s.setDb d (Redis.dbDelete (s.dbs d) key).1)
  | .setExpire d key w => (Redis.setExpire (s.dbs d) key w).map (s.setDb d)
  | .removeExpire d key => (Redis.removeExpire (s.dbs d) key).map fun r => s.setDb d r.1
  | .expireIfNeeded env i d key => (Redis.expireIfNeeded env i (s.dbs d) key).map fun r => s.setDb d r.1
  | .command env d cmd => (runKeyCommand env s d cmd).map Prod.fst

/-- What the comments of `dbAdd`, `dbOverwrite`, `setExpire` and `removeExpire` ask of their callers. -/
def KeyOp.Allowed (s : Server V) : KeyOp V → Prop
  | .dbAdd d key _ => (s.dbs d).dict key = none
  | .dbOverwrite d key _ | .setExpire d key _ | .removeExpire d key => ((s.dbs d).dict key).isSome = true
  | _ => True

/-- The states that the operations lead to, with anything in between that leaves the keyspace alone. -/
inductive KeyReachable : Server V → Prop
  | init {s : Server V} : WatchInv s → (∀ d k, (s.dbs d).dict k = none ∧ (s.dbs d).expires k = none) → KeyReachable s
  | op {s t : Server V} (op : KeyOp V) : KeyReachable s → op.run s = .ok t → KeyReachable t
  | clients {s t : Server V} : KeyReachable s → WatchInv t →
      (∀ d, (t.dbs d).dict = (s.dbs d).dict ∧ (t.dbs d).expires = (s.dbs d).expires) → KeyReachable t

/-- **Step lemma** of the operations. -/
theorem KeyOp.run_spec (h : KeyspaceInv s) (op : KeyOp V) :
    ((∃ t, op.run s = .ok t) ↔ op.Allowed s) ∧ ∀ t, op.run s = .ok t → KeyspaceInv t := by
  cases op with
  | dbAdd d key val =>
    refine ok_iff_of_cases (fun hkey => ⟨_, ?_, h.setDb ((h.consistent d).setDict_some key val) rfl⟩) fun hkey => ?_
    · show (Redis.dbAdd (s.dbs d) key val).map (s.setDb d) = _
      rw [dbAdd_eq hkey]
      rfl
    · refine ⟨.addAssertion, ?_⟩
      show (Redis.dbAdd (s.dbs d) key val).map (s.setDb d) = _
      unfold Redis.dbAdd
      rw [if_pos (Option.isSome_iff_ne_none.mpr hkey)]
      rfl
  | dbOverwrite d key val =>
    refine ok_iff_of_cases (fun hkey => ⟨_, ?_, h.setDb ((h.consistent d).setDict_some key val) rfl⟩) fun hkey => ?_
    · show (Redis.dbOverwrite (s.dbs d) key val).map (s.setDb d) = _
      rw [dbOverwrite_eq hkey]
      rfl
    · refine ⟨.overwriteAssertion, ?_⟩
      show (Redis.dbOverwrite (s.dbs d) key val).map (s.setDb d) = _
      rw [show Redis.dbOverwrite (s.dbs d) key val = .error _ from if_neg hkey]
      rfl
  | setExpire d key w =>
    refine ok_iff_of_cases (fun hkey => ⟨_, ?_, h.setDb ((h.consistent d).setExpires (some w) fun _ => hkey) rfl⟩)
      fun hkey => ?_
    · show (Redis.setExpire (s.dbs d) key w).map (s.setDb d) = _
      rw [setExpire_eq hkey]
      rfl
    · refine ⟨.expireAssertion, ?_⟩
      show (Redis.setExpire (s.dbs d) key w).map (s.setDb d) = _
      rw [show Redis.setExpire (s.dbs d) key w = .error _ from if_neg hkey]
      rfl
  | removeExpire d key =>
    refine ok_iff_of_cases (fun hkey => ⟨_, ?_, h.setDb ((h.consistent d).setExpires none fun _ => hkey) rfl⟩)
      fun hkey => ?_
    · show (Redis.removeExpire (s.dbs d) key).map _ = _
      rw [removeExpire_eq hkey]
      rfl
    · refine ⟨.expireAssertion, ?_⟩
      show (Redis.removeExpire (s.dbs d) key).map _ = _
      rw [show Redis.removeExpire (s.dbs d) key = .error _ from if_neg hkey]
      rfl
  | setKey env d key val =>
    have hput := (h.setDb ((h.consistent d).put key val none) rfl).tell d key
    exact ok_iff_of_cases (fun _ => ⟨_, setKey_eq h env d key val, hput⟩) fun hno => absurd trivial hno
  | dbDelete d key =>
    have herase := h.setDb ((h.consistent d).erase key) rfl
    exact ok_iff_of_cases (fun _ => ⟨_, rfl, herase⟩) fun hno => absurd trivial hno
  | expireIfNeeded env i d key =>
    refine ok_iff_of_cases (fun _ => ⟨_, ?_, h.evict env i d key⟩) fun hno => absurd trivial hno
    show (Redis.expireIfNeeded env i (s.dbs d) key).map _ = _
    rw [expireIfNeeded_eq (h.consistent d)]
    rfl
  | command env d cmd =>
    obtain ⟨r, hr, hinv⟩ := (runKeyCommand_spec h env d cmd).exists_ok
    refine ok_iff_of_cases (fun _ => ⟨r.1, ?_, hinv⟩) fun hno => absurd trivial hno
    show (runKeyCommand env s d cmd).map Prod.fst = _
    rw [hr]
    rfl

/-- **Run lemma**. -/
theorem KeyReachable.inv (h : KeyReachable s) : KeyspaceInv s := by
  induction h with
  | init hwatch hempty =>
    refine ⟨hwatch, fun d k hk => ?_⟩
    rw [(hempty d k).2] at hk
    cases hk
  | op op hs hstep ih => exact (op.run_spec ih).2 _ hstep
  | @clients s t hs hwatch hsame ih =>
    refine ⟨hwatch, fun d k hk => ?_⟩
    rw [(hsame d).2] at hk
    rw [(hsame d).1]
    exact ih.consistent d k hk

/-- The key `newkey` has now what `key` had, and `key` is gone. -/
structure HandedOver (s t : Server V) (d : DbId) (key : Bytes) (dst : DbId) (newkey : Bytes) : Prop where
  found : ((s.dbs d).dict key).isSome = true
  value : (t.dbs dst).dict newkey = (s.dbs d).dict key
  ttl : (t.dbs dst).expires newkey = (s.dbs d).expires key
  gone : (t.dbs d).dict key = none
  goneTtl : (t.dbs d).expires key = none

theorem keptExpire_eq_iff (w : Option Int) : keptExpire w = w ↔ w ≠ some (-1) := by
  unfold keptExpire
  by_cases hw : w = some (-1)
  · rw [if_pos hw, hw]
    simp
  · rw [if_neg hw]
    exact iff_of_true rfl hw

/-- `RENAME` with two different keys. -/
theorem renameResult_handedOver {env : KeyEnv} {d : DbId} {nx : Bool} {key newkey : Bytes} (hne : key ≠ newkey)
    (hr : (renameResult env s d nx key newkey).2 = if nx then .int 1 else .ok) :
    HandedOver s (renameResult env s d nx key newkey).1 d key d newkey ↔ (s.dbs d).expires key ≠ some (-1) := by
  have hne' : newkey ≠ key := Ne.symm hne
  unfold renameResult at hr ⊢
  cases hfound : (evict env 0 (s.dbs d) key).dict key with
  | none =>
    rw [hfound] at hr
    cases nx <;> cases hr
  | some o =>
    have hself := evict_of_found hfound
    rw [hself] at hfound
    rw [← keptExpire_eq_iff]
    simp only [hself, hfound, if_neg hne] at hr ⊢
    split at hr
    · rename_i hnx
      rw [hnx.2] at hr
      cases hr
    · rename_i hnx
      rw [if_neg hnx]
      constructor
      · intro hover
        have httl := hover.ttl
        simpa [renamed, hne'] using httl
      · intro hkept
        constructor
        · rw [hfound]
          rfl
        · simp [renamed, hne', hfound]
        · simp [renamed, hne', hkept]
        · simp [renamed]
        · simp [renamed]

/-- `MOVE` of a key. -/
theorem moveResult_handedOver {env : KeyEnv} {d : DbId} {key arg : Bytes}
    (hr : (moveResult env s d key arg).2 = .int 1) : ∃ dst, moveTarget env arg = some dst ∧ d ≠ dst ∧
      (HandedOver s (moveResult env s d key arg).1 d key dst key ↔ (s.dbs d).expires key ≠ some (-1)) := by
  unfold moveResult at hr ⊢
  cases hcluster : env.clusterEnabled with
  | true =>
    rw [hcluster] at hr
    cases hr
  | false =>
    cases hdst : moveTarget env arg with
    | none =>
      rw [hcluster, hdst] at hr
      cases hr
    | some dst =>
      refine ⟨dst, rfl, ?_⟩
      simp only [hcluster, hdst, Bool.false_eq_true, if_false] at hr ⊢
      by_cases hd : d = dst
      · rw [if_pos hd] at hr
        cases hr
      · have hd' : dst ≠ d := Ne.symm hd
        refine ⟨hd, ?_⟩
        rw [if_neg hd] at hr ⊢
        cases hfound : (evict env 0 (s.dbs d) key).dict key with
        | none =>
          rw [hfound] at hr
          cases hr
        | some o =>
          have hself := evict_of_found hfound
          rw [hself] at hfound
          simp only [hself, hfound] at hr ⊢
          split at hr
          · cases hr
          · rename_i hnew
            rw [if_neg hnew, ← keptExpire_eq_iff]
            constructor
            · intro hover
              have httl := hover.ttl
              simpa [hd'] using httl
            · intro hkept
              constructor
              · rw [hfound]
                rfl
              · simp [hd', hfound]
              · simp [hd', hkept]
              · simp
              · simp

/-- What is true of a keyspace. -/
structure KeyspaceLaws (s : Server V) : Prop where
  /-- The keys of `expires` are keys of `dict`. -/
  subset : ∀ d k, ((s.dbs d).expires k).isSome = true → ((s.dbs d).dict k).isSome = true
  getExpire : ∀ d k, ∃ w, getExpire (s.dbs d) k = .ok w
  /-- The assertions fail for callers that break their part only. -/
  asserts : ∀ op : KeyOp V, (∃ t, op.run s = .ok t) ↔ op.Allowed s
  setKey : ∀ env d key v, ∃ t, setKey env s d key v = .ok t ∧ (t.dbs d).dict key = some v ∧ (t.dbs d).expires key = none
  /-- A key that is renamed to itself. -/
  renameSelf : ∀ env d nx key t r, renameGenericCommand env s d nx key key = .ok (t, r) → r ≠ nokeyerr → t = s
  rename : ∀ env d nx key newkey t, renameGenericCommand env s d nx key newkey = .ok (t, if nx then .int 1 else .ok) →
    key ≠ newkey → (HandedOver s t d key d newkey ↔ (s.dbs d).expires key ≠ some (-1))
  move : ∀ env d key arg t, moveCommand env s d key arg = .ok (t, .int 1) → ∃ dst, moveTarget env arg = some dst ∧
    d ≠ dst ∧ (HandedOver s t d key dst key ↔ (s.dbs d).expires key ≠ some (-1))

theorem renameResult_self {env : KeyEnv} {d : DbId} {nx : Bool} {key : Bytes}
    (hr : (renameResult env s d nx key key).2 ≠ nokeyerr) : (renameResult env s d nx key key).1 = s := by
  unfold renameResult at hr ⊢
  cases hfound : (evict env 0 (s.dbs d) key).dict key with
  | none =>
    rw [hfound] at hr
    exact absurd rfl hr
  | some o => simp

end Runs

/-! ### A time to live of minus one -/

/-- A server without clients and without keys. -/
def noKeys : Server Nat := ⟨fun _ => ⟨fun _ => none, fun _ => none, fun _ => none⟩, fun _ => none, [], []⟩

/-- A slave that accepts writes. -/
def writableSlave : KeyEnv := ⟨16, false, false, true, none, false, fun _ => 1000⟩

theorem watchInv_noKeys : WatchInv noKeys := by
  constructor
  · intro c cl hcl
    cases hcl
  · intro c cl hcl
    cases hcl
  · intro wk l hl
    cases hl
  · intro wk hl
    cases hl
  · intro wk l hl
    cases hl
  · intro c
    exact iff_of_false List.not_mem_nil Bool.false_ne_true
  · exact List.nodup_nil

theorem keyReachable_noKeys : KeyReachable noKeys := .init watchInv_noKeys fun _ _ => ⟨rfl, rfl⟩

/-- A database with the key `a`. -/
def withKeyA : Server Nat := (noKeys.setDb 0 ((noKeys.dbs 0).put [97] 7 none)).tell 0 [97]

/-- After `PEXPIREAT a -1`. -/
def withMinusOne : Server Nat := (withKeyA.setDb 0 ((withKeyA.dbs 0).setExpires [97] (some (-1)))).tell 0 [97]

theorem keyReachable_withKeyA : KeyReachable withKeyA :=
  .op (.setKey writableSlave 0 [97] 7) keyReachable_noKeys (setKey_eq keyReachable_noKeys.inv writableSlave 0 [97] 7)

theorem keyReachable_withMinusOne : KeyReachable withMinusOne := by
  have hresult : expireResult writableSlave withKeyA 0 0 .milliseconds [97] [45, 49] = (withMinusOne, .int 1) := rfl
  apply KeyReachable.op (.command writableSlave 0 (.pexpireat [97] [45, 49])) keyReachable_withKeyA
  show Except.map Prod.fst (expireGenericCommand writableSlave withKeyA 0 0 .milliseconds [97] [45, 49]) = _
  rw [expireGenericCommand_eq keyReachable_withKeyA.inv, hresult]
  rfl

end Redis
