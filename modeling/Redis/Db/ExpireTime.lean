import Redis.Db.Expiry
import Redis.Aof.Expire

namespace Redis

open Outcome Server RedisDb

/-!
# The arithmetic of times to live

Seven commands and `RESTORE` turn their argument into a time in 64-bit arithmetic.  The exact
time is the argument in milliseconds, plus the current time for all but `EXPIREAT` and
`PEXPIREAT`.

* `setGenericCommand`, `restoreCommand` — the commands besides those of `expireGenericCommand`;
* `TimedCommand` — all of them, and `TimedCommand.time`, the exact time;
* `Refused`, `Obeys` — the command is refused, or the key has the exact time;
* `expireTime_eq` — what the arithmetic makes of the exact time;
* `expire_exact_iff` — when a command is refused or does what the exact time says.
-/

/-- What a command reads of its string arguments: a string object (`tryObjectEncoding`), and
    the payload of `DUMP`. -/
structure ObjectReader (V : Type) where
  string : Bytes → V
  verifyDumpPayload : Bytes → Bool
  rdbLoadObject : Bytes → Option V

section Model

variable {V : Type}

def notAnInteger : KeyReply := .error "ERR value is not an integer or out of range"
def syntaxerr : KeyReply := .error "ERR syntax error"
def busykeyerr : KeyReply := .error "BUSYKEY Target key name already exists."

/-- The first part of `setGenericCommand`: the milliseconds, if there is a time, or an error. -/
def readMilliseconds (name : String) (unit : TimeUnit) : Option Bytes → Except KeyReply (Option Int)
  | none => .ok none
  | some expire =>
      match string2ll expire with
      | none => .error notAnInteger
      | some n =>
          if n ≤ 0 then .error (.error ("ERR invalid expire time in " ++ name))
          else .ok (some (if unit = .seconds then wrap64 (n * 1000) else n))

/-- The lookups for `NX` and `XX`, and whether one of them forbids the command. -/
def setForbidden (env : KeyEnv) (s : Server V) (d : DbId) (key : Bytes) (nx xx : Bool) :
    Except ServerFault (Server V × Bool) :=
  if nx = true ∨ xx = true then do
    let r ← lookupKeyWrite env 0 (s.dbs d) key
    return (s.setDb d r.1, (nx && r.2.isSome) || (xx && r.2.isNone))
  else return (s, false)

/-- `setGenericCommand`; `name` is the name of the command.  No reply is the null bulk. -/
def setGenericCommand (env : KeyEnv) (s : Server V) (d : DbId) (name : String) (nx xx : Bool) (key : Bytes)
    (val : V) (unit : TimeUnit) (expire : Option Bytes) : Except ServerFault (Server V × Option KeyReply) :=
  match readMilliseconds name unit expire with
  | .error e => return (s, some e)
  | .ok milliseconds => do
      let r ← setForbidden env s d key nx xx
      if r.2 then return (r.1, none)
      else do
        let s ← setKey env r.1 d key val
        match milliseconds with
        | none => return (s, some .ok)
        | some ms => do
            let db ← setExpire (s.dbs d) key (wrap64 (env.mstime 1 + ms))
            return (s.setDb d db, some .ok)

/-- `setCommand`: the options follow the value. -/
def setCommand (o : ObjectReader V) (env : KeyEnv) (s : Server V) (d : DbId) (key value : Bytes)
    (options : List Bytes) : Except ServerFault (Server V × Option KeyReply) :=
  match Aof.parseSet options .none with
  | none => return (s, some syntaxerr)
  | some so =>
      setGenericCommand env s d "set" so.nx so.xx key (o.string value)
        (if so.px then .milliseconds else .seconds) so.expire

/-- The rest of `restoreCommand` after the lookup. -/
def restoreKey (o : ObjectReader V) (env : KeyEnv) (s : Server V) (d : DbId) (key ttl payload : Bytes)
    (replace : Bool) : Except ServerFault (Server V × Option KeyReply) :=
  match string2ll ttl with
  | none => return (s, some notAnInteger)
  | some n =>
      if n < 0 then return (s, some (.error "ERR Invalid TTL value, must be >= 0"))
      else if o.verifyDumpPayload payload = false then
        return (s, some (.error "ERR DUMP payload version or checksum are wrong"))
      else match o.rdbLoadObject payload with
        | none => return (s, some (.error "ERR Bad data format"))
        | some obj => do
            -- remove the old key if needed
            let db ← dbAdd (if replace then (dbDelete (s.dbs d) key).1 else s.dbs d) key obj
            let db ← (if n ≠ 0 then setExpire db key (wrap64 (env.mstime 1 + n)) else .ok db)
            let s ← signalModifiedKey (s.setDb d db) d key
            return (s, some .ok)

/-- `restoreCommand`: `REPLACE` may follow the payload. -/
def restoreCommand (o : ObjectReader V) (env : KeyEnv) (s : Server V) (d : DbId) (key ttl payload : Bytes)
    (options : List Bytes) : Except ServerFault (Server V × Option KeyReply) :=
  if options.all (strcaseeq · Aof.replaceName) = false then return (s, some syntaxerr)
  else if options = [] then do
    let r ← lookupKeyWrite env 0 (s.dbs d) key
    if r.2.isSome then return (s.setDb d r.1, some busykeyerr)
    else restoreKey o env (s.setDb d r.1) d key ttl payload false
  else restoreKey o env s d key ttl payload true

/-- The commands that give a key a time to live. -/
inductive TimedCommand
  | set (key value : Bytes) (options : List Bytes)
  | setex (key seconds value : Bytes)
  | psetex (key milliseconds value : Bytes)
  | expire (key seconds : Bytes)
  | pexpire (key milliseconds : Bytes)
  | expireat (key timestamp : Bytes)
  | pexpireat (key timestamp : Bytes)
  | restore (key ttl payload : Bytes) (options : List Bytes)
  deriving DecidableEq, Repr

/-- A command of a client whose database is `d`. -/
def runTimed (o : ObjectReader V) (env : KeyEnv) (s : Server V) (d : DbId) :
    TimedCommand → Except ServerFault (Server V × Option KeyReply)
  | .set key value options => setCommand o env s d key value options
  | .setex key arg value => setGenericCommand env s d "setex" false false key (o.string value) .seconds (some arg)
  | .psetex key arg value =>
      setGenericCommand env s d "psetex" false false key (o.string value) .milliseconds (some arg)
  | .expire key arg => do
      let r ← expireGenericCommand env s d (env.mstime 0) .seconds key arg
      return (r.1, some r.2)
  | .pexpire key arg => do
      let r ← expireGenericCommand env s d (env.mstime 0) .milliseconds key arg
      return (r.1, some r.2)
  | .expireat key arg => do
      let r ← expireGenericCommand env s d 0 .seconds key arg
      return (r.1, some r.2)
  | .pexpireat key arg => do
      let r ← expireGenericCommand env s d 0 .milliseconds key arg
      return (r.1, some r.2)
  | .restore key ttl payload options => restoreCommand o env s d key ttl payload options

namespace TimedCommand

/-- The key. -/
def key : TimedCommand → Bytes
  | .set key _ _ | .setex key _ _ | .psetex key _ _ | .expire key _ | .pexpire key _ | .expireat key _
  | .pexpireat key _ | .restore key _ _ _ => key

/-- The argument that is a time, if there is one. -/
def argument : TimedCommand → Option Bytes
  | .set _ _ options => (Aof.parseSet options .none).bind (·.expire)
  | .setex _ arg _ | .psetex _ arg _ | .expire _ arg | .pexpire _ arg | .expireat _ arg | .pexpireat _ arg
  | .restore _ arg _ _ => some arg

/-- The argument is in seconds. -/
def inSeconds : TimedCommand → Bool
  | .set _ _ options => !((Aof.parseSet options .none).map (·.px)).getD false
  | .setex _ _ _ | .expire _ _ | .expireat _ _ => true
  | .psetex _ _ _ | .pexpire _ _ | .pexpireat _ _ | .restore _ _ _ _ => false

/-- The argument counts from now. -/
def relative : TimedCommand → Bool
  | .expireat _ _ | .pexpireat _ _ => false
  | _ => true

/-- `EXPIRE` and its variants. -/
def family : TimedCommand → Bool
  | .expire _ _ | .pexpire _ _ | .expireat _ _ | .pexpireat _ _ => true
  | _ => false

/-- The exact expire time for the argument `n`. -/
def time (cmd : TimedCommand) (now n : Int) : Int :=
  n * (if cmd.inSeconds then 1000 else 1) + (if cmd.relative then now else 0)

end TimedCommand

/-- A reply that is an error. -/
def KeyReply.IsError (r : KeyReply) : Prop := ∃ text, r = .error text

/-- Nothing has changed, but for the key, which may have been deleted because it was out of
    date before the command. -/
def Unchanged (env : KeyEnv) (s : Server V) (d : DbId) (key : Bytes) (s' : Server V) : Prop :=
  s' = s ∨ ∃ i, s' = s.setDb d (evict env i (s.dbs d) key)

/-- The command is refused: an error, the null bulk where `NX` or `XX` forbids it, or zero where
    `EXPIRE` finds no key. -/
def RefusedWith (env : KeyEnv) (s : Server V) (d : DbId) (cmd : TimedCommand)
    (r : Server V × Option KeyReply) : Prop :=
  Unchanged env s d cmd.key r.1 ∧
    (r.2 = none ∨ (∃ e, r.2 = some e ∧ e.IsError) ∨ r.2 = some (.int 0) ∧ (r.1.dbs d).dict cmd.key = none)

/-- The command does what the exact time says: the key exists with this time if it lies in the
    future; otherwise `EXPIRE` and its variants have deleted it. -/
def Obeys (d : DbId) (cmd : TimedCommand) (now time : Int) (r : Server V × Option KeyReply) : Prop :=
  (now < time → ((r.1.dbs d).dict cmd.key).isSome = true ∧ (r.1.dbs d).expires cmd.key = some time) ∧
    (time ≤ now → cmd.family = true → (r.1.dbs d).dict cmd.key = none)

/-- The reasons for which a command with the argument `n` is refused. -/
def Refuses (o : ObjectReader V) (env : KeyEnv) (s : Server V) (d : DbId) (n : Int) : TimedCommand → Prop
  | .set key _ options => n ≤ 0 ∨ ∃ so, Aof.parseSet options .none = some so ∧
      (so.nx = true ∧ Alive env 0 s d key ∨ so.xx = true ∧ ¬ Alive env 0 s d key)
  | .setex _ _ _ | .psetex _ _ _ => n ≤ 0
  | .expire key _ | .pexpire key _ | .expireat key _ | .pexpireat key _ => ¬ Alive env 1 s d key
  | .restore key _ payload options => n < 0 ∨ options.all (strcaseeq · Aof.replaceName) = false ∨
      options = [] ∧ Alive env 0 s d key ∨ o.verifyDumpPayload payload = false ∨ o.rdbLoadObject payload = none

/-- The exact time can be computed: it is not after the last time; and where it is not in the
    future, and the key has to be deleted, the server deletes keys, and the time is not before
    the first one, or what it is modulo `2^64` is not in the future either. -/
def TimeFits (env : KeyEnv) (cmd : TimedCommand) (now time : Int) : Prop :=
  time < 2 ^ 63 ∧ (cmd.family = true → time ≤ now → env.loading = false ∧ env.slave = false ∧
    (-2 ^ 63 ≤ time ∨ time.bmod (2 ^ 64) ≤ now))

end Model

/-! ### The arithmetic -/

theorem wrap64_range (t : Int) : -2 ^ 63 ≤ wrap64 t ∧ wrap64 t < 2 ^ 63 := by
  have hlo := Int.le_bmod (x := t) (m := 18446744073709551616) (by decide)
  have hhi := Int.bmod_lt (x := t) (m := 18446744073709551616) (by decide)
  exact ⟨by rw [wrap64]; omega, by rw [wrap64]; omega⟩

/-- A time that fits is what it is, and no other is. -/
theorem wrap64_eq_iff (t : Int) : wrap64 t = t ↔ -2 ^ 63 ≤ t ∧ t < 2 ^ 63 := by
  constructor
  · intro h
    have hrange := wrap64_range t
    rwa [h] at hrange
  · rintro ⟨hlo, hhi⟩
    exact Int.bmod_eq_of_le (by omega) (by omega)

theorem wrap64_add (a b : Int) : wrap64 (wrap64 a + b) = wrap64 (a + b) := Int.bmod_add_bmod

/-- The factor of a unit. -/
def TimeUnit.factor (unit : TimeUnit) : Int := if unit = .seconds then 1000 else 1

/-- The exact time of `expireGenericCommand`, reduced once. -/
theorem expireTime_eq (unit : TimeUnit) (basetime n : Int) :
    expireTime unit basetime n = wrap64 (n * unit.factor + basetime) := by
  unfold expireTime TimeUnit.factor
  by_cases hunit : unit = .seconds
  · rw [if_pos hunit, if_pos hunit, wrap64_add]
  · rw [if_neg hunit, if_neg hunit, mul_one]

/-- And that of `setGenericCommand`. -/
theorem setTime_eq (unit : TimeUnit) (now n : Int) :
    wrap64 (now + if unit = .seconds then wrap64 (n * 1000) else n) = wrap64 (n * unit.factor + now) := by
  rw [← expireTime_eq, expireTime, add_comm now]

theorem TimedCommand.time_of (cmd : TimedCommand) (unit : TimeUnit) (now : Int) {basetime : Int}
    (hunit : cmd.inSeconds = decide (unit = .seconds)) (hbase : (if cmd.relative then now else 0) = basetime) (n : Int) :
    cmd.time now n = n * unit.factor + basetime := by
  unfold TimedCommand.time TimeUnit.factor
  rw [hunit, hbase]
  by_cases hsec : unit = .seconds <;> simp [hsec]

/-! ### The commands -/

section Commands

variable {V : Type} {o : ObjectReader V} {env : KeyEnv} {s : Server V} {d : DbId} {now : Int}

theorem unchanged_evict (i : Nat) (key : Bytes) : Unchanged env s d key (s.setDb d (evict env i (s.dbs d) key)) :=
  Or.inr ⟨i, rfl⟩

variable {n : Int}

/-- `EXPIRE` and its variants. -/
theorem expireResult_exact_iff (hclock : ∀ i, env.mstime i = now) (hnow : 0 ≤ now ∧ now < 2 ^ 63)
    {cmd : TimedCommand} (hfamily : cmd.family = true) (basetime : Int) (unit : TimeUnit) {param : Bytes}
    (hparam : string2ll param = some n) (htime : cmd.time now n = n * unit.factor + basetime)
    {r : Server V × KeyReply} (hr : r = expireResult env s d basetime unit cmd.key param) :
    RefusedWith env s d cmd (r.1, some r.2) ∨ Obeys d cmd now (cmd.time now n) (r.1, some r.2) ↔
      ¬ Alive env 1 s d cmd.key ∨ TimeFits env cmd now (cmd.time now n) := by
  unfold expireResult at hr
  rw [hparam] at hr
  simp only [expireTime_eq, ← htime, hclock] at hr
  set T := cmd.time now n
  cases hfound : (evict env 1 (s.dbs d) cmd.key).dict cmd.key with
  | none =>
    -- no such key
    have hdead : ¬ Alive env 1 s d cmd.key := by simp [Alive, hfound]
    rw [hfound] at hr
    refine iff_of_true (Or.inl ?_) (Or.inl hdead)
    rw [hr]
    refine ⟨unchanged_evict 1 cmd.key, Or.inr (Or.inr ⟨rfl, ?_⟩)⟩
    simpa using hfound
  | some v =>
    have hself := evict_of_found hfound
    have halive : Alive env 1 s d cmd.key := by simp [Alive, hfound]
    have hdict : (s.dbs d).dict cmd.key = some v := by rwa [hself] at hfound
    rw [hfound] at hr
    have hrange := wrap64_range T
    have hexact := wrap64_eq_iff T
    -- the reply is 1, so that the command is not refused
    have hnot : ∀ s' : Server V, ¬ RefusedWith env s d cmd (s', some (.int 1)) := by
      rintro s' ⟨-, h | ⟨e, he, text, rfl⟩ | ⟨h, -⟩⟩
      · cases h
      · cases he
      · cases h
    by_cases hpast : wrap64 T ≤ now ∧ env.loading = false ∧ env.slave = false
    · -- the key is deleted
      simp only [if_pos hpast] at hr
      have hgone : (r.1.dbs d).dict cmd.key = none := by simp [hr]
      have hreply : r.2 = .int 1 := by rw [hr]
      rw [hreply]
      constructor
      · rintro (h | ⟨hfuture, -⟩)
        · exact absurd h (hnot _)
        · have hlate : T ≤ now := by
            by_contra hlt
            have hthere := (hfuture (not_le.mp hlt)).1
            rw [hgone] at hthere
            cases hthere
          exact Or.inr ⟨by omega, fun _ _ => ⟨hpast.2.1, hpast.2.2, Or.inr hpast.1⟩⟩
      · rintro (h | h)
        · exact absurd halive h
        · refine Or.inr ⟨fun hlt => ?_, fun _ _ => hgone⟩
          have hsame := hexact.mpr ⟨by omega, h.1⟩
          omega
    · -- the key gets the time
      simp only [if_neg hpast] at hr
      have hthere : ((r.1.dbs d).dict cmd.key).isSome = true := by simp [hr, hdict]
      have hset : (r.1.dbs d).expires cmd.key = some (wrap64 T) := by simp [hr]
      have hreply : r.2 = .int 1 := by rw [hr]
      rw [hreply]
      constructor
      · rintro (h | ⟨hfuture, hlate⟩)
        · exact absurd h (hnot _)
        · have hlt : now < T := by
            by_contra hle
            have hgone := hlate (not_lt.mp hle) hfamily
            simp only at hgone
            rw [hgone] at hthere
            cases hthere
          have hw := (hfuture hlt).2
          rw [hset] at hw
          exact Or.inr ⟨(hexact.mp (Option.some.inj hw)).2, fun _ hle => by omega⟩
      · rintro (h | ⟨hhigh, hlate⟩)
        · exact absurd halive h
        · by_cases hlt : now < T
          · have hsame := hexact.mpr ⟨by omega, hhigh⟩
            refine Or.inr ⟨fun _ => ⟨hthere, ?_⟩, fun hle => by omega⟩
            rw [hsame] at hset
            exact hset
          · obtain ⟨hloading, hslave, hwrap⟩ := hlate hfamily (not_lt.mp hlt)
            refine absurd ⟨?_, hloading, hslave⟩ hpast
            rcases hwrap with hlow | hwrap
            · rw [hexact.mpr ⟨hlow, hhigh⟩]
              exact not_lt.mp hlt
            · exact hwrap

variable (env d) in
/-- A lookup for `NX` or `XX`. -/
theorem setForbidden_eq (hinv : KeyspaceInv s) (key : Bytes) (nx xx : Bool) :
    ∃ t b, setForbidden env s d key nx xx = .ok (t, b) ∧
      (b = true ↔ nx = true ∧ Alive env 0 s d key ∨ xx = true ∧ ¬ Alive env 0 s d key) ∧
      Unchanged env s d key t ∧ KeyspaceInv t := by
  unfold setForbidden
  by_cases hnone : nx = true ∨ xx = true
  · rw [if_pos hnone, lookupKeyWrite_eq (hinv.consistent d), ok_bind]
    refine ⟨_, _, rfl, ?_, unchanged_evict 0 key, hinv.evict env 0 d key⟩
    unfold Alive
    cases (evict env 0 (s.dbs d) key).dict key <;> simp
  · rw [if_neg hnone]
    rw [not_or] at hnone
    exact ⟨s, false, rfl, by simp [hnone], Or.inl rfl, hinv⟩

variable (env d) in
/-- `setGenericCommand` with a time. -/
theorem setGeneric_exact_iff (hinv : KeyspaceInv s) (hclock : ∀ i, env.mstime i = now)
    (hnow : 0 ≤ now ∧ now < 2 ^ 63) {cmd : TimedCommand} (hfamily : cmd.family = false) (name : String)
    (nx xx : Bool) (val : V) {unit : TimeUnit} {param : Bytes} (hparam : string2ll param = some n)
    (htime : cmd.time now n = n * unit.factor + now) :
    ∃ r, setGenericCommand env s d name nx xx cmd.key val unit (some param) = .ok r ∧
      (RefusedWith env s d cmd r ∨ Obeys d cmd now (cmd.time now n) r ↔
        (n ≤ 0 ∨ (nx = true ∧ Alive env 0 s d cmd.key ∨ xx = true ∧ ¬ Alive env 0 s d cmd.key)) ∨
          TimeFits env cmd now (cmd.time now n)) := by
  unfold setGenericCommand
  rw [readMilliseconds, hparam]
  simp only
  by_cases hneg : n ≤ 0
  · rw [if_pos hneg]
    exact ⟨_, rfl, iff_of_true (Or.inl ⟨Or.inl rfl, Or.inr (Or.inl ⟨_, rfl, _, rfl⟩)⟩) (Or.inl (Or.inl hneg))⟩
  · rw [if_neg hneg]
    obtain ⟨t, b, hforbid, hb, hunchanged, hinvt⟩ := setForbidden_eq env d hinv cmd.key nx xx
    simp only [hforbid, ok_bind]
    by_cases habort : nx = true ∧ Alive env 0 s d cmd.key ∨ xx = true ∧ ¬ Alive env 0 s d cmd.key
    · rw [if_pos (hb.mpr habort)]
      exact ⟨_, rfl, iff_of_true (Or.inl ⟨hunchanged, Or.inl rfl⟩) (Or.inl (Or.inr habort))⟩
    · rw [if_neg (hb.not.mpr habort)]
      simp only [setKey_eq hinvt, ok_bind]
      have hthere : ((((t.setDb d ((t.dbs d).put cmd.key val none)).tell d cmd.key).dbs d).dict cmd.key).isSome
          = true := by simp
      rw [setExpire_eq hthere, ok_bind, hclock, setTime_eq, ← htime]
      refine ⟨_, rfl, ?_⟩
      set T := cmd.time now n
      have hexact := wrap64_eq_iff T
      have hfuture : now < T := by
        rw [htime]
        unfold TimeUnit.factor
        split <;> omega
      constructor
      · rintro (⟨-, h | ⟨e, he, text, rfl⟩ | ⟨h, -⟩⟩ | ⟨hset, -⟩)
        · cases h
        · cases he
        · cases h
        · have hw := (hset hfuture).2
          simp only [dbs_setDb, if_true, expires_setExpires] at hw
          exact Or.inr ⟨(hexact.mp (Option.some.inj hw)).2, fun h => absurd h (by simp [hfamily])⟩
      · rintro (h | ⟨hhigh, -⟩)
        · exact absurd h (not_or.mpr ⟨hneg, habort⟩)
        · refine Or.inr ⟨fun _ => ?_, fun hle => by omega⟩
          rw [hexact.mpr ⟨by omega, hhigh⟩]
          simp

variable (env) in
/-- The rest of `RESTORE` for a payload that is accepted, when the key is out of the way. -/
theorem restoreKey_stores (hinv : KeyspaceInv s) {key ttl payload : Bytes} {replace : Bool} {obj : V}
    (httl : string2ll ttl = some n) (hn : 0 ≤ n) (hverify : o.verifyDumpPayload payload = true)
    (hload : o.rdbLoadObject payload = some obj) (hfree : replace = false → (s.dbs d).dict key = none) :
    ∃ t, restoreKey o env s d key ttl payload replace = .ok (t, some .ok) ∧
      ((t.dbs d).dict key).isSome = true ∧
      (n ≠ 0 → (t.dbs d).expires key = some (wrap64 (env.mstime 1 + n))) := by
  set base := (if replace then (dbDelete (s.dbs d) key).1 else s.dbs d) with hbase
  have hbasedict : base.dict key = none := by
    cases replace with
    | true => simp [hbase, dbDelete]
    | false => exact hfree rfl
  have hbasedb : base.Consistent ∧ base.watchedKeys = (s.dbs d).watchedKeys := by
    cases replace with
    | true => exact ⟨(hinv.consistent d).erase key, rfl⟩
    | false => exact ⟨hinv.consistent d, rfl⟩
  have hthere : ((base.setDict key (some obj)).dict key).isSome = true := by simp
  unfold restoreKey
  rw [httl]
  simp only
  rw [if_neg (not_lt.mpr hn), if_neg (by simp [hverify]), hload]
  simp only
  rw [dbAdd_eq hbasedict, ok_bind]
  by_cases hzero : n ≠ 0
  · rw [if_pos hzero, setExpire_eq hthere, ok_bind,
      signal_setDb_eq hinv ((hbasedb.1.setDict_some key obj).setExpires _ fun _ => hthere) hbasedb.2]
    exact ⟨_, rfl, by simp, fun _ => by simp⟩
  · rw [if_neg hzero, ok_bind, signal_setDb_eq hinv (hbasedb.1.setDict_some key obj) hbasedb.2]
    exact ⟨_, rfl, by simp, fun h => absurd h hzero⟩

variable (o env s d) in
/-- The rest of `RESTORE` for a payload or a time that is not accepted. -/
theorem restoreKey_refuses (key : Bytes) {ttl payload : Bytes} (replace : Bool) (httl : string2ll ttl = some n)
    (hbad : n < 0 ∨ o.verifyDumpPayload payload = false ∨ o.rdbLoadObject payload = none) :
    ∃ e, restoreKey o env s d key ttl payload replace = .ok (s, some e) ∧ e.IsError := by
  unfold restoreKey
  rw [httl]
  simp only
  by_cases hneg : n < 0
  · rw [if_pos hneg]
    exact ⟨_, rfl, _, rfl⟩
  · rw [if_neg hneg]
    by_cases hverify : o.verifyDumpPayload payload = false
    · rw [if_pos hverify]
      exact ⟨_, rfl, _, rfl⟩
    · rw [if_neg hverify, (hbad.resolve_left hneg).resolve_left hverify]
      exact ⟨_, rfl, _, rfl⟩

theorem restore_exact_iff (hinv : KeyspaceInv s) (hclock : ∀ i, env.mstime i = now)
    (hnow : 0 ≤ now ∧ now < 2 ^ 63) {key ttl payload : Bytes} {options : List Bytes}
    (hparam : string2ll ttl = some n) :
    ∃ r, restoreCommand o env s d key ttl payload options = .ok r ∧
      (RefusedWith env s d (.restore key ttl payload options) r ∨
          Obeys d (.restore key ttl payload options) now (n + now) r ↔
        Refuses o env s d n (.restore key ttl payload options) ∨
          TimeFits env (.restore key ttl payload options) now (n + now)) := by
  set cmd := TimedCommand.restore key ttl payload options with hcmd
  have hkey : cmd.key = key := rfl
  have hfits : TimeFits env cmd now (n + now) ↔ n + now < 2 ^ 63 :=
    ⟨fun h => h.1, fun h => ⟨h, fun hfamily => absurd hfamily Bool.false_ne_true⟩⟩
  rw [hfits]
  have hrefuses : Refuses o env s d n cmd ↔ n < 0 ∨ options.all (strcaseeq · Aof.replaceName) = false ∨
      options = [] ∧ Alive env 0 s d key ∨ o.verifyDumpPayload payload = false ∨
      o.rdbLoadObject payload = none := Iff.rfl
  -- an error is a refusal
  have herror : ∀ t : Server V, ∀ e : KeyReply, Unchanged env s d key t → e.IsError →
      RefusedWith env s d cmd (t, some e) := fun t e ht he => ⟨ht, Or.inr (Or.inl ⟨e, rfl, he⟩)⟩
  -- what happens after the lookup, which has left `t`
  have hrest : ∀ (t : Server V) (replace : Bool), KeyspaceInv t → Unchanged env s d key t →
      (replace = false → (t.dbs d).dict key = none) → options.all (strcaseeq · Aof.replaceName) ≠ false →
      ¬ (options = [] ∧ Alive env 0 s d key) →
      ∃ r, restoreKey o env t d key ttl payload replace = .ok r ∧
        (RefusedWith env s d cmd r ∨ Obeys d cmd now (n + now) r ↔
          Refuses o env s d n cmd ∨ n + now < 2 ^ 63) := by
    intro t replace hinvt hunchanged hfree hopt hbusy
    by_cases hbad : n < 0 ∨ o.verifyDumpPayload payload = false ∨ o.rdbLoadObject payload = none
    · obtain ⟨e, hrun, he⟩ := restoreKey_refuses o env t d key replace
        hparam hbad
      refine ⟨_, hrun, iff_of_true (Or.inl (herror t e hunchanged he)) (Or.inl (hrefuses.mpr ?_))⟩
      rcases hbad with h | h | h
      · exact Or.inl h
      · exact Or.inr (Or.inr (Or.inr (Or.inl h)))
      · exact Or.inr (Or.inr (Or.inr (Or.inr h)))
    · obtain ⟨hneg, hverify, hload⟩ : ¬ n < 0 ∧ ¬ o.verifyDumpPayload payload = false ∧
          ¬ o.rdbLoadObject payload = none := by simpa [not_or] using hbad
      obtain ⟨obj, hobj⟩ := Option.ne_none_iff_exists'.mp hload
      obtain ⟨t', hrun, hthere, hset⟩ := restoreKey_stores env hinvt hparam (not_lt.mp hneg)
        (by simpa using hverify) hobj hfree
      rw [hclock, add_comm now] at hset
      have hnot : ¬ Refuses o env s d n cmd := by
        rw [hrefuses]
        rintro (h | h | h | h | h)
        · exact hneg h
        · exact hopt h
        · exact hbusy h
        · exact hverify h
        · exact hload h
      have hexact := wrap64_eq_iff (n + now)
      refine ⟨_, hrun, ?_⟩
      constructor
      · rintro (⟨-, h | ⟨e, he, text, rfl⟩ | ⟨h, -⟩⟩ | ⟨hfuture, -⟩)
        · cases h
        · cases he
        · cases h
        · by_cases hzero : n = 0
          · exact Or.inr (by omega)
          · have hw := (hfuture (by omega)).2
            rw [hkey, hset hzero] at hw
            exact Or.inr (hexact.mp (Option.some.inj hw)).2
      · rintro (h | hhigh)
        · exact absurd h hnot
        · refine Or.inr ⟨fun hlt => ⟨hthere, ?_⟩, fun _ hfamily => absurd hfamily Bool.false_ne_true⟩
          rw [hkey, hset (by omega), hexact.mpr ⟨by omega, hhigh⟩]
  unfold restoreCommand
  by_cases hopt : options.all (strcaseeq · Aof.replaceName) = false
  · rw [if_pos hopt]
    exact ⟨_, rfl, iff_of_true (Or.inl (herror s _ (Or.inl rfl) ⟨_, rfl⟩)) (Or.inl (Or.inr (Or.inl hopt)))⟩
  · rw [if_neg hopt]
    by_cases hnil : options = []
    · simp only [if_pos hnil, lookupKeyWrite_eq (hinv.consistent d), ok_bind]
      by_cases halive : ((evict env 0 (s.dbs d) key).dict key).isSome = true
      · rw [if_pos halive]
        refine ⟨_, rfl, iff_of_true (Or.inl (herror _ _ (unchanged_evict 0 key) ⟨_, rfl⟩)) ?_⟩
        exact Or.inl (Or.inr (Or.inr (Or.inl ⟨hnil, halive⟩)))
      · rw [if_neg halive]
        refine hrest _ false (hinv.evict env 0 d key) (unchanged_evict 0 key) ?_ hopt (fun h => halive h.2)
        intro _
        simpa using halive
    · rw [if_neg hnil]
      exact hrest s true hinv (Or.inl rfl) (fun h => absurd h.symm Bool.false_ne_true) hopt (fun h => hnil h.1)

/-- **The arithmetic of times to live.**  With a 64-bit argument, a command is refused or does
    what the exact time says if and only if it has a reason to be refused or the exact time
    fits. -/
theorem expire_exact_iff (hinv : KeyspaceInv s) (hclock : ∀ i, env.mstime i = now)
    (hnow : 0 ≤ now ∧ now < 2 ^ 63) {cmd : TimedCommand} {a : Bytes} {n : Int} (harg : cmd.argument = some a)
    (hn : string2ll a = some n) :
    ∃ r, runTimed o env s d cmd = .ok r ∧
      (RefusedWith env s d cmd r ∨ Obeys d cmd now (cmd.time now n) r ↔
        Refuses o env s d n cmd ∨ TimeFits env cmd now (cmd.time now n)) := by
  -- the four commands of `expireGenericCommand`
  have hfamily : ∀ (cmd : TimedCommand) (basetime : Int) (unit : TimeUnit), cmd.family = true →
      (Refuses o env s d n cmd ↔ ¬ Alive env 1 s d cmd.key) → cmd.time now n = n * unit.factor + basetime →
      ∃ r, (do
          let r ← expireGenericCommand env s d basetime unit cmd.key a
          return (r.1, some r.2)) = Except.ok (ε := ServerFault) r ∧
        (RefusedWith env s d cmd r ∨ Obeys d cmd now (cmd.time now n) r ↔
          Refuses o env s d n cmd ∨ TimeFits env cmd now (cmd.time now n)) := by
    intro cmd basetime unit hfam hrefuses htime
    rw [expireGenericCommand_eq hinv, ok_bind, hrefuses]
    exact ⟨_, rfl, expireResult_exact_iff hclock hnow hfam basetime unit hn htime rfl⟩
  cases cmd with
  | set key value options =>
    obtain ⟨so, hparse, hexpire⟩ := Option.bind_eq_some_iff.mp harg
    have htime := TimedCommand.time_of (.set key value options) (if so.px then .milliseconds else .seconds) now
      (by cases hpx : so.px <;> simp [TimedCommand.inSeconds, hparse, hpx]) rfl n
    obtain ⟨r, hr, hiff⟩ := setGeneric_exact_iff env d hinv hclock hnow rfl "set" so.nx so.xx (o.string value) hn
      htime
    refine ⟨r, ?_, hiff.trans (or_congr_left (or_congr_right ?_))⟩
    · rw [runTimed, setCommand, hparse]
      simp only [hexpire]
      exact hr
    · constructor
      · exact fun h => ⟨so, hparse, h⟩
      · rintro ⟨so', hparse', h⟩
        obtain rfl := Option.some.inj (hparse.symm.trans hparse')
        exact h
  | setex key arg value =>
    obtain rfl := Option.some.inj harg
    have htime := TimedCommand.time_of (.setex key arg value) .seconds now rfl rfl n
    obtain ⟨r, hr, hiff⟩ := setGeneric_exact_iff env d hinv hclock hnow rfl "setex" false false (o.string value) hn
      htime
    exact ⟨r, hr, hiff.trans (or_congr_left (by simp [Refuses]))⟩
  | psetex key arg value =>
    obtain rfl := Option.some.inj harg
    have htime := TimedCommand.time_of (.psetex key arg value) .milliseconds now rfl rfl n
    obtain ⟨r, hr, hiff⟩ := setGeneric_exact_iff env d hinv hclock hnow rfl "psetex" false false (o.string value) hn
      htime
    exact ⟨r, hr, hiff.trans (or_congr_left (by simp [Refuses]))⟩
  | expire key arg =>
    obtain rfl := Option.some.inj harg
    have htime := TimedCommand.time_of (.expire key arg) .seconds now rfl (hclock 0).symm n
    exact hfamily (.expire key arg) (env.mstime 0) .seconds rfl Iff.rfl htime
  | pexpire key arg =>
    obtain rfl := Option.some.inj harg
    have htime := TimedCommand.time_of (.pexpire key arg) .milliseconds now rfl (hclock 0).symm n
    exact hfamily (.pexpire key arg) (env.mstime 0) .milliseconds rfl Iff.rfl htime
  | expireat key arg =>
    obtain rfl := Option.some.inj harg
    have htime := TimedCommand.time_of (.expireat key arg) .seconds now rfl rfl n
    exact hfamily (.expireat key arg) 0 .seconds rfl Iff.rfl htime
  | pexpireat key arg =>
    obtain rfl := Option.some.inj harg
    have htime := TimedCommand.time_of (.pexpireat key arg) .milliseconds now rfl rfl n
    exact hfamily (.pexpireat key arg) 0 .milliseconds rfl Iff.rfl htime
  | restore key ttl payload options =>
    obtain rfl := Option.some.inj harg
    have htime : (TimedCommand.restore key ttl payload options).time now n = n + now := by
      simp [TimedCommand.time, TimedCommand.inSeconds, TimedCommand.relative]
    rw [htime]
    exact restore_exact_iff hinv hclock hnow hn

end Commands

/-- Objects that are numbers, and no payload. -/
def lengthReader : ObjectReader Nat := ⟨List.length, fun _ => false, fun _ => none⟩

/-- `9223372036854775807`. -/
def llongMax : Bytes := [57, 50, 50, 51, 51, 55, 50, 48, 51, 54, 56, 53, 52, 55, 55, 53, 56, 48, 55]

/-- `SETEX b 9223372036854775807 v` makes a key that has been out of date since the epoch. -/
theorem setex_wraps :
    ∃ r, runTimed lengthReader masterAt1000 expiredA 0 (.setex [98] llongMax [118]) = .ok r ∧
      ((r.1.dbs 0).dict [98]).isSome = true ∧ (r.1.dbs 0).expires [98] = some 0 ∧
      ¬ (RefusedWith masterAt1000 expiredA 0 (.setex [98] llongMax [118]) r ∨
        Obeys 0 (.setex [98] llongMax [118]) 1000
          ((TimedCommand.setex [98] llongMax [118]).time 1000 9223372036854775807) r) := by
  have hn : string2ll llongMax = some 9223372036854775807 := by rfl
  obtain ⟨r, hr, hiff⟩ := setGeneric_exact_iff masterAt1000 0 keyspaceInv_expiredA (show ∀ i, masterAt1000.mstime i = 1000 from fun _ => rfl)
    (show 0 ≤ (1000 : Int) ∧ (1000 : Int) < 2 ^ 63 by decide)
    (show (TimedCommand.setex [98] llongMax [118]).family = false from rfl) "setex" false false 1 hn (TimedCommand.time_of _ .seconds 1000 rfl rfl _)
  have hrun : (setGenericCommand masterAt1000 expiredA 0 "setex" false false [98] 1 .seconds
      (some llongMax)).toOption.map (fun r => ((r.1.dbs 0).dict [98], (r.1.dbs 0).expires [98]))
        = some (some 1, some 0) := by rfl
  have hr' : setGenericCommand masterAt1000 expiredA 0 "setex" false false [98] 1 .seconds
      (some llongMax) = .ok r := hr
  rw [hr'] at hrun
  obtain ⟨hdict, hexpires⟩ := Prod.mk.inj (Option.some.inj hrun)
  refine ⟨r, hr, by rw [hdict]; rfl, hexpires, ?_⟩
  rw [hiff]
  rintro ((h | h) | ⟨h, -⟩)
  · exact absurd h (by decide)
  · simp at h
  · exact absurd h (by decide)

/-- `PSETEX b 1 v`. -/
theorem expire_exact_psetex :
    ∃ r, runTimed lengthReader masterAt1000 expiredA 0 (.psetex [98] [49] [118]) = .ok r ∧
      (RefusedWith masterAt1000 expiredA 0 (.psetex [98] [49] [118]) r ∨
          Obeys 0 (.psetex [98] [49] [118]) 1000 ((TimedCommand.psetex [98] [49] [118]).time 1000 1) r ↔
        Refuses lengthReader masterAt1000 expiredA 0 1 (.psetex [98] [49] [118]) ∨
          TimeFits masterAt1000 (.psetex [98] [49] [118]) 1000 ((TimedCommand.psetex [98] [49] [118]).time 1000 1)) :=
  expire_exact_iff keyspaceInv_expiredA (fun _ => rfl) (by decide) rfl (by decide)

end Redis
