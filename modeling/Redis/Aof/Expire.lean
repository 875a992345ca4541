import Redis.Aof.Transaction

namespace Redis.Aof

/-!
# AOF — the times to live

The commands that give a key a time to live, with what they feed to the file, on a server that is
not a slave and outside of a script.  The server that loads the file runs the same commands: it
feeds nothing, and no key expires there.

* `Entry`, `Keyspace` — the keys with their values and times;
* `expireIfNeeded`, `setGenericCommand`, `expireGenericCommand`, `restoreCommand`, … ;
* `Event`, `serve` — the server that writes the file;
* `Absolute` — the command has no effect that is relative to the clock and written as it is;
* `absolute_expires` — if all commands are so, the keys are loaded with their times, whatever the
  clock shows while they are loaded;
* `relative_expire` — `SET` with `PX` is written as it is.
-/

/-- A value with the time at which it expires. -/
structure Entry (V : Type) where
  value : V
  expire : Option Int
  deriving DecidableEq, Repr

/-- The databases. -/
abbrev Keyspace (V : Type) := Nat → Bytes → Option (Entry V)

/-- The objects: `tryObjectEncoding` of a string, and `verifyDumpPayload` with `rdbLoadObject`. -/
structure Objects (V : Type) where
  string : Bytes → V
  payload : Bytes → Option V

/-- `server.loading` and `mstime()`, which is constant in the course of a command. -/
structure Clock where
  loading : Bool
  mstime : Int

/-- `"DEL"`. -/
def delName : Bytes := [68, 69, 76]

/-- The keys after a command, and what was propagated. -/
abbrev Ran (V : Type) := Keyspace V × List Fed

section Model

variable {V : Type}

/-- One key is changed. -/
def Keyspace.put (ks : Keyspace V) (db : Nat) (key : Bytes) (e : Option (Entry V)) : Keyspace V :=
  fun d k => if d = db ∧ k = key then e else ks d k

/-- `getExpire`. -/
def getExpire (ks : Keyspace V) (db : Nat) (key : Bytes) : Int := ((ks db key).bind (·.expire)).getD (-1)

/-- `setExpire`. -/
def setExpire (ks : Keyspace V) (db : Nat) (key : Bytes) (when : Int) : Keyspace V :=
  ks.put db key ((ks db key).map fun e => { e with expire := some when })

/-- `expireIfNeeded`, with the `DEL` of `propagateExpire`. -/
def expireIfNeeded (c : Clock) (ks : Keyspace V) (db : Nat) (key : Bytes) : Ran V :=
  if getExpire ks db key < 0 then (ks, [])
  -- nothing expires while loading
  else if c.loading then (ks, [])
  else if c.mstime ≤ getExpire ks db key then (ks, [])
  else (ks.put db key none, [⟨.del, db, [delName, key]⟩])

/-- `setKey`, which removes the time to live. -/
def setKey (c : Clock) (ks : Keyspace V) (db : Nat) (key : Bytes) (val : V) : Ran V :=
  let r := expireIfNeeded c ks db key
  (r.1.put db key (some ⟨val, none⟩), r.2)

/-- The options of `SET`. -/
structure SetOptions where
  nx : Bool
  xx : Bool
  ex : Bool
  px : Bool
  expire : Option Bytes
  deriving DecidableEq, Repr

def SetOptions.none : SetOptions := ⟨false, false, false, false, Option.none⟩

/-- The option of two letters `c` and `x`. -/
def isOption (c : UInt8) (a : Bytes) : Bool := (cstr a).map tolower = [c, 120]

/-- The options of `setCommand`: `none` is the syntax error. -/
def parseSet : List Bytes → SetOptions → Option SetOptions
  | [], o => some o
  | [a], o =>
    if isOption 110 a && !o.xx then some { o with nx := true }
    else if isOption 120 a && !o.nx then some { o with xx := true }
    else Option.none
  | a :: next :: rest, o =>
    if isOption 110 a && !o.xx then parseSet (next :: rest) { o with nx := true }
    else if isOption 120 a && !o.nx then parseSet (next :: rest) { o with xx := true }
    else if isOption 101 a && !o.px then parseSet rest { o with ex := true, expire := some next }
    else if isOption 112 a && !o.ex then parseSet rest { o with px := true, expire := some next }
    else Option.none

/-- The time to live in milliseconds that is given to `setGenericCommand`, if any: `none` is the
    error.  `milliseconds *= 1000` wraps. -/
def setMilliseconds (seconds : Bool) : Option Bytes → Option (Option Int)
  | none => some none
  | some expire =>
    match string2ll expire with
    | none => none
    | some v => if v ≤ 0 then none else some (some (if seconds then Int.bmod (v * 1000) (2 ^ 64) else v))

/-- The lookups for `NX` and `XX`. -/
def setLookup (c : Clock) (ks : Keyspace V) (db : Nat) (key : Bytes) (nx xx : Bool) : Ran V :=
  if nx || xx then expireIfNeeded c ks db key else (ks, [])

/-- `NX` or `XX` forbids it. -/
def setForbidden (ks : Keyspace V) (db : Nat) (key : Bytes) (nx xx : Bool) : Bool :=
  (nx && (ks db key).isSome) || (xx && (ks db key).isNone)

/-- `setGenericCommand`: `f` is what is propagated. -/
def setGenericCommand (c : Clock) (ks : Keyspace V) (f : Fed) (key : Bytes) (val : V) (nx xx seconds : Bool)
    (expire : Option Bytes) : Ran V :=
  match setMilliseconds seconds expire with
  | none => (ks, [])
  | some milliseconds =>
    let r := setLookup c ks f.dictid key nx xx
    if setForbidden r.1 f.dictid key nx xx then r
    else
      let s := setKey c r.1 f.dictid key val
      let ks := (milliseconds.map fun ms => setExpire s.1 f.dictid key (Int.bmod (c.mstime + ms) (2 ^ 64))).getD s.1
      (ks, r.2 ++ s.2 ++ [f])

/-- `setCommand`. -/
def setCommand (o : Objects V) (c : Clock) (ks : Keyspace V) (f : Fed) : Ran V :=
  match parseSet (f.argv.drop 3) .none with
  | none => (ks, [])
  | some so => setGenericCommand c ks f (arg f.argv 1) (o.string (arg f.argv 2)) so.nx so.xx (!so.px) so.expire

/-- `setexCommand` and `psetexCommand`. -/
def setexCommand (o : Objects V) (c : Clock) (ks : Keyspace V) (f : Fed) (seconds : Bool) : Ran V :=
  setGenericCommand c ks f (arg f.argv 1) (o.string (arg f.argv 3)) false false seconds (some (arg f.argv 2))

/-- `expireGenericCommand`. -/
def expireGenericCommand (c : Clock) (ks : Keyspace V) (f : Fed) (basetime : Int) (seconds : Bool) : Ran V :=
  match string2ll (arg f.argv 2) with
  | none => (ks, [])
  | some when =>
    let when := if seconds then Int.bmod (when * 1000) (2 ^ 64) else when
    let when := Int.bmod (when + basetime) (2 ^ 64)
    let key := arg f.argv 1
    let r := expireIfNeeded c ks f.dictid key
    if (r.1 f.dictid key).isNone then r
    else if when ≤ c.mstime ∧ c.loading = false then
      -- the argument vector is rewritten
      (r.1.put f.dictid key none, r.2 ++ [⟨.del, f.dictid, [delName, key]⟩])
    else (setExpire r.1 f.dictid key when, r.2 ++ [f])

/-- `persistCommand`. -/
def persistCommand (ks : Keyspace V) (f : Fed) : Ran V :=
  let key := arg f.argv 1
  if ((ks f.dictid key).bind (·.expire)).isSome then
    (ks.put f.dictid key ((ks f.dictid key).map fun e => { e with expire := none }), [f])
  else (ks, [])

/-- The loop of `delCommand`: the keys, what is propagated by `expireIfNeeded`, and whether a key is deleted. -/
def delKeys (c : Clock) (db : Nat) : List Bytes → Keyspace V → Ran V × Bool
  | [], ks => ((ks, []), false)
  | key :: keys, ks =>
    let r := expireIfNeeded c ks db key
    let rest := delKeys c db keys (r.1.put db key none)
    ((rest.1.1, r.2 ++ rest.1.2), (r.1 db key).isSome || rest.2)

/-- `delCommand`. -/
def delCommand (c : Clock) (ks : Keyspace V) (f : Fed) : Ran V :=
  let r := delKeys c f.dictid (f.argv.drop 1) ks
  (r.1.1, r.1.2 ++ if r.2 then [f] else [])

/-- `"replace"`. -/
def replaceName : Bytes := [114, 101, 112, 108, 97, 99, 101]

/-- The lookup of `restoreCommand`. -/
def restoreLookup (c : Clock) (ks : Keyspace V) (f : Fed) : Ran V :=
  -- `REPLACE` or nothing
  if (f.argv.drop 4).all (strcaseeq · replaceName) = false then (ks, [])
  else if f.argv.length ≤ 4 then expireIfNeeded c ks f.dictid (arg f.argv 1)
  else (ks, [])

/-- `restoreCommand` accepts the command: the time to live and the object. -/
def restoreAccepts (o : Objects V) (ks : Keyspace V) (f : Fed) : Option (Int × V) :=
  if (f.argv.drop 4).all (strcaseeq · replaceName) = false then none
  else if f.argv.length ≤ 4 ∧ (ks f.dictid (arg f.argv 1)).isSome then none
  else do
    let ttl ← string2ll (arg f.argv 2)
    if ttl < 0 then none
    else
      let obj ← o.payload (arg f.argv 3)
      some (ttl, obj)

/-- `restoreCommand`. -/
def restoreCommand (o : Objects V) (c : Clock) (ks : Keyspace V) (f : Fed) : Ran V :=
  let r := restoreLookup c ks f
  match restoreAccepts o r.1 f with
  | none => r
  | some (ttl, obj) =>
    -- the old key is removed
    let ks := r.1.put f.dictid (arg f.argv 1) (some ⟨obj, none⟩)
    let ks := if ttl ≠ 0 then setExpire ks f.dictid (arg f.argv 1) (Int.bmod (c.mstime + ttl) (2 ^ 64)) else ks
    (ks, r.2 ++ [f])

/-- `cmd->proc`, and `propagate` if it changed a key. -/
def call (o : Objects V) (c : Clock) (ks : Keyspace V) (f : Fed) : Ran V :=
  if f.proc = .set then setCommand o c ks f
  else if f.proc = .setex then setexCommand o c ks f true
  else if f.proc = .psetex then setexCommand o c ks f false
  else if f.proc = .expire then expireGenericCommand c ks f c.mstime true
  else if f.proc = .pexpire then expireGenericCommand c ks f c.mstime false
  else if f.proc = .expireat then expireGenericCommand c ks f 0 true
  else if f.proc = .pexpireat then expireGenericCommand c ks f 0 false
  else if f.proc = .persist then persistCommand ks f
  else if f.proc = .restore then restoreCommand o c ks f
  else if f.proc = .del then delCommand c ks f
  else (ks, [])

/-- `activeExpireCycleTryExpire`. -/
def activeExpireCycleTryExpire (c : Clock) (ks : Keyspace V) (db : Nat) (key : Bytes) : Ran V :=
  match (ks db key).bind (·.expire) with
  | none => (ks, [])
  | some t =>
    if c.mstime ≤ t then (ks, []) else (ks.put db key none, [⟨.del, db, [delName, key]⟩])

/-- What happens to the server that writes the file. -/
inductive Event
  | command (f : Fed)
  | cycle (db : Nat) (key : Bytes)

/-- One event at some time. -/
def Event.run (o : Objects V) (now : Int) (ks : Keyspace V) : Event → Ran V
  | .command f => call o ⟨false, now⟩ ks f
  | .cycle db key => activeExpireCycleTryExpire ⟨false, now⟩ ks db key

/-- The keys after the events, and all that was fed, with the times. -/
def serve (o : Objects V) : Keyspace V → List (Int × Event) → Keyspace V × List (Int × Fed)
  | ks, [] => (ks, [])
  | ks, (now, e) :: es =>
    let r := e.run o now ks
    let rest := serve o r.1 es
    (rest.1, r.2.map (fun f => (now, f)) ++ rest.2)

/-- A call while the file is loaded: the clock shows `clock i` at the `i`-th one. -/
def loadCall (o : Objects V) (clock : Nat → Int) (call' : Call) (s : Nat × Keyspace V) : Nat × Keyspace V :=
  (s.1 + 1, (call o ⟨true, clock s.1⟩ s.2 ⟨call'.proc, call'.db, call'.argv⟩).1)

/-- The server is empty. -/
def Keyspace.empty : Keyspace V := fun _ _ => none

/-- The command has no effect that is relative to the clock and is written as it is: it is not a `SET`
    with a time to live or a `RESTORE` with one, or it changes nothing. -/
def Absolute (o : Objects V) (now : Int) (ks : Keyspace V) : Event → Prop
  | .command f =>
    (f.proc = .set → ∀ so, parseSet (f.argv.drop 3) .none = some so → so.expire ≠ none →
        setMilliseconds (!so.px) so.expire = none ∨
          setForbidden (setLookup ⟨false, now⟩ ks f.dictid (arg f.argv 1) so.nx so.xx).1 f.dictid (arg f.argv 1)
            so.nx so.xx = true) ∧
    (f.proc = .restore → ∀ ttl obj, restoreAccepts o (restoreLookup ⟨false, now⟩ ks f).1 f = some (ttl, obj) →
        ttl = 0)
  | .cycle _ _ => True

/-- Every event of the run is so. -/
def AllAbsolute (o : Objects V) : Keyspace V → List (Int × Event) → Prop
  | _, [] => True
  | ks, (now, e) :: es => Absolute o now ks e ∧ AllAbsolute o (e.run o now ks).1 es

end Model

/-! ## One key -/

section Keys

variable {V : Type} {o : Objects V} {ks : Keyspace V} {db : Nat} {key : Bytes}

@[simp] theorem put_same (e : Option (Entry V)) : ks.put db key e db key = e := by
  simp [Keyspace.put]

@[simp] theorem put_put (e e' : Option (Entry V)) : (ks.put db key e).put db key e' = ks.put db key e' := by
  funext d k
  by_cases h : d = db ∧ k = key <;> simp [Keyspace.put, h]

@[simp] theorem expireIfNeeded_loading (t : Int) : expireIfNeeded ⟨true, t⟩ ks db key = (ks, []) := by
  simp [expireIfNeeded]

/-- A key is deleted once. -/
theorem expireIfNeeded_again (c : Clock) :
    expireIfNeeded c (expireIfNeeded c ks db key).1 db key = ((expireIfNeeded c ks db key).1, []) := by
  by_cases hnone : getExpire ks db key < 0
  · simp [expireIfNeeded, hnone]
  · cases hl : c.loading with
    | true => simp [expireIfNeeded, hl]
    | false =>
      by_cases hlate : c.mstime ≤ getExpire ks db key
      · simp [expireIfNeeded, hl, hlate]
      · have hgone : getExpire (ks.put db key none) db key = -1 := by simp [getExpire]
        simp [expireIfNeeded, hnone, hl, hlate, hgone]

end Keys

/-! ## What was fed is loaded -/

section Loads

variable {V : Type} {env : LoadEnv} {o : Objects V}

/-- The loader makes `ks'` out of `ks` with what is written for `fs`, whatever its clock shows. -/
def Loads (env : LoadEnv) (o : Objects V) (fs : List (Int × Fed)) (ks ks' : Keyspace V) : Prop :=
  ∀ (clock : Nat → Int) (i : Nat), ∃ n, runCalls (loadCall o clock) (i, ks) (fs.flatMap (writesOf env)) = (n, ks')

theorem Loads.nil (ks : Keyspace V) : Loads env o [] ks ks := fun _ i => ⟨i, rfl⟩

theorem Loads.append {fs gs : List (Int × Fed)} {ks ks' ks'' : Keyspace V} (h : Loads env o fs ks ks')
    (h' : Loads env o gs ks' ks'') : Loads env o (fs ++ gs) ks ks'' := by
  intro clock i
  obtain ⟨n, hn⟩ := h clock i
  obtain ⟨m, hm⟩ := h' clock n
  refine ⟨m, ?_⟩
  rw [runCalls] at hn hm
  rw [List.flatMap_append, runCalls, List.foldl_append, hn, hm]

variable {f : Fed}

/-- What a list of argument vectors is, one after the other. -/
theorem Loads.of_calls {now : Int} {ks ks' : Keyspace V}
    (h : ∀ (clock : Nat → Int) (i : Nat), ∃ n, runCalls (loadCall o clock) (i, ks) (writesOf env (now, f)) = (n, ks')) :
    Loads env o [(now, f)] ks ks' := by
  intro clock i
  obtain ⟨n, hn⟩ := h clock i
  exact ⟨n, by rw [List.flatMap_cons, List.flatMap_nil, List.append_nil]; exact hn⟩

/-- A command that is written as it is. -/
theorem Loads.verbatim {now : Int} (hknown : env.commands (arg f.argv 0) = some f.proc)
    (hplain : f.proc ∈ [Proc.set, .pexpireat, .persist, .restore, .del]) {ks ks' : Keyspace V}
    (h : ∀ t, (call o ⟨true, t⟩ ks f).1 = ks') : Loads env o [(now, f)] ks ks' := by
  refine Loads.of_calls fun clock i => ⟨i + 1, ?_⟩
  have htranslate : translate now f = [f.argv] := by
    simp only [List.mem_cons, List.not_mem_nil, or_false] at hplain
    rcases hplain with h | h | h | h | h <;> simp [translate, h]
  have hcontrol : f.proc.control = false := by
    simp only [List.mem_cons, List.not_mem_nil, or_false] at hplain
    rcases hplain with h | h | h | h | h <;> simp [Proc.control, h]
  have hcall : writesOf env (now, f) = [⟨f.dictid, f.proc, f.argv⟩] := by
    simp [writesOf, htranslate, hknown]
  rw [hcall]
  simp [runCalls, hcontrol, loadCall, h]

/-- What was fed meanwhile brings about the effect. -/
abbrev LoadsRan (env : LoadEnv) (o : Objects V) (now : Int) (ks : Keyspace V) (r : Ran V) : Prop :=
  Loads env o (r.2.map fun f => (now, f)) ks r.1

theorem loads_persist (now : Int) (ks : Keyspace V) (hknown : env.commands (arg f.argv 0) = some f.proc)
    (hproc : f.proc = .persist) :
    LoadsRan env o now ks (persistCommand ks f) := by
  have hload : ∀ t, (call o ⟨true, t⟩ ks f).1 = (persistCommand ks f).1 := by
    intro t
    simp [call, hproc]
  by_cases hexp : ((ks f.dictid (arg f.argv 1)).bind (·.expire)).isSome = true
  · have hfed : (persistCommand ks f).2 = [f] := by simp [persistCommand, hexp]
    rw [LoadsRan, hfed]
    exact Loads.verbatim hknown (by simp [hproc]) hload
  · simpa [LoadsRan, persistCommand, hexp] using Loads.nil ks

/-- The test of `NX` and `XX` comes out the same once `setKey` has looked at the key. -/
theorem setForbidden_setKey {c : Clock} {ks : Keyspace V} {db : Nat} {key : Bytes} {nx xx : Bool}
    (h : setForbidden (setLookup c ks db key nx xx).1 db key nx xx = false) :
    setForbidden (expireIfNeeded c (setLookup c ks db key nx xx).1 db key).1 db key nx xx = false := by
  by_cases hflag : (nx || xx) = true
  · rw [setLookup, if_pos hflag] at h ⊢
    rw [expireIfNeeded_again]
    exact h
  · have hnone : nx = false ∧ xx = false := by simpa using hflag
    simp [setForbidden, hnone]

theorem expireAt_of_string2ll (proc : Proc) (now : Int) {v : Int} {seconds : Bytes} (h : string2ll seconds = some v) :
    (proc = .expire ∨ proc = .setex → expireAt proc now seconds = Int.bmod (Int.bmod (v * 1000) (2 ^ 64) + now) (2 ^ 64))
      ∧ (proc = .pexpire ∨ proc = .psetex → expireAt proc now seconds = Int.bmod (v + now) (2 ^ 64))
      ∧ (proc = .expireat → expireAt proc now seconds = Int.bmod (v * 1000) (2 ^ 64)) := by
  have hv := strtol_of_string2ll h
  refine ⟨?_, ?_, ?_⟩
  · rintro (rfl | rfl) <;> simp [expireAt, hv]
  · rintro (rfl | rfl) <;> simp [expireAt, hv]
  · rintro rfl
    simp [expireAt, hv]

/-- A time that is out of date is kept while loading. -/
theorem load_pexpireat (t : Int) (ks : Keyspace V) (db : Nat) (proc : Proc) (now : Int) (key seconds : Bytes) :
    (call o ⟨true, t⟩ ks ⟨.pexpireat, db, expireAtArgv proc now key seconds⟩).1
      = if (ks db key).isNone then ks else setExpire ks db key (expireAt proc now seconds) := by
  obtain ⟨hlo, hhi⟩ := expireAt_bounds proc now seconds
  have hread : string2ll (arg (expireAtArgv proc now key seconds) 2) = some (expireAt proc now seconds) :=
    string2ll_ll2string hlo hhi
  have hkey : arg (expireAtArgv proc now key seconds) 1 = key := rfl
  have hmod : Int.bmod (expireAt proc now seconds) 18446744073709551616 = expireAt proc now seconds := by
    rw [Int.bmod_eq_of_le] <;> omega
  simp only [call, expireGenericCommand, hread, hkey, expireIfNeeded_loading]
  by_cases hnone : (ks db key).isNone = true
  · simp [hnone]
  · simp [hnone, hmod]

theorem load_set (t : Int) (ks : Keyspace V) (db : Nat) (key val : Bytes) :
    (call o ⟨true, t⟩ ks ⟨.set, db, [setName, key, val]⟩).1 = ks.put db key (some ⟨o.string val, none⟩) := by
  simp [call, setCommand, parseSet, SetOptions.none, setGenericCommand, setMilliseconds, setLookup, setForbidden,
    setKey, arg]

variable (hdel : env.commands delName = some .del) (now : Int) (ks : Keyspace V)

include hdel

theorem loads_del (db : Nat) (key : Bytes) :
    Loads env o [(now, ⟨.del, db, [delName, key]⟩)] ks (ks.put db key none) := by
  refine Loads.verbatim (f := ⟨.del, db, [delName, key]⟩) hdel (by simp) fun t => ?_
  simp [call, delCommand, delKeys]

theorem loads_expireIfNeeded (db : Nat) (key : Bytes) :
    LoadsRan env o now ks (expireIfNeeded ⟨false, now⟩ ks db key) := by
  by_cases hnone : getExpire ks db key < 0
  · simpa [LoadsRan, expireIfNeeded, hnone] using Loads.nil ks
  · by_cases hlate : now ≤ getExpire ks db key
    · simpa [LoadsRan, expireIfNeeded, hnone, hlate] using Loads.nil ks
    · simpa [LoadsRan, expireIfNeeded, hnone, hlate] using loads_del hdel now ks db key

theorem loads_setLookup (db : Nat) (key : Bytes) (nx xx : Bool) :
    LoadsRan env o now ks (setLookup ⟨false, now⟩ ks db key nx xx) := by
  rw [setLookup]
  split_ifs
  · exact loads_expireIfNeeded hdel now ks db key
  · exact Loads.nil ks

/-- `SET`, without a time to live or without an effect. -/
theorem loads_set (hknown : env.commands (arg f.argv 0) = some f.proc) (hproc : f.proc = .set)
    (habs : Absolute o now ks (.command f)) : LoadsRan env o now ks (setCommand o ⟨false, now⟩ ks f) := by
  rw [setCommand]
  cases hparse : parseSet (f.argv.drop 3) .none with
  | none => exact Loads.nil ks
  | some so =>
    have hrel := habs.1 hproc so hparse
    simp only [setGenericCommand]
    cases hms : setMilliseconds (!so.px) so.expire with
    | none => exact Loads.nil ks
    | some milliseconds =>
      have hlookup := loads_setLookup (o := o) hdel now ks f.dictid (arg f.argv 1) so.nx so.xx
      simp only
      by_cases hforbid : setForbidden (setLookup ⟨false, now⟩ ks f.dictid (arg f.argv 1) so.nx so.xx).1 f.dictid
          (arg f.argv 1) so.nx so.xx = true
      · rw [if_pos hforbid]
        exact hlookup
      · rw [if_neg hforbid]
        -- no time to live
        have hexpire : so.expire = none := by
          by_contra hne
          rcases hrel hne with h | h
          · rw [hms] at h
            exact absurd h (by simp)
          · exact hforbid h
        have hnone : milliseconds = none := by
          rw [hexpire] at hms
          exact (Option.some.inj hms).symm
        have hallowed := setForbidden_setKey (Bool.not_eq_true _ ▸ hforbid)
        have hkey := loads_expireIfNeeded (o := o) hdel now
          (setLookup ⟨false, now⟩ ks f.dictid (arg f.argv 1) so.nx so.xx).1 f.dictid (arg f.argv 1)
        simp only [hnone, LoadsRan, List.map_append]
        refine (hlookup.append hkey).append (Loads.verbatim hknown (by rw [hproc]; decide) fun t => ?_)
        have hloading : ∀ ks' : Keyspace V,
            setLookup ⟨true, t⟩ ks' f.dictid (arg f.argv 1) so.nx so.xx = (ks', []) := by
          intro ks'
          simp [setLookup]
        simp only [call, hproc, if_true, setCommand, hparse, setGenericCommand, hexpire, setMilliseconds, hloading,
          hallowed, setKey, expireIfNeeded_loading]
        rfl

/-- `SETEX` and `PSETEX`. -/
theorem loads_setex (hs : Standard env) (seconds : Bool) (hproc : f.proc = if seconds then .setex else .psetex) :
    LoadsRan env o now ks (setexCommand o ⟨false, now⟩ ks f seconds) := by
  simp only [setexCommand, setGenericCommand, setMilliseconds]
  cases hv : string2ll (arg f.argv 2) with
  | none => exact Loads.nil ks
  | some v =>
    by_cases hneg : v ≤ 0
    · simpa [LoadsRan, hneg] using Loads.nil ks
    · have hkey := loads_expireIfNeeded (o := o) hdel now ks f.dictid (arg f.argv 1)
      simp only [hneg, if_false, setLookup, setForbidden, Bool.or_false, Bool.false_and, Bool.false_eq_true,
        List.nil_append, Option.map_some, Option.getD_some, setKey, LoadsRan, List.map_append]
      refine hkey.append (Loads.of_calls fun clock i => ⟨i + 2, ?_⟩)
      -- the time that was written
      have htime : expireAt f.proc now (arg f.argv 2)
          = Int.bmod (now + if seconds then Int.bmod (v * 1000) (2 ^ 64) else v) (2 ^ 64) := by
        obtain ⟨hsec, hmsec, -⟩ := expireAt_of_string2ll f.proc now hv
        cases seconds with
        | true => rw [hsec (.inr hproc), Int.add_comm, if_pos rfl]
        | false => rw [hmsec (.inr hproc), Int.add_comm, if_neg (by simp)]
      have hwrites : writesOf env (now, f) = [⟨f.dictid, .set, [setName, arg f.argv 1, arg f.argv 3]⟩,
          ⟨f.dictid, .pexpireat, expireAtArgv f.proc now (arg f.argv 1) (arg f.argv 2)⟩] := by
        have htranslate : translate now f = [[setName, arg f.argv 1, arg f.argv 3],
            expireAtArgv f.proc now (arg f.argv 1) (arg f.argv 2)] := by
          cases seconds <;> simp [translate, hproc]
        have hname : arg [setName, arg f.argv 1, arg f.argv 3] 0 = setName := rfl
        simp only [writesOf, htranslate, List.map_cons, List.map_nil, arg_expireAtArgv, hname, hs.pexpireat, hs.set,
          Option.getD_some]
      rw [hwrites]
      simp [runCalls, Proc.control, loadCall, load_set, load_pexpireat, htime]

/-- The key is deleted at once, or the command is fed after what `expireIfNeeded` feeds. -/
theorem loads_expireGeneric {basetime : Int} {seconds : Bool} (hset : ∀ v t, string2ll (arg f.argv 2) = some v →
      ¬(t f.dictid (arg f.argv 1)).isNone = true → Loads env o [(now, f)] t (setExpire t f.dictid (arg f.argv 1)
        (Int.bmod ((if seconds = true then Int.bmod (v * 1000) (2 ^ 64) else v) + basetime) (2 ^ 64)))) :
    LoadsRan env o now ks (expireGenericCommand ⟨false, now⟩ ks f basetime seconds) := by
  simp only [expireGenericCommand]
  cases hv : string2ll (arg f.argv 2) with
  | none => exact Loads.nil ks
  | some v =>
    have hkey := loads_expireIfNeeded (o := o) hdel now ks f.dictid (arg f.argv 1)
    obtain ⟨r, hr⟩ : ∃ r, expireIfNeeded ⟨false, now⟩ ks f.dictid (arg f.argv 1) = r := ⟨_, rfl⟩
    have hlast := hset v r.1 hv
    simp only
    rw [hr] at hkey ⊢
    generalize Int.bmod (_ + basetime) (2 ^ 64) = time at hlast ⊢
    by_cases hnone : (r.1 f.dictid (arg f.argv 1)).isNone = true
    · simpa [hnone] using hkey
    · by_cases hpast : time ≤ now
      · simp only [hnone, hpast, and_self, Bool.false_eq_true, if_false, if_true, LoadsRan, List.map_append]
        exact hkey.append (loads_del hdel now r.1 f.dictid (arg f.argv 1))
      · simp only [hnone, hpast, false_and, Bool.false_eq_true, if_false, LoadsRan, List.map_append]
        exact hkey.append (hlast hnone)

/-- `EXPIRE`, `PEXPIRE` and `EXPIREAT`. -/
theorem loads_expire (hs : Standard env) (basetime : Int) (seconds : Bool)
    (hproc : f.proc = .expire ∨ f.proc = .pexpire ∨ f.proc = .expireat) (hunit : seconds = decide (f.proc ≠ .pexpire))
    (hbase : basetime = if f.proc = .expireat then 0 else now) :
    LoadsRan env o now ks (expireGenericCommand ⟨false, now⟩ ks f basetime seconds) := by
  refine loads_expireGeneric hdel now ks fun v t hv hkey => Loads.of_calls fun clock i => ⟨i + 1, ?_⟩
  have htime : Int.bmod ((if seconds = true then Int.bmod (v * 1000) (2 ^ 64) else v) + basetime) (2 ^ 64)
      = expireAt f.proc now (arg f.argv 2) := by
    obtain ⟨hexpire, hpexpire, hexpireat⟩ := expireAt_of_string2ll f.proc now hv
    rcases hproc with h | h | h
    · rw [hexpire (.inl h), hunit, hbase, h]
      simp
    · rw [hpexpire (.inl h), hunit, hbase, h]
      simp
    · rw [hexpireat h, hunit, hbase, h]
      simp
  have hwrites : writesOf env (now, f)
      = [⟨f.dictid, .pexpireat, expireAtArgv f.proc now (arg f.argv 1) (arg f.argv 2)⟩] := by
    rw [writesOf, translate, if_pos hproc]
    simp [arg_expireAtArgv, hs.pexpireat]
  rw [hwrites, htime]
  simp [runCalls, Proc.control, loadCall, load_pexpireat, hkey]

theorem loads_pexpireat (hknown : env.commands (arg f.argv 0) = some f.proc) (hproc : f.proc = .pexpireat) :
    LoadsRan env o now ks (expireGenericCommand ⟨false, now⟩ ks f 0 false) := by
  refine loads_expireGeneric hdel now ks fun v t hv hkey => Loads.verbatim hknown (by simp [hproc]) fun time => ?_
  simp [call, hproc, expireGenericCommand, hv, hkey]

/-- `RESTORE` without a time to live. -/
theorem loads_restore (hknown : env.commands (arg f.argv 0) = some f.proc) (hproc : f.proc = .restore)
    (habs : Absolute o now ks (.command f)) : LoadsRan env o now ks (restoreCommand o ⟨false, now⟩ ks f) := by
  have hlookup : LoadsRan env o now ks (restoreLookup ⟨false, now⟩ ks f) := by
    rw [restoreLookup]
    split_ifs
    · exact Loads.nil ks
    · exact loads_expireIfNeeded hdel now ks f.dictid (arg f.argv 1)
    · exact Loads.nil ks
  simp only [restoreCommand]
  cases haccept : restoreAccepts o (restoreLookup ⟨false, now⟩ ks f).1 f with
  | none => exact hlookup
  | some a =>
    obtain ⟨ttl, obj⟩ := a
    obtain rfl := habs.2 hproc ttl obj haccept
    simp only [LoadsRan, List.map_append]
    refine hlookup.append (Loads.verbatim hknown (by simp [hproc]) fun t => ?_)
    have hloading : restoreLookup ⟨true, t⟩ (restoreLookup ⟨false, now⟩ ks f).1 f
        = ((restoreLookup ⟨false, now⟩ ks f).1, []) := by
      rw [restoreLookup]
      simp
    simp [call, hproc, restoreCommand, hloading, haccept]

end Loads

/-! ## `DEL` -/

section Del

variable {V : Type} {env : LoadEnv} {o : Objects V}

/-- Some keys are deleted. -/
def Keyspace.without (ks : Keyspace V) (db : Nat) (keys : List Bytes) : Keyspace V :=
  fun d k => if d = db ∧ k ∈ keys then none else ks d k

theorem without_cons (ks : Keyspace V) (db : Nat) (key : Bytes) (keys : List Bytes) :
    ks.without db (key :: keys) = (ks.put db key none).without db keys := by
  funext d k
  by_cases hk : k = key <;> by_cases hd : d = db <;> simp [Keyspace.without, Keyspace.put, hk, hd]

theorem expireIfNeeded_put (c : Clock) (ks : Keyspace V) (db : Nat) (key : Bytes) :
    (expireIfNeeded c ks db key).1.put db key none = ks.put db key none := by
  rw [expireIfNeeded]
  split_ifs <;> simp

theorem delKeys_keys (c : Clock) (db : Nat) (keys : List Bytes) : ∀ (ks : Keyspace V),
    (delKeys c db keys ks).1.1 = ks.without db keys := by
  induction keys with
  | nil =>
    intro ks
    funext d k
    simp [delKeys, Keyspace.without]
  | cons key keys ih =>
    intro ks
    simp only [delKeys]
    rw [ih, expireIfNeeded_put, without_cons]

/-- The keys that `delKeys` finds out of date; if it deletes no other key, no other key is there. -/
theorem delKeys_fed (c : Clock) (db : Nat) (keys : List Bytes) : ∀ (ks : Keyspace V),
    ∃ ds : List Bytes, (delKeys c db keys ks).1.2 = ds.map (fun key => ⟨.del, db, [delName, key]⟩) ∧ (∀ k ∈ ds, k ∈ keys)
      ∧ ((delKeys c db keys ks).2 = false → ∀ k ∈ keys, ks db k = none ∨ k ∈ ds) := by
  induction keys with
  | nil => exact fun ks => ⟨[], rfl, by simp, by simp⟩
  | cons key keys ih =>
    intro ks
    obtain ⟨ds, hds, hmem, hrest⟩ := ih ((expireIfNeeded c ks db key).1.put db key none)
    -- what the first key feeds
    obtain ⟨es, hes, hese, hgone⟩ : ∃ es : List Bytes,
        (expireIfNeeded c ks db key).2 = es.map (fun key => ⟨.del, db, [delName, key]⟩) ∧ (∀ k ∈ es, k = key)
          ∧ (((expireIfNeeded c ks db key).1 db key).isSome = false → ks db key = none ∨ key ∈ es) := by
      rw [expireIfNeeded]
      split_ifs
      · exact ⟨[], rfl, by simp, by simp⟩
      · exact ⟨[], rfl, by simp, by simp⟩
      · exact ⟨[], rfl, by simp, by simp⟩
      · exact ⟨[key], rfl, by simp, by simp⟩
    refine ⟨es ++ ds, ?_, ?_, ?_⟩
    · simp only [delKeys, hes, hds, List.map_append]
    · intro k hk
      rcases List.mem_append.mp hk with hk | hk
      · exact List.mem_cons.mpr (.inl (hese k hk))
      · exact List.mem_cons_of_mem _ (hmem k hk)
    · intro hflag k hk
      simp only [delKeys, Bool.or_eq_false_iff] at hflag
      by_cases hkey : k = key
      · subst hkey
        exact (hgone hflag.1).imp_right (List.mem_append_left ds)
      · have hk' : k ∈ keys := (List.mem_cons.mp hk).resolve_left hkey
        rw [expireIfNeeded_put] at hrest hflag
        refine (hrest hflag.2 k hk').imp (fun h => ?_) (List.mem_append_right es)
        simpa [Keyspace.put, hkey] using h

theorem loads_dels (hdel : env.commands delName = some .del) (now : Int) (db : Nat) (ds : List Bytes) :
    ∀ (ks : Keyspace V), Loads env o ((ds.map fun key => (⟨.del, db, [delName, key]⟩ : Fed)).map fun f => (now, f)) ks
      (ks.without db ds) := by
  induction ds with
  | nil =>
    intro ks
    have hnone : ks.without db [] = ks := by
      funext d k
      simp [Keyspace.without]
    rw [hnone]
    exact Loads.nil ks
  | cons key ds ih =>
    intro ks
    rw [without_cons]
    exact (loads_del hdel now ks db key).append (ih (ks.put db key none))

theorem loads_delCommand (hdel : env.commands delName = some .del) (now : Int) (ks : Keyspace V) {f : Fed}
    (hknown : env.commands (arg f.argv 0) = some f.proc) (hproc : f.proc = .del) :
    LoadsRan env o now ks (delCommand ⟨false, now⟩ ks f) := by
  obtain ⟨ds, hds, hmem, hgone⟩ := delKeys_fed ⟨false, now⟩ f.dictid (f.argv.drop 1) ks
  have hfirst := loads_dels (o := o) hdel now f.dictid ds ks
  have hload : ∀ t ks', (call o ⟨true, t⟩ ks' f).1 = ks'.without f.dictid (f.argv.drop 1) := by
    intro t ks'
    rw [show call o ⟨true, t⟩ ks' f = delCommand ⟨true, t⟩ ks' f by simp [call, hproc]]
    simp only [delCommand, delKeys_keys]
  obtain ⟨keys, hkeys⟩ : ∃ keys, f.argv.drop 1 = keys := ⟨_, rfl⟩
  simp only [LoadsRan, delCommand, hds, delKeys_keys]
  rw [hkeys] at hmem hgone hload ⊢
  cases hflag : (delKeys ⟨false, now⟩ f.dictid keys ks).2 with
  | true =>
    have hall : (ks.without f.dictid ds).without f.dictid keys = ks.without f.dictid keys := by
      funext d k
      by_cases hd : d = f.dictid <;> by_cases hk : k ∈ keys <;> by_cases hk' : k ∈ ds
      all_goals simp [Keyspace.without, hd, hk, hk']
      exact absurd (hmem k hk') hk
    rw [if_pos rfl, List.map_append, ← hall]
    exact hfirst.append (Loads.verbatim hknown (by simp [hproc]) fun t => hload t _)
  | false =>
    have hsame : ks.without f.dictid keys = ks.without f.dictid ds := by
      funext d k
      by_cases hd : d = f.dictid
      · subst hd
        by_cases hk : k ∈ keys
        · by_cases hk' : k ∈ ds
          · simp [Keyspace.without, hk, hk']
          · simp [Keyspace.without, hk, (hgone hflag k hk).resolve_right hk']
        · have hk' : k ∉ ds := fun h => hk (hmem k h)
          simp [Keyspace.without, hk, hk']
      · simp [Keyspace.without, hd]
    rw [if_neg (by simp), List.append_nil, hsame]
    exact hfirst

end Del

/-! ## The run -/

section Run

variable {V : Type} {env : LoadEnv} {o : Objects V}

/-- The event is about commands that the loading server has. -/
def EventOk (env : LoadEnv) : Event → Prop
  | .command f => Writable env f
  | .cycle db key => Writable env ⟨.del, db, [delName, key]⟩

/-- What one event feeds is loaded. -/
theorem loads_event (hs : Standard env) (hdel : env.commands delName = some .del) (now : Int) (ks : Keyspace V)
    {e : Event} (he : EventOk env e) (habs : Absolute o now ks e) :
    LoadsRan env o now ks (e.run o now ks) := by
  cases e with
  | cycle db key =>
    simp only [Event.run, activeExpireCycleTryExpire]
    cases hexp : (ks db key).bind (·.expire) with
    | none => exact Loads.nil ks
    | some t =>
      by_cases hlate : now ≤ t
      · simpa [LoadsRan, hlate] using Loads.nil ks
      · simpa [LoadsRan, hlate] using loads_del hdel now ks db key
  | command f =>
    have hknown := he.known
    obtain ⟨proc, hproc⟩ : ∃ proc, f.proc = proc := ⟨_, rfl⟩
    simp only [Event.run, call]
    cases proc
    case set => simpa [hproc] using loads_set hdel now ks hknown hproc habs
    case setex => simpa [hproc] using loads_setex (o := o) hdel now ks hs true hproc
    case psetex => simpa [hproc] using loads_setex (o := o) hdel now ks hs false hproc
    case expire =>
      simpa [hproc] using loads_expire (o := o) hdel now ks hs now true (.inl hproc)
        (by simp [hproc]) (by simp [hproc])
    case pexpire =>
      simpa [hproc] using loads_expire (o := o) hdel now ks hs now false (.inr (.inl hproc))
        (by simp [hproc]) (by simp [hproc])
    case expireat =>
      simpa [hproc] using loads_expire (o := o) hdel now ks hs 0 true (.inr (.inr hproc))
        (by simp [hproc]) (by simp [hproc])
    case pexpireat => simpa [hproc] using loads_pexpireat (o := o) hdel now ks hknown hproc
    case persist => simpa [hproc] using loads_persist (o := o) now ks hknown hproc
    case restore => simpa [hproc] using loads_restore hdel now ks hknown hproc habs
    case del => simpa [hproc] using loads_delCommand (o := o) hdel now ks hknown hproc
    all_goals simpa [LoadsRan, hproc] using Loads.nil ks

theorem loads_serve (hs : Standard env) (hdel : env.commands delName = some .del) {es : List (Int × Event)} :
    ∀ {ks : Keyspace V}, (∀ e ∈ es, EventOk env e.2) → AllAbsolute o ks es →
      Loads env o (serve o ks es).2 ks (serve o ks es).1 := by
  induction es with
  | nil => exact fun _ _ => Loads.nil _
  | cons e es ih =>
    intro ks hes habs
    obtain ⟨now, e⟩ := e
    have hfirst := loads_event hs hdel now ks (hes _ List.mem_cons_self) habs.1
    exact hfirst.append (ih (fun e' he' => hes e' (List.mem_cons_of_mem _ he')) habs.2)

end Run

/-! ## What is fed -/

section Feds

variable {V : Type} {o : Objects V} {c : Clock} {ks : Keyspace V}

/-- The command itself, or a `DEL` of one of its keys. -/
def FedBy (f g : Fed) : Prop := g = f ∨ ∃ i, g = ⟨.del, f.dictid, [delName, arg f.argv i]⟩

theorem fed_expireIfNeeded {db : Nat} {key : Bytes} {g : Fed} (h : g ∈ (expireIfNeeded c ks db key).2) :
    g = ⟨.del, db, [delName, key]⟩ := by
  rw [expireIfNeeded] at h
  split_ifs at h <;> simp_all

variable {f g : Fed}

theorem fed_setGenericCommand {i : Nat} {val : V} {nx xx seconds : Bool} {expire : Option Bytes}
    (h : g ∈ (setGenericCommand c ks f (arg f.argv i) val nx xx seconds expire).2) : FedBy f g := by
  have hlookup : ∀ {ks : Keyspace V}, g ∈ (setLookup c ks f.dictid (arg f.argv i) nx xx).2 → FedBy f g := by
    intro ks hg
    rw [setLookup] at hg
    split_ifs at hg
    · exact .inr ⟨i, fed_expireIfNeeded hg⟩
    · simp at hg
  rw [setGenericCommand] at h
  cases hms : setMilliseconds seconds expire with
  | none => simp [hms] at h
  | some ms =>
    simp only [hms] at h
    split_ifs at h
    · exact hlookup h
    · simp only [List.mem_append, List.mem_singleton] at h
      rcases h with (h | h) | h
      · exact hlookup h
      · exact .inr ⟨i, fed_expireIfNeeded h⟩
      · exact .inl h

theorem fed_expireGenericCommand {basetime : Int} {seconds : Bool}
    (h : g ∈ (expireGenericCommand c ks f basetime seconds).2) : FedBy f g := by
  rw [expireGenericCommand] at h
  cases hv : string2ll (arg f.argv 2) with
  | none => simp [hv] at h
  | some v =>
    obtain ⟨when, hwhen⟩ : ∃ w, Int.bmod ((if seconds = true then Int.bmod (v * 1000) (2 ^ 64) else v) + basetime)
        (2 ^ 64) = w := ⟨_, rfl⟩
    simp only [hv, hwhen] at h
    split_ifs at h
    · exact .inr ⟨1, fed_expireIfNeeded h⟩
    · rcases List.mem_append.mp h with h | h
      · exact .inr ⟨1, fed_expireIfNeeded h⟩
      · exact .inr ⟨1, List.mem_singleton.mp h⟩
    · rcases List.mem_append.mp h with h | h
      · exact .inr ⟨1, fed_expireIfNeeded h⟩
      · exact .inl (List.mem_singleton.mp h)

theorem fed_restoreCommand (h : g ∈ (restoreCommand o c ks f).2) : FedBy f g := by
  have hlookup : g ∈ (restoreLookup c ks f).2 → FedBy f g := by
    intro hg
    rw [restoreLookup] at hg
    split_ifs at hg
    · simp at hg
    · exact .inr ⟨1, fed_expireIfNeeded hg⟩
    · simp at hg
  rw [restoreCommand] at h
  cases ha : restoreAccepts o (restoreLookup c ks f).1 f with
  | none =>
    simp only [ha] at h
    exact hlookup h
  | some a =>
    simp only [ha, List.mem_append, List.mem_singleton] at h
    rcases h with h | h
    · exact hlookup h
    · exact .inl h

theorem fed_delCommand (h : g ∈ (delCommand c ks f).2) : FedBy f g := by
  obtain ⟨ds, hds, hmem, -⟩ := delKeys_fed c f.dictid (f.argv.drop 1) ks
  rw [delCommand] at h
  simp only [hds, List.mem_append, List.mem_map] at h
  rcases h with ⟨key, hkey, rfl⟩ | h
  · obtain ⟨i, hi⟩ := List.mem_iff_getElem?.mp (List.mem_of_mem_drop (hmem key hkey))
    refine .inr ⟨i, ?_⟩
    rw [arg, List.getD_eq_getElem?_getD, hi, Option.getD_some]
  · split_ifs at h
    · exact .inl (List.mem_singleton.mp h)
    · simp at h

theorem fed_call (h : g ∈ (call o c ks f).2) : FedBy f g ∧ f.proc ≠ .multi := by
  obtain ⟨proc, hproc⟩ : ∃ proc, f.proc = proc := ⟨_, rfl⟩
  rw [call] at h
  refine ⟨?_, fun hmulti => by simp [hmulti] at h⟩
  cases proc
  case set =>
    rw [if_pos hproc, setCommand] at h
    cases hparse : parseSet (f.argv.drop 3) .none with
    | none => simp [hparse] at h
    | some so =>
      simp only [hparse] at h
      exact fed_setGenericCommand h
  case setex => exact fed_setGenericCommand (by simpa [hproc, setexCommand] using h)
  case psetex => exact fed_setGenericCommand (by simpa [hproc, setexCommand] using h)
  case expire => exact fed_expireGenericCommand (by simpa [hproc] using h)
  case pexpire => exact fed_expireGenericCommand (by simpa [hproc] using h)
  case expireat => exact fed_expireGenericCommand (by simpa [hproc] using h)
  case pexpireat => exact fed_expireGenericCommand (by simpa [hproc] using h)
  case persist =>
    simp only [hproc, reduceCtorEq, if_false, if_true, persistCommand] at h
    split_ifs at h
    · exact .inl (List.mem_singleton.mp h)
    · simp at h
  case restore => exact fed_restoreCommand (by simpa [hproc] using h)
  case del => exact fed_delCommand (by simpa [hproc] using h)
  all_goals simp [hproc] at h

theorem Writable.del {env : LoadEnv} (hdel : env.commands delName = some .del) {f : Fed} (h : Writable env f)
    (i : Nat) : Writable env ⟨.del, f.dictid, [delName, arg f.argv i]⟩ where
  fits := by
    refine ⟨by simp, by simp, ?_⟩
    intro a ha
    simp only [List.mem_cons, List.not_mem_nil, or_false] at ha
    rcases ha with rfl | rfl
    · decide
    · exact arg_sizes h.fits i
  known := hdel
  plain := by simp
  db := h.db
  int := h.int
  cluster := h.cluster

/-- Every command that is fed can be loaded, and starts no transaction. -/
theorem fed_serve {env : LoadEnv} (hdel : env.commands delName = some .del) {es : List (Int × Event)} :
    ∀ {ks : Keyspace V}, (∀ e ∈ es, EventOk env e.2) →
      ∀ g ∈ (serve o ks es).2, Writable env g.2 ∧ g.2.proc ≠ .multi := by
  induction es with
  | nil => simp [serve]
  | cons e es ih =>
    intro ks hes g hg
    obtain ⟨now, e⟩ := e
    simp only [serve, List.mem_append, List.mem_map] at hg
    rcases hg with ⟨f, hf, rfl⟩ | hg
    · have he := hes _ List.mem_cons_self
      cases e with
      | command f' =>
        obtain ⟨hfed | ⟨i, hfed⟩, hmulti⟩ := fed_call hf
        · rw [hfed]
          exact ⟨he, hmulti⟩
        · rw [hfed]
          exact ⟨Writable.del hdel he i, by simp⟩
      | cycle db key =>
        simp only [Event.run, activeExpireCycleTryExpire] at hf
        cases hexp : (ks db key).bind (·.expire) with
        | none => simp [hexp] at hf
        | some t =>
          simp only [hexp] at hf
          split_ifs at hf
          · simp at hf
          · rw [List.mem_singleton.mp hf]
            exact ⟨he, by simp⟩
    · exact ih (fun e' he' => hes e' (List.mem_cons_of_mem _ he')) g hg

end Feds

/-! ## The file is loaded -/

section File

variable {V : Type} {env : LoadEnv} {o : Objects V}

theorem commandsOfAll_no_multi (hs : Standard env) {fs : List (Int × Fed)}
    (h : ∀ f ∈ fs, Writable env f.2 ∧ f.2.proc ≠ .multi) :
    ∀ (selected : Int), ∀ argv ∈ commandsOfAll selected fs, env.commands (arg argv 0) ≠ some .multi := by
  induction fs with
  | nil => simp [commandsOfAll]
  | cons f fs ih =>
    intro selected argv hargv
    obtain ⟨now, f⟩ := f
    obtain ⟨hf, hmulti⟩ := h _ List.mem_cons_self
    rw [commandsOfAll, commandsOf, List.mem_append, List.mem_append] at hargv
    rcases hargv with (hargv | hargv) | hargv
    · by_cases hsel : (f.dictid : Int) ≠ selected
      · rw [if_pos hsel, List.mem_singleton] at hargv
        simp [hargv, arg, selectArgv, hs.select]
      · simp [hsel] at hargv
    · rw [translate] at hargv
      split_ifs at hargv
      · rw [List.mem_singleton.mp hargv, arg_expireAtArgv, hs.pexpireat]
        decide
      · simp only [List.mem_cons, List.not_mem_nil, or_false] at hargv
        rcases hargv with rfl | rfl
        · simp [arg, hs.set]
        · rw [arg_expireAtArgv, hs.pexpireat]
          decide
      · rw [List.mem_singleton.mp hargv, hf.known]
        simpa using hmulti
    · exact ih (fun g hg => h g (List.mem_cons_of_mem _ hg)) _ argv hargv

/-- **The file keeps the times to live**: the keys are loaded as they were, each with its time, if no
    command had an effect that is relative to the clock and written as it is.  The clock of the
    loading server may show anything. -/
theorem absolute_expires (env : LoadEnv) (hs : Standard env) (hdel : env.commands delName = some .del)
    (o : Objects V) (es : List (Int × Event)) (hes : ∀ e ∈ es, EventOk env e.2) (habs : AllAbsolute o .empty es)
    (clock : Nat → Int) :
    ∃ n, dataset (loadCall o clock) (0, .empty) (loadAppendOnlyFile env (feedAll (-1) (serve o .empty es).2).1)
      = some (n, (serve o .empty es).1) := by
  have hfed : ∀ g ∈ (serve o .empty es).2, Writable env g.2 ∧ g.2.proc ≠ .multi := fed_serve hdel hes
  have hfeds := fun f hf => (hfed f hf).1
  obtain ⟨n, hn⟩ := loads_serve (o := o) hs hdel hes habs clock 0
  refine ⟨n, ?_⟩
  have hfile : (feedAll (-1) (serve o .empty es).2).1 = text (commandsOfAll (-1) (serve o .empty es).2) :=
    feedAll_eq _ (-1) (fun f hf => by have := (hfeds f hf).int; omega)
  have hcalls : effects (runCommands env Loader.fresh (commandsOfAll (-1) (serve o .empty es).2)).calls
      = effects Loader.fresh.calls ++ effects ((serve o .empty es).2.flatMap (writesOf env)) :=
    runCommands_feeds hs hfeds (.inr rfl)
  by_cases hnil : commandsOfAll (-1) (serve o .empty es).2 = []
  · -- nothing was written
    have hempty : effects ((serve o .empty es).2.flatMap (writesOf env)) = [] := by
      rw [hnil] at hcalls
      exact hcalls.symm
    rw [← runCalls_effects, hempty] at hn
    rw [hfile, hnil, ← hn]
    rfl
  · rw [hfile, load_text (known_feeds hs hfeds (-1)) hnil
      (runCommands_multi (commandsOfAll_no_multi hs hfed (-1)) rfl), dataset, ← runCalls_effects, hcalls, ← hn,
      ← runCalls_effects (loadCall o clock) ((serve o .empty es).2.flatMap (writesOf env))]
    rfl

end File

/-- A server with `SET`, `EXPIRE` and `DEL`. -/
def expireEnv : LoadEnv where
  commands name :=
    if name = selectName then some .select
    else if name = setName then some .set
    else if name = [69, 88, 80, 73, 82, 69] then some .expire
    else if name = pexpireatName then some .pexpireat
    else if name = delName then some .del
    else none
  dbnum := 16
  clusterEnabled := false
  loadTruncated := true

/-- The only values are strings. -/
def strings : Objects Bytes where
  string s := s
  payload _ := none

/-- `SET k v`, `EXPIRE k 10`. -/
def setExpireRun : List (Int × Event) :=
  [(0, .command ⟨.set, 0, [setName, [107], [118]]⟩),
    (5, .command ⟨.expire, 0, [[69, 88, 80, 73, 82, 69], [107], [49, 48]]⟩)]

theorem absolute_expires_set : ∃ n, dataset (loadCall strings fun _ => 1000) (0, .empty)
    (loadAppendOnlyFile expireEnv (feedAll (-1) (serve strings .empty setExpireRun).2).1)
      = some (n, (serve strings .empty setExpireRun).1) := by
  refine absolute_expires expireEnv ⟨rfl, rfl, rfl⟩ rfl strings setExpireRun ?_ ?_ (fun _ => 1000)
  · intro e he
    simp only [setExpireRun, List.mem_cons, List.not_mem_nil, or_false] at he
    rcases he with rfl | rfl
    · exact ⟨⟨by decide, by decide, by simp [setName]⟩, by decide, by decide, by decide, by decide, by decide⟩
    · exact ⟨⟨by decide, by decide, by simp⟩, by decide, by decide, by decide, by decide, by decide⟩
  · refine ⟨⟨fun _ so hso hne => ?_, fun h => absurd h (by decide)⟩,
      ⟨fun h => absurd h (by decide), fun h => absurd h (by decide)⟩, trivial⟩
    obtain rfl : so = .none := (Option.some.inj hso).symm
    exact absurd rfl hne

/-- `SET k v PX 100`. -/
def setPx : Fed := ⟨.set, 0, [setName, [107], [118], [80, 88], [49, 48, 48]]⟩

/-- The key is set at time 0, the file is loaded at time 5: the key expires at 105 instead of 100. -/
theorem relative_expire : ¬ ∀ (env : LoadEnv), Standard env → env.commands delName = some .del →
    ∀ (o : Objects Bytes) (es : List (Int × Event)), (∀ e ∈ es, EventOk env e.2) →
      ∀ (now : Int), (∀ e ∈ es, e.1 ≤ now) →
        ∃ s, dataset (loadCall o fun _ => now) (0, Keyspace.empty)
            (loadAppendOnlyFile env (feedAll (-1) (serve o .empty es).2).1) = some s
          ∧ ∀ db key e, (serve o .empty es).1 db key = some e → (∀ w, e.expire = some w → now ≤ w) →
            (s.2 db key).bind (·.expire) = e.expire := by
  intro hclaim
  obtain ⟨s, hs, hkeys⟩ := hclaim expireEnv ⟨rfl, rfl, rfl⟩ rfl strings [(0, .command setPx)] (by
      intro e he
      rw [List.mem_singleton.mp he]
      exact ⟨⟨by decide, by decide, by simp [setPx, setName]⟩, by decide, by decide, by decide, by decide, by decide⟩)
    5 (by simp)
  -- the original server
  have hkey : (serve strings .empty [(0, .command setPx)]).1 0 [107] = some ⟨[118], some 100⟩ := by decide +kernel
  have hsame := hkeys 0 [107] ⟨[118], some 100⟩ hkey (by
    intro w hw
    rw [Option.some.injEq] at hw
    omega)
  -- the loaded one
  have hfed : (serve strings .empty [(0, .command setPx)]).2 = [(0, setPx)] := by rfl
  have hload : (dataset (loadCall strings fun _ => 5) (0, Keyspace.empty)
      (loadAppendOnlyFile expireEnv (feedAll (-1) [(0, setPx)]).1)).bind (fun s => (s.2 0 [107]).bind (·.expire))
      = some 105 := by
    simp only [feedAll, feedAppendOnlyFile, setPx, catSelect_zero]
    decide
  rw [hfed] at hs
  rw [hs, Option.bind_some, hsame] at hload
  exact absurd hload (by decide)

end Redis.Aof
