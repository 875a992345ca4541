import Redis.Db.ExpireTime
import Redis.Object.Basic

namespace Redis.Object

open Outcome Server RedisDb

/-!
# Counters

`INCR`, `DECR`, `INCRBY`, `DECRBY` and `HINCRBY`: a string, or a field of a hash, that holds a
number.  The sums are sums of `long long`s, and a run records whether one of them overflows.

* `incrDecrCommand`, `hincrbyCommand`, `runCounter` — the commands;
* `Held` — what a key or a field holds, whatever the encoding;
* `CounterExact` — the exact number is stored and replied, or the command is refused;
* `counter_exact_iff` — when this is so.
-/

/-- A value of the keyspace; the other types are not looked into. -/
inductive Value (W : Type)
  | string (o : StringObject)
  | hash (o : HashObject)
  | other (w : W)

/-- What ends the process in a command on counters. -/
inductive CounterFault
  | server (fault : ServerFault)
  /-- The failed assertion of `hashTypeConvertZiplist`. -/
  | convertAssertion
  deriving DecidableEq, Repr

/-- A command after which a signed overflow may have happened. -/
structure CounterRun (W : Type) where
  server : Server (Value W)
  reply : KeyReply
  overflow : Bool

section Model

variable {W : Type}

def ofServer {α : Type} : Except ServerFault α → Except CounterFault α
  | .ok a => .ok a
  | .error e => .error (.server e)

/-- A sum of `long long`s, and whether it overflows. -/
def llAdd (a b : Int) : Int × Bool := (wrap64 (a + b), decide (wrap64 (a + b) ≠ a + b))

/-- A difference of `long long`s, and whether it overflows. -/
def llSub (a b : Int) : Int × Bool := (wrap64 (a - b), decide (wrap64 (a - b) ≠ a - b))

def wrongtypeerr : KeyReply := .error "WRONGTYPE Operation against a key holding the wrong kind of value"
def incrOverflowErr : KeyReply := .error "ERR increment or decrement would overflow"

/-- The check that both commands make before they add, and whether it overflows itself. -/
def incrementOverflows (incr oldvalue : Int) : Bool × Bool :=
  if incr < 0 ∧ oldvalue < 0 then
    (decide (incr < (llSub LLONG_MIN oldvalue).1), (llSub LLONG_MIN oldvalue).2)
  else if incr > 0 ∧ oldvalue > 0 then
    (decide (incr > (llSub LLONG_MAX oldvalue).1), (llSub LLONG_MAX oldvalue).2)
  else (false, false)

/-- The object that `incrDecrCommand` stores: `o` with another number, or a new one. -/
def incrementObject (o : Option StringObject) (value : Int) : StringObject :=
  match o with
  | some (.int _ false) =>
      if h : (value < 0 ∨ value ≥ OBJ_SHARED_INTEGERS) ∧ LONG_MIN ≤ value ∧ value ≤ LONG_MAX then
        .int ⟨value, h.2.1, h.2.2⟩ false
      else createStringObjectFromLongLong value
  | _ => createStringObjectFromLongLong value

/-- `incrDecrCommand` on the string that has been found. -/
def incrDecrString (s : Server (Value W)) (d : DbId) (key : Bytes) (o : Option StringObject) (incr : Int) :
    Except CounterFault (CounterRun W) :=
  match getLongLongFromObject o with
  | none => .ok ⟨s, notAnInteger, false⟩
  | some oldvalue =>
      let check := incrementOverflows incr oldvalue
      if check.1 then .ok ⟨s, incrOverflowErr, check.2⟩
      else do
        let value := llAdd oldvalue incr
        let db ← ofServer (addOrOverwrite (s.dbs d) key (.string (incrementObject o value.1))
          ((s.dbs d).dict key))
        let s ← ofServer (signalModifiedKey (s.setDb d db) d key)
        return ⟨s, .int value.1, check.2 || value.2⟩

/-- `incrDecrCommand`. -/
def incrDecrCommand (env : KeyEnv) (s : Server (Value W)) (d : DbId) (key : Bytes) (incr : Int) :
    Except CounterFault (CounterRun W) := do
  let r ← ofServer (lookupKeyWrite env 0 (s.dbs d) key)
  match r.2 with
  | none => incrDecrString (s.setDb d r.1) d key none incr
  | some (.string o) => incrDecrString (s.setDb d r.1) d key (some o) incr
  | some _ => return ⟨s.setDb d r.1, wrongtypeerr, false⟩

/-- `hincrbyCommand` on the hash that has been found or created. -/
def hincrbyHash (cfg : HashConfig) (s : Server (Value W)) (d : DbId) (key field : Bytes) (o : HashObject)
    (incr : Int) : Except CounterFault (CounterRun W) :=
  match getLongLongFromObject (hashTypeGetObject o field) with
  | none => .ok ⟨s, .error "ERR hash value is not an integer", false⟩
  | some oldvalue =>
      let check := incrementOverflows incr oldvalue
      if check.1 then .ok ⟨s, incrOverflowErr, check.2⟩
      else
        let value := llAdd oldvalue incr
        match hashTypeSet cfg o field (createStringObjectFromLongLong value.1) with
        | none => .error .convertAssertion
        | some o => do
            let s ← ofServer (signalModifiedKey (s.setDb d ((s.dbs d).setDict key (some (.hash o)))) d key)
            return ⟨s, .int value.1, check.2 || value.2⟩

/-- `hincrbyCommand`, its argument read. -/
def hincrbyCommand (cfg : HashConfig) (env : KeyEnv) (s : Server (Value W)) (d : DbId) (key field : Bytes)
    (incr : Int) : Except CounterFault (CounterRun W) := do
  let r ← ofServer (lookupKeyWrite env 0 (s.dbs d) key)
  match r.2 with
  -- `hashTypeLookupWriteOrCreate`
  | none => do
      let db ← ofServer (dbAdd r.1 key (.hash (.ziplist [])))
      hincrbyHash cfg (s.setDb d db) d key field (.ziplist []) incr
  | some (.hash o) => hincrbyHash cfg (s.setDb d r.1) d key field o incr
  | some _ => return ⟨s.setDb d r.1, wrongtypeerr, false⟩

/-- The commands on counters. -/
inductive CounterCommand
  | incr (key : Bytes)
  | decr (key : Bytes)
  | incrby (key arg : Bytes)
  | decrby (key arg : Bytes)
  | hincrby (key field arg : Bytes)
  deriving DecidableEq, Repr

/-- The commands that read an argument refuse one that is no number. -/
def withArgument (s : Server (Value W)) (arg : Bytes) (body : Int → Except CounterFault (CounterRun W)) :
    Except CounterFault (CounterRun W) :=
  match string2ll arg with
  | none => .ok ⟨s, notAnInteger, false⟩
  | some n => body n

/-- A command of a client whose database is `d`. -/
def runCounter (cfg : HashConfig) (env : KeyEnv) (s : Server (Value W)) (d : DbId) :
    CounterCommand → Except CounterFault (CounterRun W)
  | .incr key => incrDecrCommand env s d key 1
  | .decr key => incrDecrCommand env s d key (-1)
  | .incrby key arg => withArgument s arg (fun incr => incrDecrCommand env s d key incr)
  | .decrby key arg => withArgument s arg (fun incr => do
      -- the negation is a subtraction from zero
      let r ← incrDecrCommand env s d key (llSub 0 incr).1
      return { r with overflow := (llSub 0 incr).2 || r.overflow })
  | .hincrby key field arg => withArgument s arg (fun incr => hincrbyCommand cfg env s d key field incr)

/-! ### What the commands are for -/

namespace CounterCommand

def key : CounterCommand → Bytes
  | incr key | decr key | incrby key _ | decrby key _ | hincrby key _ _ => key

def field : CounterCommand → Option Bytes
  | hincrby _ field _ => some field
  | _ => none

/-- The argument as a number. -/
def argument : CounterCommand → Option Int
  | incr _ | decr _ => some 1
  | incrby _ arg | decrby _ arg | hincrby _ _ arg => string2ll arg

/-- The command subtracts. -/
def subtracts : CounterCommand → Bool
  | decr _ | decrby _ _ => true
  | _ => false

/-- The exact change for the argument `n`. -/
def delta (cmd : CounterCommand) (n : Int) : Int := if cmd.subtracts then -n else n

end CounterCommand

/-- A 64-bit integer. -/
def InRange (n : Int) : Prop := -2 ^ 63 ≤ n ∧ n < 2 ^ 63

instance (n : Int) : Decidable (InRange n) := inferInstanceAs (Decidable (_ ∧ _))

/-- What is found where a counter is expected. -/
inductive Held
  | missing
  | text (s : Bytes)
  /-- A value of another type. -/
  | other
  deriving DecidableEq, Repr

/-- What a value holds, or its field. -/
def held : Option (Value W) → Option Bytes → Held
  | none, _ => .missing
  | some (.string o), none => .text (getDecodedObject o)
  | some (.hash o), some field => ((o.get field).map Held.text).getD .missing
  | _, _ => .other

/-- A number: a canonical text, or zero where there is nothing. -/
def Held.Holds : Held → Int → Prop
  | .missing, n => n = 0
  | .text s, n => InRange n ∧ s = formatLd n
  | .other, _ => False

/-- Every hash of the database is one. -/
def Valid (s : Server (Value W)) : Prop := ∀ d key o, (s.dbs d).dict key = some (.hash o) → o.Valid

/-- The keyspace as the command finds it: the key is deleted if it is out of date. -/
def found (env : KeyEnv) (s : Server (Value W)) (d : DbId) (key : Bytes) : Server (Value W) :=
  s.setDb d (evict env 0 (s.dbs d) key)

/-- Nothing but the counter has changed. -/
structure OnlyCounter (s : Server (Value W)) (d : DbId) (key : Bytes) (field : Option Bytes)
    (s' : Server (Value W)) : Prop where
  expires : ∀ d' k, (s'.dbs d').expires k = (s.dbs d').expires k
  dict : ∀ d' k, ¬ (d' = d ∧ k = key) → (s'.dbs d').dict k = (s.dbs d').dict k
  fields : ∀ f, field.isSome = true → some f ≠ field →
    held ((s'.dbs d).dict key) (some f) = held ((s.dbs d).dict key) (some f)

/-- The command is exact, where it finds the keyspace `t`: it is refused and leaves the keyspace alone
    if there is no number or if the exact result is out of range, and only then; otherwise the exact
    result is stored, as the text that is read as this number, and replied. -/
structure Exact (t : Server (Value W)) (d : DbId) (key : Bytes) (field : Option Bytes) (delta : Int)
    (r : CounterRun W) : Prop where
  quiet : r.overflow = false
  refused_iff : r.reply.IsError ↔
    ¬ ∃ old, (held ((t.dbs d).dict key) field).Holds old ∧ InRange (old + delta)
  refused : r.reply.IsError → r.server = t
  done : ∀ old, (held ((t.dbs d).dict key) field).Holds old → InRange (old + delta) →
    r.reply = .int (old + delta) ∧ held ((r.server.dbs d).dict key) field = .text (formatLd (old + delta)) ∧
      string2ll (formatLd (old + delta)) = some (old + delta) ∧ OnlyCounter t d key field r.server

end Model

/-! ### The arithmetic -/

theorem llAdd_of_inRange {a b : Int} (h : InRange (a + b)) : llAdd a b = (a + b, false) := by
  have hwrap := (wrap64_eq_iff (a + b)).mpr h
  simp [llAdd, hwrap]

theorem llSub_of_inRange {a b : Int} (h : InRange (a - b)) : llSub a b = (a - b, false) := by
  have hwrap := (wrap64_eq_iff (a - b)).mpr h
  simp [llSub, hwrap]

/-- The check finds every sum that is out of range, without an overflow of its own. -/
theorem incrementOverflows_eq {incr oldvalue : Int} (hincr : InRange incr) (hold : InRange oldvalue) :
    incrementOverflows incr oldvalue = (decide (¬ InRange (oldvalue + incr)), false) := by
  unfold incrementOverflows
  unfold InRange at hincr hold
  by_cases hneg : incr < 0 ∧ oldvalue < 0
  · have hrange : InRange (LLONG_MIN - oldvalue) := by
      unfold InRange LLONG_MIN
      omega
    rw [if_pos hneg, llSub_of_inRange hrange]
    congr 1
    rw [decide_eq_decide]
    unfold InRange LLONG_MIN
    omega
  · rw [if_neg hneg]
    by_cases hpos : incr > 0 ∧ oldvalue > 0
    · have hrange : InRange (LLONG_MAX - oldvalue) := by
        unfold InRange LLONG_MAX
        omega
      rw [if_pos hpos, llSub_of_inRange hrange]
      congr 1
      rw [decide_eq_decide]
      unfold InRange LLONG_MAX
      omega
    · -- the signs differ
      rw [if_neg hpos]
      congr 1
      symm
      rw [decide_eq_false_iff_not]
      unfold InRange
      omega

theorem content_incrementObject (o : Option StringObject) (v : Int) :
    getDecodedObject (incrementObject o v) = formatLd v := by
  unfold incrementObject
  split
  · split
    · exact ll2string_long _
    · exact content_createStringObject v
  · exact content_createStringObject v

/-! ### What is held -/

section Held

variable {W : Type}

theorem Held.Holds.unique {h : Held} {a b : Int} (ha : h.Holds a) (hb : h.Holds b) : a = b := by
  cases h with
  | missing => exact Eq.trans ha (Eq.symm hb)
  | text s =>
    have hread := string2ll_eq_some_iff.mpr ha
    rw [string2ll_eq_some_iff.mpr hb] at hread
    exact (Option.some.inj hread).symm
  | other => exact ha.elim

theorem Held.Holds.inRange {h : Held} {a : Int} (ha : h.Holds a) : InRange a := by
  cases h with
  | missing =>
    obtain rfl : a = 0 := ha
    decide
  | text s => exact ha.1
  | other => exact ha.elim

/-- The text that an object holds is read as `getLongLongFromObject` reads the object. -/
theorem holds_text_iff (o : StringObject) (n : Int) :
    (Held.text (getDecodedObject o)).Holds n ↔ getLongLongFromObject (some o) = some n := by
  rw [getLongLongFromObject_eq]
  exact string2ll_eq_some_iff.symm

theorem holds_string_iff (o : Option StringObject) (n : Int) :
    (held (o.map (Value.string (W := W))) none).Holds n ↔ getLongLongFromObject o = some n := by
  cases o with
  | none => simp [held, Held.Holds, getLongLongFromObject, eq_comm]
  | some o => exact holds_text_iff o n

theorem holds_hash_iff (o : HashObject) (field : Bytes) (n : Int) :
    (held (some (Value.hash (W := W) o)) (some field)).Holds n
      ↔ getLongLongFromObject (hashTypeGetObject o field) = some n := by
  have hcontent := hashTypeGetObject_content o field
  cases hget : hashTypeGetObject o field with
  | none =>
    rw [hget] at hcontent
    simp [held, ← hcontent, Held.Holds, getLongLongFromObject, eq_comm]
  | some so =>
    rw [hget] at hcontent
    simp only [held, ← hcontent, Option.map_some, Option.getD_some]
    exact holds_text_iff so n

end Held

/-! ### The commands -/

section Commands

variable {W : Type} {env : KeyEnv} {t : Server (Value W)} {d : DbId} {key : Bytes}
  {field : Option Bytes} {delta : Int}

/-- A refusal is exact where there is nothing to add to, or no room. -/
theorem exact_refused (text : String)
    (h : ∀ old, (held ((t.dbs d).dict key) field).Holds old → ¬ InRange (old + delta)) :
    Exact t d key field delta ⟨t, .error text, false⟩ where
  quiet := rfl
  refused_iff := iff_of_true ⟨text, rfl⟩ (fun ⟨old, hold, hrange⟩ => h old hold hrange)
  refused := fun _ => rfl
  done := fun old hold hrange => absurd hrange (h old hold)

/-- So is the sum, where it is stored under the key. -/
theorem exact_done {old : Int} {v : Value W} {t' : Server (Value W)}
    (hold : (held ((t.dbs d).dict key) field).Holds old) (hrange : InRange (old + delta))
    (hv : held (some v) field = .text (formatLd (old + delta)))
    (hfields : ∀ f, field.isSome = true → some f ≠ field →
      held (some v) (some f) = held ((t.dbs d).dict key) (some f))
    (ht' : t'.dbs = (t.setDb d ((t.dbs d).setDict key (some v))).dbs) :
    Exact t d key field delta ⟨t', .int (old + delta), false⟩ := by
  have hnot : ¬ (KeyReply.int (old + delta)).IsError := fun ⟨_, h⟩ => by cases h
  have hkey : (t'.dbs d).dict key = some v := by simp [ht']
  refine ⟨rfl, iff_of_false hnot (fun h => h ⟨old, hold, hrange⟩), fun h => absurd h hnot, ?_⟩
  intro old' hold' hrange'
  obtain rfl := hold.unique hold'
  refine ⟨rfl, by rw [hkey]; exact hv, string2ll_eq_some_iff.mpr ⟨hrange', rfl⟩, ?_, ?_, ?_⟩
  · intro d' k
    by_cases hd : d' = d <;> simp [ht', hd]
  · intro d' k hne
    by_cases hd : d' = d
    · have hk : k ≠ key := fun h => hne ⟨hd, h⟩
      simp [ht', hd, hk]
    · simp [ht', hd]
  · intro f hfield hf
    rw [hkey]
    exact hfields f hfield hf

theorem addOrOverwrite_eq {V : Type} (db : RedisDb V) (key : Bytes) (v : V) :
    addOrOverwrite db key v (db.dict key) = .ok (db.setDict key (some v)) := by
  unfold addOrOverwrite
  cases hx : db.dict key with
  | none => exact dbAdd_eq hx v
  | some o => exact dbOverwrite_eq (by rw [hx]; rfl) v

/-- Storing a value under the key and telling those who watch it. -/
theorem store_eq (hinv : KeyspaceInv t) (v : Value W) :
    signalModifiedKey (t.setDb d ((t.dbs d).setDict key (some v))) d key
      = .ok ((t.setDb d ((t.dbs d).setDict key (some v))).tell d key) :=
  signal_setDb_eq hinv ((hinv.consistent d).setDict_some key v) rfl key

theorem Valid.store (h : Valid t) {v : Value W} (hv : ∀ o, v = .hash o → o.Valid) {t' : Server (Value W)}
    (ht' : t'.dbs = (t.setDb d ((t.dbs d).setDict key (some v))).dbs) : Valid t' := by
  intro d' k o ho
  rw [ht'] at ho
  by_cases hd : d' = d
  · by_cases hk : k = key
    · simp only [dbs_setDb, hd, if_true, dict_setDict, hk] at ho
      exact hv o (Option.some.inj ho)
    · simp only [dbs_setDb, hd, if_true, dict_setDict, if_neg hk] at ho
      exact h d k o ho
  · simp only [dbs_setDb, if_neg hd] at ho
    exact h d' k o ho

/-- `incrDecrCommand` adds exactly. -/
theorem incrDecrString_exact (hinv : KeyspaceInv t) (hvalid : Valid t) {o : Option StringObject}
    (hkey : (t.dbs d).dict key = o.map Value.string) (hdelta : InRange delta) :
    ∃ r, incrDecrString t d key o delta = .ok r ∧ Valid r.server ∧ Exact t d key none delta r := by
  have hiff := holds_string_iff (W := W) o
  rw [← hkey] at hiff
  unfold incrDecrString
  cases hread : getLongLongFromObject o with
  | none =>
    refine ⟨_, rfl, hvalid, exact_refused _ fun old hold => ?_⟩
    rw [hiff, hread] at hold
    cases hold
  | some old =>
    have hold := (hiff old).mpr hread
    simp only [incrementOverflows_eq hdelta hold.inRange]
    by_cases hrange : InRange (old + delta)
    · rw [if_neg (by simpa using hrange), llAdd_of_inRange hrange, addOrOverwrite_eq]
      simp only [ofServer, ok_bind, store_eq hinv]
      refine ⟨_, rfl, hvalid.store (fun o h => by cases h) rfl,
        exact_done hold hrange ?_ (fun f h => by cases h) rfl⟩
      exact congrArg Held.text (content_incrementObject o _)
    · rw [if_pos (by simpa using hrange)]
      refine ⟨_, rfl, hvalid, exact_refused _ fun old' hold' => ?_⟩
      obtain rfl := hold.unique hold'
      exact hrange

/-- `hincrbyCommand` too, in the hash that it finds. -/
theorem hincrbyHash_exact (cfg : HashConfig) (hinv : KeyspaceInv t) (hvalid : Valid t) {o : HashObject} {f : Bytes}
    (hkey : (t.dbs d).dict key = some (.hash o)) (hdelta : InRange delta) :
    ∃ r, hincrbyHash cfg t d key f o delta = .ok r ∧ Valid r.server ∧ Exact t d key (some f) delta r := by
  have hiff := holds_hash_iff (W := W) o f
  rw [← hkey] at hiff
  unfold hincrbyHash
  cases hread : getLongLongFromObject (hashTypeGetObject o f) with
  | none =>
    refine ⟨_, rfl, hvalid, exact_refused _ fun old hold => ?_⟩
    rw [hiff, hread] at hold
    cases hold
  | some old =>
    have hold := (hiff old).mpr hread
    simp only [incrementOverflows_eq hdelta hold.inRange]
    by_cases hrange : InRange (old + delta)
    · obtain ⟨o', hset, ho', hget⟩ := hashTypeSet_spec cfg (hvalid d key o hkey) f
        (createStringObjectFromLongLong (old + delta))
      rw [if_neg (by simpa using hrange), llAdd_of_inRange hrange]
      simp only [hset, store_eq hinv, ofServer, ok_bind]
      refine ⟨_, rfl, hvalid.store (fun o h => Value.hash.inj h ▸ ho') rfl, exact_done hold hrange ?_ ?_ rfl⟩
      · simp [held, hget, content_createStringObject]
      · intro f' _ hf'
        have hne : f' ≠ f := fun h => hf' (congrArg some h)
        rw [hkey]
        simp [held, hget, hne]
    · rw [if_pos (by simpa using hrange)]
      refine ⟨_, rfl, hvalid, exact_refused _ fun old' hold' => ?_⟩
      obtain rfl := hold.unique hold'
      exact hrange

/-- A hash that is created holds what no hash holds. -/
theorem Exact.of_created {f : Bytes} {r : CounterRun W} (hmissing : (t.dbs d).dict key = none)
    (hdelta : InRange delta) (h : Exact (t.setDb d ((t.dbs d).setDict key (some (.hash (.ziplist [])))))
      d key (some f) delta r) : Exact t d key (some f) delta r := by
  set t' := t.setDb d ((t.dbs d).setDict key (some (.hash (.ziplist [])))) with ht'
  have hkey : (t'.dbs d).dict key = some (.hash (.ziplist [])) := by simp [ht']
  have hsame : ∀ f', held ((t'.dbs d).dict key) (some f') = held ((t.dbs d).dict key) (some f') := by
    intro f'
    rw [hkey, hmissing]
    rfl
  -- nothing is there, so that the sum is in range
  have hzero : (held ((t.dbs d).dict key) (some f)).Holds 0 := by
    rw [hmissing]
    rfl
  have hrange : InRange (0 + delta) := by rwa [zero_add]
  have hnot : ¬ r.reply.IsError := by
    rw [h.refused_iff, hsame, not_not]
    exact ⟨0, hzero, hrange⟩
  refine ⟨h.quiet, ?_, fun herror => absurd herror hnot, fun old hold hsum => ?_⟩
  · rw [h.refused_iff, hsame]
  · obtain ⟨hreply, hheld, hread, honly⟩ := h.done old (by rwa [hsame]) hsum
    refine ⟨hreply, hheld, hread, fun d' k => ?_, fun d' k hne => ?_, fun f' hf hf' => ?_⟩
    · rw [honly.expires]
      by_cases hd : d' = d <;> simp [ht', hd]
    · rw [honly.dict d' k hne]
      by_cases hd : d' = d
      · have hk : k ≠ key := fun hk => hne ⟨hd, hk⟩
        simp [ht', hd, hk]
      · simp [ht', hd]
    · rw [honly.fields f' hf hf', hsame]

variable {s : Server (Value W)}

theorem Valid.found (h : Valid s) (env : KeyEnv) (d : DbId) (key : Bytes) : Valid (found env s d key) := by
  intro d' k o ho
  unfold Object.found at ho
  by_cases hd : d' = d
  · rw [dbs_setDb, if_pos hd] at ho
    unfold evict at ho
    split at ho
    · by_cases hk : k = key
      · simp [hk] at ho
      · rw [dict_erase, if_neg hk] at ho
        exact h d k o ho
    · exact h d k o ho
  · rw [dbs_setDb, if_neg hd] at ho
    exact h d' k o ho

/-- A value of another type refuses the command. -/
theorem exact_wrongtype (h : held ((t.dbs d).dict key) field = .other) :
    Exact t d key field delta ⟨t, wrongtypeerr, false⟩ := by
  refine exact_refused _ fun old hold => ?_
  rw [h] at hold
  exact hold.elim

variable (env d key) in
/-- `incrDecrCommand` is exact. -/
theorem incrDecrCommand_exact (hinv : KeyspaceInv s) (hvalid : Valid s) (hdelta : InRange delta) :
    ∃ r, incrDecrCommand env s d key delta = .ok r ∧ Valid r.server ∧
      Exact (found env s d key) d key none delta r := by
  have hinv' : KeyspaceInv (found env s d key) := hinv.evict env 0 d key
  have hvalid' := hvalid.found env d key
  have hdict : ((found env s d key).dbs d).dict key = (evict env 0 (s.dbs d) key).dict key := by simp [found]
  unfold incrDecrCommand
  rw [lookupKeyWrite_eq (hinv.consistent d)]
  simp only [ofServer, ok_bind]
  cases hfound : (evict env 0 (s.dbs d) key).dict key with
  | none =>
    rw [hfound] at hdict
    exact incrDecrString_exact hinv' hvalid' (o := none) hdict hdelta
  | some v =>
    rw [hfound] at hdict
    cases v with
    | string o => exact incrDecrString_exact hinv' hvalid' (o := some o) hdict hdelta
    | hash o | other w => exact ⟨_, rfl, hvalid', exact_wrongtype (by rw [hdict]; rfl)⟩

variable (env d key) in
/-- `hincrbyCommand` is exact. -/
theorem hincrbyCommand_exact (cfg : HashConfig) (hinv : KeyspaceInv s) (hvalid : Valid s) (hdelta : InRange delta)
    (f : Bytes) :
    ∃ r, hincrbyCommand cfg env s d key f delta = .ok r ∧ Valid r.server ∧
      Exact (found env s d key) d key (some f) delta r := by
  have hinv' : KeyspaceInv (found env s d key) := hinv.evict env 0 d key
  have hvalid' := hvalid.found env d key
  have hdb : (found env s d key).dbs d = evict env 0 (s.dbs d) key := by simp [found]
  unfold hincrbyCommand
  rw [lookupKeyWrite_eq (hinv.consistent d)]
  simp only [ofServer, ok_bind]
  cases hfound : (evict env 0 (s.dbs d) key).dict key with
  | none =>
    -- the hash is created
    rw [dbAdd_eq hfound]
    simp only [ok_bind]
    set t := (found env s d key).setDb d
      (((found env s d key).dbs d).setDict key (some (.hash (.ziplist [])))) with ht
    have hserver : s.setDb d ((evict env 0 (s.dbs d) key).setDict key (some (.hash (.ziplist [])))) = t := by
      rw [ht, hdb, found, setDb_setDb]
    have hinvt : KeyspaceInv t :=
      hinv'.setDb ((hinv'.consistent d).setDict_some key (.hash (.ziplist []))) rfl
    have hvalidt : Valid t := hvalid'.store (fun o h => by
      obtain rfl := Value.hash.inj h
      exact List.nodup_nil) rfl
    have hkeyt : (t.dbs d).dict key = some (.hash (.ziplist [])) := by simp [ht]
    obtain ⟨r, hr, hvalidr, hexact⟩ := hincrbyHash_exact cfg hinvt hvalidt (f := f) hkeyt hdelta
    rw [hserver]
    exact ⟨r, hr, hvalidr, hexact.of_created (by rw [hdb, hfound]) hdelta⟩
  | some v =>
    have hdict : ((found env s d key).dbs d).dict key = some v := by rw [hdb, hfound]
    cases v with
    | hash o => exact hincrbyHash_exact cfg hinv' hvalid' hdict hdelta
    | string o | other w => exact ⟨_, rfl, hvalid', exact_wrongtype (by rw [hdict]; rfl)⟩

/-- **Counters.**  A command whose argument is the number `n` is exact, unless it is a `DECRBY` that would
    negate the least number. -/
theorem counter_exact_iff (cfg : HashConfig) (env : KeyEnv) (hinv : KeyspaceInv s) (hvalid : Valid s) (d : DbId)
    {cmd : CounterCommand} {n : Int} (harg : cmd.argument = some n) :
    ∃ r, runCounter cfg env s d cmd = .ok r ∧ Valid r.server ∧
      (Exact (found env s d cmd.key) d cmd.key cmd.field (cmd.delta n) r
        ↔ ¬ ((∃ key arg, cmd = .decrby key arg) ∧ n = LLONG_MIN)) := by
  cases cmd with
  | incr key =>
    obtain rfl := Option.some.inj harg
    obtain ⟨r, hr, hvalidr, hexact⟩ := incrDecrCommand_exact env d key hinv hvalid
      (show InRange 1 by decide)
    exact ⟨r, hr, hvalidr, iff_of_true hexact (by simp)⟩
  | decr key =>
    obtain rfl := Option.some.inj harg
    obtain ⟨r, hr, hvalidr, hexact⟩ := incrDecrCommand_exact env d key hinv hvalid
      (show InRange (-1) by decide)
    exact ⟨r, hr, hvalidr, iff_of_true hexact (by simp)⟩
  | incrby key arg =>
    have hn := (string2ll_eq_some_iff.mp harg).1
    obtain ⟨r, hr, hvalidr, hexact⟩ := incrDecrCommand_exact env d key hinv hvalid hn
    refine ⟨r, ?_, hvalidr, iff_of_true hexact (by simp)⟩
    rw [runCounter, withArgument, show string2ll arg = some n from harg]
    exact hr
  | hincrby key f arg =>
    have hn := (string2ll_eq_some_iff.mp harg).1
    obtain ⟨r, hr, hvalidr, hexact⟩ := hincrbyCommand_exact env d key cfg hinv hvalid hn f
    refine ⟨r, ?_, hvalidr, iff_of_true hexact (by simp)⟩
    rw [runCounter, withArgument, show string2ll arg = some n from harg]
    exact hr
  | decrby key arg =>
    have hn : InRange n := (string2ll_eq_some_iff.mp harg).1
    have hwrap : InRange (llSub 0 n).1 := wrap64_range (0 - n)
    obtain ⟨r, hr, hvalidr, hexact⟩ := incrDecrCommand_exact env d key hinv hvalid hwrap
    refine ⟨{ r with overflow := (llSub 0 n).2 || r.overflow }, ?_, hvalidr, ?_⟩
    · rw [runCounter, withArgument, show string2ll arg = some n from harg]
      simp only [hr, ok_bind]
      rfl
    by_cases hmin : n = LLONG_MIN
    · -- the negation overflows
      subst hmin
      refine iff_of_false (fun h => ?_) (by simp)
      have hquiet := h.quiet
      simp [llSub, LLONG_MIN, wrap64] at hquiet
    · have hneg : InRange (0 - n) := by
        unfold InRange at hn ⊢
        unfold LLONG_MIN at hmin
        omega
      rw [llSub_of_inRange hneg] at hexact ⊢
      rw [zero_sub] at hexact
      exact iff_of_true hexact (by simp [hmin])

end Commands

/-- A server without keys. -/
def noKeys : Server (Value Unit) where
  dbs := fun _ => ⟨fun _ => none, fun _ => none, fun _ => none⟩
  clients := fun _ => none
  clientList := []
  log := []

theorem keyspaceInv_noKeys : KeyspaceInv noKeys :=
  KeyspaceInv.of_unwatched (fun _ => rfl) rfl (fun _ => rfl) (fun d k h => by cases h)

/-- The configuration of the default. -/
def defaultHash : HashConfig := ⟨512, true⟩

/-- `-9223372036854775808`. -/
def llongMinText : Bytes := [45, 57, 50, 50, 51, 51, 55, 50, 48, 51, 54, 56, 53, 52, 55, 55, 53, 56, 48, 56]

/-- `DECRBY a -9223372036854775808` of nothing stores the argument, though the difference is `2^63`. -/
theorem decrby_min_wraps :
    ∃ r, runCounter defaultHash masterAt1000 noKeys 0 (.decrby [97] llongMinText) = .ok r ∧
      r.reply = .int (-9223372036854775808) ∧ held ((r.server.dbs 0).dict [97]) none = .text llongMinText ∧
      ¬ Exact (found masterAt1000 noKeys 0 [97]) 0 [97] none 9223372036854775808 r := by
  have hrun : (runCounter defaultHash masterAt1000 noKeys 0 (.decrby [97] llongMinText)).toOption.map
      (fun r => (r.reply, held ((r.server.dbs 0).dict [97]) none, r.overflow))
        = some (.int (-9223372036854775808), .text llongMinText, true) := by rfl
  cases hr : runCounter defaultHash masterAt1000 noKeys 0 (.decrby [97] llongMinText) with
  | error e =>
    rw [hr] at hrun
    cases hrun
  | ok r =>
    rw [hr] at hrun
    obtain ⟨hreply, hrest⟩ := Prod.mk.inj (Option.some.inj hrun)
    obtain ⟨hheld, hoverflow⟩ := Prod.mk.inj hrest
    refine ⟨r, rfl, hreply, hheld, fun h => ?_⟩
    -- the difference is out of range, but the reply is a number
    have herror : r.reply.IsError := by
      rw [h.refused_iff]
      rintro ⟨old, hold, hrange⟩
      obtain rfl : old = 0 := hold
      exact absurd hrange (by decide)
    rw [hreply] at herror
    obtain ⟨text, htext⟩ := herror
    cases htext

/-- `HINCRBY a b 1` of nothing. -/
theorem counter_exact_hincrby :
    ∃ r, runCounter defaultHash masterAt1000 noKeys 0 (.hincrby [97] [98] [49]) = .ok r ∧ Valid r.server ∧
      (Exact (found masterAt1000 noKeys 0 [97]) 0 [97] (some [98]) 1 r
        ↔ ¬ ((∃ key arg, CounterCommand.hincrby [97] [98] [49] = .decrby key arg) ∧ (1 : Int) = LLONG_MIN)) :=
  counter_exact_iff defaultHash masterAt1000 keyspaceInv_noKeys (fun d key o h => by cases h) 0
    (show string2ll [49] = some 1 by decide)

end Redis.Object
