import Redis.Aof.Rewrite
import Redis.Aof.Expire
import Redis.Db.Keyspace

namespace Redis.Aof

/-!
# AOF — the rewritten file is loaded

The commands of a rewritten file are run on an empty server.

* `Value`, `Object.value` — what a value is, whatever its encoding;
* `pushGenericCommand`, `saddCommand`, `zaddGenericCommand`, `hmsetCommand` — the commands that add to a value;
* `Makes` — some commands take the keys from one state to another, one lemma for each command;
* `makes_groups` — the groups of a value make it, however they are cut;
* `rewrite_rebuilds` — the dataset is the one that was rewritten.
-/

/-- A value without its encoding. -/
inductive Value (S : Type)
  | string (s : Bytes)
  | list (l : List Bytes)
  | set (members : Bytes → Bool)
  | zset (scores : Bytes → Option S)
  | hash (fields : Bytes → Option Bytes)

section Model

variable {S : Type}

/-- What an object stands for. -/
def Object.value (d : Doubles S) : Object S → Value S
  | .string o => .string o.text
  | .list entries => .list (entries.map Item.text)
  | .setIntset contents => .set fun m => decide (m ∈ contents.map (ll2string 32))
  | .setHt elements => .set fun m => decide (m ∈ elements.map Item.text)
  | .zsetZiplist zl => .zset fun m => ((zzlPairs d zl).map fun x => (x.1.text, x.2)).lookup m
  | .zsetSkiplist dict => .zset fun m => (dict.map fun x => (x.1.text, x.2)).lookup m
  | .hashZiplist zl => .hash fun m => ((ziplistPairs zl).map fun x => (x.1.text, x.2.text)).lookup m
  | .hashHt dict => .hash fun m => (dict.map fun x => (x.1.text, x.2.text)).lookup m

/-- The objects of the commands on strings; no payload is in a rewritten file. -/
def valueObjects : Objects (Value S) := ⟨.string, fun _ => none⟩

/-! ## The commands that add to a value -/

/-- `lookupKeyWrite`, with an empty value if there is none; then the value is another one, or it is of
    another type. -/
def updateKey (c : Clock) (ks : Keyspace (Value S)) (db : Nat) (key : Bytes) (empty : Value S)
    (add : Value S → Option (Value S)) : Keyspace (Value S) :=
  let ks := (expireIfNeeded c ks db key).1
  let e := (ks db key).getD ⟨empty, none⟩
  match add e.value with
  | none => ks
  | some v => ks.put db key (some ⟨v, e.expire⟩)

/-- `listTypePush` at the tail. -/
def addList (xs : List Bytes) : Value S → Option (Value S)
  | .list l => some (.list (l ++ xs))
  | _ => none

/-- `setTypeAdd`. -/
def addSet (xs : List Bytes) : Value S → Option (Value S)
  | .set m => some (.set fun x => m x || decide (x ∈ xs))
  | _ => none

/-- `rpushCommand`. -/
def pushGenericCommand (c : Clock) (ks : Keyspace (Value S)) (db : Nat) (argv : List Bytes) : Keyspace (Value S) :=
  if argv.length ≤ 2 then (expireIfNeeded c ks db (arg argv 1)).1
  else updateKey c ks db (arg argv 1) (.list []) (addList (argv.drop 2))

/-- `saddCommand`. -/
def saddCommand (c : Clock) (ks : Keyspace (Value S)) (db : Nat) (argv : List Bytes) : Keyspace (Value S) :=
  updateKey c ks db (arg argv 1) (.set fun _ => false) (addSet (argv.drop 2))

/-- One key of a function gets another value. -/
def assign {A : Type} (m : Bytes → Option A) (x : Bytes) (a : A) : Bytes → Option A :=
  fun y => if y = x then some a else m y

/-- The arguments in pairs. -/
def argPairs : List Bytes → List (Bytes × Bytes)
  | a :: b :: rest => (a, b) :: argPairs rest
  | _ => []

/-- The scores, before any of them is used. -/
def parseScores (d : Doubles S) : List (Bytes × Bytes) → Option (List (S × Bytes))
  | [] => some []
  | x :: rest => do
    let score ← d.parse x.1
    let scores ← parseScores d rest
    return (score, x.2) :: scores

/-- One element of `ZADD`. -/
def zaddElement (d : Doubles S) (nx xx incr : Bool) (m : Bytes → Option S) (x : S × Bytes) : Bytes → Option S :=
  match m x.2 with
  | none => if xx then m else assign m x.2 x.1
  | some curscore =>
    if nx then m
    else if incr then (d.add x.1 curscore).elim m (assign m x.2)
    else if d.eq x.1 curscore then m
    else assign m x.2 x.1

/-- `zslInsert` and `zzlInsert` of every element. -/
def addZset (d : Doubles S) (nx xx incr : Bool) (xs : List (S × Bytes)) : Value S → Option (Value S)
  | .zset m => some (.zset (xs.foldl (zaddElement d nx xx incr) m))
  | _ => none

/-- `zaddCommand`. -/
def zaddGenericCommand (d : Doubles S) (c : Clock) (ks : Keyspace (Value S)) (db : Nat) (argv : List Bytes) :
    Keyspace (Value S) :=
  let options := (argv.drop 2).takeWhile isZaddOption
  let elements := (argv.drop 2).dropWhile isZaddOption
  let nx := options.any (strcaseeq · [110, 120])
  let xx := options.any (strcaseeq · [120, 120])
  let incr := options.any (strcaseeq · [105, 110, 99, 114])
  if elements.length % 2 ≠ 0 ∨ elements.length = 0 then ks
  else if nx = true ∧ xx = true then ks
  else if incr = true ∧ 2 < elements.length then ks
  else
    match parseScores d (argPairs elements) with
    | none => ks
    | some xs =>
      if xx = true ∧ ((expireIfNeeded c ks db (arg argv 1)).1 db (arg argv 1)).isNone = true then
        (expireIfNeeded c ks db (arg argv 1)).1
      else updateKey c ks db (arg argv 1) (.zset fun _ => none) (addZset d nx xx incr xs)

/-- `hashTypeSet` of every field. -/
def addHash (xs : List (Bytes × Bytes)) : Value S → Option (Value S)
  | .hash m => some (.hash (xs.foldl (fun m x => assign m x.1 x.2) m))
  | _ => none

/-- `hmsetCommand`. -/
def hmsetCommand (c : Clock) (ks : Keyspace (Value S)) (db : Nat) (argv : List Bytes) : Keyspace (Value S) :=
  if argv.length % 2 = 1 then ks
  else updateKey c ks db (arg argv 1) (.hash fun _ => none) (addHash (argPairs (argv.drop 2)))

/-- The commands that `Proc` does not tell apart, by their names. -/
def otherCommand (d : Doubles S) (c : Clock) (ks : Keyspace (Value S)) (db : Nat) (argv : List Bytes) :
    Keyspace (Value S) :=
  if strcaseeq (arg argv 0) rpushName then pushGenericCommand c ks db argv
  else if strcaseeq (arg argv 0) saddName then saddCommand c ks db argv
  else if strcaseeq (arg argv 0) zaddName then zaddGenericCommand d c ks db argv
  else if strcaseeq (arg argv 0) hmsetName then hmsetCommand c ks db argv
  else ks

/-- A call while the file is loaded: the clock shows `clock i` at the `i`-th one. -/
def rewriteLoadCall (d : Doubles S) (clock : Nat → Int) (call' : Call) (s : Nat × Keyspace (Value S)) :
    Nat × Keyspace (Value S) :=
  if call'.proc = .other then (s.1 + 1, otherCommand d ⟨true, clock s.1⟩ s.2 call'.db call'.argv)
  else loadCall valueObjects clock call' s

end Model

/-! ## The commands are run -/

section Run

variable {S : Type} {env : LoadEnv} {d : Doubles S} {clock : Nat → Int}

/-- One command is run: the database that is selected, and what it works on. -/
def execCommand {D : Type} (env : LoadEnv) (effect : Call → D → D) (s : Nat × D) (argv : List Bytes) : Nat × D :=
  ((env.commands (arg argv 0)).map fun proc =>
    (if proc = .select then selectCommand env s.1 argv else s.1,
      if proc.control then s.2 else effect ⟨s.1, proc, argv⟩ s.2)).getD s

theorem execCommand_eq {D : Type} {effect : Call → D → D} {argv : List Bytes} {proc : Proc}
    (h : env.commands (arg argv 0) = some proc) (s : Nat × D) :
    execCommand env effect s argv
      = (if proc = .select then selectCommand env s.1 argv else s.1,
        if proc.control then s.2 else effect ⟨s.1, proc, argv⟩ s.2) := by
  rw [execCommand, h]
  rfl

/-- The calls of the loader, one after another. -/
theorem runCalls_runCommands {D : Type} (effect : Call → D → D) (cs : List (List Bytes)) : ∀ (l : Loader) (x : D),
    runCalls effect x (runCommands env l cs).calls
      = (cs.foldl (execCommand env effect) (l.db, runCalls effect x l.calls)).2 := by
  induction cs with
  | nil => exact fun _ _ => rfl
  | cons argv cs ih =>
    intro l x
    rw [show runCommands env l (argv :: cs) = runCommands env (runCommand env l argv) cs from rfl, ih,
      List.foldl_cons]
    cases hproc : env.commands (arg argv 0) with
    | none => simp [runCommand, execCommand, hproc]
    | some proc =>
      rw [runCommand_eq hproc, execCommand_eq hproc]
      simp [runProc, runCalls]

/-- The commands take the selected database and the keys to other ones, at any time. -/
def Makes (env : LoadEnv) (d : Doubles S) (clock : Nat → Int) (cs : List (List Bytes)) (s s' : Nat × Keyspace (Value S)) :
    Prop :=
  ∀ n, ∃ m, cs.foldl (execCommand env (rewriteLoadCall d clock)) (s.1, (n, s.2)) = (s'.1, (m, s'.2))

theorem Makes.nil (s : Nat × Keyspace (Value S)) : Makes env d clock [] s s := fun n => ⟨n, rfl⟩

theorem Makes.trans {cs cs' : List (List Bytes)} {s s' s'' : Nat × Keyspace (Value S)} (h : Makes env d clock cs s s')
    (h' : Makes env d clock cs' s' s'') : Makes env d clock (cs ++ cs') s s'' := by
  intro n
  obtain ⟨m, hm⟩ := h n
  obtain ⟨m', hm'⟩ := h' m
  exact ⟨m', by rw [List.foldl_append, hm, hm']⟩

/-- The names of the commands. -/
structure Rewrites (env : LoadEnv) : Prop extends Standard env where
  rpush : env.commands rpushName = some .other
  sadd : env.commands saddName = some .other
  zadd : env.commands zaddName = some .other
  hmset : env.commands hmsetName = some .other

variable {db : Nat} {ks : Keyspace (Value S)} {key : Bytes}

theorem makes_select (hs : Standard env) {j : Nat} (hdb : j < env.dbnum) (hint : j < 2 ^ 31)
    (hcluster : env.clusterEnabled = true → j = 0) : Makes env d clock [selectArgv j] (db, ks) (j, ks) := by
  intro n
  have hproc : env.commands (arg (selectArgv j) 0) = some .select := hs.select
  refine ⟨n, ?_⟩
  rw [List.foldl_cons, execCommand_eq hproc]
  simp [selectCommand_selectArgv hdb hint hcluster, Proc.control]

theorem makes_set (hs : Standard env) (val : Bytes) :
    Makes env d clock [[setName, key, val]] (db, ks) (db, ks.put db key (some ⟨.string val, none⟩)) := by
  intro n
  have hproc : env.commands (arg [setName, key, val] 0) = some .set := hs.set
  refine ⟨n + 1, ?_⟩
  rw [List.foldl_cons, execCommand_eq hproc]
  simp [rewriteLoadCall, loadCall, load_set, valueObjects, Proc.control]

theorem makes_pexpireat (hs : Standard env) {t : Int} (ht : -2 ^ 63 ≤ t ∧ t < 2 ^ 63) {v : Value S} {w : Option Int}
    (hkey : ks db key = some ⟨v, w⟩) :
    Makes env d clock [[pexpireatName, key, ll2string 32 t]] (db, ks) (db, ks.put db key (some ⟨v, some t⟩)) := by
  intro n
  have hproc : env.commands (arg [pexpireatName, key, ll2string 32 t] 0) = some .pexpireat := hs.pexpireat
  have hread : string2ll (ll2string 32 t) = some t := string2ll_ll2string ht.1 ht.2
  have hmod : Int.bmod t 18446744073709551616 = t := Int.bmod_eq_of_le (by omega) (by omega)
  refine ⟨n + 1, ?_⟩
  rw [List.foldl_cons, execCommand_eq hproc]
  simp [rewriteLoadCall, loadCall, call, expireGenericCommand, arg, hread, hmod, setExpire, hkey, Proc.control]

/-- A command that adds to a value. -/
theorem makes_other {argv : List Bytes} (hproc : env.commands (arg argv 0) = some .other) {ks' : Keyspace (Value S)}
    (h : ∀ t, otherCommand d ⟨true, t⟩ ks db argv = ks') : Makes env d clock [argv] (db, ks) (db, ks') := by
  intro n
  refine ⟨n + 1, ?_⟩
  rw [List.foldl_cons, execCommand_eq hproc]
  simp [rewriteLoadCall, h, Proc.control]

/-- The key is there with the value, or not at all when that is empty. -/
def Holds (ks : Keyspace (Value S)) (db : Nat) (key : Bytes) (empty v : Value S) : Prop :=
  ks db key = some ⟨v, none⟩ ∨ ks db key = none ∧ v = empty

theorem updateKey_eq {t : Int} {empty v v' : Value S} {add : Value S → Option (Value S)} (h : Holds ks db key empty v)
    (hadd : add v = some v') : updateKey ⟨true, t⟩ ks db key empty add = ks.put db key (some ⟨v', none⟩) := by
  rcases h with h | ⟨h, rfl⟩ <;> simp [updateKey, h, hadd]

/-- The groups of a value, from some of its items on. -/
theorem makes_groups {α : Type} {name : Bytes} {args : α → List Bytes} {build : List α → Value S}
    (hadd : ∀ (done g : List α) (ks : Keyspace (Value S)), g ≠ [] → Holds ks db key (build []) (build done) →
      Makes env d clock [name :: key :: g.flatMap args] (db, ks) (db, ks.put db key (some ⟨build (done ++ g), none⟩)))
    (xs : List α) : ∀ {done : List α} {ks : Keyspace (Value S)}, Holds ks db key (build []) (build done) →
      done ++ xs ≠ [] → (xs = [] → ks db key = some ⟨build done, none⟩) →
      Makes env d clock (groupCommands name key args xs) (db, ks) (db, ks.put db key (some ⟨build (done ++ xs), none⟩)) := by
  induction xs using groups.induct with
  | case1 =>
    intro done ks _ _ hsome
    have hself : ks.put db key (some ⟨build done, none⟩) = ks := by
      funext i k
      by_cases hk : i = db ∧ k = key
      · rw [hk.1, hk.2, put_same, hsome rfl]
      · simp [Keyspace.put, hk]
    rw [List.append_nil, hself, groupCommands, groups]
    exact Makes.nil (db, ks)
  | case2 x xs ih =>
    intro done ks hks _ _
    have hgroup := hadd done (x :: xs.take 63) ks (List.cons_ne_nil _ _) hks
    have hput : (ks.put db key (some ⟨build (done ++ (x :: xs.take 63)), none⟩)) db key
        = some ⟨build (done ++ (x :: xs.take 63)), none⟩ := put_same _
    have hall := hgroup.trans (ih (.inl hput) (by simp) fun _ => hput)
    have hxs : done ++ (x :: xs.take 63) ++ xs.drop 63 = done ++ x :: xs := by
      rw [List.append_assoc, List.cons_append, List.take_append_drop]
    rw [put_put, hxs] at hall
    rw [groupCommands, groups, List.map_cons]
    exact hall

end Run

/-! ## The values are made -/

section Values

variable {S α : Type} {env : LoadEnv} {d : Doubles S} (clock : Nat → Int) {db : Nat} {ks : Keyspace (Value S)} {key : Bytes}

variable {xs : List α}

/-- A command that adds some items: from the value of some of them to the value of those and the others. -/
theorem makes_items {name : Bytes} {args : α → List Bytes} {empty : Value S}
    (hname : env.commands name = some .other) (build : List α → Value S) (hempty : build [] = empty)
    (hadd : ∀ (done g : List α) (ks : Keyspace (Value S)) (t : Int), g ≠ [] → Holds ks db key empty (build done) →
      otherCommand d ⟨true, t⟩ ks db (name :: key :: g.flatMap args)
        = ks.put db key (some ⟨build (done ++ g), none⟩)) (hne : xs ≠ []) (hkey : ks db key = none) :
    Makes env d clock (groupCommands name key args xs) (db, ks) (db, ks.put db key (some ⟨build xs, none⟩)) := by
  have hgroups : ∀ (done g : List α) (ks : Keyspace (Value S)), g ≠ [] → Holds ks db key (build []) (build done) →
      Makes env d clock [name :: key :: g.flatMap args] (db, ks)
        (db, ks.put db key (some ⟨build (done ++ g), none⟩)) := by
    intro done g ks hg hks
    rw [hempty] at hks
    exact makes_other hname fun t => hadd done g ks t hg hks
  have hstart : Holds ks db key (build []) (build []) := .inr ⟨hkey, rfl⟩
  exact makes_groups hgroups xs hstart hne fun h => absurd h hne

@[simp] theorem arg_zero (name : Bytes) (args : List Bytes) : arg (name :: args) 0 = name := rfl

theorem flatMap_singleton (tx : α → Bytes) (g : List α) : g.flatMap (fun x => [tx x]) = g.map tx :=
  List.map_eq_flatMap.symm

theorem makes_list (hs : Rewrites env) (tx : α → Bytes) (hne : xs ≠ []) (hkey : ks db key = none) :
    Makes env d clock (groupCommands rpushName key (fun x => [tx x]) xs) (db, ks)
      (db, ks.put db key (some ⟨.list (xs.map tx), none⟩)) := by
  refine makes_items clock hs.rpush (fun xs => .list (xs.map tx)) rfl ?_ hne hkey
  intro done g ks t hg hks
  have hlen : ¬(rpushName :: key :: g.map tx).length ≤ 2 := by
    have hpos := List.length_pos_iff.mpr hg
    simp
    omega
  have hname : strcaseeq rpushName rpushName = true := by decide
  rw [flatMap_singleton, otherCommand, arg_zero, if_pos hname, pushGenericCommand, if_neg hlen]
  exact updateKey_eq hks (by simp [addList])

theorem makes_sets (hs : Rewrites env) (tx : α → Bytes) (hne : xs ≠ []) (hkey : ks db key = none) :
    Makes env d clock (groupCommands saddName key (fun x => [tx x]) xs) (db, ks)
      (db, ks.put db key (some ⟨.set fun m => decide (m ∈ xs.map tx), none⟩)) := by
  refine makes_items clock hs.sadd (fun xs => .set fun m => decide (m ∈ xs.map tx)) (show _ = .set fun _ => false by simp) ?_ hne hkey
  intro done g ks t hg hks
  have hother : strcaseeq saddName rpushName ≠ true := by decide
  have hname : strcaseeq saddName saddName = true := by decide
  rw [flatMap_singleton, otherCommand, arg_zero, if_neg hother, if_pos hname, saddCommand]
  refine updateKey_eq hks ?_
  simp only [addSet, List.drop_succ_cons, List.drop_zero, List.map_append, List.mem_append, Option.some.injEq,
    Value.set.injEq]
  funext m
  exact (Bool.decide_or _ _).symm

/-- The arguments of two for each item. -/
theorem argPairs_flatMap (tx ty : α → Bytes) (g : List α) :
    argPairs (g.flatMap fun x => [tx x, ty x]) = g.map fun x => (tx x, ty x) := by
  induction g with
  | nil => rfl
  | cons x g ih => simp [argPairs, ih]

theorem length_flatMap_two (tx ty : α → Bytes) (g : List α) :
    (g.flatMap fun x => [tx x, ty x]).length = 2 * g.length := by
  induction g with
  | nil => rfl
  | cons x g ih =>
    simp only [List.flatMap_cons, List.length_append, List.length_cons, List.length_nil, ih]
    omega

theorem makes_hash (hs : Rewrites env) (tx ty : α → Bytes) (hne : xs ≠ []) (hkey : ks db key = none) :
    Makes env d clock (groupCommands hmsetName key (fun x => [tx x, ty x]) xs) (db, ks)
      (db, ks.put db key (some ⟨.hash ((xs.map fun x => (tx x, ty x)).foldl (fun m x => assign m x.1 x.2) fun _ => none),
        none⟩)) := by
  refine makes_items clock hs.hmset
    (fun xs => .hash ((xs.map fun x => (tx x, ty x)).foldl (fun m x => assign m x.1 x.2) fun _ => none))
    rfl ?_ hne hkey
  intro done g ks t hg hks
  have hother : strcaseeq hmsetName rpushName ≠ true ∧ strcaseeq hmsetName saddName ≠ true
      ∧ strcaseeq hmsetName zaddName ≠ true := by decide
  have hname : strcaseeq hmsetName hmsetName = true := by decide
  have hodd : ¬(hmsetName :: key :: g.flatMap fun x => [tx x, ty x]).length % 2 = 1 := by
    rw [List.length_cons, List.length_cons, length_flatMap_two]
    omega
  rw [otherCommand, arg_zero, if_neg hother.1, if_neg hother.2.1, if_neg hother.2.2, if_pos hname, hmsetCommand, if_neg hodd]
  refine updateKey_eq hks ?_
  simp [addHash, argPairs_flatMap]

theorem parseScores_print (hd : d.RoundTrips) (g : List (Item × S)) :
    parseScores d (g.map fun x => (d.print x.2, x.1.text)) = some (g.map fun x => (x.2, x.1.text)) := by
  induction g with
  | nil => rfl
  | cons x g ih => simp [parseScores, ih, hd.parse]

theorem makes_zset (hs : Rewrites env) (hd : d.RoundTrips) {xs : List (Item × S)} (hne : xs ≠ [])
    (hkey : ks db key = none) :
    Makes env d clock (groupCommands zaddName key (fun x => [d.print x.2, x.1.text]) xs) (db, ks)
      (db, ks.put db key (some ⟨.zset ((xs.map fun x => (x.2, x.1.text)).foldl (zaddElement d false false false)
        fun _ => none), none⟩)) := by
  refine makes_items clock hs.zadd
    (fun xs => .zset ((xs.map fun x => (x.2, x.1.text)).foldl (zaddElement d false false false) fun _ => none))
    rfl ?_ hne hkey
  intro done g ks t hg hks
  have hother : strcaseeq zaddName rpushName ≠ true ∧ strcaseeq zaddName saddName ≠ true := by decide
  have hname : strcaseeq zaddName zaddName = true := by decide
  -- a score is no option
  obtain ⟨x, g', rfl⟩ := List.exists_cons_of_ne_nil hg
  have hscore : isZaddOption (d.print x.2) = false := by
    cases ho : isZaddOption (d.print x.2) with
    | false => rfl
    | true =>
      have hnone := hd.option _ ho
      rw [hd.parse] at hnone
      cases hnone
  have htake : ((x :: g').flatMap fun x => [d.print x.2, x.1.text]).takeWhile isZaddOption = [] := by
    simp [hscore]
  have hdrop : ((x :: g').flatMap fun x => [d.print x.2, x.1.text]).dropWhile isZaddOption
      = (x :: g').flatMap fun x => [d.print x.2, x.1.text] := by
    simp [hscore]
  have hlen : ¬(((x :: g').flatMap fun x => [d.print x.2, x.1.text]).length % 2 ≠ 0
      ∨ ((x :: g').flatMap fun x => [d.print x.2, x.1.text]).length = 0) := by
    rw [length_flatMap_two, List.length_cons]
    omega
  rw [otherCommand, arg_zero, if_neg hother.1, if_neg hother.2, if_pos hname, zaddGenericCommand]
  simp only [List.drop_succ_cons, List.drop_zero, htake, hdrop, if_neg hlen, argPairs_flatMap, parseScores_print hd,
    List.any_nil, Bool.false_eq_true, false_and, if_false]
  refine updateKey_eq hks ?_
  simp [addZset]

end Values

/-! ## The keys are made -/

section Keys

variable {S A : Type} {env : LoadEnv} {d : Doubles S} (clock : Nat → Int) {db : Nat} {ks : Keyspace (Value S)} {key : Bytes}

/-- Different keys, one after another. -/
theorem foldl_assign {f : (Bytes → Option A) → Bytes × A → Bytes → Option A}
    (hf : ∀ m x, m x.1 = none → f m x = assign m x.1 x.2) (xs : List (Bytes × A)) :
    ∀ {m : Bytes → Option A}, (xs.map Prod.fst).Nodup → (∀ x ∈ xs, m x.1 = none) →
      xs.foldl f m = fun y => (xs.lookup y).or (m y) := by
  induction xs with
  | nil =>
    intro m _ _
    rfl
  | cons x xs ih =>
    intro m hnodup hm
    obtain ⟨hx, hxs⟩ := List.nodup_cons.mp hnodup
    have hfresh : ∀ y ∈ xs, assign m x.1 x.2 y.1 = none := by
      intro y hy
      have hne : y.1 ≠ x.1 := fun h => hx (h ▸ List.mem_map_of_mem hy)
      rw [assign, if_neg hne]
      exact hm y (List.mem_cons_of_mem _ hy)
    rw [List.foldl_cons, hf m x (hm x List.mem_cons_self), ih hxs hfresh]
    funext y
    by_cases hy : y = x.1
    · have hhead : (x :: xs).lookup x.1 = some x.2 := by
        obtain ⟨k, v⟩ := x
        exact List.lookup_cons_self
      have hnone : xs.lookup x.1 = none := by
        rw [List.lookup_eq_none_iff]
        intro z hz
        have hne : z.1 ≠ x.1 := fun h => hx (h ▸ List.mem_map_of_mem hz)
        simpa using hne.symm
      simp [hy, assign, hnone, hhead]
    · rw [assign, if_neg hy, List.lookup_cons, beq_false_of_ne hy]

theorem foldl_hash {α : Type} (tx ty : α → Bytes) {xs : List α} (hnodup : (xs.map tx).Nodup) :
    ((xs.map fun x => (tx x, ty x)).foldl (fun m x => assign m x.1 x.2) fun _ => none)
      = fun m => (xs.map fun x => (tx x, ty x)).lookup m := by
  have hkeys : (xs.map fun x => (tx x, ty x)).map Prod.fst = xs.map tx := by simp
  rw [foldl_assign (fun _ _ _ => rfl) _ (hkeys ▸ hnodup) fun _ _ => rfl]
  simp

theorem foldl_zset {xs : List (Item × S)} (hnodup : (xs.map fun x => x.1.text).Nodup) :
    ((xs.map fun x => (x.2, x.1.text)).foldl (zaddElement d false false false) fun _ => none)
      = fun m => (xs.map fun x => (x.1.text, x.2)).lookup m := by
  have hkeys : (xs.map fun x => (x.1.text, x.2)).map Prod.fst = xs.map fun x => x.1.text := by simp
  have hswap : ((xs.map fun x => (x.2, x.1.text)).foldl (zaddElement d false false false) fun _ => none)
      = (xs.map fun x => (x.1.text, x.2)).foldl (fun m x => zaddElement d false false false m (x.2, x.1)) fun _ => none := by
    rw [List.foldl_map, List.foldl_map]
  have hnew : ∀ (m : Bytes → Option S) (x : Bytes × S), m x.1 = none →
      zaddElement d false false false m (x.2, x.1) = assign m x.1 x.2 := by
    intro m x hx
    simp [zaddElement, hx]
  rw [hswap, foldl_assign hnew _ (hkeys ▸ hnodup) fun _ _ => rfl]
  simp

theorem ziplistPairs_ne_nil {zl : List Item} (hne : zl ≠ []) (heven : 2 ∣ zl.length) : ziplistPairs zl ≠ [] := by
  cases zl with
  | nil => exact absurd rfl hne
  | cons e zl =>
    cases zl with
    | nil => simp at heven
    | cons s zl => simp [ziplistPairs]

/-- The commands for a value make it. -/
theorem makes_object (hs : Rewrites env) (hd : d.RoundTrips) {o : Object S} (h : o.WellFormed) (hkey : ks db key = none) :
    Makes env d clock (objectCommands d key o) (db, ks) (db, ks.put db key (some ⟨o.value d, none⟩)) := by
  cases o with
  | string o => exact makes_set hs.toStandard o.text
  | list entries => exact makes_list clock hs Item.text h.1 hkey
  | setIntset contents => exact makes_sets clock hs (ll2string 32) h.1 hkey
  | setHt elements => exact makes_sets clock hs Item.text h.1 hkey
  | zsetZiplist zl =>
    have hne : zzlPairs d zl ≠ [] := by
      rw [zzlPairs, ne_eq, List.map_eq_nil_iff]
      exact ziplistPairs_ne_nil h.1 h.2.1
    have hnodup : ((zzlPairs d zl).map fun x => x.1.text).Nodup := by
      rw [zzlPairs, List.map_map]
      exact h.2.2.1
    have hmakes := makes_zset clock hs hd hne hkey
    rw [foldl_zset hnodup] at hmakes
    exact hmakes
  | zsetSkiplist dict =>
    have hmakes := makes_zset clock hs hd h.1 hkey
    rw [foldl_zset h.2.1] at hmakes
    exact hmakes
  | hashZiplist zl =>
    have hmakes := makes_hash (d := d) clock hs (fun x : Item × Item => x.1.text) (fun x => x.2.text)
      (ziplistPairs_ne_nil h.1 h.2.1) hkey
    rw [foldl_hash _ _ h.2.2.1] at hmakes
    exact hmakes
  | hashHt dict =>
    have hmakes := makes_hash (d := d) clock hs (fun x : Item × Item => x.1.text) (fun x => x.2.text) h.1 hkey
    rw [foldl_hash _ _ h.2.1] at hmakes
    exact hmakes

/-- What some of the entries of a database are when they were rewritten and loaded. -/
def rewritten (d : Doubles S) (now : Int) (D : Database (Object S)) (entries : List (Bytes × Object S)) (k : Bytes) :
    Option (Entry (Value S)) :=
  if D.getExpire k ≠ -1 ∧ D.getExpire k < now then none
  else (entries.lookup k).map fun o => ⟨o.value d, keptExpire (D.expires.lookup k)⟩

/-- One database is another one. -/
def Keyspace.setDb (ks : Keyspace (Value S)) (db : Nat) (m : Bytes → Option (Entry (Value S))) : Keyspace (Value S) :=
  fun i k => if i = db then m k else ks i k

/-- The commands for a key, after those for some other keys. -/
theorem makes_key (hs : Rewrites env) (hd : d.RoundTrips) {D : Database (Object S)} (hD : D.WellFormed) (now : Int)
    {entries : List (Bytes × Object S)} {e : Bytes × Object S} (h : e.2.WellFormed) (hfresh : entries.lookup e.1 = none) :
    Makes env d clock (keyCommands d now e.1 e.2 (D.getExpire e.1)) (db, ks.setDb db (rewritten d now D entries))
      (db, ks.setDb db (rewritten d now D (entries ++ [e]))) := by
  have hother : ∀ k, k ≠ e.1 → rewritten d now D (entries ++ [e]) k = rewritten d now D entries k := by
    intro k hk
    have hlookup := lookup_append (v := e.2) hfresh k
    rw [if_neg hk] at hlookup
    rw [rewritten, rewritten, hlookup]
  have hnone : ks.setDb db (rewritten d now D entries) db e.1 = none := by
    simp [Keyspace.setDb, rewritten, hfresh]
  have hself : (entries ++ [e]).lookup e.1 = some e.2 := by
    have hlookup := lookup_append (v := e.2) hfresh e.1
    rwa [if_pos rfl] at hlookup
  by_cases hskip : D.getExpire e.1 ≠ -1 ∧ D.getExpire e.1 < now
  · -- no command, and no key
    have hsame : rewritten d now D (entries ++ [e]) = rewritten d now D entries := by
      funext k
      by_cases hk : k = e.1
      · rw [hk, rewritten, rewritten, if_pos hskip, if_pos hskip]
      · exact hother k hk
    rw [keyCommands, if_pos hskip, hsame]
    exact Makes.nil _
  · have hput : (ks.setDb db (rewritten d now D entries)).put db e.1
          (some ⟨e.2.value d, keptExpire (D.expires.lookup e.1)⟩) = ks.setDb db (rewritten d now D (entries ++ [e])) := by
      funext i k
      by_cases hi : i = db
      · by_cases hk : k = e.1
        · rw [hi, hk, put_same]
          simp only [Keyspace.setDb, if_true, rewritten, if_neg hskip, hself, Option.map_some]
        · simp [Keyspace.put, Keyspace.setDb, hi, hk, hother k hk]
      · simp [Keyspace.put, Keyspace.setDb, hi]
    have hobject := makes_object clock hs hd h hnone
    rw [keyCommands, if_neg hskip, ← hput]
    by_cases htime : D.getExpire e.1 ≠ -1
    · have hkept : keptExpire (D.expires.lookup e.1) = some (D.getExpire e.1) := by
        rw [Database.getExpire] at htime ⊢
        cases hw : D.expires.lookup e.1 with
        | none => simp [hw] at htime
        | some w => simpa [keptExpire, hw] using htime
      have hmade : (ks.setDb db (rewritten d now D entries)).put db e.1 (some ⟨e.2.value d, none⟩) db e.1
          = some ⟨e.2.value d, none⟩ := put_same _
      have hall := hobject.trans (makes_pexpireat hs.toStandard (hD.getExpire e.1) hmade)
      rw [put_put] at hall
      rw [if_pos htime, hkept]
      exact hall
    · have hkept : keptExpire (D.expires.lookup e.1) = none := by
        rw [Database.getExpire, not_not] at htime
        cases hw : D.expires.lookup e.1 with
        | none => rfl
        | some w => simpa [keptExpire, hw] using htime
      rw [if_neg htime, hkept, List.append_nil]
      exact hobject

end Keys

/-! ## The databases are made -/

section Databases

variable {S : Type} {env : LoadEnv} {d : Doubles S} (clock : Nat → Int) {ks : Keyspace (Value S)}

theorem makes_keys (hs : Rewrites env) (hd : d.RoundTrips) {D : Database (Object S)} (hD : Writeable D) (now : Int) (j : Nat)
    (todo : List (Bytes × Object S)) : ∀ {entries : List (Bytes × Object S)}, D.dict = entries ++ todo →
      Makes env d clock (todo.flatMap fun e => keyCommands d now e.1 e.2 (D.getExpire e.1))
        (j, ks.setDb j (rewritten d now D entries)) (j, ks.setDb j (rewritten d now D D.dict)) := by
  induction todo with
  | nil =>
    intro entries hdict
    rw [List.append_nil] at hdict
    rw [hdict]
    exact Makes.nil _
  | cons e todo ih =>
    intro entries hdict
    have he : e ∈ D.dict := by simp [hdict]
    have hkey : Makes env d clock (keyCommands d now e.1 e.2 (D.getExpire e.1)) (j, ks.setDb j (rewritten d now D entries))
        (j, ks.setDb j (rewritten d now D (entries ++ [e]))) :=
      makes_key clock hs hd hD.keys now (hD.value e he) (hD.keys.fresh hdict)
    exact hkey.trans (ih (by simp [hdict]))

/-- The keys when some of the databases are made, from the one with the index `j` on. -/
def rewrittenDbs (d : Doubles S) (now : Int) (ks : Keyspace (Value S)) (j : Nat) (dbs : List (Database (Object S))) :
    Keyspace (Value S) :=
  fun i k => if i < j then ks i k else (dbs[i - j]?).elim none fun D => rewritten d now D D.dict k

theorem makes_dbs (hs : Rewrites env) (hd : d.RoundTrips) (now : Int) (hint : env.dbnum < 2 ^ 31)
    {dbs : List (Database (Object S))} :
    ∀ {db j : Nat} {ks : Keyspace (Value S)}, (∀ D ∈ dbs, Writeable D) → j + dbs.length ≤ env.dbnum →
      (env.clusterEnabled = true → ∀ i D, dbs[i]? = some D → j + i ≠ 0 → D.dict = []) → (∀ i k, j ≤ i → ks i k = none) →
      ∃ db', Makes env d clock (rewriteCommands d now j dbs) (db, ks) (db', rewrittenDbs d now ks j dbs) := by
  induction dbs with
  | nil =>
    intro db j ks _ _ _ hempty
    have hsame : rewrittenDbs d now ks j [] = ks := by
      funext i k
      by_cases hi : i < j
      · simp [rewrittenDbs, hi]
      · simp [rewrittenDbs, hi, hempty i k (Nat.not_lt.mp hi)]
    rw [hsame]
    exact ⟨db, Makes.nil _⟩
  | cons D dbs ih =>
    intro db j ks h hj hcluster hempty
    rw [List.length_cons] at hj
    have hD := h D List.mem_cons_self
    -- the first database, then the other ones
    have hfirst : ∃ db', Makes env d clock (dbCommands d now j D) (db, ks)
        (db', ks.setDb j (rewritten d now D D.dict)) := by
      have hstart : ks.setDb j (rewritten d now D []) = ks := by
        funext i k
        by_cases hi : i = j
        · simp [Keyspace.setDb, hi, rewritten, hempty j k (Nat.le_refl j)]
        · simp [Keyspace.setDb, hi]
      by_cases hlen : D.dict.length = 0
      · refine ⟨db, ?_⟩
        rw [dbCommands, if_pos hlen, List.length_eq_zero_iff.mp hlen, hstart]
        exact Makes.nil _
      · have hzero : env.clusterEnabled = true → j = 0 := by
          intro hc
          by_contra hne
          have hnil := hcluster hc 0 D rfl (by omega)
          rw [hnil] at hlen
          exact hlen rfl
        have hselect : Makes env d clock [selectArgv j] (db, ks) (j, ks) :=
          makes_select hs.toStandard (by omega) (by omega) hzero
        have hkeys : Makes env d clock (D.dict.flatMap fun e => keyCommands d now e.1 e.2 (D.getExpire e.1))
            (j, ks.setDb j (rewritten d now D [])) (j, ks.setDb j (rewritten d now D D.dict)) :=
          makes_keys clock hs hd hD now j D.dict (List.nil_append D.dict).symm
        rw [hstart] at hkeys
        refine ⟨j, ?_⟩
        rw [dbCommands, if_neg hlen]
        exact hselect.trans hkeys
    obtain ⟨db', hdb⟩ := hfirst
    have hempty' : ∀ i k, j + 1 ≤ i → ks.setDb j (rewritten d now D D.dict) i k = none := by
      intro i k hi
      rw [Keyspace.setDb, if_neg (by omega)]
      exact hempty i k (by omega)
    have hcluster' : env.clusterEnabled = true → ∀ i D, dbs[i]? = some D → j + 1 + i ≠ 0 → D.dict = [] :=
      fun hc i D hi _ => hcluster hc (i + 1) D (by simpa using hi) (by omega)
    obtain ⟨db'', hrest⟩ : ∃ db'', Makes env d clock (rewriteCommands d now (j + 1) dbs)
        (db', ks.setDb j (rewritten d now D D.dict))
        (db'', rewrittenDbs d now (ks.setDb j (rewritten d now D D.dict)) (j + 1) dbs) :=
      ih (fun x hx => h x (List.mem_cons_of_mem _ hx)) (by omega) hcluster' hempty'
    have hsame : rewrittenDbs d now (ks.setDb j (rewritten d now D D.dict)) (j + 1) dbs
        = rewrittenDbs d now ks j (D :: dbs) := by
      funext i k
      rcases Nat.lt_trichotomy i j with hi | hi | hi
      · have hne : i ≠ j := by omega
        simp [rewrittenDbs, Keyspace.setDb, hi, show i < j + 1 by omega, hne]
      · simp [rewrittenDbs, Keyspace.setDb, hi]
      · simp [rewrittenDbs, show ¬i < j + 1 by omega, show ¬i < j by omega, show i - j = (i - (j + 1)) + 1 by omega]
    rw [hsame] at hrest
    exact ⟨db'', hdb.trans hrest⟩

end Databases

/-! ## The file is loaded -/

section File

variable {S : Type} {env : LoadEnv} {d : Doubles S}

/-- A command that the loader knows, and that starts no transaction. -/
def Plain (env : LoadEnv) (argv : List Bytes) : Prop := Known env argv ∧ env.commands (arg argv 0) ≠ some .multi

theorem Plain.of_proc {name : Bytes} {args : List Bytes} {proc : Proc} (hproc : env.commands name = some proc)
    (hmulti : proc ≠ .multi) (hcount : args.length < 2 ^ 31 - 1) (hname : name.length < 2 ^ 31)
    (hargs : ∀ a ∈ args, a.length < 2 ^ 31) : Plain env (name :: args) := by
  refine ⟨⟨⟨by simp, ?_, ?_⟩, ?_⟩, ?_⟩
  · rw [List.length_cons]
    omega
  · intro a ha
    rcases List.mem_cons.mp ha with rfl | ha
    · omega
    · have hlen := hargs a ha
      omega
  · rw [arg_zero, hproc]
    rfl
  · rw [arg_zero, hproc]
    simpa using hmulti

theorem mem_groups {α : Type} (xs : List α) : ∀ g ∈ groups xs, g.length ≤ 64 ∧ ∀ x ∈ g, x ∈ xs := by
  induction xs using groups.induct with
  | case1 => simp [groups]
  | case2 x xs ih =>
    intro g hg
    rw [groups, List.mem_cons] at hg
    rcases hg with rfl | hg
    · refine ⟨by simp, fun y hy => ?_⟩
      rcases List.mem_cons.mp hy with rfl | hy
      · exact List.mem_cons_self
      · exact List.mem_cons_of_mem _ (List.mem_of_mem_take hy)
    · exact ⟨(ih g hg).1, fun y hy => List.mem_cons_of_mem _ (List.mem_of_mem_drop ((ih g hg).2 y hy))⟩

theorem length_flatMap_le {α β : Type} {args : α → List β} {n : Nat} {g : List α} (h : ∀ x ∈ g, (args x).length ≤ n) :
    (g.flatMap args).length ≤ g.length * n := by
  induction g with
  | nil => simp
  | cons x g ih =>
    have hx := h x List.mem_cons_self
    have hg := ih fun y hy => h y (List.mem_cons_of_mem _ hy)
    rw [List.flatMap_cons, List.length_append, List.length_cons, Nat.succ_mul]
    omega

theorem plain_groups {α : Type} {name key : Bytes} {args : α → List Bytes} (hproc : env.commands name = some .other)
    (hname : name.length < 2 ^ 31) (hkey : key.length < 2 ^ 31) {xs : List α}
    (hargs : ∀ x ∈ xs, (args x).length ≤ 2 ∧ ∀ a ∈ args x, a.length < 2 ^ 31) :
    ∀ argv ∈ groupCommands name key args xs, Plain env argv := by
  intro argv hargv
  obtain ⟨g, hg, rfl⟩ := List.mem_map.mp hargv
  obtain ⟨hlen, hmem⟩ := mem_groups xs g hg
  have hcount := length_flatMap_le fun x hx => (hargs x (hmem x hx)).1
  refine Plain.of_proc hproc (by decide) ?_ hname ?_
  · rw [List.length_cons]
    omega
  · intro a ha
    rcases List.mem_cons.mp ha with rfl | ha
    · exact hkey
    · obtain ⟨x, hx, ha⟩ := List.mem_flatMap.mp ha
      exact (hargs x (hmem x hx)).2 a ha

theorem plain_object (hs : Rewrites env) (hd : d.RoundTrips) {key : Bytes} (hkey : key.length < 2 ^ 31) {o : Object S}
    (h : o.WellFormed) : ∀ argv ∈ objectCommands d key o, Plain env argv := by
  have hone : ∀ s : Bytes, s.length < 2 ^ 31 → ([s] : List Bytes).length ≤ 2 ∧ ∀ a ∈ [s], a.length < 2 ^ 31 := by
    intro s hs
    simpa using hs
  have htwo : ∀ s t : Bytes, s.length < 2 ^ 31 → t.length < 2 ^ 31 →
      ([s, t] : List Bytes).length ≤ 2 ∧ ∀ a ∈ [s, t], a.length < 2 ^ 31 := by
    intro s t hs ht
    simpa using ⟨hs, ht⟩
  have hprint : ∀ s, (d.print s).length < 2 ^ 31 := fun s => (hd.length s).trans (by norm_num)
  cases o with
  | string o =>
    intro argv hargv
    rw [objectCommands, List.mem_singleton] at hargv
    rw [hargv]
    exact Plain.of_proc hs.set (by decide) (by simp) (by simp [setName]) (htwo key o.text hkey (Item.Ok.length h)).2
  | list entries => exact plain_groups hs.rpush (by simp [rpushName]) hkey fun e he => hone _ (h.2 e he).length
  | setIntset contents =>
    exact plain_groups hs.sadd (by simp [saddName]) hkey fun v hv => hone _ (h.2.2 v hv).length
  | setHt elements => exact plain_groups hs.sadd (by simp [saddName]) hkey fun e he => hone _ (h.2.2 e he).length
  | zsetZiplist zl =>
    refine plain_groups hs.zadd (by simp [zaddName]) hkey fun x hx => htwo _ _ (hprint x.2) ?_
    obtain ⟨y, hy, rfl⟩ := List.mem_map.mp hx
    exact (h.2.2.2 _ (mem_ziplistPairs hy).1).length
  | zsetSkiplist dict =>
    exact plain_groups hs.zadd (by simp [zaddName]) hkey fun x hx => htwo _ _ (hprint x.2) (h.2.2 x hx).length
  | hashZiplist zl =>
    exact plain_groups hs.hmset (by simp [hmsetName]) hkey fun x hx =>
      htwo _ _ (h.2.2.2 _ (mem_ziplistPairs hx).1).length (h.2.2.2 _ (mem_ziplistPairs hx).2).length
  | hashHt dict =>
    exact plain_groups hs.hmset (by simp [hmsetName]) hkey fun x hx => htwo _ _ (h.2.2 x hx).1.length (h.2.2 x hx).2.length

theorem plain_commands (hs : Rewrites env) (hd : d.RoundTrips) (now : Int) {dbs : List (Database (Object S))} :
    ∀ {j : Nat}, (∀ D ∈ dbs, Writeable D) → j + dbs.length ≤ 2 ^ 31 → ∀ argv ∈ rewriteCommands d now j dbs, Plain env argv := by
  induction dbs with
  | nil => simp [rewriteCommands]
  | cons D dbs ih =>
    intro j h hj argv hargv
    rw [List.length_cons] at hj
    rw [rewriteCommands, List.mem_append] at hargv
    rcases hargv with hargv | hargv
    · have hD := h D List.mem_cons_self
      by_cases hlen : D.dict.length = 0
      · simp [dbCommands, hlen] at hargv
      · rw [dbCommands, if_neg hlen, List.mem_cons, List.mem_flatMap] at hargv
        rcases hargv with rfl | ⟨e, he, hargv⟩
        · have hselect : env.commands (arg (selectArgv j) 0) = some .select := hs.select
          exact ⟨⟨fits_selectArgv (by omega), by rw [hselect]; rfl⟩, by rw [hselect]; decide⟩
        · rw [keyCommands] at hargv
          by_cases hskip : D.getExpire e.1 ≠ -1 ∧ D.getExpire e.1 < now
          · simp [hskip] at hargv
          · rw [if_neg hskip, List.mem_append] at hargv
            rcases hargv with hargv | hargv
            · exact plain_object hs hd (hD.key e he) (hD.value e he) argv hargv
            · by_cases htime : D.getExpire e.1 ≠ -1
              · rw [if_pos htime, List.mem_singleton] at hargv
                obtain ⟨hlo, hhi⟩ := hD.keys.getExpire e.1
                have hsizes : ∀ a ∈ [e.1, ll2string 32 (D.getExpire e.1)], a.length < 2 ^ 31 := by
                  simpa using ⟨hD.key e he, length_ll2string hlo hhi⟩
                rw [hargv]
                exact Plain.of_proc hs.pexpireat (by decide) (by simp) (by simp [pexpireatName]) hsizes
              · simp [htime] at hargv
    · exact ih (fun x hx => h x (List.mem_cons_of_mem _ hx)) (by omega) argv hargv

/-- The commands of a rewritten file. -/
def rewriteEnv : LoadEnv where
  commands name :=
    if name = selectName then some .select
    else if name = setName then some .set
    else if name = pexpireatName then some .pexpireat
    else if name ∈ [rpushName, saddName, zaddName, hmsetName] then some .other
    else none
  dbnum := 16
  clusterEnabled := false
  loadTruncated := true

/-- The scores 0 and 1. -/
def zeroOne : Doubles Bool where
  print s := if s then [49] else [48]
  parse s := if s = [49] then some true else if s = [48] then some false else none
  strtod s := decide (s = [49])
  ofInt v := decide (v = 1)
  add a b := if a && b then none else some (a || b)
  eq a b := a == b

theorem zeroOne_roundTrips : zeroOne.RoundTrips where
  parse := by decide
  length := by decide
  option := by
    intro a ha
    by_cases hone : a = [49]
    · rw [hone] at ha
      exact absurd ha (by decide)
    · by_cases hzero : a = [48]
      · rw [hzero] at ha
        exact absurd ha (by decide)
      · simp [zeroOne, hone, hzero]

/-- A list with a time to live in the first database, and a sorted set in the third. -/
def listAndZset : List (Database (Object Bool)) :=
  [⟨[([108], .list [.str [118], .int 7])], [([108], 5000)]⟩, ⟨[], []⟩,
    ⟨[([122], .zsetSkiplist [(.str [97], false), (.str [98], true)])], []⟩]

end File

end Redis.Aof
