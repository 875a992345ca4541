import Redis.Aof.RoundTrip

namespace Redis.Aof

/-!
# AOF — transactions in a file that is cut

The loader gives every command to its implementation as it is read, between `MULTI` and `EXEC` too,
and `valid_up_to` is moved by every command.  So a file that is cut keeps the part of a transaction
that was written.

* `Executed` — what the master executes as one, and the commands that are fed for it;
* `dataset`, `masterDataset` — the dataset after loading, and after whole units, for any meaning of
  the write commands;
* `loadedWrites` — the write commands that loading executes, for a file that is cut anywhere;
* `Uncut` — the cut does not separate the write commands of one unit;
* `truncated_load` — exactly then the dataset is the one after whole units;
* `half_transaction` — a transaction of two commands of which one is loaded.
-/

/-- `"MULTI"`. -/
def multiName : Bytes := [77, 85, 76, 84, 73]

/-- What a master executes as one. -/
inductive Executed
  /-- A command: itself, or the commands that it is propagated as. -/
  | command (fs : List (Int × Fed))
  /-- `EXEC`: `execCommandPropagateMulti`, the queued commands, and `EXEC` itself. -/
  | transaction (mstime : Int) (dictid : Nat) (fs : List (Int × Fed)) (exec : Int × Fed)

/-- What is fed to the file. -/
def Executed.feds : Executed → List (Int × Fed)
  | .command fs => fs
  | .transaction mstime dictid fs exec => (mstime, ⟨.multi, dictid, [multiName]⟩) :: (fs ++ [exec])

/-- The commands without an effect on the dataset. -/
def Proc.control (p : Proc) : Bool := p = .select ∨ p = .multi ∨ p = .exec ∨ p = .discard

/-- The calls with an effect on the dataset. -/
def effects (calls : List Call) : List Call := calls.filter fun c => !c.proc.control

/-- What a command is written as, as calls. -/
def writesOf (env : LoadEnv) (f : Int × Fed) : List Call :=
  (translate f.1 f.2).map fun argv => ⟨f.2.dictid, (env.commands (arg argv 0)).getD .other, argv⟩

/-- The write commands of a unit. -/
def Executed.writes (env : LoadEnv) (u : Executed) : List Call := effects (u.feds.flatMap (writesOf env))

/-- The dataset after some calls, where `effect` says what a write command does. -/
def runCalls {D : Type} (effect : Call → D → D) (d : D) (calls : List Call) : D :=
  calls.foldl (fun d c => if c.proc.control then d else effect c d) d

/-- The dataset after loading, if the server starts. -/
def dataset {D : Type} (effect : Call → D → D) (d : D) : LoadResult → Option D
  | .empty => some d
  | .loaded calls _ => some (runCalls effect d calls)
  | _ => none

/-- The dataset of the master after some units. -/
def masterDataset {D : Type} (effect : Call → D → D) (d : D) (env : LoadEnv) (units : List Executed) : D :=
  runCalls effect d (units.flatMap (Executed.writes env))

/-- The file that the units leave. -/
def fileOf (units : List Executed) : Bytes := (feedAll (-1) (units.flatMap Executed.feds)).1

/-- A command as the server feeds it.  The loading server has the same commands and databases. -/
structure Writable (env : LoadEnv) (f : Fed) : Prop where
  fits : Fits f.argv
  known : env.commands (arg f.argv 0) = some f.proc
  /-- `SELECT` is not a write. -/
  plain : f.proc ≠ .select
  db : f.dictid < env.dbnum
  int : f.dictid < 2 ^ 31
  cluster : env.clusterEnabled = true → f.dictid = 0

/-- The commands that the server writes by name are known to the loader. -/
structure Standard (env : LoadEnv) : Prop where
  select : env.commands selectName = some .select
  set : env.commands setName = some .set
  pexpireat : env.commands pexpireatName = some .pexpireat

/-- The number of write commands. -/
def writeCount (env : LoadEnv) (cs : List (List Bytes)) : Nat :=
  cs.countP fun argv => !((env.commands (arg argv 0)).getD .other).control

/-- The commands that are whole within `k` bytes. -/
def contained : List (List Bytes) → Nat → List (List Bytes)
  | [], _ => []
  | argv :: cs, k =>
    let size := (catAppendOnlyGenericCommand argv).length
    if size ≤ k then argv :: contained cs (k - size) else []

/-- In `k` bytes of the file every unit has all of its write commands or none of them. -/
def Uncut (env : LoadEnv) : Int → List Executed → Nat → Prop
  | _, [], _ => True
  | selected, u :: units, k =>
    let cs := commandsOfAll selected u.feds
    let within := writeCount env (contained cs k)
    (within = 0 ∨ within = writeCount env cs)
      ∧ Uncut env (feedAll selected u.feds).2 units (k - (text cs).length)

/-! ## The commands within a prefix -/

theorem contained_nil (k : Nat) : contained [] k = [] := rfl

theorem contained_cons (argv : List Bytes) (cs : List (List Bytes)) (k : Nat) :
    contained (argv :: cs) k = if (catAppendOnlyGenericCommand argv).length ≤ k then
      argv :: contained cs (k - (catAppendOnlyGenericCommand argv).length) else [] := rfl

theorem contained_zero (cs : List (List Bytes)) : contained cs 0 = [] := by
  cases cs with
  | nil => rfl
  | cons argv cs =>
    have := length_cat_pos argv
    rw [contained_cons]
    rw [if_neg (by omega)]

theorem contained_append (cs ds : List (List Bytes)) : ∀ (k : Nat),
    contained (cs ++ ds) k = contained cs k ++ contained ds (k - (text cs).length) := by
  induction cs with
  | nil => simp [contained_nil]
  | cons argv cs ih =>
    intro k
    simp only [List.cons_append, contained_cons, text_cons, List.length_append]
    by_cases hfit : (catAppendOnlyGenericCommand argv).length ≤ k
    · rw [if_pos hfit, if_pos hfit, ih, Nat.sub_sub, List.cons_append]
    · rw [if_neg hfit, if_neg hfit, show k - ((catAppendOnlyGenericCommand argv).length + (text cs).length) = 0 by
        omega, contained_zero]
      rfl

variable {cs : List (List Bytes)}

theorem contained_eq_self : ∀ {k : Nat}, (text cs).length ≤ k → contained cs k = cs := by
  induction cs with
  | nil => exact fun _ => rfl
  | cons argv cs ih =>
    intro k hk
    rw [text_cons, List.length_append] at hk
    rw [contained_cons]
    rw [if_pos (by omega), ih (by omega)]

theorem contained_isPrefix (cs : List (List Bytes)) : ∀ (k : Nat), contained cs k <+: cs := by
  induction cs with
  | nil => exact fun _ => List.prefix_refl _
  | cons argv cs ih =>
    intro k
    rw [contained_cons]
    split_ifs
    · exact List.prefix_cons_inj argv |>.mpr (ih _)
    · exact List.nil_prefix

/-- The longest sequence of commands is the one that is found by counting. -/
theorem longestWithin_eq {cs done : List (List Bytes)} : ∀ {k : Nat}, LongestWithin cs done k → done = contained cs k := by
  induction cs generalizing done with
  | nil =>
    intro k h
    exact List.prefix_nil.mp h.pre
  | cons argv cs ih =>
    intro k h
    rw [contained_cons]
    by_cases hfit : (catAppendOnlyGenericCommand argv).length ≤ k
    · rw [if_pos hfit]
      obtain ⟨rest, rfl⟩ : ∃ rest, done = argv :: rest := by
        have hone := h.longest [argv] (List.prefix_append [argv] cs) (by simpa using hfit)
        obtain ⟨rest, hrest⟩ := hone
        exact ⟨rest, hrest.symm⟩
      have hwithin := h.within
      rw [text_cons, List.length_append] at hwithin
      have htail : LongestWithin cs rest (k - (catAppendOnlyGenericCommand argv).length) := by
        refine ⟨(List.prefix_cons_inj argv).mp h.pre, by omega, ?_⟩
        intro ds hds hlen
        refine (List.prefix_cons_inj argv).mp (h.longest (argv :: ds) ((List.prefix_cons_inj argv).mpr hds) ?_)
        rw [text_cons, List.length_append]
        omega
      rw [ih htail]
    · rw [if_neg hfit]
      have hwithin := h.within
      cases done with
      | nil => rfl
      | cons b done =>
        obtain ⟨rest, hrest⟩ := h.pre
        rw [List.cons_append, List.cons.injEq] at hrest
        rw [hrest.1, text_cons, List.length_append] at hwithin
        omega

theorem commandsOfAll_append (fs gs : List (Int × Fed)) : ∀ (selected : Int),
    commandsOfAll selected (fs ++ gs) = commandsOfAll selected fs ++ commandsOfAll (feedAll selected fs).2 gs := by
  induction fs with
  | nil => exact fun _ => rfl
  | cons f fs ih =>
    intro selected
    simp only [List.cons_append, commandsOfAll, ih, List.append_assoc, feedAll]
    rfl

/-! ## What is executed -/

variable {env : LoadEnv}

theorem arg_expireAtArgv (proc : Proc) (mstime : Int) (key seconds : Bytes) :
    arg (expireAtArgv proc mstime key seconds) 0 = pexpireatName := rfl

theorem expireAt_bounds (proc : Proc) (mstime : Int) (seconds : Bytes) :
    -2 ^ 63 ≤ expireAt proc mstime seconds ∧ expireAt proc mstime seconds < 2 ^ 63 := by
  have hmod : ∀ x : Int, -2 ^ 63 ≤ Int.bmod x (2 ^ 64) ∧ Int.bmod x (2 ^ 64) < 2 ^ 63 := by
    intro x
    have hlow := Int.le_bmod (x := x) (m := 2 ^ 64) (by decide)
    have hhigh := Int.bmod_lt (x := x) (m := 2 ^ 64) (by decide)
    constructor <;> omega
  have hstrtol : -2 ^ 63 ≤ strtol seconds ∧ strtol seconds < 2 ^ 63 := by
    simp only [strtol]
    omega
  simp only [expireAt]
  split_ifs
  · exact hmod _
  · exact hmod _
  · exact hmod _
  · exact hstrtol

theorem length_ll2string_lt {v : Int} (hlo : -2 ^ 63 ≤ v) (hhi : v < 2 ^ 63) :
    (ll2string 32 v).length < 2 ^ 63 := by
  have hlen := length_decimal_le (n := 18) (show v.natAbs < 10 ^ 19 by omega)
  rw [ll2string_eq hlo hhi, List.length_append]
  split_ifs <;> simp <;> omega

theorem arg_sizes {argv : List Bytes} (h : Fits argv) (i : Nat) : (arg argv i).length < 2 ^ 63 := by
  rw [arg, List.getD_eq_getElem?_getD]
  cases hget : argv[i]? with
  | none => exact (by decide : (0 : Nat) < 2 ^ 63)
  | some a => exact h.sizes a (List.mem_of_getElem? hget)

theorem fits_expireAtArgv {f : Fed} (h : Fits f.argv) (mstime : Int) :
    Fits (expireAtArgv f.proc mstime (arg f.argv 1) (arg f.argv 2)) where
  pos := by simp [expireAtArgv]
  count := by simp [expireAtArgv]
  sizes := by
    obtain ⟨hlo, hhi⟩ := expireAt_bounds f.proc mstime (arg f.argv 2)
    intro a ha
    simp only [expireAtArgv, List.mem_cons, List.not_mem_nil, or_false] at ha
    rcases ha with rfl | rfl | rfl
    · decide
    · exact arg_sizes h 1
    · exact length_ll2string_lt hlo hhi

/-- A command that is written is not a `SELECT`, and the loader knows it. -/
theorem known_translate (hs : Standard env) {f : Fed} (h : Writable env f) (mstime : Int) :
    ∀ argv ∈ translate mstime f, Fits argv ∧ ∃ proc, env.commands (arg argv 0) = some proc ∧ proc ≠ .select := by
  have hexpire : Fits (expireAtArgv f.proc mstime (arg f.argv 1) (arg f.argv 2)) ∧
      ∃ proc, env.commands (arg (expireAtArgv f.proc mstime (arg f.argv 1) (arg f.argv 2)) 0) = some proc
        ∧ proc ≠ .select :=
    ⟨fits_expireAtArgv h.fits mstime, .pexpireat, hs.pexpireat, by decide⟩
  have hset : Fits [setName, arg f.argv 1, arg f.argv 3] := by
    refine ⟨by simp, by simp, ?_⟩
    intro a ha
    simp only [List.mem_cons, List.not_mem_nil, or_false] at ha
    rcases ha with rfl | rfl | rfl
    · decide
    · exact arg_sizes h.fits 1
    · exact arg_sizes h.fits 3
  intro argv hargv
  rw [translate] at hargv
  split_ifs at hargv
  · rw [List.mem_singleton.mp hargv]
    exact hexpire
  · simp only [List.mem_cons, List.not_mem_nil, or_false] at hargv
    rcases hargv with rfl | rfl
    · exact ⟨hset, .set, hs.set, by decide⟩
    · exact hexpire
  · rw [List.mem_singleton.mp hargv]
    exact ⟨h.fits, f.proc, h.known, h.plain⟩

theorem known_feeds (hs : Standard env) {fs : List (Int × Fed)} (h : ∀ f ∈ fs, Writable env f.2) :
    ∀ (selected : Int), ∀ argv ∈ commandsOfAll selected fs, Known env argv := by
  induction fs with
  | nil => simp [commandsOfAll]
  | cons f fs ih =>
    intro selected argv hargv
    obtain ⟨mstime, f⟩ := f
    have hf := h _ List.mem_cons_self
    rw [commandsOfAll, commandsOf, List.mem_append, List.mem_append] at hargv
    rcases hargv with (hargv | hargv) | hargv
    · by_cases hsel : (f.dictid : Int) ≠ selected
      · rw [if_pos hsel, List.mem_singleton] at hargv
        rw [hargv]
        exact ⟨fits_selectArgv hf.int, by simp [arg, selectArgv, hs.select]⟩
      · simp [hsel] at hargv
    · obtain ⟨hfits, proc, hproc, -⟩ := known_translate hs hf mstime argv hargv
      exact ⟨hfits, by simp [hproc]⟩
    · exact ih (fun g hg => h g (List.mem_cons_of_mem _ hg)) _ argv hargv

theorem effects_append (a b : List Call) : effects (a ++ b) = effects a ++ effects b :=
  List.filter_append _ _

theorem effects_feeds (units : List Executed) :
    effects ((units.flatMap Executed.feds).flatMap (writesOf env)) = units.flatMap (Executed.writes env) := by
  induction units with
  | nil => rfl
  | cons u units ih =>
    simp only [List.flatMap_cons, List.flatMap_append, effects_append, ih]
    rfl

/-- Commands that are not a `SELECT` are executed in the database that is selected. -/
theorem runCommands_calls (h : ∀ argv ∈ cs, ∃ proc, env.commands (arg argv 0) = some proc ∧ proc ≠ .select) :
    ∀ (l : Loader),
    (runCommands env l cs).db = l.db ∧ (runCommands env l cs).calls = l.calls
      ++ cs.map fun argv => (⟨l.db, (env.commands (arg argv 0)).getD .other, argv⟩ : Call) := by
  induction cs with
  | nil => exact fun l => ⟨rfl, by simp [runCommands]⟩
  | cons argv cs ih =>
    intro l
    obtain ⟨proc, hproc, hne⟩ := h argv List.mem_cons_self
    obtain ⟨hdb, hcalls⟩ := ih (fun b hb => h b (List.mem_cons_of_mem _ hb)) (runCommand env l argv)
    have hstep : runCommand env l argv = runProc env l proc argv := runCommand_eq hproc l
    have hdb' : (runCommand env l argv).db = l.db := by
      rw [hstep, runProc]
      simp [hne]
    refine ⟨hdb.trans hdb', ?_⟩
    refine hcalls.trans ?_
    rw [hdb', hstep, runProc]
    simp [hproc]

/-- A command that was fed is executed in its database. -/
theorem runCommands_fed (hs : Standard env) {f : Fed} (h : Writable env f) (mstime : Int) {selected : Int}
    {l : Loader} (hdb : selected = l.db ∨ selected = -1) :
    (runCommands env l (commandsOf mstime selected f)).db = f.dictid
      ∧ effects (runCommands env l (commandsOf mstime selected f)).calls
        = effects l.calls ++ effects (writesOf env (mstime, f)) := by
  have hknown := fun argv hargv => (known_translate hs h mstime argv hargv).2
  have hrun : ∀ l' : Loader, l'.db = f.dictid → (runCommands env l' (translate mstime f)).db = f.dictid
      ∧ effects (runCommands env l' (translate mstime f)).calls
        = effects l'.calls ++ effects (writesOf env (mstime, f)) := by
    intro l' hl'
    obtain ⟨hd, hc⟩ := runCommands_calls hknown l'
    rw [hc, effects_append, hl', hd]
    exact ⟨hl', rfl⟩
  rw [commandsOf, runCommands_append]
  by_cases hsel : (f.dictid : Int) ≠ selected
  · rw [if_pos hsel]
    have hstep : runCommands env l [selectArgv f.dictid] = runProc env l .select (selectArgv f.dictid) :=
      runCommand_eq hs.select l
    have hdb' : (runCommands env l [selectArgv f.dictid]).db = f.dictid := by
      rw [hstep, runProc]
      simp [selectCommand_selectArgv h.db h.int h.cluster]
    have heff : effects (runCommands env l [selectArgv f.dictid]).calls = effects l.calls := by
      rw [hstep, runProc]
      simp [effects, Proc.control]
    obtain ⟨hd, hc⟩ := hrun _ hdb'
    exact ⟨hd, by rw [hc, heff]⟩
  · rw [if_neg hsel]
    exact hrun l (by omega)

theorem runCommands_feeds (hs : Standard env) {fs : List (Int × Fed)} (h : ∀ f ∈ fs, Writable env f.2) :
    ∀ {selected : Int} {l : Loader}, (selected = l.db ∨ selected = -1) →
      effects (runCommands env l (commandsOfAll selected fs)).calls
        = effects l.calls ++ effects (fs.flatMap (writesOf env)) := by
  induction fs with
  | nil => simp [commandsOfAll, runCommands, effects]
  | cons f fs ih =>
    intro selected l hdb
    obtain ⟨mstime, f⟩ := f
    obtain ⟨hdb', hcalls⟩ := runCommands_fed hs (h _ List.mem_cons_self) mstime hdb
    rw [commandsOfAll, runCommands_append]
    rw [ih (fun g hg => h g (List.mem_cons_of_mem _ hg)) (.inl (by rw [hdb'])), hcalls]
    rw [List.flatMap_cons, effects_append, List.append_assoc]

/-- As many calls have an effect as commands are write commands. -/
theorem length_effects (h : ∀ argv ∈ cs, Known env argv) : ∀ (l : Loader),
    (effects (runCommands env l cs).calls).length = (effects l.calls).length + writeCount env cs := by
  induction cs with
  | nil => exact fun l => rfl
  | cons argv cs ih =>
    intro l
    obtain ⟨proc, hproc⟩ := Option.isSome_iff_exists.mp (h argv List.mem_cons_self).known
    have hstep : runCommand env l argv = runProc env l proc argv := runCommand_eq hproc l
    refine (ih (fun b hb => h b (List.mem_cons_of_mem _ hb)) (runCommand env l argv)).trans ?_
    rw [hstep, runProc, effects_append, List.length_append, writeCount, writeCount, List.countP_cons, hproc]
    cases hc : proc.control <;> simp [effects, hc]
    omega

/-- No transaction is started. -/
theorem runCommands_multi (h : ∀ argv ∈ cs, env.commands (arg argv 0) ≠ some .multi) :
    ∀ {l : Loader}, l.multi = false → (runCommands env l cs).multi = false := by
  induction cs with
  | nil => exact fun hl => hl
  | cons argv cs ih =>
    intro l hl
    refine ih (fun b hb => h b (List.mem_cons_of_mem _ hb)) (l := runCommand env l argv) ?_
    have hargv := h argv List.mem_cons_self
    cases hproc : env.commands (arg argv 0) with
    | none => simpa [runCommand, hproc] using hl
    | some proc =>
      have hne : proc ≠ .multi := fun hmulti => hargv (by rw [hproc, hmulti])
      rw [runCommand_eq hproc, runProc]
      simp [hne, hl]

theorem runCalls_append {D : Type} (effect : Call → D → D) (d : D) (a b : List Call) :
    runCalls effect d (a ++ b) = runCalls effect (runCalls effect d a) b :=
  List.foldl_append

/-- Only the write commands count. -/
theorem runCalls_eq {D : Type} (effect : Call → D → D) (d : D) (calls : List Call) :
    runCalls effect d calls = (effects calls).foldl (fun d c => effect c d) d := by
  rw [effects, List.foldl_filter, runCalls]
  congr 2
  funext d c
  cases c.proc.control <;> rfl

theorem runCalls_effects {D : Type} (effect : Call → D → D) (calls : List Call) (d : D) :
    runCalls effect d (effects calls) = runCalls effect d calls := by
  rw [runCalls_eq, runCalls_eq, effects, effects, List.filter_filter]
  simp only [Bool.and_self]

/-- **A file that is cut**: loading executes the write commands that are whole in it. -/
theorem dataset_load (hs : Standard env) (htruncated : env.loadTruncated = true) {units : List Executed}
    (h : ∀ u ∈ units, ∀ f ∈ u.feds, Writable env f.2) {k : Nat} (hk : k ≤ (fileOf units).length)
    {D : Type} (effect : Call → D → D) (d : D) :
    dataset effect d (loadAppendOnlyFile env ((fileOf units).take k))
      = some (runCalls effect d ((units.flatMap (Executed.writes env)).take
          (writeCount env (contained (commandsOfAll (-1) (units.flatMap Executed.feds)) k)))) := by
  have hfeds : ∀ f ∈ units.flatMap Executed.feds, Writable env f.2 := by
    intro f hf
    obtain ⟨u, hu, hfu⟩ := List.mem_flatMap.mp hf
    exact h u hu f hfu
  have hfile : fileOf units = text (commandsOfAll (-1) (units.flatMap Executed.feds)) :=
    feedAll_eq _ (-1) (fun f hf => by have := (hfeds f hf).int; omega)
  have hknown := known_feeds hs hfeds (-1)
  by_cases hzero : k = 0
  · subst hzero
    rw [contained_zero]
    rfl
  · rw [hfile] at hk ⊢
    obtain ⟨done, hdone, hload⟩ := load_prefix hknown htruncated (by omega) hk
    obtain ⟨rest, hrest⟩ := hdone.pre
    have hall : effects (runCommands env Loader.fresh (done ++ rest)).calls
        = units.flatMap (Executed.writes env) := by
      rw [hrest, runCommands_feeds hs hfeds (.inr rfl), effects_feeds]
      rfl
    have hprefix : effects (runCommands env Loader.fresh done).calls <+: units.flatMap (Executed.writes env) := by
      rw [← hall, runCommands_append]
      exact (runCommands_isPrefix env rest _).filter _
    have hlen := length_effects (fun a ha => hknown a (hrest ▸ List.mem_append_left rest ha)) Loader.fresh
    have htake := List.prefix_iff_eq_take.mp hprefix
    rw [hlen, longestWithin_eq hdone] at htake
    rw [hload, dataset, ← runCalls_effects, longestWithin_eq hdone, htake]
    simp [Loader.fresh, effects]

/-! ## The cut -/

theorem writeCount_append (cs ds : List (List Bytes)) :
    writeCount env (cs ++ ds) = writeCount env cs + writeCount env ds :=
  List.countP_append

theorem writeCount_contained_le (env : LoadEnv) (cs : List (List Bytes)) (k : Nat) :
    writeCount env (contained cs k) ≤ writeCount env cs :=
  (contained_isPrefix cs k).sublist.countP_le

theorem feedAll_selected (fs : List (Int × Fed)) : ∀ {selected : Int}, -1 ≤ selected → -1 ≤ (feedAll selected fs).2 := by
  induction fs with
  | nil => exact fun h => h
  | cons f fs ih =>
    intro selected _
    have hdb : -1 ≤ (feedAppendOnlyFile f.1 selected f.2).2 := by
      simp only [feedAppendOnlyFile]
      omega
    exact ih hdb

/-- A unit has as many write commands as are written for it. -/
theorem length_writes (hs : Standard env) {u : Executed} (h : ∀ f ∈ u.feds, Writable env f.2) {selected : Int}
    (hsel : -1 ≤ selected) : (u.writes env).length = writeCount env (commandsOfAll selected u.feds) := by
  have hdb : selected = ((⟨selected.toNat, false, []⟩ : Loader).db : Int) ∨ selected = -1 := by
    simp only
    omega
  have hlen := length_effects (known_feeds hs h selected) ⟨selected.toNat, false, []⟩
  rw [runCommands_feeds hs h hdb, List.length_append] at hlen
  exact Nat.add_left_cancel hlen

/-- The write commands in `k` bytes are those of whole units. -/
theorem uncut_iff (hs : Standard env) {units : List Executed} (h : ∀ u ∈ units, ∀ f ∈ u.feds, Writable env f.2) :
    ∀ {selected : Int} {k : Nat}, -1 ≤ selected →
      ((∃ n, writeCount env (contained (commandsOfAll selected (units.flatMap Executed.feds)) k)
          = ((units.take n).flatMap (Executed.writes env)).length)
        ↔ Uncut env selected units k) := by
  induction units with
  | nil => simp [Uncut, commandsOfAll, contained_nil, writeCount]
  | cons u units ih =>
    intro selected k hsel
    have hu := h u List.mem_cons_self
    have hlen := length_writes hs hu hsel
    have hih := ih (fun v hv => h v (List.mem_cons_of_mem _ hv)) (k := k - (text (commandsOfAll selected u.feds)).length)
      (feedAll_selected u.feds hsel)
    obtain ⟨cs, hcs⟩ : ∃ cs, commandsOfAll selected u.feds = cs := ⟨_, rfl⟩
    obtain ⟨ds, hds⟩ : ∃ ds, commandsOfAll (feedAll selected u.feds).2 (units.flatMap Executed.feds) = ds := ⟨_, rfl⟩
    rw [hcs] at hlen hih
    rw [hds] at hih
    simp only [Uncut, List.flatMap_cons, commandsOfAll_append, hcs, hds, contained_append, writeCount_append]
    rw [← hih]
    have hle := writeCount_contained_le env cs k
    by_cases hfit : (text cs).length ≤ k
    · -- the unit is whole, the cut is behind it
      rw [contained_eq_self hfit]
      constructor
      · rintro ⟨n, hn⟩
        refine ⟨.inr rfl, ?_⟩
        cases n with
        | zero =>
          refine ⟨0, ?_⟩
          simp only [List.take_zero, List.flatMap_nil, List.length_nil] at hn ⊢
          omega
        | succ n =>
          refine ⟨n, ?_⟩
          simp only [List.take_succ_cons, List.flatMap_cons, List.length_append] at hn
          omega
      · rintro ⟨-, n, hn⟩
        refine ⟨n + 1, ?_⟩
        simp only [List.take_succ_cons, List.flatMap_cons, List.length_append]
        omega
    · -- the cut is in the unit, nothing behind it is left
      have hnone : writeCount env (contained ds (k - (text cs).length)) = 0 := by
        rw [show k - (text cs).length = 0 by omega, contained_zero]
        rfl
      rw [hnone, Nat.add_zero]
      constructor
      · rintro ⟨n, hn⟩
        refine ⟨?_, 0, rfl⟩
        cases n with
        | zero => exact .inl hn
        | succ n =>
          simp only [List.take_succ_cons, List.flatMap_cons, List.length_append] at hn
          omega
      · rintro ⟨hnil | hall, -⟩
        · exact ⟨0, hnil⟩
        · refine ⟨1, ?_⟩
          simp only [List.take_succ_cons, List.take_zero, List.flatMap_cons, List.flatMap_nil, List.append_nil]
          omega

theorem effects_writes (env : LoadEnv) (units : List Executed) :
    effects (units.flatMap (Executed.writes env)) = units.flatMap (Executed.writes env) := by
  rw [← effects_feeds]
  simp [effects]

/-- The dataset that is the sequence of the write commands itself. -/
theorem runCalls_trace (calls d : List Call) : runCalls (fun c d => d ++ [c]) d calls = d ++ effects calls := by
  rw [runCalls_eq, List.foldl_append_eq_append, ← List.flatMap_def, List.flatMap_singleton']

/-- **Loading a file that is cut gives the dataset after whole units**, whatever the write commands
    mean, exactly if the cut does not separate the write commands of one unit. -/
theorem truncated_load (env : LoadEnv) (hs : Standard env) (htruncated : env.loadTruncated = true)
    (units : List Executed) (h : ∀ u ∈ units, ∀ f ∈ u.feds, Writable env f.2) (k : Nat)
    (hk : k ≤ (fileOf units).length) :
    (∀ (D : Type) (effect : Call → D → D) (d : D), ∃ n,
        dataset effect d (loadAppendOnlyFile env ((fileOf units).take k))
          = some (masterDataset effect d env (units.take n)))
      ↔ Uncut env (-1) units k := by
  have hcount : writeCount env (contained (commandsOfAll (-1) (units.flatMap Executed.feds)) k)
      ≤ (units.flatMap (Executed.writes env)).length := by
    have hfeds : ∀ f ∈ units.flatMap Executed.feds, Writable env f.2 := by
      intro f hf
      obtain ⟨u, hu, hfu⟩ := List.mem_flatMap.mp hf
      exact h u hu f hfu
    have hlen : ((Executed.command (units.flatMap Executed.feds)).writes env).length
        = writeCount env (commandsOfAll (-1) (units.flatMap Executed.feds)) :=
      length_writes hs (show ∀ f ∈ (Executed.command (units.flatMap Executed.feds)).feds, Writable env f.2 from hfeds)
        (Int.le_refl _)
    have heff : (Executed.command (units.flatMap Executed.feds)).writes env = units.flatMap (Executed.writes env) :=
      effects_feeds units
    rw [← heff, hlen]
    exact writeCount_contained_le env _ k
  rw [← uncut_iff hs h (Int.le_refl _)]
  constructor
  · intro hatomic
    obtain ⟨n, hn⟩ := hatomic (List Call) (fun c d => d ++ [c]) []
    rw [dataset_load hs htruncated h hk, masterDataset, runCalls_trace, runCalls_trace, Option.some.injEq,
      effects_writes] at hn
    refine ⟨n, ?_⟩
    have htake : effects ((units.flatMap (Executed.writes env)).take
          (writeCount env (contained (commandsOfAll (-1) (units.flatMap Executed.feds)) k)))
        = (units.flatMap (Executed.writes env)).take
          (writeCount env (contained (commandsOfAll (-1) (units.flatMap Executed.feds)) k)) := by
      have hall := effects_writes env units
      rw [effects, List.filter_eq_self] at hall ⊢
      exact fun c hc => hall c (List.mem_of_mem_take hc)
    rw [htake] at hn
    have hlen := congrArg List.length hn
    simp only [List.nil_append, List.length_take] at hlen
    omega
  · rintro ⟨n, hn⟩ D effect d
    refine ⟨n, ?_⟩
    rw [dataset_load hs htruncated h hk, masterDataset, hn]
    congr 2
    refine (List.prefix_iff_eq_take.mp ?_).symm
    exact ⟨(units.drop n).flatMap (Executed.writes env), by rw [← List.flatMap_append, List.take_append_drop]⟩

/-- `"EXEC"`. -/
def execName : Bytes := [69, 88, 69, 67]

/-- A server with the commands of a transaction. -/
def txEnv : LoadEnv where
  commands name :=
    if name = selectName then some .select
    else if name = multiName then some .multi
    else if name = execName then some .exec
    else if name = setName then some .set
    else if name = pexpireatName then some .pexpireat
    else none
  dbnum := 16
  clusterEnabled := false
  loadTruncated := true

/-- `MULTI`, `SET a 1`, `SET b 1`, `EXEC`. -/
def twoSets : List Executed :=
  [.transaction 0 0 [(0, ⟨.set, 0, [setName, [97], [49]]⟩), (0, ⟨.set, 0, [setName, [98], [49]]⟩)]
    (0, ⟨.exec, 0, [execName]⟩)]

/-- The file of the transaction. -/
def twoSetsFile : Bytes :=
  [42, 50, 13, 10, 36, 54, 13, 10, 83, 69, 76, 69, 67, 84, 13, 10, 36, 49, 13, 10, 48, 13, 10, 42,
   49, 13, 10, 36, 53, 13, 10, 77, 85, 76, 84, 73, 13, 10, 42, 51, 13, 10, 36, 51, 13, 10, 83, 69,
   84, 13, 10, 36, 49, 13, 10, 97, 13, 10, 36, 49, 13, 10, 49, 13, 10, 42, 51, 13, 10, 36, 51, 13,
   10, 83, 69, 84, 13, 10, 36, 49, 13, 10, 98, 13, 10, 36, 49, 13, 10, 49, 13, 10, 42, 49, 13, 10,
   36, 52, 13, 10, 69, 88, 69, 67, 13, 10]

theorem fileOf_twoSets : fileOf twoSets = twoSetsFile := by
  simp only [fileOf, twoSets, List.flatMap_cons, List.flatMap_nil, Executed.feds, feedAll, feedAppendOnlyFile,
    List.cons_append, List.nil_append, List.append_nil, catSelect_zero]
  rfl

theorem twoSets_writable : ∀ u ∈ twoSets, ∀ f ∈ u.feds, Writable txEnv f.2 := by
  intro u hu f hf
  rw [twoSets, List.mem_singleton] at hu
  subst hu
  have hset : ∀ key : Bytes, key = [97] ∨ key = [98] → Fits [setName, key, [49]] := by
    rintro key (rfl | rfl) <;> exact ⟨by decide, by decide, by simp [setName]⟩
  simp only [Executed.feds, List.cons_append, List.nil_append, List.mem_cons, List.not_mem_nil, or_false] at hf
  rcases hf with rfl | rfl | rfl | rfl
  · exact ⟨⟨by decide, by decide, by simp [multiName]⟩, by decide, by decide, by decide, by decide, by decide⟩
  · exact ⟨hset _ (.inl rfl), by decide, by decide, by decide, by decide, by decide⟩
  · exact ⟨hset _ (.inr rfl), by decide, by decide, by decide, by decide, by decide⟩
  · exact ⟨⟨by decide, by decide, by simp [execName]⟩, by decide, by decide, by decide, by decide, by decide⟩

theorem truncated_load_twoSets :
    (∀ (D : Type) (effect : Call → D → D) (d : D), ∃ n,
        dataset effect d (loadAppendOnlyFile txEnv ((fileOf twoSets).take 70))
          = some (masterDataset effect d txEnv (twoSets.take n)))
      ↔ Uncut txEnv (-1) twoSets 70 :=
  truncated_load txEnv ⟨rfl, rfl, rfl⟩ rfl twoSets twoSets_writable 70 (by rw [fileOf_twoSets]; decide)

/-- The file is cut in the second `SET`: the first one is loaded. -/
theorem half_transaction : ¬ ∀ (env : LoadEnv), Standard env → env.loadTruncated = true →
    ∀ (units : List Executed), (∀ u ∈ units, ∀ f ∈ u.feds, Writable env f.2) → ∀ k ≤ (fileOf units).length,
      ∀ (D : Type) (effect : Call → D → D) (d : D), ∃ n,
        dataset effect d (loadAppendOnlyFile env ((fileOf units).take k))
          = some (masterDataset effect d env (units.take n)) := by
  intro hclaim
  obtain ⟨n, hn⟩ := hclaim txEnv ⟨rfl, rfl, rfl⟩ rfl twoSets twoSets_writable 70
    (by rw [fileOf_twoSets]; decide) Nat (fun _ d => d + 1) 0
  -- one command is executed, of none or two
  have hload : dataset (fun _ d => d + 1) 0 (loadAppendOnlyFile txEnv (twoSetsFile.take 70)) = some 1 := by
    rfl
  rw [fileOf_twoSets, hload, Option.some.injEq] at hn
  have hwrites : (masterDataset (fun _ d => d + 1) 0 txEnv twoSets : Nat) = 2 := by rfl
  cases n with
  | zero => exact absurd hn (by decide)
  | succ n =>
    rw [List.take_of_length_le (by simp [twoSets]), hwrites] at hn
    exact absurd hn (by decide)

end Redis.Aof
