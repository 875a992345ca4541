import Redis.Blocking.Run

namespace Redis.Blocking

open Outcome Server

/-!
# Blocked list clients — propagation

What the commands and the serving loop give to the replication stream, and the replica that
executes it.

* `Propagated` — a command of the stream and its database;
* `Dirty`, `Call` — `call` propagates a command that has added to `server.dirty`, with the vector
  that the command has left (`Command.rewritten`);
* `Service.propagates` — `LPOP` or `RPOP`, or `RPOP` and `LPUSH`, for a client that is served;
* `Feeds`, `Runs` — what an event and a run give to the stream, next to `Step` and `Steps`;
* `replay`, `Replays` — the replica; every pop has to find its list.

`MULTI` and `EXEC` around the commands of a transaction are left out: the replica executes what
stands between them one after the other.
-/

variable {C R X : Type}

/-! ## Commands -/

/-- A command of the replication stream. -/
structure Propagated (X : Type) where
  /-- It stands between `MULTI` and `EXEC`. -/
  multi : Bool
  /-- The `dictid` it was propagated with. -/
  db : Nat
  cmd : Command X

/-- The key holds a value that is no list. -/
def holdsOther (s : Server C X) (p : Place) : Bool :=
  match s.dict p with
  | some (.other _) => true
  | _ => false

/-- The key holds a list. -/
def holdsList (s : Server C X) (p : Place) : Bool :=
  match s.dict p with
  | some (.list _) => true
  | _ => false

/-- The key holds a list with elements. -/
def hasElement (s : Server C X) (p : Place) : Bool := decide (s.content p ≠ [])

/-- The key that `blockingPopGenericCommand` pops from. -/
def popKey (s : Server C X) (d : Nat) : List Bytes → Option Bytes
  | [] => none
  | key :: keys =>
    match s.dict (d, key) with
    | some (.other _) => none
    | some (.list l) => if l.length = 0 then popKey s d keys else some key
    | none => popKey s d keys

/-- What a command in the state `s` adds to `server.dirty` is positive, or it is not.  A command
    that the model knows by a function may count, or not, when it leaves its value as it is. -/
def Dirty (s : Server C X) (d : Nat) : Command X → Bool → Prop
  | .push key _ _ _, b => b = !holdsOther s (d, key)
  | .pushx key _ _, b => b = holdsList s (d, key)
  | .pop key _, b => b = hasElement s (d, key)
  | .edit key f _, b =>
    (b = true → holdsList s (d, key) = true) ∧
      (b = false → ∀ l, s.dict (d, key) = some (.list l) → f l = l)
  | .rpoplpush src dst, b => b = (hasElement s (d, src) && !holdsOther s (d, dst))
  | .blpop key keys timeout, b => b = (timeout.isSome && (popKey s d (key :: keys)).isSome)
  | .brpop key keys timeout, b => b = (timeout.isSome && (popKey s d (key :: keys)).isSome)
  | .brpoplpush src dst timeout, b =>
    b = (timeout.isSome && hasElement s (d, src) && !holdsOther s (d, dst))
  | .set _ _, b => b = true
  | .update key f, b =>
    (b = true → holdsList s (d, key) = false) ∧
      (b = false → ∀ o : Option X, s.dict (d, key) = o.map .other → f o = o)
  | .store key x, b => b = false → x = none ∧ s.dict (d, key) = none
  | .del keys, b => b = keys.any (fun key => (s.dict (d, key)).isSome)
  | .rename key newkey nx, b =>
    b = ((s.dict (d, key)).isSome && decide (key ≠ newkey) && !(nx && (s.dict (d, newkey)).isSome))
  | .move key dst, b =>
    b = (decide (dst < s.dbnum) && decide (d ≠ dst) && (s.dict (d, key)).isSome &&
      (s.dict (dst, key)).isNone)
  | .restore key payload replace, b => b = (payload.isSome && (replace || (s.dict (d, key)).isNone))
  | .sortStore key result, b => b = (decide (result ≠ []) || (s.dict (d, key)).isSome)
  | .flushdb, b => b = true ↔ ∃ key, (s.dict (d, key)).isSome = true
  | .flushall, b => b = true
  | .select _, b => b = false
  | .read, b => b = false

/-- The vector after the command: a blocking pop that has found an element makes it an `LPOP` or
    an `RPOP`. -/
def Command.rewritten (s : Server C X) (d : Nat) : Command X → Command X
  | .blpop key keys timeout => (popKey s d (key :: keys)).elim (.blpop key keys timeout) (.pop · .head)
  | .brpop key keys timeout => (popKey s d (key :: keys)).elim (.brpop key keys timeout) (.pop · .tail)
  | cmd => cmd

variable [DecidableEq C]

/-- `call`: the command is executed, and propagated if it was `Dirty`. -/
structure Call (multi : Bool) (s : Server C X) (c : C) (cmd : Command X) (t : Server C X)
    (ps : List (Propagated X)) : Prop where
  run : runCommand multi s c cmd = .ok t
  propagated : ∃ dirty, Dirty s (s.client c).db cmd dirty ∧
    ps = if dirty then [⟨multi, (s.client c).db, cmd.rewritten s (s.client c).db⟩] else []

/-- The calls of `execCommand`. -/
inductive Calls (c : C) : Server C X → List (Command X) → Server C X → List (Propagated X) → Prop
  | nil (s : Server C X) : Calls c s [] s []
  | cons {s t u : Server C X} {cmd : Command X} {cmds : List (Command X)} {ps qs : List (Propagated X)}
      (call : Call true s c cmd t ps) (rest : Calls c t cmds u qs) : Calls c s (cmd :: cmds) u (ps ++ qs)

/-! ## Serving -/

/-- What `serveClientBlockedOnList` propagates when it serves a client. -/
def Service.propagates (s : Server C X) (e : Service C) : List (Propagated X) :=
  match e.fate with
  | .handed => [⟨false, e.place.1,
      .pop e.place.2 (if (s.client e.client).lastBlpop then .head else .tail)⟩]
  -- both with the database of the key that the client was waiting for
  | .moved dst => [⟨false, e.place.1, .pop e.place.2 .tail⟩,
      ⟨false, e.place.1, .push dst.2 e.value [] .head⟩]
  | .putBack => []

/-- The event neither calls a command nor deletes a key. -/
def Event.quiet (s : Server C X) : Event C X → Bool
  | .command c _ => !accepts s c
  | .exec c _ => !accepts s c
  | .expire _ => false
  | _ => true

/-- An event, and what it gives to the stream. -/
inductive Feeds (s : Server C X) : Event C X → Server C X → List (Propagated X) → Prop
  | command {c : C} {cmd : Command X} {t u : Server C X} {ps : List (Propagated X)} {turns : Nat}
      {es : List (Service C)} (haccepts : accepts s c = true)
      (hcall : Call false (s.setClient c { s.client c with lastBlpop := isBlpop cmd }) c cmd t ps)
      (hserve : handleClientsBlockedOnLists turns t = .ok u) (hes : u.served = t.served ++ es) :
      Feeds s (.command c cmd) u (ps ++ es.flatMap (·.propagates t))
  | exec {c : C} {cmds : List (Command X)} {t u : Server C X} {ps : List (Propagated X)} {turns : Nat}
      {es : List (Service C)} (haccepts : accepts s c = true)
      (hcalls : Calls c (s.setClient c { s.client c with lastBlpop := false }) cmds t ps)
      (hserve : handleClientsBlockedOnLists turns t = .ok u) (hes : u.served = t.served ++ es) :
      Feeds s (.exec c cmds) u (ps ++ es.flatMap (·.propagates t))
  /-- `propagateExpire`. -/
  | expire (p : Place) : Feeds s (.expire p) (dbDelete s p) [⟨false, p.1, .del [p.2]⟩]
  | quiet {e : Event C X} {t : Server C X} (hquiet : e.quiet s = true) (hstep : Step s e t) :
      Feeds s e t []

/-- A run, and what it gives to the stream. -/
inductive Runs : Server C X → List (Event C X) → Server C X → List (Propagated X) → Prop
  | nil (s : Server C X) : Runs s [] s []
  | cons {s t u : Server C X} {e : Event C X} {es : List (Event C X)} {ps qs : List (Propagated X)}
      (feeds : Feeds s e t ps) (rest : Runs t es u qs) : Runs s (e :: es) u (ps ++ qs)

/-! ## The replica -/

/-- The keys that a command pops from. -/
def Command.popKeys : Command X → List Bytes
  | .pop key _ => [key]
  | .rpoplpush src _ => [src]
  | .blpop key keys _ => key :: keys
  | .brpop key keys _ => key :: keys
  | .brpoplpush src _ _ => [src]
  | _ => []

variable [DecidableEq R]

/-- The replica executes a command of the stream for the client `m`, its master. -/
def replay (m : R) (r : Server R X) (a : Propagated X) : Except Fault (Server R X) :=
  runCommand a.multi (r.setClient m { r.client m with db := a.db }) m a.cmd

/-- The replica executes the stream, and every pop finds a list with an element. -/
inductive Replays (m : R) : Server R X → List (Propagated X) → Server R X → Prop
  | nil (r : Server R X) : Replays m r [] r
  | cons {r t u : Server R X} {a : Propagated X} {ps : List (Propagated X)}
      (found : ∀ key ∈ a.cmd.popKeys, hasElement r (a.db, key) = true)
      (step : replay m r a = .ok t) (rest : Replays m t ps u) : Replays m r (a :: ps) u

theorem Replays.append {m : R} {r t u : Server R X} {ps qs : List (Propagated X)}
    (h : Replays m r ps t) (h' : Replays m t qs u) : Replays m r (ps ++ qs) u := by
  induction h with
  | nil r => exact h'
  | cons found step _ ih => exact .cons found step (ih h')

theorem Replays.single {m : R} {r t : Server R X} {a : Propagated X}
    (found : ∀ key ∈ a.cmd.popKeys, hasElement r (a.db, key) = true)
    (step : replay m r a = .ok t) : Replays m r [a] t :=
  .cons found step (.nil t)

/-! ## The stream of a run -/

section

omit [DecidableEq C]

/-- Whether a command counts is settled in every state. -/
theorem exists_dirty (s : Server C X) (d : Nat) (cmd : Command X) : ∃ b, Dirty s d cmd b := by
  cases cmd with
  | edit key f trim =>
    cases hl : holdsList s (d, key) with
    | true => exact ⟨true, fun _ => hl, by simp⟩
    | false =>
      refine ⟨false, by simp, fun _ l hd => ?_⟩
      simp [holdsList, hd] at hl
  | update key f =>
    cases hl : holdsList s (d, key) with
    | false => exact ⟨true, fun _ => hl, by simp⟩
    | true =>
      refine ⟨false, by simp, fun _ o hd => ?_⟩
      cases o with
      | none | some x => simp [holdsList, hd] at hl
  | store key x => exact ⟨true, by simp [Dirty]⟩
  | flushdb =>
    by_cases h : ∃ key, (s.dict (d, key)).isSome = true
    · exact ⟨true, by simp only [Dirty, h]⟩
    · exact ⟨false, by simp only [Dirty, h, Bool.false_eq_true]⟩
  | _ => exact ⟨_, rfl⟩

end

variable {s t : Server C X}

theorem Calls.foldlM {c : C} {cmds : List (Command X)} {ps : List (Propagated X)} (h : Calls c s cmds t ps) :
    cmds.foldlM (fun s cmd => runCommand true s c cmd) s = .ok t := by
  induction h with
  | nil s => rfl
  | cons call _ ih =>
    rw [List.foldlM_cons, call.run, ok_bind]
    exact ih

theorem exists_calls {c : C} {t : Server C X} (cmds : List (Command X)) : ∀ {s : Server C X},
    cmds.foldlM (fun s cmd => runCommand true s c cmd) s = .ok t → ∃ ps, Calls c s cmds t ps := by
  induction cmds with
  | nil =>
    intro s h
    cases h
    exact ⟨[], .nil t⟩
  | cons cmd cmds ih =>
    intro s h
    rw [List.foldlM_cons] at h
    obtain ⟨u, hu, h⟩ := bind_eq_ok.mp h
    obtain ⟨qs, hqs⟩ := ih h
    obtain ⟨b, hb⟩ := exists_dirty s (s.client c).db cmd
    exact ⟨_, .cons ⟨hu, b, hb, rfl⟩ hqs⟩

/-- An event that gives something to the stream is processed. -/
theorem Feeds.step {e : Event C X} {ps : List (Propagated X)} (h : Feeds s e t ps) : Step s e t := by
  cases h with
  | @command c cmd t u ps turns es haccepts hcall hserve hes =>
    refine ⟨turns, ?_⟩
    simp only [processEvent, if_pos haccepts, callCommand, hcall.run, ok_bind]
    exact hserve
  | @exec c cmds t u ps turns es haccepts hcalls hserve hes =>
    refine ⟨turns, ?_⟩
    simp only [processEvent, if_pos haccepts, callExec, hcalls.foldlM, ok_bind]
    exact hserve
  | expire p => exact ⟨0, rfl⟩
  | quiet hquiet hstep => exact hstep

/-- Serving only adds replies. -/
theorem served_of_handle {turns : Nat} {t u : Server C X} (h : Bookkeeping t)
    (hserve : handleClientsBlockedOnLists turns t = .ok u) : ∃ es, u.served = t.served ++ es := by
  obtain ⟨es, hes, _⟩ := (handleLoop_spec turns [] t h).of_eq_ok hserve
  exact ⟨es, hes.served⟩

/-- **Every event** gives something to the stream. -/
theorem Step.feeds (hs : Settled s) {e : Event C X} (h : Step s e t) :
    ∃ ps, Feeds s e t ps := by
  by_cases hquiet : e.quiet s = true
  · exact ⟨[], .quiet hquiet h⟩
  obtain ⟨turns, h⟩ := h
  cases e with
  | command c cmd =>
    have haccepts : accepts s c = true := by simpa [Event.quiet] using hquiet
    simp only [processEvent, if_pos haccepts] at h
    obtain ⟨u, hu, hserve⟩ := bind_eq_ok.mp h
    obtain ⟨es, hes⟩ := served_of_handle ((callCommand_spec (hs.running haccepts) cmd).of_eq_ok hu).1 hserve
    obtain ⟨b, hb⟩ := exists_dirty (s.setClient c { s.client c with lastBlpop := isBlpop cmd })
      ((s.setClient c { s.client c with lastBlpop := isBlpop cmd }).client c).db cmd
    exact ⟨_, .command haccepts ⟨hu, b, hb, rfl⟩ hserve hes⟩
  | exec c cmds =>
    have haccepts : accepts s c = true := by simpa [Event.quiet] using hquiet
    simp only [processEvent, if_pos haccepts] at h
    obtain ⟨u, hu, hserve⟩ := bind_eq_ok.mp h
    obtain ⟨es, hes⟩ := served_of_handle ((callExec_spec (hs.running haccepts) cmds).of_eq_ok hu).1 hserve
    obtain ⟨ps, hps⟩ := exists_calls cmds hu
    exact ⟨_, .exec haccepts hps hserve hes⟩
  | expire p =>
    cases h
    exact ⟨_, .expire p⟩
  | connect c | cron c now | disconnect c | unblock c => simp [Event.quiet] at hquiet

/-- The runs with a stream are the runs. -/
theorem runs_iff_steps {es : List (Event C X)} (hs : Settled s) :
    (∃ ps, Runs s es t ps) ↔ Steps (fun _ _ => True) s es t := by
  constructor
  · intro ⟨ps, h⟩
    induction h with
    | nil s => exact .nil s
    | cons feeds _ ih =>
      obtain ⟨turns, hstep⟩ := feeds.step
      exact .cons trivial feeds.step (ih ((processEvent_settled hs turns _).of_eq_ok hstep))
  · intro h
    induction h with
    | nil s => exact ⟨[], .nil s⟩
    | cons _ step _ ih =>
      obtain ⟨turns, hstep⟩ := step
      obtain ⟨ps, hps⟩ := Step.feeds hs ⟨turns, hstep⟩
      obtain ⟨qs, hqs⟩ := ih ((processEvent_settled hs turns _).of_eq_ok hstep)
      exact ⟨ps ++ qs, .cons hps hqs⟩

end Redis.Blocking
