import Redis.Blocking.Run

namespace Redis.Blocking

open Outcome Server

/-!
# Blocked list clients — wake-ups

Between two events nobody waits for a key that holds a list with elements, as long as every list
comes into being by `dbAdd`, which alone signals.

* `Announced` — the two ways around it: `SORT … STORE` overwrites a value of another type while
  clients wait for the key, and a client blocks on a key that holds an empty list;
* `processEvent_awake` — one event;
* `no_lost_wakeup` — runs;
* `lost_wakeup` — a run in which a client waits for a list with an element.
-/

variable {C X : Type} [DecidableEq C]

/-- Nobody waits for a key that holds a list with elements. -/
def NoneStranded (s : Server C X) : Prop := ∀ p, s.waiters p ≠ [] → s.content p = []

/-- The lists that the command brings into being are signaled. -/
structure Announced (multi : Bool) (s : Server C X) (c : C) (cmd : Command X) : Prop where
  /-- `SORT … STORE` does not overwrite a value of another type that clients wait for, unless the
      key has been signaled. -/
  sort : ∀ key l x, cmd = .sortStore key l → l ≠ [] →
    s.dict ((s.client c).db, key) = some (.other x) →
    s.waiters ((s.client c).db, key) = [] ∨ s.ready ((s.client c).db, key) = true
  /-- The client does not block on a key that holds an empty list. -/
  block : multi = false → (∀ key ∈ cmd.waitKeys, NoElement s ((s.client c).db, key)) →
    ∀ key ∈ cmd.waitKeys, s.dict ((s.client c).db, key) = none

/-- Every command of a transaction is `Announced` in the state it finds. -/
def AnnouncedAll (c : C) : Server C X → List (Command X) → Prop
  | _, [] => True
  | s, cmd :: cmds =>
    Announced true s c cmd ∧ ∀ t, runCommand true s c cmd = .ok t → AnnouncedAll c t cmds

/-- The condition on an event. -/
def AnnouncedEvent (s : Server C X) : Event C X → Prop
  | .command c cmd => Announced false s c cmd
  | .exec c cmds => AnnouncedAll c (s.setClient c { s.client c with lastBlpop := false }) cmds
  | _ => True

omit [DecidableEq C] in
/-- A step that changes no key and no signal, and adds no waiter. -/
theorem Awake.mono {s t : Server C X} (h : Awake s) (hdict : t.dict = s.dict)
    (hready : t.ready = s.ready) (hw : ∀ p, s.waiters p = [] → t.waiters p = []) : Awake t := by
  intro p hwait hlist
  rw [IsList, hdict] at hlist
  rw [hready]
  exact h p (fun hnil => hwait (hw p hnil)) hlist

/-- A command whose lists are announced. -/
theorem Effect.awake {multi : Bool} {s t : Server C X} {c : C} {cmd : Command X}
    (h : Effect multi s c cmd t) (hs : Running s c) (hann : Announced multi s c cmd)
    (hawake : Awake s) : Awake t := by
  cases h with
  | wrote h => exact h.awake hawake
  | @replaced key l x hl hother =>
    -- nobody waits for the key, or it has been signaled
    intro p hwait hlist
    by_cases hp : p = ((s.client c).db, key)
    · rw [hp] at hwait ⊢
      exact (hann.sort key l x rfl hl hother).resolve_left hwait
    · obtain ⟨m, hm⟩ := hlist
      exact hawake p hwait ⟨m, by simpa [setDict, hp] using hm⟩
  | selected => exact hawake.mono rfl rfl (fun _ h => h)
  | blocked hm hkeys h =>
    rw [blockForKeys_eq (hs.book.idle hs.idle).1]
    have hnone := hann.block hm h
    intro p hwait hlist
    rw [waiters_blockedOn] at hwait
    by_cases hp : p.1 = (s.client c).db ∧ p.2 ∈ cmd.waitKeys
    · -- the keys that the client waits for do not exist
      have hdict := hnone p.2 hp.2
      rw [← hp.1] at hdict
      obtain ⟨m, hm⟩ := hlist
      cases hdict.symm.trans hm
    · rw [if_neg hp] at hwait
      exact hawake p hwait hlist

theorem callExec_awake {c : C} (cmds : List (Command X)) : ∀ {s : Server C X}, Running s c →
    Awake s → AnnouncedAll c s cmds →
    Sat (cmds.foldlM (fun s cmd => runCommand true s c cmd) s) Awake (fun _ => True) := by
  induction cmds with
  | nil => exact fun _ h _ => h
  | cons cmd cmds ih =>
    intro s hs hawake hann
    rw [List.foldlM_cons]
    cases hrun : runCommand true s c cmd with
    | error f => trivial
    | ok t =>
      have heffect := (runCommand_effect true s c cmd).of_eq_ok hrun
      exact ih ((heffect.keeps hs).2.2 rfl) (heffect.awake hs hann.1 hawake) (hann.2 t hrun)

theorem handle_awake {s : Server C X} (hbook : Bookkeeping s) (hawake : Awake s) (turns : Nat) :
    Sat (handleClientsBlockedOnLists turns s) Awake (fun _ => True) := by
  refine (handleLoop_spec turns [] s hbook).mono (fun t ht => ?_) (fun _ _ => trivial)
  obtain ⟨_, _, _, _, _, h⟩ := ht
  exact h hawake

/-- **Every event** that is announced leaves nobody waiting for a list without a signal. -/
theorem processEvent_awake {s : Server C X} (h : Settled s) (hawake : Awake s) {e : Event C X}
    (hann : AnnouncedEvent s e) (turns : Nat) : Sat (processEvent turns s e) Awake (fun _ => True) := by
  have hunblocked : ∀ c, Awake (if (s.client c).blocked = true then s.unblocked c else s) := by
    intro c
    by_cases hc : (s.client c).blocked = true
    · rw [if_pos hc]
      exact hawake.mono rfl rfl (fun p hp => by rw [waiters_unblocked, hp, List.erase_nil])
    · rw [if_neg hc]
      exact hawake
  cases e with
  | connect c =>
    exact Sat.ite (fun _ => hawake) (fun _ => hawake.mono rfl rfl (fun _ h => h))
  | command c cmd =>
    refine Sat.ite (fun hc => ?_) (fun _ => hawake)
    have hs := (h.running hc).setLast (isBlpop cmd)
    cases hcall : callCommand s c cmd with
    | error f => trivial
    | ok t =>
      have heffect := (runCommand_effect false _ c cmd).of_eq_ok hcall
      have hsame : (s.setClient c { s.client c with lastBlpop := isBlpop cmd }).client c
          = { s.client c with lastBlpop := isBlpop cmd } := Function.update_self ..
      have hann' : Announced false (s.setClient c { s.client c with lastBlpop := isBlpop cmd }) c cmd := by
        refine ⟨fun key l x hcmd hl hx => ?_, fun hm hnone key hkey => ?_⟩
        · simp only [hsame] at hx ⊢
          exact hann.sort key l x hcmd hl hx
        · simp only [hsame] at hnone ⊢
          exact hann.block hm hnone key hkey
      exact handle_awake (callCommand_spec (h.running hc) cmd |>.of_eq_ok hcall).1
        (heffect.awake hs hann' (hawake.mono rfl rfl (fun _ h => h))) turns
  | exec c cmds =>
    refine Sat.ite (fun hc => ?_) (fun _ => hawake)
    refine Sat.bind (Sat.and (callExec_spec (h.running hc) cmds)
      (callExec_awake cmds ((h.running hc).setLast false) (hawake.mono rfl rfl (fun _ h => h)) hann)
      |>.mono (fun _ ht => ht) (fun _ _ => trivial)) (fun t ht => ?_)
    exact handle_awake ht.1.1 ht.2 turns
  | cron c now =>
    refine Sat.ite (fun hc => ?_) (fun _ => hawake)
    rw [unblockClient_ok h.book hc.1]
    have hun := hunblocked c
    rwa [if_pos hc.1] at hun
  | disconnect c =>
    simp only [processEvent, unblockBlocked_eq h.book, ok_bind]
    exact (hunblocked c).mono rfl rfl (fun _ h => h)
  | unblock c =>
    simp only [processEvent, unblockBlocked_eq h.book]
    exact hunblocked c
  | expire p => exact (Wrote.delete s p).awake hawake

/-- **No lost wake-up.**  In a run whose commands are all announced, nobody waits between two
    events for a key that holds a list with elements. -/
theorem no_lost_wakeup {s₀ s : Server C X} {es : List (Event C X)} (hstart : Start s₀)
    (h : Steps AnnouncedEvent s₀ es s) : NoneStranded s := by
  have hinv : ∀ {s t : Server C X} {es : List (Event C X)}, Steps AnnouncedEvent s es t →
      Settled s → Awake s → Settled t ∧ Awake t := by
    intro s t es h
    induction h with
    | nil s => exact fun hs ha => ⟨hs, ha⟩
    | cons cond step _ ih =>
      intro hs ha
      obtain ⟨turns, hstep⟩ := step
      exact ih ((processEvent_settled hs turns _).of_eq_ok hstep)
        ((processEvent_awake hs ha cond turns).of_eq_ok hstep)
  have hawake : Awake s₀ := by
    intro p hwait
    exact absurd (waiters_none (hstart.blockingKeys p)) hwait
  obtain ⟨hs, ha⟩ := hinv h hstart.settled hawake
  intro p hwait
  -- a list that somebody waits for has been signaled, and no signal is left
  cases hp : s.dict p with
  | none => exact content_none hp
  | some o =>
    cases o with
    | list l =>
      have hready := ha p hwait ⟨l, hp⟩
      rw [hs.ready p] at hready
      cases hready
    | other x => simp [Server.content, hp]

/-- A client that blocks and is served. -/
theorem no_lost_wakeup_pop : ∃ s : Server Nat Nat, Steps AnnouncedEvent (Server.empty Nat Nat)
    [.connect 0, .command 0 (.blpop [107] [] (some 0)), .connect 1,
      .command 1 (.push [107] [1] [] .tail)] s ∧ NoneStranded s := by
  obtain ⟨s₁, hs₁⟩ : ∃ s₁ : Server Nat Nat,
      s₁ = { (Server.empty Nat Nat).setClient 0 Client.fresh with clients := [0] } := ⟨_, rfl⟩
  have hconnect : Step (Server.empty Nat Nat) (.connect 0) s₁ := by
    rw [hs₁]
    exact ⟨9, rfl⟩
  have hann : AnnouncedEvent s₁ (.command 0 (.blpop [107] [] (some 0))) := by
    refine ⟨fun key l x hcmd => ?_, fun _ _ key _ => ?_⟩
    · cases hcmd
    · rw [hs₁]
      rfl
  have hok : (([.command 0 (.blpop [107] [] (some 0)), .connect 1,
      .command 1 (.push [107] [1] [] .tail)] : List (Event Nat Nat)).foldlM (processEvent 9) s₁).toOption.isSome
        = true := by
    rw [hs₁]
    rfl
  rw [List.foldlM_cons] at hok
  cases hblock : processEvent 9 s₁ (.command 0 (.blpop [107] [] (some 0))) with
  | error f => simp [hblock, bind, Except.bind, Except.toOption] at hok
  | ok s₂ =>
    rw [hblock, ok_bind] at hok
    cases hrest : ([.connect 1, .command 1 (.push [107] [1] [] .tail)] : List (Event Nat Nat)).foldlM
        (processEvent 9) s₂ with
    | error f => simp [hrest, Except.toOption] at hok
    | ok s =>
      have hpush : ∀ e ∈ ([.connect 1, .command 1 (.push [107] [1] [] .tail)] : List (Event Nat Nat)),
          ∀ u, AnnouncedEvent u e := by
        intro e he u
        simp only [List.mem_cons, List.not_mem_nil, or_false] at he
        rcases he with rfl | rfl
        · trivial
        · refine ⟨fun key l x hcmd => ?_, fun _ _ key hkey => absurd hkey List.not_mem_nil⟩
          cases hcmd
      have hsteps := Steps.cons trivial hconnect (.cons hann ⟨9, hblock⟩ (steps_of_foldlM hpush hrest))
      exact ⟨s, hsteps, no_lost_wakeup start_empty hsteps⟩

/-- The key that the client waits for is set to a string, and `SORT … STORE` overwrites the string
    with a list. -/
def lostEvents : List (Event Nat Nat) :=
  [.connect 0, .connect 1, .command 0 (.blpop [107] [] (some 0)), .command 1 (.set [107] 7),
    .command 1 (.sortStore [107] [[50]])]

/-- **A lost wake-up.** -/
theorem lost_wakeup : ∃ s : Server Nat Nat, Steps (fun _ _ => True) (Server.empty Nat Nat) lostEvents s ∧
    Reachable s ∧ s.waiters (0, [107]) = [0] ∧ s.content (0, [107]) = [[50]] ∧ ¬ NoneStranded s := by
  have hrun : ((lostEvents.foldlM (processEvent 9) (Server.empty Nat Nat)).toOption.map
      (fun s => (s.waiters (0, [107]), s.content (0, [107])))) = some ([0], [[50]]) := by
    rfl
  cases hs : lostEvents.foldlM (processEvent 9) (Server.empty Nat Nat) with
  | error f => simp [hs, Except.toOption] at hrun
  | ok s =>
    simp only [hs, Except.toOption, Option.map_some, Option.some.injEq, Prod.mk.injEq] at hrun
    have hsteps : Steps (fun _ _ => True) (Server.empty Nat Nat) lostEvents s :=
      steps_of_foldlM (fun _ _ _ => trivial) hs
    refine ⟨s, hsteps, ⟨_, _, start_empty, hsteps⟩, hrun.1, hrun.2, fun hnone => ?_⟩
    have hempty := hnone (0, [107]) (by rw [hrun.1]; exact List.cons_ne_nil _ _)
    rw [hrun.2] at hempty
    cases hempty

end Redis.Blocking
