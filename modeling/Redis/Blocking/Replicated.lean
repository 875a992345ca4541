import Redis.Blocking.Mirror

namespace Redis.Blocking

open Outcome Server

/-!
# Blocked list clients — replicated runs

A replica that executes the stream of a run has the keys of the master after every event.

* `Call.replays`, `Calls.replays` — a command by itself, and the commands of a transaction;
* `serve_replays` — the serving loop;
* `Feeds.replays` — one event;
* `blocked_clients_replicated` — runs.
-/

variable {C R X : Type} [DecidableEq C] [DecidableEq R] {m : R} {r : Server R X}

/-! ## Events -/

/-- The commands of an event store no empty list. -/
def Event.StoresElements : Event C X → Prop
  | .command _ cmd => cmd.StoresElements
  | .exec _ cmds => ∀ cmd ∈ cmds, cmd.StoresElements
  | _ => True

omit [DecidableEq C] [DecidableEq R] in
theorem popKey_spec {s : Server C X} {d : Nat} {keys : List Bytes} {key : Bytes}
    (h : popKey s d keys = some key) : hasElement s (d, key) = true := (popFirst_some .head keys h).1

omit [DecidableEq C] in
/-- A pop that counts has found its list. -/
theorem dirty_found {s : Server C X} {d : Nat} {cmd : Command X} (h : Dirty s d cmd true) :
    ∀ key ∈ (cmd.rewritten s d).popKeys, hasElement s (d, key) = true := by
  cases cmd with
  | pop key w =>
    intro key' hkey
    rw [List.mem_singleton.mp hkey]
    exact Eq.symm h
  | rpoplpush src dst =>
    intro key hkey
    rw [List.mem_singleton.mp hkey]
    exact (Bool.and_eq_true_iff.mp (Eq.symm h)).1
  | brpoplpush src dst timeout =>
    intro key hkey
    rw [List.mem_singleton.mp hkey]
    simp only [Dirty, Bool.true_eq, Bool.and_eq_true] at h
    exact h.1.2
  | blpop key keys timeout | brpop key keys timeout =>
    obtain ⟨k, hk⟩ := Option.isSome_iff_exists.mp (Bool.and_eq_true_iff.mp (Eq.symm h)).2
    intro key' hkey
    rw [Command.rewritten, hk] at hkey
    rw [List.mem_singleton.mp hkey]
    exact popKey_spec hk
  | _ => exact fun key hkey => absurd hkey List.not_mem_nil

variable {s t : Server C X} {ps : List (Propagated X)}

/-- **A call** takes a copy along. -/
theorem Call.replays {multi : Bool} {c : C} {cmd : Command X} (h : Call multi s c cmd t ps) (hs : NoEmptyList s)
    (hcmd : cmd.StoresElements) (hr : Mirrors s r) :
    NoEmptyList t ∧ ∃ u, Replays m r ps u ∧ Mirrors t u := by
  have hfull : NoEmptyList t := emptyOnlyAt_nil.mp ((runCommand_fills hs multi c hcmd).of_eq_ok h.run)
  have hdict := hr.dict_eq hs
  refine ⟨hfull, ?_⟩
  obtain ⟨dirty, hdirty, hps⟩ := h.propagated
  cases dirty with
  | false =>
    have htdict := (runCommand_unchanged hs multi hdirty).of_eq_ok h.run
    have htnum := (runCommand_dbnum s multi c cmd).of_eq_ok h.run
    rw [hps, if_neg Bool.false_ne_true]
    exact ⟨r, .nil r, fun q => by rw [hr.dict q, htdict], by rw [hr.dbnum, htnum]⟩
  | true =>
    obtain ⟨v, hv⟩ : ∃ v, v = r.setClient m { r.client m with db := (s.client c).db } := ⟨_, rfl⟩
    have hcopies : Copies c m s v := by
      rw [hv]
      exact ⟨hdict, hr.dbnum, by simp [Server.setClient]⟩
    obtain ⟨u, hu, htu⟩ := (runCommand_alike hcopies multi hdirty).of_ok h.run
    rw [hps, if_pos rfl]
    refine ⟨u, .single (fun key hkey => ?_) ?_, Mirrors.of_full hfull htu.dict htu.dbnum⟩
    · obtain ⟨l, hl, hne⟩ := hasElement_iff.mp (dirty_found hdirty key hkey)
      exact hasElement_iff.mpr ⟨l, by rw [hdict]; exact hl, hne⟩
    · rw [replay, ← hv]
      exact hu

/-- The calls of a transaction. -/
theorem Calls.replays {c : C} {cmds : List (Command X)} (h : Calls c s cmds t ps) :
    ∀ {r : Server R X}, NoEmptyList s →
    (∀ cmd ∈ cmds, cmd.StoresElements) → Mirrors s r →
    NoEmptyList t ∧ ∃ u, Replays m r ps u ∧ Mirrors t u := by
  induction h with
  | nil s => exact fun hs _ hr => ⟨hs, _, .nil _, hr⟩
  | @cons s t u cmd cmds ps qs call _ ih =>
    intro r hs hcmds hr
    obtain ⟨ht, v, hv, hmv⟩ := call.replays (m := m) hs (hcmds cmd List.mem_cons_self) hr
    obtain ⟨hu, w, hw, hmw⟩ := ih ht (fun cmd' h' => hcmds cmd' (List.mem_cons_of_mem cmd h')) hmv
    exact ⟨hu, w, hv.append hw, hmw⟩

theorem Calls.targets {c : C} {cmds : List (Command X)} (h : Calls c s cmds t ps) :
    Targets s → Running s c → Targets t := by
  induction h with
  | nil s => exact fun hs _ => hs
  | cons call _ ih =>
    intro hs hrun
    have heffect := (runCommand_effect true _ c _).of_eq_ok call.run
    exact ih (heffect.targets hs hrun.idle (Or.inl rfl)) ((heffect.keeps hrun).2.2 rfl)

/-- The serving loop, after what was propagated by a command. -/
theorem serve_replays {t u : Server C X} {turns : Nat} {es : List (Service C)} (ht : Ready t)
    (hserve : handleClientsBlockedOnLists turns t = .ok u) (hes : u.served = t.served ++ es)
    (hr : Mirrors t r) :
    Ready u ∧ ∃ v, Replays m r (es.flatMap (·.propagates t)) v ∧ Mirrors u v := by
  obtain ⟨hmirrored, hready⟩ := (handleLoop_mirrored m turns [] t ht).of_eq_ok hserve
  obtain ⟨es', hes', hrep⟩ := hmirrored.replays
  have hsame : es' = es := List.append_cancel_left (hes'.symm.trans hes)
  subst hsame
  exact ⟨hready, hrep r hr⟩

/-- What holds between two events. -/
structure Faithful (s : Server C X) (r : Server R X) : Prop where
  settled : Settled s
  targets : Targets s
  full : NoEmptyList s
  mirrors : Mirrors s r

/-- **Every event** and what it gives to the stream. -/
theorem Feeds.replays {e : Event C X} (h : Feeds s e t ps) (hs : Faithful s r) (he : e.StoresElements) :
    ∃ u, Replays m r ps u ∧ Faithful t u := by
  obtain ⟨turns, hstep⟩ := h.step
  have hsettled : Settled t := (processEvent_settled hs.settled turns e).of_eq_ok hstep
  have hunblocked : ∀ c, Targets (if (s.client c).blocked = true then s.unblocked c else s) ∧
      (if (s.client c).blocked = true then s.unblocked c else s).dict = s.dict ∧
      (if (s.client c).blocked = true then s.unblocked c else s).dbnum = s.dbnum := by
    intro c
    by_cases hc : (s.client c).blocked = true
    · simp only [if_pos hc]
      exact ⟨hs.targets.unblocked c, rfl, rfl⟩
    · simp only [if_neg hc]
      exact ⟨hs.targets, trivial, trivial⟩
  have hquiet : Targets t ∧ t.dict = s.dict ∧ t.dbnum = s.dbnum →
      ∃ u, Replays m r [] u ∧ Faithful t u := by
    intro ⟨htargets, hdict, hnum⟩
    refine ⟨r, .nil r, hsettled, htargets, fun p => ?_, fun q => ?_, ?_⟩
    · rw [hdict]
      exact hs.full p
    · rw [hs.mirrors.dict q, hdict]
    · rw [hs.mirrors.dbnum, hnum]
  cases h with
  | @command c cmd v _ ps _ es haccepts hcall hserve hes =>
    have hrun := hs.settled.running haccepts
    have hcalled : callCommand s c cmd = .ok v := hcall.run
    obtain ⟨hvfull, w, hw, hmw⟩ := hcall.replays (m := m) (r := r) hs.full he
      ⟨hs.mirrors.dict, hs.mirrors.dbnum⟩
    have hready : Ready v := ⟨((callCommand_spec hrun cmd).of_eq_ok hcalled).1,
      (callCommand_targets hs.targets hrun cmd).of_eq_ok hcalled, hvfull⟩
    obtain ⟨htready, u, hu, hmu⟩ := serve_replays (m := m) hready hserve hes hmw
    exact ⟨u, hw.append hu, hsettled, htready.targets, htready.full, hmu⟩
  | @exec c cmds v _ ps _ es haccepts hcalls hserve hes =>
    have hrun := hs.settled.running haccepts
    have hcalled : callExec s c cmds = .ok v := hcalls.foldlM
    obtain ⟨hvfull, w, hw, hmw⟩ := hcalls.replays (m := m) (r := r) hs.full he
      ⟨hs.mirrors.dict, hs.mirrors.dbnum⟩
    have htargets := hcalls.targets (hs.targets.setClient c (hs.targets.idle hrun.idle))
      (hrun.setLast false)
    have hready : Ready v := ⟨((callExec_spec hrun cmds).of_eq_ok hcalled).1, htargets, hvfull⟩
    obtain ⟨htready, u, hu, hmu⟩ := serve_replays (m := m) hready hserve hes hmw
    exact ⟨u, hw.append hu, hsettled, htready.targets, htready.full, hmu⟩
  | expire p =>
    obtain ⟨u, hu⟩ : ∃ u, u = (r.setClient m { r.client m with db := p.1 }).setDict p none := ⟨_, rfl⟩
    have hdel : replay m r ⟨false, p.1, .del [p.2]⟩ = .ok u := by
      rw [hu, replay]
      simp [runCommand, Server.setClient, dbDelete]
    refine ⟨u, .single (fun key hkey => absurd hkey List.not_mem_nil) hdel, hsettled,
      hs.targets.congr rfl, ?_, hs.mirrors.update (p := p) (v := none) rfl ?_ rfl ?_⟩
    · exact emptyOnlyAt_nil.mp
        (EmptyOnlyAt.setFull ((emptyOnlyAt_nil.mpr hs.full).mono (by simp)) (by simp))
    · rw [hu]
      rfl
    · rw [hu]
      rfl
  | quiet hq =>
    refine hquiet ?_
    cases e with
    | connect c =>
      simp only [processEvent] at hstep
      by_cases hc : c ∈ s.clients
      · rw [if_pos hc] at hstep
        cases hstep
        exact ⟨hs.targets, rfl, rfl⟩
      · rw [if_neg hc] at hstep
        cases hstep
        exact ⟨hs.targets.setClient c rfl, rfl, rfl⟩
    | command c _ | exec c _ =>
      have hrefused : accepts s c = false := by simpa [Event.quiet] using hq
      simp only [processEvent, hrefused, Bool.false_eq_true, if_false] at hstep
      cases hstep
      exact ⟨hs.targets, rfl, rfl⟩
    | cron c now =>
      simp only [processEvent] at hstep
      by_cases hc : (s.client c).blocked ∧ (s.client c).timeout ≠ 0 ∧ (s.client c).timeout < now
      · rw [if_pos hc, unblockClient_ok hs.settled.book hc.1] at hstep
        cases hstep
        exact ⟨hs.targets.unblocked c, rfl, rfl⟩
      · rw [if_neg hc] at hstep
        cases hstep
        exact ⟨hs.targets, rfl, rfl⟩
    | disconnect c =>
      simp only [processEvent, unblockBlocked_eq hs.settled.book, ok_bind] at hstep
      cases hstep
      exact ⟨(hunblocked c).1.congr rfl, (hunblocked c).2⟩
    | unblock c =>
      simp only [processEvent, unblockBlocked_eq hs.settled.book] at hstep
      cases hstep
      exact hunblocked c
    | expire p => simp [Event.quiet] at hq

/-- **No list is empty.**  A run that begins without empty lists never leaves one under a key, whatever is
    pushed, popped, moved and served to blocked clients. -/
theorem no_empty_list {s₀ s : Server C X} {es : List (Event C X)} (hstart : Start s₀) (hfull : NoEmptyList s₀)
    (h : Steps (fun _ _ => True) s₀ es s) (hes : ∀ e ∈ es, e.StoresElements) : NoEmptyList s := by
  obtain ⟨ps, hruns⟩ := (runs_iff_steps hstart.settled).mpr h
  have hrun : ∀ {s t : Server C X} {es : List (Event C X)} {ps : List (Propagated X)}, Runs s es t ps →
      (∃ r : Server Unit X, Faithful s r) → (∀ e ∈ es, e.StoresElements) → NoEmptyList t := by
    intro s t es ps h
    induction h with
    | nil s => exact fun ⟨_, hs⟩ _ => hs.full
    | @cons s t u e es ps qs feeds _ ih =>
      intro ⟨_, hs⟩ hes
      obtain ⟨v, -, htv⟩ := feeds.replays (m := ()) hs (hes e List.mem_cons_self)
      exact ih ⟨v, htv⟩ fun e' he' => hes e' (List.mem_cons_of_mem e he')
  refine hrun hruns ⟨{ Server.empty Unit X with dict := s₀.dict, dbnum := s₀.dbnum }, hstart.settled, ?_, hfull, .of_full hfull rfl rfl⟩ hes
  intro c dst hdst
  rw [hstart.client c] at hdst
  cases hdst

/-- The only element of a list is popped. -/
theorem no_empty_list_pop : ∃ s, Steps (fun _ _ => True) (Server.empty Nat Nat)
    [.connect 0, .command 0 (.push [107] [1] [] .tail), .command 0 (.pop [107] .head)] s ∧ NoEmptyList s := by
  have hrun : ∃ s, Steps (fun _ _ => True) (Server.empty Nat Nat)
      [.connect 0, .command 0 (.push [107] [1] [] .tail), .command 0 (.pop [107] .head)] s :=
    ⟨_, .cons trivial ⟨9, rfl⟩ (.cons trivial ⟨9, rfl⟩ (.cons trivial ⟨9, rfl⟩ (.nil _)))⟩
  obtain ⟨s, hs⟩ := hrun
  exact ⟨s, hs, no_empty_list start_empty (fun p => by simp [Server.empty]) hs
    (by simp [Event.StoresElements, Command.StoresElements])⟩

/-- **Serving is replicated faithfully.**  A replica that begins with the keys of the master and
    executes what a run has given to the stream has the keys of the master afterwards, and every
    pop has found its list. -/
theorem blocked_clients_replicated {s₀ s : Server C X} {r₀ : Server R X} (m : R)
    {es : List (Event C X)} {ps : List (Propagated X)} (hstart : Start s₀) (hfull : NoEmptyList s₀)
    (hdict : r₀.dict = s₀.dict) (hnum : r₀.dbnum = s₀.dbnum) (h : Runs s₀ es s ps)
    (hes : ∀ e ∈ es, e.StoresElements) : ∃ r, Replays m r₀ ps r ∧ r.dict = s.dict := by
  have hrun : ∀ {s t : Server C X} {r : Server R X} {es : List (Event C X)}
      {ps : List (Propagated X)}, Runs s es t ps → Faithful s r →
      (∀ e ∈ es, e.StoresElements) → ∃ u, Replays m r ps u ∧ Faithful t u := by
    intro s t r es ps h
    induction h generalizing r with
    | nil s => exact fun hs _ => ⟨r, .nil r, hs⟩
    | @cons s t u e es ps qs feeds _ ih =>
      intro hs hes
      obtain ⟨v, hv, htv⟩ := feeds.replays (m := m) hs (hes e List.mem_cons_self)
      obtain ⟨w, hw, huw⟩ := ih htv (fun e' he' => hes e' (List.mem_cons_of_mem e he'))
      exact ⟨w, hv.append hw, huw⟩
  have htargets : Targets s₀ := by
    intro c dst hdst
    rw [hstart.client c] at hdst
    cases hdst
  obtain ⟨r, hr, hsr⟩ := hrun h
    ⟨hstart.settled, htargets, hfull, Mirrors.of_full hfull hdict hnum⟩ hes
  exact ⟨r, hr, hsr.mirrors.dict_eq hsr.full⟩

/-- A client that moves the element of a list to the list itself, and is served by a push. -/
def rotateEvents : List (Event Nat Nat) :=
  [.connect 0, .connect 1, .command 0 (.brpoplpush [107] [107] (some 0)),
    .command 1 (.push [107] [1] [] .tail)]

theorem blocked_clients_replicated_rotate : ∃ (s r : Server Nat Nat) (ps : List (Propagated Nat)),
    Runs (Server.empty Nat Nat) rotateEvents s ps ∧ s.content (0, [107]) = [[1]] ∧
    Replays 0 (Server.empty Nat Nat) ps r ∧ r.dict = s.dict := by
  have hrun : ((rotateEvents.foldlM (processEvent 9) (Server.empty Nat Nat)).toOption.map
      (·.content (0, [107]))) = some [[1]] := by
    rfl
  cases hs : rotateEvents.foldlM (processEvent 9) (Server.empty Nat Nat) with
  | error f => simp [hs, Except.toOption] at hrun
  | ok s =>
    simp only [hs, Except.toOption, Option.map_some, Option.some.injEq] at hrun
    obtain ⟨ps, hps⟩ := (runs_iff_steps start_empty.settled).mpr
      (steps_of_foldlM (fun _ _ _ => trivial) hs)
    have hstores : ∀ e ∈ rotateEvents, e.StoresElements := by
      intro e he
      simp only [rotateEvents, List.mem_cons, List.not_mem_nil, or_false] at he
      rcases he with rfl | rfl | rfl | rfl
      · trivial
      · trivial
      · trivial
      · trivial
    have hreplica : ∃ r, Replays 0 (Server.empty Nat Nat) ps r ∧ r.dict = s.dict :=
      blocked_clients_replicated 0 start_empty (fun p => by simp [Server.empty]) rfl rfl hps hstores
    obtain ⟨r, hr, hdict⟩ := hreplica
    exact ⟨s, r, ps, hps, hrun, hr, hdict⟩

end Redis.Blocking
