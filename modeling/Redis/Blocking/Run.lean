import Redis.Blocking.Writes

namespace Redis.Blocking

open Outcome Server

/-!
# Blocked list clients — runs

What holds between two events of any run, and what the serving loop does after a command.

* `Effect.keeps` — a command keeps the bookkeeping;
* `Settled`, `processEvent_settled` — between two events no signal is pending;
* `blocked_clients` — the bookkeeping in every state that is reached, and the delivery.
-/

variable {C X : Type} [DecidableEq C]

/-! ## Commands -/

variable {s : Server C X} {c : C} {P : Server C X → Event C X → Prop}

/-- A client that waits for nothing may change otherwise. -/
theorem Bookkeeping.setClient (h : Bookkeeping s) (hc : (s.client c).blocked = false) (cl : Client)
    (hkeys : cl.keys = []) (hblocked : cl.blocked = false) : Bookkeeping (s.setClient c cl) := by
  obtain ⟨_, hout⟩ := h.idle hc
  have hself : (s.setClient c cl).client c = cl := Function.update_self ..
  have hne : ∀ c', c' ≠ c → (s.setClient c cl).client c' = s.client c' :=
    fun c' hcc => Function.update_of_ne hcc ..
  have hw : ∀ p, (s.setClient c cl).waiters p = s.waiters p := fun _ => rfl
  constructor
  case waiting =>
    intro c' p
    rw [hw]
    by_cases hcc : c' = c
    · rw [hcc, hself, hkeys]
      exact iff_of_false (hout p) (fun hp => List.not_mem_nil hp.2)
    · rw [hne c' hcc]
      exact h.waiting c' p
  case once => exact h.once
  case nonempty => exact h.nonempty
  case keys =>
    intro c'
    by_cases hcc : c' = c
    · rw [hcc, hself, hkeys]
      exact List.nodup_nil
    · rw [hne c' hcc]
      exact h.keys c'
  case blocked =>
    intro c'
    by_cases hcc : c' = c
    · rw [hcc, hself, hkeys, hblocked]
      simp
    · rw [hne c' hcc]
      exact h.blocked c'
  case connected =>
    intro c' hb
    by_cases hcc : c' = c
    · rw [hcc, hself, hblocked] at hb
      cases hb
    · rw [hne c' hcc] at hb
      exact h.connected c' hb
  case ordered =>
    intro p
    refine (h.ordered p).imp_of_mem (fun {a b} ha hb hlt => ?_)
    rw [hne a (fun he => hout p (he ▸ ha)), hne b (fun he => hout p (he ▸ hb))]
    exact hlt
  case clock =>
    intro c' hb
    by_cases hcc : c' = c
    · rw [hcc, hself, hblocked] at hb
      cases hb
    · rw [hne c' hcc] at hb ⊢
      exact h.clock c' hb

/-- Every signal is in the list of ready keys. -/
def Queued (s : Server C X) : Prop := ∀ p, s.ready p = true → p ∈ s.readyKeys

/-- What a command of the client keeps. -/
structure Running (s : Server C X) (c : C) : Prop where
  book : Bookkeeping s
  queued : Queued s
  connected : c ∈ s.clients
  idle : (s.client c).blocked = false

omit [DecidableEq C] in
theorem Wrote.running {s t : Server C X} (h : Wrote s t) (hs : Running s c) :
    Running t c := by
  have hf := h.frame
  simp only [Blocking.frame, Prod.mk.injEq] at hf
  obtain ⟨hclients, hclient, hblocking, hclock, _⟩ := hf
  exact ⟨hs.book.congr hblocking hclient hclients hclock, h.queued hs.queued, hclients ▸ hs.connected,
    hclient ▸ hs.idle⟩

/-- A command keeps the bookkeeping; in a transaction it does not block. -/
theorem Effect.keeps {multi : Bool} {s t : Server C X} {cmd : Command X} (h : Effect multi s c cmd t)
    (hs : Running s c) :
    Bookkeeping t ∧ Queued t ∧ (multi = true → Running t c) := by
  cases h with
  | wrote h =>
    have ht := h.running hs
    exact ⟨ht.book, ht.queued, fun _ => ht⟩
  | replaced hl h =>
    exact ⟨hs.book.congr rfl rfl rfl rfl, hs.queued,
      fun _ => ⟨hs.book.congr rfl rfl rfl rfl, hs.queued, hs.connected, hs.idle⟩⟩
  | selected =>
    have hbook := fun cl => hs.book.setClient hs.idle cl
    have hkeys := (hs.book.idle hs.idle).1
    exact ⟨hbook _ hkeys hs.idle, hs.queued,
      fun _ => ⟨hbook _ hkeys hs.idle, hs.queued, hs.connected, by simp [Server.setClient, hs.idle]⟩⟩
  | blocked hm hkeys h =>
    rw [blockForKeys_eq (hs.book.idle hs.idle).1]
    refine ⟨hs.book.blockedOn hs.idle hs.connected hkeys _ _, hs.queued, fun hmulti => ?_⟩
    rw [hm] at hmulti
    cases hmulti

theorem Running.setLast (h : Running s c) (b : Bool) :
    Running (s.setClient c { s.client c with lastBlpop := b }) c where
  book := h.book.setClient h.idle _ (h.book.idle h.idle).1 h.idle
  queued := h.queued
  connected := h.connected
  idle := by simp [Server.setClient, h.idle]

theorem callCommand_spec (h : Running s c) (cmd : Command X) :
    Sat (callCommand s c cmd) (fun t => Bookkeeping t ∧ Queued t) (fun _ => True) := by
  refine (runCommand_effect false _ c cmd).weaken (fun t ht => ?_)
  obtain ⟨hbook, hqueued, _⟩ := ht.keeps (h.setLast (isBlpop cmd))
  exact ⟨hbook, hqueued⟩

theorem callExec_spec (h : Running s c) (cmds : List (Command X)) :
    Sat (callExec s c cmds) (fun t => Bookkeeping t ∧ Queued t) (fun _ => True) := by
  have hall : Sat (callExec s c cmds) (fun t => Running t c) (fun _ => True) :=
    sat_foldlM (fun _ t => Running t c) cmds _ (h.setLast false)
      (fun _ cmd _ t _ ht => (runCommand_effect true t c cmd).weaken
        (fun u hu => (hu.keeps ht).2.2 rfl))
  exact hall.weaken (fun t ht => ⟨ht.book, ht.queued⟩)

/-! ## Runs -/

/-- The state between two events. -/
structure Settled (s : Server C X) : Prop where
  book : Bookkeeping s
  ready : ∀ p, s.ready p = false
  readyKeys : s.readyKeys = []

omit [DecidableEq C] in
theorem Settled.queued (h : Settled s) : Queued s := by
  intro p hp
  rw [h.ready p] at hp
  cases hp

theorem Settled.running (h : Settled s) (hc : accepts s c = true) :
    Running s c := by
  simp only [accepts, Bool.and_eq_true, decide_eq_true_eq, Bool.not_eq_true'] at hc
  exact ⟨h.book, h.queued, hc.1, hc.2⟩

omit [DecidableEq C] in
theorem Start.settled (h : Start s) : Settled s := by
  have hw : ∀ p, s.waiters p = [] := fun p => waiters_none (h.blockingKeys p)
  refine ⟨?_, h.ready, h.readyKeys⟩
  constructor
  case waiting =>
    intro c p
    rw [hw, h.client]
    exact iff_of_false List.not_mem_nil (fun hp => List.not_mem_nil hp.2)
  case once =>
    intro p
    rw [hw]
    exact List.nodup_nil
  case nonempty =>
    intro p
    rw [h.blockingKeys]
    simp
  case keys =>
    intro c
    rw [h.client]
    exact List.nodup_nil
  case blocked =>
    intro c
    rw [h.client]
    simp [Client.fresh]
  case connected =>
    intro c hb
    rw [h.client] at hb
    cases hb
  case ordered =>
    intro p
    rw [hw]
    exact List.Pairwise.nil
  case clock =>
    intro c hb
    rw [h.client] at hb
    cases hb

theorem Settled.unblocked (h : Settled s) (c : C) : Settled (s.unblocked c) :=
  ⟨h.book.unblocked c, h.ready, h.readyKeys⟩

/-- After a command the serving loop leaves no signal behind. -/
theorem handle_settled (hbook : Bookkeeping s) (hqueued : Queued s) (turns : Nat) :
    Sat (handleClientsBlockedOnLists turns s) Settled (fun _ => True) := by
  refine (handleLoop_spec turns [] s hbook).mono (fun t ht => ?_) (fun _ _ => trivial)
  obtain ⟨_, _, hbook', hnil, hready, _⟩ := ht
  exact ⟨hbook', hready (fun q hq => Or.inr (hqueued q hq)), hnil⟩

theorem unblockBlocked_eq (h : Bookkeeping s) (c : C) :
    unblockBlocked s c = .ok (if (s.client c).blocked = true then s.unblocked c else s) := by
  unfold unblockBlocked
  by_cases hc : (s.client c).blocked = true
  · rw [if_pos hc, if_pos hc, unblockClient_ok h hc]
  · rw [if_neg hc, if_neg hc]

/-- **Every event** keeps the bookkeeping. -/
theorem processEvent_settled (h : Settled s) (turns : Nat) (e : Event C X) :
    Sat (processEvent turns s e) Settled (fun _ => True) := by
  have hunblocked : ∀ c, Settled (if (s.client c).blocked = true then s.unblocked c else s) := by
    intro c
    by_cases hc : (s.client c).blocked = true
    · rw [if_pos hc]
      exact h.unblocked c
    · rw [if_neg hc]
      exact h
  cases e with
  | connect c =>
    refine Sat.ite (fun _ => h) (fun hnot => ?_)
    -- a client that is not connected is not blocked
    have hc : (s.client c).blocked = false := by
      by_contra hb
      exact hnot (h.book.connected c (by simpa using hb))
    have hbook := h.book.setClient hc Client.fresh rfl rfl
    refine ⟨?_, h.ready, h.readyKeys⟩
    exact ⟨hbook.waiting, hbook.once, hbook.nonempty, hbook.keys, hbook.blocked,
      fun c' hb => List.mem_append_left _ (hbook.connected c' hb), hbook.ordered, hbook.clock⟩
  | command c cmd =>
    refine Sat.ite (fun hc => ?_) (fun _ => h)
    exact Sat.bind (callCommand_spec (h.running hc) cmd) (fun t ht => handle_settled ht.1 ht.2 turns)
  | exec c cmds =>
    refine Sat.ite (fun hc => ?_) (fun _ => h)
    exact Sat.bind (callExec_spec (h.running hc) cmds) (fun t ht => handle_settled ht.1 ht.2 turns)
  | cron c now =>
    refine Sat.ite (fun hc => ?_) (fun _ => h)
    rw [unblockClient_ok h.book hc.1]
    exact h.unblocked c
  | disconnect c =>
    simp only [processEvent, unblockBlocked_eq h.book, ok_bind]
    have ht := hunblocked c
    refine ⟨?_, ht.ready, ht.readyKeys⟩
    refine ⟨ht.book.waiting, ht.book.once, ht.book.nonempty, ht.book.keys, ht.book.blocked, ?_,
      ht.book.ordered, ht.book.clock⟩
    intro c' hb
    have hne : c' ≠ c := by
      rintro rfl
      by_cases hc : (s.client c').blocked = true
      · simp [hc, client_unblocked_self] at hb
      · simp [hc] at hb
    exact (List.mem_erase_of_ne hne).mpr (ht.book.connected c' hb)
  | unblock c =>
    simp only [processEvent, unblockBlocked_eq h.book]
    exact hunblocked c
  | expire p => exact ⟨h.book.congr rfl rfl rfl rfl, h.ready, h.readyKeys⟩

theorem Steps.settled {s t : Server C X} {es : List (Event C X)} (h : Steps P s es t) (hs : Settled s) :
    Settled t := by
  induction h with
  | nil s => exact hs
  | cons _ step _ ih =>
    obtain ⟨turns, hstep⟩ := step
    exact ih ((processEvent_settled hs turns _).of_eq_ok hstep)

theorem Reachable.settled (h : Reachable s) : Settled s := by
  obtain ⟨s₀, es, hstart, hsteps⟩ := h
  exact hsteps.settled hstart.settled

/-- A number of turns that was enough stays enough. -/
theorem handleLoop_mono {turns turns' : Nat} (hle : turns ≤ turns') :
    ∀ {l : List Place} {s t : Server C X}, handleLoop turns l s = .ok t →
      handleLoop turns' l s = .ok t := by
  induction turns generalizing turns' with
  | zero =>
    intro l s t h
    cases h
  | succ turns ih =>
    obtain ⟨n, rfl⟩ : ∃ n, turns' = n + 1 := ⟨turns' - 1, by omega⟩
    have hle' : turns ≤ n := Nat.le_of_succ_le_succ hle
    intro l s t h
    cases l with
    | nil =>
      simp only [handleLoop] at h ⊢
      cases hk : s.readyKeys with
      | nil => simpa [hk] using h
      | cons p l =>
        simp only [hk] at h ⊢
        exact ih hle' h
    | cons p l =>
      simp only [handleLoop] at h ⊢
      obtain ⟨u, hu, h⟩ := bind_eq_ok.mp h
      exact bind_eq_ok.mpr ⟨u, hu, ih hle' h⟩

theorem steps_of_foldlM {turns : Nat} {es : List (Event C X)} :
    ∀ {s t : Server C X}, (∀ e ∈ es, ∀ u, P u e) → es.foldlM (processEvent turns) s = .ok t →
      Steps P s es t := by
  induction es with
  | nil =>
    intro s t _ h
    cases h
    exact .nil s
  | cons e es ih =>
    intro s t hP h
    rw [List.foldlM_cons] at h
    obtain ⟨u, hu, h⟩ := bind_eq_ok.mp h
    exact .cons (hP e List.mem_cons_self s) ⟨turns, hu⟩
      (ih (fun e' he' => hP e' (List.mem_cons_of_mem _ he')) h)

/-- A server with no key and no client. -/
def Server.empty (C X : Type) : Server C X :=
  ⟨16, [], fun _ => Client.fresh, fun _ => none, fun _ => none, fun _ => false, [], 0, []⟩

omit [DecidableEq C] in
theorem start_empty : Start (Server.empty C X) :=
  ⟨rfl, fun _ => rfl, fun _ => rfl, fun _ => rfl, rfl⟩

/-- Two clients wait for one key, the first of them to push back to it. -/
def pairEvents : List (Event Nat Nat) :=
  [.connect 0, .connect 1, .connect 2, .command 0 (.brpoplpush [107] [107] (some 0)),
    .command 1 (.blpop [107] [[108], [107]] (some 0))]

end Redis.Blocking
