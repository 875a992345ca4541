import Redis.Wait.Basic

namespace Redis.Wait

open Outcome Blocking

/-!
# Synchronous replication — what `WAIT` counts

`woff` is written right after the call of a command.  What is propagated on behalf of the client
later, when it is served by `handleClientsBlockedOnLists`, or before the transaction of the `WAIT`
has ended, lies behind it.

* `Answer.Honest` — as many slaves as the reply says have all that was propagated;
* `Timely` — the condition on a `WAIT`;
* `Grown` — what feeding changes; `Counted`, `Inv` — the invariant;
* `wait_counts_acks` — runs in which every `WAIT` is timely;
* `wait_after_pop` — a run in which one is not.
-/

variable {C S X : Type}

/-- At least `n` online slaves had acknowledged everything that was propagated for the client. -/
def Answer.Honest (a : Answer C S) : Prop :=
  a.n ≤ a.slaves.countP (fun s => s.online && a.ends.all (fun e => decide (e ≤ s.replAckOff)))

instance (a : Answer C S) : Decidable a.Honest := inferInstanceAs (Decidable (_ ≤ _))

/-- The command is a `WAIT`. -/
def Cmd.isWait : Cmd X → Bool
  | .wait _ _ => true
  | .data _ => false

/-- Nothing has been propagated for the client of a `WAIT` since its `woff` was written, and in a
    transaction there is no `WAIT` while there are slaves. -/
def Timely (m : Master C S X) : Event C S X → Prop
  | .command c cmd => cmd.isWait = true → m.late c = false
  | .exec _ cmds => (∀ cmd ∈ cmds, cmd.isWait = false) ∨ m.slaves = []
  | _ => True

/-! ## Feeding -/

/-- From `m` to `t` something was fed, on behalf of the clients `who`. -/
structure Grown (who : C → Prop) (m t : Master C S X) : Prop where
  server : t.server = m.server
  slaves : t.slaves = m.slaves
  woff : t.woff = m.woff
  clientsWaitingAcks : t.clientsWaitingAcks = m.clientsWaitingAcks
  answers : t.answers = m.answers
  offset : m.masterReplOffset ≤ t.masterReplOffset
  ends : ∀ c, ∀ e ∈ t.ends c, e ∈ m.ends c ∨ e ≤ t.masterReplOffset
  others : ∀ c, ¬ who c → t.ends c = m.ends c
  late : ∀ c, t.late c = false → t.ends c = m.ends c ∧ m.late c = false

theorem Grown.refl (who : C → Prop) (m : Master C S X) : Grown who m m :=
  ⟨rfl, rfl, rfl, rfl, rfl, le_refl _, fun _ _ he => Or.inl he, fun _ _ => rfl, fun _ h => ⟨rfl, h⟩⟩

theorem Grown.trans {who : C → Prop} {m t u : Master C S X} (h : Grown who m t) (h' : Grown who t u) :
    Grown who m u where
  server := h'.server.trans h.server
  slaves := h'.slaves.trans h.slaves
  woff := h'.woff.trans h.woff
  clientsWaitingAcks := h'.clientsWaitingAcks.trans h.clientsWaitingAcks
  answers := h'.answers.trans h.answers
  offset := h.offset.trans h'.offset
  ends := by
    intro c e he
    rcases h'.ends c e he with ht | hu
    · exact (h.ends c e ht).imp id (fun hle => hle.trans h'.offset)
    · exact Or.inr hu
  others := fun c hc => (h'.others c hc).trans (h.others c hc)
  late := by
    intro c hc
    obtain ⟨hends, hlate⟩ := h'.late c hc
    obtain ⟨hends', hlate'⟩ := h.late c hlate
    exact ⟨hends.trans hends', hlate'⟩

theorem Grown.weaken {who who' : C → Prop} {m t : Master C S X} (h : Grown who m t)
    (hw : ∀ c, who c → who' c) : Grown who' m t :=
  { h with others := fun c hc => h.others c (fun hwho => hc (hw c hwho)) }

variable (table : Table X)

/-- The bytes go to nobody's account. -/
theorem grown_feed (who : C → Prop) (m : Master C S X) (dictid : Int) (n : Nat) :
    Grown who m (replicationFeedSlaves table m dictid n) := by
  obtain ⟨k, d, hk⟩ : ∃ (k : Nat) (d : Int), replicationFeedSlaves table m dictid n
      = { m.grow k with slaveseldb := d } := by
    by_cases hb : m.backlog = true
    · by_cases hd : m.slaveseldb ≠ dictid
      · refine ⟨table.selectBytes dictid.toNat + n, dictid, ?_⟩
        simp only [replicationFeedSlaves, hb, if_true, if_pos hd, Master.grow, Nat.cast_add, ← add_assoc]
      · refine ⟨n, dictid, ?_⟩
        simp only [replicationFeedSlaves, hb, if_true, if_neg hd]
    · refine ⟨0, m.slaveseldb, ?_⟩
      simp only [replicationFeedSlaves, if_neg hb, Master.grow, Nat.cast_zero, add_zero]
  rw [hk]
  refine ⟨rfl, rfl, rfl, rfl, rfl, ?_, fun _ _ he => Or.inl he, fun _ _ => rfl, fun _ h => ⟨rfl, h⟩⟩
  exact le_add_of_nonneg_right (Int.natCast_nonneg k)

variable [DecidableEq C]

theorem grown_credit (m : Master C S X) (c : C) : Grown (· = c) m (m.credit c) := by
  refine ⟨rfl, rfl, rfl, rfl, rfl, le_refl _, fun c' e he => ?_, fun c' hc => ?_, fun c' hc => ?_⟩
  · by_cases hcc : c' = c
    · simp only [Master.credit, hcc, Function.update_self, List.mem_append, List.mem_singleton] at he ⊢
      exact he.imp id (fun heq => le_of_eq heq)
    · simp only [Master.credit, Function.update_of_ne hcc] at he ⊢
      exact Or.inl he
  · exact Function.update_of_ne hc ..
  · by_cases hcc : c' = c
    · simp [Master.credit, hcc] at hc
    · simp only [Master.credit, Function.update_of_ne hcc] at hc ⊢
      exact ⟨trivial, hc⟩

theorem grown_feedFor (c : C) (m : Master C S X) (db n : Nat) :
    Grown (· = c) m (feedFor table c m db n) := by
  unfold feedFor
  by_cases hb : m.backlog = true
  · rw [if_pos hb]
    exact (grown_feed table _ m db n).trans (grown_credit _ c)
  · rw [if_neg hb]
    exact Grown.refl _ m

theorem grown_propagateFor (c : C) (ps : List (Propagated X)) :
    ∀ m : Master C S X, Grown (· = c) m (propagateFor table c m ps) := by
  induction ps with
  | nil => exact fun m => Grown.refl _ m
  | cons a ps ih => exact fun m => (grown_feedFor table c m a.db (table.bytes a)).trans (ih _)

theorem grown_pieces (c : C) (pieces : List Nat) : ∀ m : Master C S X,
    Grown (· = c) m (pieces.foldl (fun m n => feedFor table c m (m.server.client c).db n) m) := by
  induction pieces with
  | nil => exact fun m => Grown.refl _ m
  | cons n pieces ih => exact fun m => (grown_feedFor table c m _ n).trans (ih _)

theorem grown_services (t : Blocking.Server C X) (es : List (Service C)) :
    ∀ m : Master C S X, Grown (· ∈ served es) m (propagateServices table t m es) := by
  induction es with
  | nil => exact fun m => Grown.refl _ m
  | cons e es ih =>
    intro m
    have hhead : Grown (· ∈ served (e :: es)) m (propagateFor table e.client m (e.propagates t)) :=
      (grown_propagateFor table e.client (e.propagates t) m).weaken (fun c hc => by simp [served, hc])
    exact hhead.trans ((ih _).weaken (fun c hc => List.mem_cons_of_mem e.client hc))

/-! ## The invariant -/

/-- The offsets of the clients lie behind what was propagated for them. -/
structure Counted (m : Master C S X) : Prop where
  ends_le : ∀ c, ∀ e ∈ m.ends c, e ≤ m.masterReplOffset
  woff : ∀ c, m.late c = false → ∀ e ∈ m.ends c, e ≤ m.woff c
  waiting : ∀ w ∈ m.clientsWaitingAcks, ∀ e ∈ m.ends w.client, e ≤ w.reploffset
  honest : ∀ a ∈ m.answers, a.Honest

namespace Counted

variable {m t : Master C S X}

omit [DecidableEq C] in
theorem setServer (h : Counted m) (s : Blocking.Server C X) : Counted { m with server := s } :=
  ⟨h.ends_le, h.woff, h.waiting, h.honest⟩

omit [DecidableEq C] in
/-- Nothing is fed for a client that waits. -/
theorem grown (h : Counted m) {who : C → Prop} (g : Grown who m t)
    (hwho : ∀ w ∈ m.clientsWaitingAcks, ¬ who w.client) : Counted t where
  ends_le := by
    intro c e he
    rcases g.ends c e he with hm | ht
    · exact (h.ends_le c e hm).trans g.offset
    · exact ht
  woff := by
    intro c hc e he
    obtain ⟨hends, hlate⟩ := g.late c hc
    rw [hends] at he
    rw [g.woff]
    exact h.woff c hlate e he
  waiting := by
    intro w hw e he
    rw [g.clientsWaitingAcks] at hw
    rw [g.others w.client (hwho w hw)] at he
    exact h.waiting w hw e he
  honest := by
    rw [g.answers]
    exact h.honest

theorem writeWoff (h : Counted m) (c : C) : Counted (m.writeWoff c) where
  ends_le := h.ends_le
  woff := by
    intro c' hc e he
    by_cases hcc : c' = c
    · simp only [Master.writeWoff, hcc, Function.update_self] at he ⊢
      exact h.ends_le c e he
    · simp only [Master.writeWoff, Function.update_of_ne hcc] at hc he ⊢
      exact h.woff c' hc e he
  waiting := h.waiting
  honest := h.honest

omit [DecidableEq C] in
/-- A reply with the number of slaves that have acknowledged an offset at which the client has
    everything. -/
theorem answer (h : Counted m) {c : C} {n : Nat} {offset : Int}
    (hn : n ≤ replicationCountAcksByOffset m offset) (hends : ∀ e ∈ m.ends c, e ≤ offset) :
    Counted (m.answer c n) where
  ends_le := h.ends_le
  woff := h.woff
  waiting := h.waiting
  honest := by
    intro a ha
    rcases List.mem_append.mp ha with ha | ha
    · exact h.honest a ha
    · rw [List.mem_singleton.mp ha]
      refine hn.trans (List.countP_mono_left (fun s _ hs => ?_))
      rw [Bool.and_eq_true, decide_eq_true_eq] at hs
      rw [Bool.and_eq_true, List.all_eq_true]
      exact ⟨hs.1, fun e he => decide_eq_true ((hends e he).trans hs.2)⟩

omit [DecidableEq C] in
/-- Fewer clients wait. -/
theorem sublist (h : Counted m) {ws : List (Waiting C)} (hws : ∀ w ∈ ws, w ∈ m.clientsWaitingAcks) :
    Counted { m with clientsWaitingAcks := ws } :=
  ⟨h.ends_le, h.woff, fun w hw => h.waiting w (hws w hw), h.honest⟩

theorem unblock (h : Counted m) (c : C) : Counted (unblockClientWaitingReplicas m c) :=
  h.sublist (fun _ hw => List.mem_of_mem_eraseP hw)

omit [DecidableEq C] in
/-- `WAIT`, when nothing was propagated for the client after its `woff`. -/
theorem wait (h : Counted m) (multi : Bool) {c : C} (hc : ∀ e ∈ m.ends c, e ≤ m.woff c)
    (numreplicas timeout : Int) : Counted (waitCommand multi m c numreplicas timeout) := by
  simp only [waitCommand]
  by_cases hcount : numreplicas ≤ replicationCountAcksByOffset m (m.woff c) ∨ multi = true
  · rw [if_pos hcount]
    exact h.answer (le_refl _) hc
  · rw [if_neg hcount]
    refine ⟨h.ends_le, h.woff, fun w hw => ?_, h.honest⟩
    rcases List.mem_append.mp hw with hw | hw
    · exact h.waiting w hw
    · rw [List.mem_singleton.mp hw]
      exact hc

end Counted

omit [DecidableEq C] in
theorem count_anti {m : Master C S X} {o o' : Int} (h : o ≤ o') :
    replicationCountAcksByOffset m o' ≤ replicationCountAcksByOffset m o := by
  refine List.countP_mono_left (fun s _ hs => ?_)
  rw [Bool.and_eq_true, decide_eq_true_eq] at hs ⊢
  exact ⟨hs.1, h.trans hs.2⟩

/-- What holds between two events. -/
structure Inv (m : Master C S X) : Prop where
  counted : Counted m
  settled : Settled m.server
  /-- A client that waits for acknowledgements is not blocked on lists. -/
  apart : ∀ w ∈ m.clientsWaitingAcks, (m.server.client w.client).blocked = false

/-- The loop of `processClientsWaitingReplicas`, begun in `m`. -/
structure LoopInv (m : Master C S X) (l : Loop C S X) : Prop where
  counted : Counted l.master
  server : l.master.server = m.server
  slaves : l.master.slaves = m.slaves
  ends : l.master.ends = m.ends
  waiting : ∀ w ∈ l.master.clientsWaitingAcks, w ∈ m.clientsWaitingAcks
  /-- The answer that is used again. -/
  last : l.lastOffset ≠ 0 → l.lastNumreplicas ≤ replicationCountAcksByOffset m l.lastOffset

theorem LoopInv.processClient {m : Master C S X} {l : Loop C S X} (h : LoopInv m l) {w : Waiting C}
    (hw : ∀ e ∈ m.ends w.client, e ≤ w.reploffset) : LoopInv m (processClient l w) := by
  have hcount : ∀ o, replicationCountAcksByOffset l.master o = replicationCountAcksByOffset m o := by
    intro o
    simp only [replicationCountAcksByOffset, h.slaves]
  have hanswer : ∀ n, n ≤ replicationCountAcksByOffset m w.reploffset →
      Counted ((unblockClientWaitingReplicas l.master w.client).answer w.client n) := by
    intro n hn
    rw [← hcount] at hn
    refine (h.counted.unblock w.client).answer hn ?_
    intro e he
    refine hw e ?_
    rw [← h.ends]
    exact he
  have hwaiting : ∀ w' ∈ (unblockClientWaitingReplicas l.master w.client).clientsWaitingAcks,
      w' ∈ m.clientsWaitingAcks := fun w' hw' => h.waiting w' (List.mem_of_mem_eraseP hw')
  unfold Wait.processClient
  by_cases hlast : l.lastOffset ≠ 0 ∧ w.reploffset < l.lastOffset ∧ w.numreplicas < l.lastNumreplicas
  · rw [if_pos hlast]
    -- who has acknowledged the greater offset has acknowledged this one
    have hn := (h.last hlast.1).trans (count_anti (le_of_lt hlast.2.1))
    exact ⟨hanswer _ hn, h.server, h.slaves, h.ends, hwaiting, h.last⟩
  · rw [if_neg hlast]
    by_cases hn : w.numreplicas ≤ replicationCountAcksByOffset l.master w.reploffset
    · simp only [if_pos hn]
      have hle := le_of_eq (hcount w.reploffset)
      exact ⟨hanswer _ hle, h.server, h.slaves, h.ends, hwaiting, fun _ => hle⟩
    · simp only [if_neg hn]
      exact h

theorem LoopInv.foldl {m : Master C S X} (ws : List (Waiting C))
    (hws : ∀ w ∈ ws, ∀ e ∈ m.ends w.client, e ≤ w.reploffset) :
    ∀ {l : Loop C S X}, LoopInv m l → LoopInv m (ws.foldl Wait.processClient l) := by
  induction ws with
  | nil => exact fun h => h
  | cons w ws ih =>
    exact fun h => ih (fun w' hw' => hws w' (List.mem_cons_of_mem w hw'))
      (h.processClient (hws w List.mem_cons_self))

/-- **The clients that wait** are all answered with what they asked for. -/
theorem Inv.processClientsWaitingReplicas {m : Master C S X} (h : Inv m) :
    Inv (processClientsWaitingReplicas m) := by
  have hstart : LoopInv m ⟨m, 0, 0⟩ :=
    ⟨h.counted, rfl, rfl, rfl, fun _ hw => hw, fun hne => absurd rfl hne⟩
  have hend := LoopInv.foldl m.clientsWaitingAcks h.counted.waiting hstart
  refine ⟨hend.counted, ?_, fun w hw => ?_⟩
  · rw [Wait.processClientsWaitingReplicas, hend.server]
    exact h.settled
  · rw [Wait.processClientsWaitingReplicas, hend.server]
    exact h.apart w (hend.waiting w hw)

omit [DecidableEq C] in
/-- Bytes that are fed on nobody's behalf. -/
theorem Inv.feed {m : Master C S X} (h : Inv m) (dictid : Int) (n : Nat) :
    Inv (replicationFeedSlaves table m dictid n) := by
  have g := grown_feed table (fun _ => False) m dictid n
  refine ⟨h.counted.grown g (fun _ _ => id), ?_, fun w hw => ?_⟩
  · rw [g.server]
    exact h.settled
  · rw [g.clientsWaitingAcks] at hw
    rw [g.server]
    exact h.apart w hw

theorem Inv.beforeSleep {m : Master C S X} (h : Inv m) : Inv (beforeSleep table m) := by
  obtain ⟨t, ht⟩ : ∃ t, t = if m.getAckFromSlaves then
      { replicationFeedSlaves table m m.slaveseldb table.getackBytes with getAckFromSlaves := false }
    else m := ⟨_, rfl⟩
  have hinv : Inv t := by
    rw [ht]
    by_cases hget : m.getAckFromSlaves = true
    · rw [if_pos hget]
      have hfed := h.feed table m.slaveseldb table.getackBytes
      exact ⟨⟨hfed.counted.ends_le, hfed.counted.woff, hfed.counted.waiting, hfed.counted.honest⟩,
        hfed.settled, hfed.apart⟩
    · rw [if_neg hget]
      exact h
  simp only [Wait.beforeSleep, ← ht]
  by_cases hlen : t.clientsWaitingAcks.length ≠ 0
  · rw [if_pos hlen]
    exact hinv.processClientsWaitingReplicas
  · rw [if_neg hlen]
    exact hinv

/-- A client whose time is up. -/
theorem Inv.cron {m : Master C S X} (h : Inv m) (c : C) (now : Int) :
    Inv (clientsCronHandleTimeout m c now) := by
  unfold clientsCronHandleTimeout
  cases hfind : m.clientsWaitingAcks.find? (fun w => decide (w.client = c)) with
  | none => exact h
  | some w =>
    simp only
    by_cases htime : w.timeout ≠ 0 ∧ w.timeout < now
    · rw [if_pos htime]
      have hw := List.mem_of_find?_eq_some hfind
      have hwc : w.client = c := by simpa using List.find?_some hfind
      have hends := h.counted.waiting w hw
      rw [hwc] at hends
      exact ⟨(h.counted.answer (le_refl _) hends).unblock c, h.settled,
        fun w' hw' => h.apart w' (List.mem_of_mem_eraseP hw')⟩
    · rw [if_neg htime]
      exact h

/-! ## Serving -/

/-- Who is served was blocked. -/
theorem blocked_of_served {s t : Blocking.Server C X} {es : List (Service C)} (h : Blocking.Delivers s t es)
    (hbook : Bookkeeping s) {c : C} (hc : c ∈ served es) : (s.client c).blocked = true := by
  obtain ⟨e, he, rfl⟩ := List.mem_map.mp hc
  obtain ⟨before, after, hes⟩ := List.append_of_mem he
  have hfirst := List.mem_of_mem_head? (h.inOrder before e after hes)
  exact hbook.blocked_of_mem (List.mem_of_mem_filter hfirst)

/-- What holds when a command has been executed, and before clients are served. -/
structure Called (m : Master C S X) : Prop where
  counted : Counted m
  book : Bookkeeping m.server
  queued : Queued m.server
  apart : ∀ w ∈ m.clientsWaitingAcks, (m.server.client w.client).blocked = false

/-- **Serving** feeds nothing for a client that waits for acknowledgements. -/
theorem Serves.inv {table : Table X} {m u : Master C S X} (h : Serves table m u) (hm : Called m) :
    Inv u := by
  cases h with
  | @intro turns s es hserve hes =>
    obtain ⟨es', hdel, _⟩ := (handleLoop_spec turns [] m.server hm.book).of_eq_ok hserve
    have hsame : es' = es := List.append_cancel_left (hdel.served.symm.trans hes)
    subst hsame
    have hout : ∀ w ∈ m.clientsWaitingAcks, w.client ∉ served es' := by
      intro w hw hc
      have hapart := hm.apart w hw
      rw [blocked_of_served hdel hm.book hc] at hapart
      cases hapart
    have g := grown_services table m.server es' { m with server := s }
    refine ⟨(hm.counted.setServer s).grown g hout, ?_, fun w hw => ?_⟩
    · rw [g.server]
      exact (handle_settled hm.book hm.queued turns).of_eq_ok hserve
    · rw [g.clientsWaitingAcks] at hw
      rw [g.server]
      exact (congrArg Blocking.Client.blocked (hdel.untouched w.client (hout w hw))).trans (hm.apart w hw)

/-! ## Calls -/

/-- A command of the client `c` is being executed. -/
structure InCall (m : Master C S X) (c : C) : Prop where
  counted : Counted m
  running : Running m.server c
  free : ∀ w ∈ m.clientsWaitingAcks, w.client ≠ c
  apart : ∀ w ∈ m.clientsWaitingAcks, (m.server.client w.client).blocked = false

/-- The other clients do not notice. -/
theorem client_of_effect {multi : Bool} {s t : Blocking.Server C X} {c c' : C} {cmd : Command X}
    (h : Effect multi s c cmd t) (hs : Running s c) (hne : c' ≠ c) : t.client c' = s.client c' := by
  cases h with
  | wrote hw => exact congrFun hw.client c'
  | replaced => rfl
  | selected => exact Function.update_of_ne hne ..
  | blocked =>
    rw [blockForKeys_eq (hs.book.idle hs.idle).1]
    exact client_blockedOn_ne s hne _ _ _

namespace InCall

variable {m t : Master C S X} {c : C}

theorem of_accepts (h : Inv m) (hc : accepts m c = true) (b : Bool) : InCall (m.begin c b) c := by
  obtain ⟨haccepts, hfree⟩ := Bool.and_eq_true_iff.mp hc
  have hne : ∀ w ∈ m.clientsWaitingAcks, w.client ≠ c := by
    intro w hw
    simpa using List.all_eq_true.mp hfree w hw
  refine ⟨h.counted.setServer _, (h.settled.running haccepts).setLast b, hne, fun w hw => ?_⟩
  have hsame : (m.begin c b).server.client w.client = m.server.client w.client :=
    Function.update_of_ne (hne w hw) ..
  rw [hsame]
  exact h.apart w hw

omit [DecidableEq C] in
theorem grown (h : InCall m c) (g : Grown (· = c) m t) : InCall t c := by
  refine ⟨h.counted.grown g h.free, ?_, ?_, ?_⟩
  · rw [g.server]
    exact h.running
  · rw [g.clientsWaitingAcks]
    exact h.free
  · rw [g.clientsWaitingAcks, g.server]
    exact h.apart

/-- Once a command has been executed, `woff` is written. -/
theorem called (h : InCall m c) {s : Blocking.Server C X} {multi : Bool} {cmd : Command X}
    (he : Effect multi m.server c cmd s) (g : Grown (· = c) { m with server := s } t) :
    Called (t.writeWoff c) := by
  obtain ⟨hbook, hqueued, _⟩ := he.keeps h.running
  refine ⟨((h.counted.setServer s).grown g h.free).writeWoff c, ?_, ?_, fun w hw => ?_⟩
  · exact g.server ▸ hbook
  · exact g.server ▸ hqueued
  · have hwm : w ∈ m.clientsWaitingAcks := g.clientsWaitingAcks ▸ hw
    have hclient : (t.writeWoff c).server.client w.client = m.server.client w.client :=
      (congrArg (fun s : Blocking.Server C X => s.client w.client) g.server).trans
        (client_of_effect he h.running (h.free w hwm))
    rw [hclient]
    exact h.apart w hwm

/-- The same when nothing is left but to write `woff`. -/
theorem writeWoff (h : InCall m c) : Called (m.writeWoff c) :=
  ⟨h.counted.writeWoff c, h.running.book, h.running.queued, h.apart⟩

/-- A command inside a transaction. -/
theorem executes (h : InCall m c) {table : Table X} {cmd : Cmd X} (he : Executes table c m cmd t)
    (hcmd : cmd.isWait = false ∨ m.slaves = []) :
    InCall t c ∧ (m.slaves = [] → t.slaves = []) := by
  cases he with
  | @data cmd s ps hcall =>
    have heffect := (runCommand_effect true m.server c cmd).of_eq_ok hcall.run
    have g := grown_propagateFor table c ps { m with server := s }
    have hs : InCall { m with server := s } c := by
      refine ⟨h.counted.setServer s, (heffect.keeps h.running).2.2 rfl, h.free, fun w hw => ?_⟩
      rw [client_of_effect heffect h.running (h.free w hw)]
      exact h.apart w hw
    exact ⟨hs.grown g, fun hnil => g.slaves.trans hnil⟩
  | wait numreplicas timeout =>
    rcases hcmd with hcmd | hnil
    · cases hcmd
    -- without slaves the reply is zero
    have hzero : replicationCountAcksByOffset m (m.woff c) = 0 := by
      rw [replicationCountAcksByOffset, hnil, List.countP_nil]
    have hanswer : waitCommand true m c numreplicas timeout = m.answer c 0 := by
      simp only [waitCommand, or_true, if_true, hzero]
    rw [hanswer]
    refine ⟨⟨⟨h.counted.ends_le, h.counted.woff, h.counted.waiting, fun a ha => ?_⟩, h.running, h.free,
      h.apart⟩, fun hnil => hnil⟩
    rcases List.mem_append.mp ha with ha | ha
    · exact h.counted.honest a ha
    · rw [List.mem_singleton.mp ha]
      exact Nat.zero_le _

theorem multi (h : InCall m c) (table : Table X) (must : Bool) (cmd : Cmd X) :
    InCall (propagateMulti table c must cmd m) c ∧ (propagateMulti table c must cmd m).slaves = m.slaves := by
  unfold propagateMulti
  by_cases hmust : (!must && !cmd.readonly table) = true
  · rw [if_pos hmust]
    have g := grown_feedFor table c m (m.server.client c).db table.multiBytes
    exact ⟨h.grown g, g.slaves⟩
  · rw [if_neg hmust]
    exact ⟨h, rfl⟩

/-- The commands of a transaction. -/
theorem execCalls {table : Table X} {must must' : Bool} {cmds : List (Cmd X)}
    (hcalls : ExecCalls table c must m cmds must' t) :
    InCall m c → ((∀ cmd ∈ cmds, cmd.isWait = false) ∨ m.slaves = []) → InCall t c := by
  induction hcalls with
  | nil must m => exact fun h _ => h
  | @cons must must' m t u cmd cmds head _ ih =>
    intro h hcmds
    obtain ⟨hmulti, hslaves⟩ := h.multi table must cmd
    have hcmd : cmd.isWait = false ∨ (propagateMulti table c must cmd m).slaves = [] := by
      rw [hslaves]
      exact hcmds.imp (fun hw => hw cmd List.mem_cons_self) id
    obtain ⟨ht, hnil⟩ := hmulti.executes head hcmd
    refine ih ht (hcmds.imp (fun hw cmd' hc' => hw cmd' (List.mem_cons_of_mem cmd hc')) (fun hm => ?_))
    exact hnil (hslaves.trans hm)

end InCall

/-- The commands of a script. -/
theorem callExec_clients {s : Blocking.Server C X} {c : C} (hs : Running s c) (cmds : List (Command X)) :
    Sat (callExec s c cmds) (fun t => Running t c ∧ ∀ c', c' ≠ c → t.client c' = s.client c')
      (fun _ => True) := by
  refine sat_foldlM (fun _ t => Running t c ∧ ∀ c', c' ≠ c → t.client c' = s.client c') cmds _
    ⟨hs.setLast false, fun c' hne => Function.update_of_ne hne ..⟩ (fun _ cmd _ t _ ht => ?_)
  refine (runCommand_effect true t c cmd).weaken (fun u hu => ?_)
  exact ⟨(hu.keeps ht.1).2.2 rfl, fun c' hne => (client_of_effect hu ht.1 hne).trans (ht.2 c' hne)⟩

theorem InCall.script {m : Master C S X} {c : C} (h : Inv m) (hc : accepts m c = true)
    {cmds : List (Command X)} {t : Blocking.Server C X} (hcalls : callExec m.server c cmds = .ok t) :
    InCall { m with server := t } c := by
  have hin := InCall.of_accepts h hc false
  have hrunning := h.settled.running (Bool.and_eq_true_iff.mp hc).1
  obtain ⟨hrun, hclients⟩ := (callExec_clients hrunning cmds).of_eq_ok hcalls
  refine ⟨h.counted.setServer t, hrun, hin.free, fun w hw => ?_⟩
  rw [hclients w.client (hin.free w hw)]
  exact h.apart w hw

/-! ## Events -/

/-- `WAIT` by itself. -/
theorem Inv.wait {m : Master C S X} (h : Inv m) {c : C} (hc : accepts m c = true)
    (hlate : m.late c = false) (numreplicas timeout : Int) :
    Inv ((waitCommand false (m.begin c false) c numreplicas timeout).writeWoff c) := by
  have hin := InCall.of_accepts h hc false
  have hcounted := (hin.counted.wait false (h.counted.woff c hlate) numreplicas timeout).writeWoff c
  have hsettled : Settled (m.begin c false).server := ⟨hin.running.book, h.settled.ready, h.settled.readyKeys⟩
  refine ⟨hcounted, ?_, ?_⟩
  · simp only [waitCommand]
    by_cases hcount : numreplicas ≤ replicationCountAcksByOffset (m.begin c false) ((m.begin c false).woff c) ∨
        false = true
    · rw [if_pos hcount]
      exact hsettled
    · rw [if_neg hcount]
      exact hsettled
  · simp only [waitCommand]
    by_cases hcount : numreplicas ≤ replicationCountAcksByOffset (m.begin c false) ((m.begin c false).woff c) ∨
        false = true
    · rw [if_pos hcount]
      exact hin.apart
    · rw [if_neg hcount]
      intro w hw
      rcases List.mem_append.mp hw with hw | hw
      · exact hin.apart w hw
      · rw [List.mem_singleton.mp hw]
        exact hin.running.idle

/-- What the timers do to the clients that are blocked on lists. -/
theorem blocked_of_quiet {s t : Blocking.Server C X} (h : Bookkeeping s) {e : Blocking.Event C X} {c' : C}
    (hstep : Blocking.Step s e t) (hb : (s.client c').blocked = false)
    (he : (∃ c now, e = .cron c now) ∨ (∃ c, e = .disconnect c) ∨ (∃ c, e = .unblock c) ∨ ∃ p, e = .expire p) :
    (t.client c').blocked = false := by
  have hun : ∀ c, ((s.unblocked c).client c').blocked = false := by
    intro c
    by_cases hcc : c' = c
    · rw [hcc, client_unblocked_self]
    · rw [client_unblocked_ne s hcc]
      exact hb
  have hif : ∀ c, ((if (s.client c).blocked = true then s.unblocked c else s).client c').blocked = false := by
    intro c
    by_cases hc : (s.client c).blocked = true
    · rw [if_pos hc]
      exact hun c
    · rw [if_neg hc]
      exact hb
  obtain ⟨turns, hstep⟩ := hstep
  rcases he with ⟨c, now, rfl⟩ | ⟨c, rfl⟩ | ⟨c, rfl⟩ | ⟨p, rfl⟩
  · simp only [processEvent] at hstep
    by_cases hc : (s.client c).blocked ∧ (s.client c).timeout ≠ 0 ∧ (s.client c).timeout < now
    · rw [if_pos hc, unblockClient_ok h hc.1] at hstep
      cases hstep
      exact hun c
    · rw [if_neg hc] at hstep
      cases hstep
      exact hb
  · simp only [processEvent, unblockBlocked_eq h, ok_bind] at hstep
    cases hstep
    exact hif c
  · simp only [processEvent, unblockBlocked_eq h] at hstep
    cases hstep
    exact hif c
  · cases hstep
    exact hb

theorem Settled.step {s t : Blocking.Server C X} (h : Settled s) {e : Blocking.Event C X}
    (hstep : Blocking.Step s e t) : Settled t := by
  obtain ⟨turns, hstep⟩ := hstep
  exact (processEvent_settled h turns e).of_eq_ok hstep

/-- A client that is new has no history. -/
theorem Inv.connect {m : Master C S X} (h : Inv m) {c : C} {t : Blocking.Server C X} (hnew : c ∉ m.server.clients)
    (hstep : Blocking.Step m.server (.connect c) t) :
    Inv { m with
      server := t
      woff := Function.update m.woff c 0
      ends := Function.update m.ends c []
      late := Function.update m.late c false } := by
  have hends : ∀ c' e, e ∈ Function.update m.ends c [] c' → e ∈ m.ends c' ∧ c' ≠ c := by
    intro c' e he
    by_cases hcc : c' = c
    · rw [hcc, Function.update_self] at he
      exact absurd he List.not_mem_nil
    · rw [Function.update_of_ne hcc] at he
      exact ⟨he, hcc⟩
  refine ⟨⟨fun c' e he => h.counted.ends_le c' e (hends c' e he).1, fun c' hlate e he => ?_,
    fun w hw e he => h.counted.waiting w hw e (hends _ e he).1, h.counted.honest⟩,
    Settled.step h.settled hstep, fun w hw => ?_⟩
  · obtain ⟨hm, hne⟩ := hends c' e he
    simp only [Function.update_of_ne hne] at hlate ⊢
    exact h.counted.woff c' hlate e hm
  · obtain ⟨turns, hstep⟩ := hstep
    simp only [processEvent, if_neg hnew] at hstep
    cases hstep
    by_cases hcc : w.client = c
    · simp [Blocking.Server.setClient, hcc, Blocking.Client.fresh]
    · simp only [Blocking.Server.setClient, Function.update_of_ne hcc]
      exact h.apart w hw

variable [DecidableEq S]

/-- **Every event** whose `WAIT` is timely keeps the invariant. -/
theorem Step.inv {table : Table X} {m t : Master C S X} {e : Event C S X} (hstep : Step table m e t)
    (h : Inv m) (hcond : Timely m e) : Inv t := by
  have hc := h.counted
  cases hstep with
  | @data c cmd s ps u haccepts hcall hserves =>
    have hin := InCall.of_accepts h haccepts (isBlpop cmd)
    have heffect := (runCommand_effect false _ c cmd).of_eq_ok hcall.run
    exact hserves.inv (hin.called heffect (grown_propagateFor table c ps _))
  | wait haccepts => exact h.wait haccepts (hcond rfl) _ _
  | @exec c cmds must s u haccepts hcalls hserves =>
    have hin := InCall.execCalls hcalls (InCall.of_accepts h haccepts false) hcond
    refine hserves.inv ?_
    by_cases hmust : must = true
    · rw [if_pos hmust]
      exact (hin.grown (grown_feedFor table c s _ _)).writeWoff
    · rw [if_neg hmust]
      exact hin.writeWoff
  | @script c cmds pieces s u haccepts hcalls hserves =>
    have hin := InCall.script h haccepts hcalls
    exact hserves.inv (hin.grown (grown_pieces table c pieces _)).writeWoff
  | refused => exact h
  | connect hnew hstep => exact h.connect hnew hstep
  | @disconnect c s hstep =>
    refine ⟨(hc.setServer s).unblock c, Settled.step h.settled hstep, fun w hw => ?_⟩
    exact blocked_of_quiet h.settled.book hstep (h.apart w (List.mem_of_mem_eraseP hw)) (by simp)
  | @cron c now s hstep =>
    have hs : Inv { m with server := s } := ⟨hc.setServer s, Settled.step h.settled hstep,
      fun w hw => blocked_of_quiet h.settled.book hstep (h.apart w hw) (by simp)⟩
    exact hs.cron c now
  | @unblock c s hstep =>
    exact ⟨hc.setServer s, Settled.step h.settled hstep,
      fun w hw => blocked_of_quiet h.settled.book hstep (h.apart w hw) (by simp)⟩
  | @expire p n s hstep =>
    have hs : Inv { m with server := s } := ⟨hc.setServer s, Settled.step h.settled hstep,
      fun w hw => blocked_of_quiet h.settled.book hstep (h.apart w hw) (by simp)⟩
    exact hs.feed table p.1 n
  | ping n => exact h.feed table m.slaveseldb n
  | beforeSleep => exact h.beforeSleep table
  | @attach s hnew =>
    unfold attachSlave
    by_cases hb : m.backlog = true
    · simp only [if_pos hb]
      exact ⟨⟨hc.ends_le, hc.woff, hc.waiting, hc.honest⟩, h.settled, h.apart⟩
    · simp only [if_neg hb]
      refine ⟨⟨fun c e he => ?_, hc.woff, hc.waiting, hc.honest⟩, h.settled, h.apart⟩
      exact (hc.ends_le c e he).trans (le_add_of_nonneg_right (Int.natCast_nonneg 1))
  | online s o | ack s offset | detach s | freeBacklog hslaves =>
    exact ⟨⟨hc.ends_le, hc.woff, hc.waiting, hc.honest⟩, h.settled, h.apart⟩

/-- **`WAIT` counts slaves that have the writes of the client**, in a run whose `WAIT`s are all
    timely. -/
theorem wait_counts_acks {table : Table X} {m₀ m : Master C S X} {es : List (Event C S X)}
    (hstart : Start m₀) (h : Steps table Timely m₀ es m) : ∀ a ∈ m.answers, a.Honest := by
  have hrun : ∀ {m t : Master C S X} {es : List (Event C S X)}, Steps table Timely m es t → Inv m → Inv t := by
    intro m t es h
    induction h with
    | nil m => exact fun hm => hm
    | cons cond step _ ih => exact fun hm => ih (step.inv hm cond)
  have hinv : Inv m₀ := by
    refine ⟨⟨fun c e he => ?_, fun c _ e he => ?_, fun w hw => ?_, fun a ha => ?_⟩,
      hstart.server.settled, fun w hw => ?_⟩
    · rw [hstart.ends c] at he
      exact absurd he List.not_mem_nil
    · rw [hstart.ends c] at he
      exact absurd he List.not_mem_nil
    · rw [hstart.clientsWaitingAcks] at hw
      exact absurd hw List.not_mem_nil
    · rw [hstart.answers] at ha
      exact absurd ha List.not_mem_nil
    · rw [hstart.clientsWaitingAcks] at hw
      exact absurd hw List.not_mem_nil
  exact (hrun h hinv).counted.honest

/-! ## Two runs -/

/-- A master with no key, no client and no slave. -/
def Master.empty (C S X : Type) : Master C S X :=
  ⟨Blocking.Server.empty C X, 0, false, -1, [], fun _ => 0, [], false, fun _ => [], fun _ => false, []⟩

omit [DecidableEq C] [DecidableEq S] in
theorem start_empty : Start (Master.empty C S X) :=
  ⟨Blocking.start_empty, rfl, rfl, fun _ => rfl, fun _ => rfl, rfl⟩

omit [DecidableEq S] in
theorem serves_of {table : Table X} {m : Master C S X} {u : Blocking.Server C X} (turns : Nat) (es : List (Service C))
    (hserve : handleClientsBlockedOnLists turns m.server = .ok u) (hes : u.served = m.server.served ++ es) :
    Serves table m (propagateServices table m.server { m with server := u } es) := .intro hserve hes

/-- The bytes of the commands for the key `k` of database 0. -/
def tableOfK : Table Nat where
  selectBytes := fun _ => 23
  bytes := fun a => match a.cmd with
    | .set _ _ => 27
    | .push _ _ _ _ => 29
    | .pop _ _ => 21
    | _ => 0
  multiBytes := 15
  execBytes := 14
  getackBytes := 37
  readonly := fun _ => false

theorem wait_counts_acks_set : ∃ m : Master Nat Nat Nat,
    Steps tableOfK Timely (Master.empty Nat Nat Nat) [.attach 0, .online 0 true, .connect 0,
      .command 0 (.data (.set [107] 7)), .ack 0 51, .command 0 (.wait 1 0)] m ∧
    m.answers.map (·.n) = [1] ∧ ∀ a ∈ m.answers, a.Honest := by
  obtain ⟨m, hrun, hn⟩ : ∃ m : Master Nat Nat Nat,
      Steps tableOfK Timely (Master.empty Nat Nat Nat) [.attach 0, .online 0 true, .connect 0,
        .command 0 (.data (.set [107] 7)), .ack 0 51, .command 0 (.wait 1 0)] m ∧
      m.answers.map (·.n) = [1] := by
    refine ⟨_,
      .cons trivial (.attach (by simp [Master.empty])) <|
      .cons trivial (.online 0 true) <|
      .cons trivial (.connect List.not_mem_nil ⟨1, rfl⟩) <|
      .cons (fun hwait => by cases hwait)
        (.data (by decide) ⟨rfl, true, rfl, rfl⟩ (serves_of 1 [] rfl rfl)) <|
      .cons trivial (.ack 0 51) <|
      .cons (fun _ => by decide) (.wait (by decide)) (.nil _), ?_⟩
    decide
  exact ⟨m, hrun, hn, wait_counts_acks start_empty hrun⟩

/-- **A pop that is served later.**  A client is blocked by `BLPOP`, an element is pushed, and its
    `WAIT` counts a slave that has acknowledged nothing of that. -/
theorem wait_after_pop : ∃ m : Master Nat Nat Nat, Start (Master.empty Nat Nat Nat) ∧
    Steps tableOfK (fun _ _ => True) (Master.empty Nat Nat Nat) [.attach 0, .online 0 true, .ack 0 1,
      .connect 0, .connect 1, .command 0 (.data (.blpop [107] [] (some 0))),
      .command 1 (.data (.push [107] [1] [] .tail)), .command 0 (.wait 1 0)] m ∧
    ∃ a ∈ m.answers, a.client = 0 ∧ a.n = 1 ∧ a.slaves = [⟨0, true, 1⟩] ∧ a.ends = [74] ∧ ¬ a.Honest := by
  refine ⟨_, start_empty,
    .cons trivial (.attach (by simp [Master.empty])) <|
    .cons trivial (.online 0 true) <|
    .cons trivial (.ack 0 1) <|
    .cons trivial (.connect List.not_mem_nil ⟨1, rfl⟩) <|
    .cons trivial (.connect (by decide) ⟨1, rfl⟩) <|
    -- the client blocks, and its `woff` is that of the slave
    .cons trivial (.data (by decide) ⟨rfl, false, rfl, rfl⟩ (serves_of 1 [] rfl rfl)) <|
    -- the push, and the pop for the client
    .cons trivial (.data (by decide) ⟨rfl, true, rfl, rfl⟩
      (serves_of 9 [⟨0, (0, [107]), [1], .handed⟩] rfl rfl)) <|
    .cons trivial (.wait (by decide)) (.nil _), ?_⟩
  decide

/-- **A `WAIT` in a transaction** counts by the offset before the transaction. -/
theorem wait_in_exec : ∃ m : Master Nat Nat Nat, Start (Master.empty Nat Nat Nat) ∧
    Steps tableOfK (fun _ _ => True) (Master.empty Nat Nat Nat) [.attach 0, .online 0 true, .connect 0,
      .exec 0 [.data (.set [107] 7), .wait 1 0]] m ∧ ∃ a ∈ m.answers, a.n = 1 ∧ ¬ a.Honest := by
  refine ⟨_, start_empty,
    .cons trivial (.attach (by simp [Master.empty])) <|
    .cons trivial (.online 0 true) <|
    .cons trivial (.connect List.not_mem_nil ⟨1, rfl⟩) <|
    .cons trivial (.exec (by decide)
      (.cons (.data ⟨rfl, true, rfl, rfl⟩) (.cons (.wait 1 0) (.nil _ _))) (serves_of 1 [] rfl rfl))
      (.nil _), ?_⟩
  decide

end Redis.Wait
