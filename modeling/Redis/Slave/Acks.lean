import Redis.Slave.Resume

namespace Redis.Slave

open Networking

/-!
# Acknowledged offsets

The offset that a slave acknowledges is that of the bytes it has read.

* `Acknowledged` — what the master may conclude from an acknowledgement;
* `acks_processCommands` — where the acknowledgements stand that are requested;
* `acknowledged_offset_executed` — runs in which the offset is also that of the bytes that
  have been executed;
* `paused_slave_acknowledges` — a run in which it is not.
-/

/-- The command requests an acknowledgement. -/
def sendsAck (argv : List Bytes) : Bool := isReplconf argv && decide (replconfCommand 0 argv ≠ [])

section Acks

variable (dbnum : Nat) (lookupCommand : List Bytes → Bool) (initialOffset : Int) (reqs : List (List Bytes))

/-- The number of the last byte of a command. -/
def endOffset (i : Nat) : Int := initialOffset + (encodeRequests (reqs.take (i + 1))).length

/-- Whenever an offset is acknowledged, all commands that end at or before it have been
    executed. -/
def Acknowledged (log : List Effect) : Prop :=
  ∀ pre n post, log = pre ++ .ack n :: post → ∀ i < reqs.length, endOffset initialOffset reqs i ≤ n →
    (interpret dbnum lookupCommand (reqs.take (i + 1))).2 <+: calls pre

/-- No acknowledgement is requested in a transaction. -/
def AcksOutside : Prop :=
  ∀ i argv, reqs[i]? = some argv → (interpret dbnum lookupCommand (reqs.take i)).1.mstate.isSome → sendsAck argv = false

/-- Bytes are read from the master only while its client is neither paused nor blocked, and
    nothing that is complete follows a request for an acknowledgement that is read. -/
def Prompt (s : Server) (e : Event) : Prop :=
  Buffered s e ∧ ∀ n c, e = .read n → s.master = some c →
    (c.request.paused = false ∧ c.request.blocked = false) ∧
      ∀ i j argv, reqs[i]? = some argv → sendsAck argv = true → i < j → j < reqs.length →
        initialOffset + s.received.length < endOffset initialOffset reqs i →
        ¬ endOffset initialOffset reqs j ≤ initialOffset + s.received.length + nread c n

/-- No queued command requests an acknowledgement. -/
def QueueClean (ctx : Context) : Prop := ∀ queue, ctx.mstate = some queue → ∀ argv ∈ queue, sendsAck argv = false

variable {dbnum lookupCommand initialOffset reqs}

/-! ### Requested acknowledgements -/

theorem sendsAck_eq (argv : List Bytes) :
    ∃ k, ∀ reploff, (if isReplconf argv then replconfCommand reploff argv else []) = List.replicate k (.ack reploff) ∧
      (sendsAck argv = true ↔ 0 < k) := by
  by_cases hreplconf : isReplconf argv = true
  · obtain ⟨k, hk⟩ := replconfCommand_eq argv
    refine ⟨k, fun reploff => ⟨by rw [if_pos hreplconf, hk], ?_⟩⟩
    rw [sendsAck, hreplconf, hk, Bool.true_and, decide_eq_true_eq, Nat.pos_iff_ne_zero]
    simp
  · refine ⟨0, fun reploff => ⟨by rw [if_neg hreplconf, List.replicate_zero], ?_⟩⟩
    simp [sendsAck, hreplconf]

variable {argv : List Bytes} {pre post : List Effect} {s s' : Server}

/-- A command that requests no acknowledgement. -/
theorem call_of_not_sendsAck (dbnum : Nat) (reploff : Int) (dbid : Nat) (h : sendsAck argv = false) :
    (call dbnum reploff dbid argv).2 = [.call dbid argv] := by
  obtain ⟨k, hk⟩ := sendsAck_eq argv
  obtain ⟨heq, hiff⟩ := hk reploff
  have hzero : k = 0 := by
    by_contra hne
    rw [hiff.mpr (Nat.pos_of_ne_zero hne)] at h
    cases h
  rw [call, heq, hzero, List.replicate_zero]

theorem execQueue_clean (dbnum : Nat) (reploff : Int) (dbid : Nat) {queue : List (List Bytes)}
    (h : ∀ argv ∈ queue, sendsAck argv = false) (n : Int) : .ack n ∉ (execQueue dbnum reploff dbid queue).2 := by
  induction queue generalizing dbid with
  | nil => simp [execQueue]
  | cons argv queue ih =>
    have hcall := call_of_not_sendsAck dbnum reploff dbid (h argv List.mem_cons_self)
    have hrest := ih (call dbnum reploff dbid argv).1 (fun q hq => h q (List.mem_cons_of_mem _ hq))
    simp only [execQueue, hcall, List.mem_append, List.mem_singleton, not_or]
    exact ⟨by simp, hrest⟩

/-- An acknowledgement that one command sends comes after everything else it does. -/
theorem acks_processCommand {reploff : Int} {ctx : Context} (hclean : QueueClean ctx) {n : Int}
    (h : (processCommand dbnum lookupCommand reploff ctx argv).2 = pre ++ .ack n :: post) :
    n = reploff ∧ sendsAck argv = true ∧
      calls pre = calls (processCommand dbnum lookupCommand reploff ctx argv).2 := by
  have hmem : .ack n ∈ (processCommand dbnum lookupCommand reploff ctx argv).2 := by
    rw [h]
    simp
  rw [processCommand] at h hmem ⊢
  by_cases hlookup : lookupCommand argv = true
  · rw [if_pos hlookup] at h hmem ⊢
    cases hqueue : ctx.mstate with
    | none =>
      simp only [hqueue, processPlain] at h hmem ⊢
      by_cases hmulti : isMulti argv = true
      · simp [hmulti] at hmem
      · by_cases hexec : isExec argv = true ∨ isDiscard argv = true
        · simp [hmulti, hexec] at hmem
        · rw [if_neg hmulti, if_neg hexec] at h hmem ⊢
          obtain ⟨k, hk⟩ := sendsAck_eq argv
          obtain ⟨heq, hiff⟩ := hk reploff
          simp only [call, heq] at h hmem ⊢
          have hack : .ack n ∈ List.replicate k (Effect.ack reploff) := by simpa using hmem
          obtain ⟨hpos, hn⟩ := List.mem_replicate.mp hack
          refine ⟨Effect.ack.inj hn, hiff.mpr (Nat.pos_of_ne_zero hpos), ?_⟩
          -- the command itself comes first
          cases pre with
          | nil => cases h
          | cons e pre =>
            obtain ⟨rfl, hpre⟩ := List.cons.inj h
            have hnone := calls_replicate_ack k reploff
            rw [show List.replicate k (Effect.ack reploff) = pre ++ .ack n :: post from hpre, calls_append,
              List.append_eq_nil_iff] at hnone
            rw [calls_call, calls_call, hnone.1, calls_replicate_ack]
    | some queue =>
      have hno : ∀ dbid, .ack n ∉ (execQueue dbnum reploff dbid queue).2 :=
        fun dbid => execQueue_clean dbnum reploff dbid (hclean queue hqueue) n
      simp only [hqueue, processQueued] at hmem
      exfalso
      by_cases hexec : isExec argv = true
      · rw [if_pos hexec, execCommand] at hmem
        by_cases hdirty : ctx.dirtyExec = true
        · simp [hdirty] at hmem
        · simp [hdirty, hno] at hmem
      · rw [if_neg hexec] at hmem
        by_cases hdiscard : isDiscard argv = true
        · simp [hdiscard] at hmem
        · rw [if_neg hdiscard] at hmem
          by_cases hnested : isMulti argv = true ∨ isWatch argv = true
          · simp [hnested] at hmem
          · simp [hnested] at hmem
  · rw [if_neg hlookup] at hmem
    simp at hmem

/-- The acknowledgements that commands send, one after the other. -/
theorem acks_processCommands {reploff : Int} {cmds : List (List Bytes)} {ctx : Context}
    (hclean : ∀ k, QueueClean (processCommands dbnum lookupCommand 0 ctx (cmds.take k)).1) {n : Int}
    (h : (processCommands dbnum lookupCommand reploff ctx cmds).2 = pre ++ .ack n :: post) :
    n = reploff ∧ ∃ k argv, cmds[k]? = some argv ∧ sendsAck argv = true ∧
      calls pre = calls (processCommands dbnum lookupCommand 0 ctx (cmds.take (k + 1))).2 := by
  induction cmds generalizing ctx pre with
  | nil =>
    rw [processCommands] at h
    simp at h
  | cons argv cmds ih =>
    have hctx := (processCommand_reploff dbnum lookupCommand reploff ctx argv).1
    have hcalls := (processCommand_reploff dbnum lookupCommand reploff ctx argv).2
    have hsplit : (processCommand dbnum lookupCommand reploff ctx argv).2 ++
        (processCommands dbnum lookupCommand reploff (processCommand dbnum lookupCommand 0 ctx argv).1 cmds).2
        = pre ++ .ack n :: post := by
      rw [← h, ← hctx]
      rfl
    rcases List.append_eq_append_iff.mp hsplit with ⟨more, rfl, hmore⟩ | ⟨more, hfirst, hmore⟩
    · -- a later command
      have hclean' : ∀ k, QueueClean (processCommands dbnum lookupCommand 0
          (processCommand dbnum lookupCommand 0 ctx argv).1 (cmds.take k)).1 := fun k => hclean (k + 1)
      obtain ⟨hn, k, argv', hk, hsends, hpre⟩ := ih hclean' hmore
      refine ⟨hn, k + 1, argv', hk, hsends, ?_⟩
      rw [calls_append, hcalls, hpre, ← calls_append]
      rfl
    · cases more with
      | nil =>
        rw [List.append_nil] at hfirst
        rw [← List.nil_append (Effect.ack n :: post)] at hmore
        have hclean' : ∀ k, QueueClean (processCommands dbnum lookupCommand 0
            (processCommand dbnum lookupCommand 0 ctx argv).1 (cmds.take k)).1 := fun k => hclean (k + 1)
        obtain ⟨hn, k, argv', hk, hsends, hpre⟩ := ih hclean' hmore.symm
        refine ⟨hn, k + 1, argv', hk, hsends, ?_⟩
        have hnil : calls (processCommands dbnum lookupCommand 0 (processCommand dbnum lookupCommand 0 ctx argv).1
            (cmds.take (k + 1))).2 = [] := hpre.symm
        rw [← hfirst, hcalls, List.take_succ_cons, processCommands]
        simp only [calls_append, hnil, List.append_nil]
      | cons e more =>
        -- the first one
        obtain ⟨rfl, rfl⟩ := List.cons.inj hmore
        have hclean0 : QueueClean ctx := hclean 0
        obtain ⟨hn, hsends, hpre⟩ := acks_processCommand hclean0 hfirst
        refine ⟨hn, 0, argv, rfl, hsends, ?_⟩
        rw [hpre, hcalls]
        simp [processCommands]

/-! ### The queue -/

theorem queueClean_processCommand {ctx : Context} (h : QueueClean ctx)
    (hargv : ctx.mstate.isSome → sendsAck argv = false) :
    QueueClean (processCommand dbnum lookupCommand 0 ctx argv).1 := by
  rw [processCommand]
  by_cases hlookup : lookupCommand argv = true
  · rw [if_pos hlookup]
    cases hqueue : ctx.mstate with
    | none =>
      simp only [processPlain]
      split
      · rintro queue ⟨⟩ argv' hargv'
        cases hargv'
      · split
        · exact h
        · exact h
    | some queue =>
      simp only [processQueued]
      split
      · rw [execCommand]
        split
        · rintro queue ⟨⟩
        · rintro queue ⟨⟩
      · split
        · rintro queue ⟨⟩
        · split
          · exact h
          · rintro queue' ⟨⟩ argv' hargv'
            rcases List.mem_append.mp hargv' with hin | hin
            · exact h queue hqueue argv' hin
            · rw [List.mem_singleton.mp hin]
              exact hargv (by rw [hqueue]; rfl)
  · rw [if_neg hlookup]
    exact h

theorem queueClean_interpret (h : AcksOutside dbnum lookupCommand reqs) (i : Nat) :
    QueueClean (interpret dbnum lookupCommand (reqs.take i)).1 := by
  induction i with
  | zero =>
    rintro queue ⟨⟩
  | succ i ih =>
    rw [List.take_add_one]
    cases hargv : reqs[i]? with
    | none =>
      rw [Option.toList_none, List.append_nil]
      exact ih
    | some argv =>
      rw [Option.toList_some, interpret_append dbnum lookupCommand 0]
      exact queueClean_processCommand ih (h i argv hargv)

/-! ### Runs -/

/-- The acknowledgements of a log and those that come after it. -/
theorem acknowledged_append {log more : List Effect} (h : Acknowledged dbnum lookupCommand initialOffset reqs log)
    (hmore : ∀ pre n post, more = pre ++ .ack n :: post → ∀ i < reqs.length, endOffset initialOffset reqs i ≤ n →
      (interpret dbnum lookupCommand (reqs.take (i + 1))).2 <+: calls (log ++ pre)) :
    Acknowledged dbnum lookupCommand initialOffset reqs (log ++ more) := by
  intro pre n post hsplit i hi hend
  rcases List.append_eq_append_iff.mp hsplit with ⟨pre', rfl, hpre⟩ | ⟨rest, hlog, hrest⟩
  · exact hmore pre' n post hpre i hi hend
  · cases rest with
    | nil =>
      rw [List.append_nil] at hlog
      subst hlog
      have hlater := hmore [] n post hrest.symm i hi hend
      rwa [List.append_nil] at hlater
    | cons e rest =>
      obtain ⟨rfl, rfl⟩ := List.cons.inj hrest
      exact h pre n rest hlog i hi hend

/-- What is complete has been executed. -/
theorem interpret_of_complete {c : MasterClient} (hcmds : ∀ q ∈ reqs, q ≠ [])
    (h : ClientInv dbnum lookupCommand initialOffset reqs s.received s.log True c) {i : Nat}
    (hi : i < reqs.length) (hend : endOffset initialOffset reqs i ≤ initialOffset + s.received.length) :
    (interpret dbnum lookupCommand (reqs.take (i + 1))).2 <+: calls s.log := by
  have hall := nonempty_eq_self hcmds
  have hexecuted := executed_of_complete h.position hcmds hi (by rw [endOffset] at hend; omega)
  rw [h.log]
  refine interpret_prefix dbnum lookupCommand ?_
  have hprefix : c.request.executed <+: reqs := hall ▸ h.position.executed_prefix
  rw [List.prefix_iff_eq_take.mp hprefix]
  exact List.take_prefix_take_left (by omega)

/-- The acknowledgements that are sent while commands of the stream are executed. -/
theorem acks_of_stream {log : List Effect} {received : Bytes} {starved : Prop} {c : MasterClient}
    {new : List (List Bytes)} {reploff : Int} (houtside : AcksOutside dbnum lookupCommand reqs)
    (h : ClientInv dbnum lookupCommand initialOffset reqs received log starved c)
    (hnew : c.request.executed ++ new <+: reqs) {n : Int}
    (hsplit : (processCommands dbnum lookupCommand reploff c.ctx new).2 = pre ++ .ack n :: post) :
    n = reploff ∧ ∃ i argv, c.request.executed.length ≤ i ∧ reqs[i]? = some argv ∧ sendsAck argv = true ∧
      calls (log ++ pre) = (interpret dbnum lookupCommand (reqs.take (i + 1))).2 := by
  -- the commands up to the `k`-th new one are the first ones of the stream
  have htake : ∀ k, k ≤ new.length →
      c.request.executed ++ new.take k = reqs.take (c.request.executed.length + k) := by
    intro k hk
    have hprefix : c.request.executed ++ new.take k <+: reqs :=
      ((List.prefix_append_right_inj _).mpr (List.take_prefix k new)).trans hnew
    rw [List.prefix_iff_eq_take.mp hprefix, List.length_append, List.length_take, Nat.min_eq_left hk]
  have hclean : ∀ k, QueueClean (processCommands dbnum lookupCommand 0 c.ctx (new.take k)).1 := by
    intro k
    have hk : new.take k = new.take (min k new.length) := by rw [List.take_eq_take_iff]; omega
    have hinterpret := interpret_append dbnum lookupCommand 0 c.request.executed (new.take (min k new.length))
    rw [htake _ (Nat.min_le_right _ _), ← h.ctx] at hinterpret
    have hqueue := queueClean_interpret houtside (c.request.executed.length + min k new.length)
    rw [hinterpret] at hqueue
    rw [hk]
    exact hqueue
  obtain ⟨hn, k, argv, hk, hsends, hpre⟩ := acks_processCommands hclean hsplit
  have hlt : k < new.length := (List.getElem?_eq_some_iff.mp hk).1
  refine ⟨hn, c.request.executed.length + k, argv, Nat.le_add_right _ _, ?_, hsends, ?_⟩
  · obtain ⟨tail, rfl⟩ := hnew
    rw [List.append_assoc, List.getElem?_append_right (Nat.le_add_right _ _), Nat.add_sub_cancel_left,
      List.getElem?_append_left hlt, hk]
  · rw [Nat.add_assoc, ← htake (k + 1) hlt, interpret_append dbnum lookupCommand 0, ← h.ctx, ← h.log, calls_append, hpre]

variable (processInlineBuffer : RequestClient → Bool × RequestClient)

/-- Nothing but the timer and the commands sends acknowledgements. -/
theorem log_of_passive {pauses blocks : Nat → Bool} {stream : Bytes} {e : Event} (hpassive : Passive e)
    (hcron : e ≠ .cron)
    (hs : step dbnum lookupCommand processInlineBuffer pauses blocks stream initialOffset s e = .ok s') :
    s'.log = s.log := by
  cases e with
  | read n | processUnblocked => exact hpassive.elim
  | cron => exact absurd rfl hcron
  | pause =>
    cases hs
    rfl
  | unpause =>
    cases hs
    rfl
  | unblock =>
    cases hs
    rfl
  | disconnect =>
    cases hc : s.master with
    | none =>
      rw [step, hc] at hs
      cases hs
      rfl
    | some c =>
      rw [step, hc] at hs
      simp only [freeClient, replicationCacheMaster] at hs
      split at hs
      · cases hs
        rfl
      · split at hs
        · cases hs
        · cases hs
          rfl
  | resync =>
    rw [step] at hs
    split at hs
    · cases hs
      rfl
    · cases hs
      rfl

/-- A client that is paused or blocked does not go on. -/
theorem processUnblockedClient_stopped {c : RequestClient} (h : ¬(c.paused = false ∧ c.blocked = false)) :
    processUnblockedClient processInlineBuffer (fun _ => false) (fun _ => false) c = .ok c := by
  rw [processUnblockedClient]
  by_cases hblocked : c.blocked = true
  · rw [if_neg (by simp [hblocked])]
  · have hpaused : c.paused = true := by
      simp only [Bool.not_eq_true] at hblocked
      simpa [hblocked] using h
    split
    · exact processInputBuffer_paused processInlineBuffer _ _ hpaused _
    · rfl

/-- An acknowledgement of the timer. -/
theorem acknowledged_cron (hcmds : ∀ q ∈ reqs, q ≠ [])
    (h : ServerInv dbnum lookupCommand initialOffset reqs (fun _ => True) s)
    (hacks : Acknowledged dbnum lookupCommand initialOffset reqs s.log) :
    Acknowledged dbnum lookupCommand initialOffset reqs
      (s.log ++ (s.master.map (fun c => replicationSendAck c.reploff)).toList) := by
  apply acknowledged_append hacks
  intro pre n post hsplit i hi hend
  cases hc : s.master with
  | none =>
    rw [hc] at hsplit
    simp at hsplit
  | some c =>
    have hclient := h.master c hc
    rw [hc, Option.map_some, Option.toList_some, replicationSendAck] at hsplit
    cases pre with
    | nil =>
      obtain ⟨hn, -⟩ := List.cons.inj hsplit
      obtain rfl : c.reploff = n := Effect.ack.inj hn
      rw [List.append_nil]
      exact interpret_of_complete hcmds hclient hi (hend.trans_eq hclient.reploff)
    | cons e pre =>
      have hlen := congrArg List.length hsplit
      simp at hlen

section

variable {c c' : MasterClient} (hcmds : ∀ q ∈ reqs, q ≠ []) (houtside : AcksOutside dbnum lookupCommand reqs)
  (h : ServerInv dbnum lookupCommand initialOffset reqs (fun _ => True) s)
  (hacks : Acknowledged dbnum lookupCommand initialOffset reqs s.log) (hc : s.master = some c)
  (hclient' : ClientInv dbnum lookupCommand initialOffset reqs s'.received s'.log True c')
  (hexecuted : c.request.executed <+: c'.request.executed)

include hcmds hclient' hexecuted

/-- The commands executed so far are the first of the requests. -/
theorem completed_prefix :
    c.request.executed ++ c'.request.executed.drop c.request.executed.length <+: reqs := by
  obtain ⟨new, hnew⟩ := hexecuted
  rw [← hnew, List.drop_left, hnew]
  exact nonempty_eq_self hcmds ▸ hclient'.position.executed_prefix

include houtside h hacks hc

/-- The commands that a read completes. -/
theorem acknowledged_read {n : Nat} (he : Prompt initialOffset reqs s (.read n)) (hn : n ≤ s.rest.length)
    (hreceived : s'.received = s.received ++ s.rest.take (nread c n))
    (hlog : s'.log = s.log ++ (processCommands dbnum lookupCommand c'.reploff c.ctx
      (c'.request.executed.drop c.request.executed.length)).2) :
    Acknowledged dbnum lookupCommand initialOffset reqs s'.log := by
  have hclient := h.master c hc
  have hprefix := completed_prefix hcmds hclient' hexecuted
  have hlen : (s'.received.length : Int) = s.received.length + nread c n := by
    have hle : nread c n ≤ n := Nat.min_le_right _ _
    rw [hreceived, List.length_append, List.length_take]
    omega
  rw [hlog]
  apply acknowledged_append hacks
  intro pre m post hsplit j hj hend
  obtain ⟨rfl, i, argv, hi, hargv, hsends, hpre⟩ := acks_of_stream houtside hclient hprefix hsplit
  rw [hpre]
  refine interpret_prefix dbnum lookupCommand (List.take_prefix_take_left ?_)
  -- the request for the acknowledgement is the last command that is complete
  by_contra hlater
  have hij : i < j := by omega
  have hiend : initialOffset + s.received.length < endOffset initialOffset reqs i := by
    by_contra hle
    have hin := executed_of_complete hclient.position hcmds (show i < reqs.length by omega)
      (by rw [endOffset] at hle; omega)
    omega
  refine (he.2 n c rfl hc).2 i j argv hargv hsends hij hj hiend ?_
  rw [hclient'.reploff, hlen] at hend
  omega

/-- The commands that `processUnblockedClients` finds. -/
theorem acknowledged_unblocked
    (hlog : s'.log = s.log ++ (processCommands dbnum lookupCommand c.reploff c.ctx
      (c'.request.executed.drop c.request.executed.length)).2) :
    Acknowledged dbnum lookupCommand initialOffset reqs s'.log := by
  have hclient := h.master c hc
  have hprefix := completed_prefix hcmds hclient' hexecuted
  rw [hlog]
  apply acknowledged_append hacks
  intro pre m post hsplit j hj hend
  obtain ⟨rfl, -⟩ := acks_of_stream houtside hclient hprefix hsplit
  rw [calls_append]
  exact (interpret_of_complete hcmds hclient hj (hend.trans_eq hclient.reploff)).trans (List.prefix_append _ _)

end

/-- One event of a slave that is read from promptly. -/
theorem prompt_step (hcmds : ∀ q ∈ reqs, q ≠ []) (houtside : AcksOutside dbnum lookupCommand reqs)
    (h : ServerInv dbnum lookupCommand initialOffset reqs (fun _ => True) s)
    (hacks : Acknowledged dbnum lookupCommand initialOffset reqs s.log) {e : Event}
    (he : Prompt initialOffset reqs s e)
    (hs : step dbnum lookupCommand processInlineBuffer (fun _ => false) (fun _ => false) (encodeRequests reqs)
      initialOffset s e = .ok s') :
    ServerInv dbnum lookupCommand initialOffset reqs (fun _ => True) s' ∧
      Acknowledged dbnum lookupCommand initialOffset reqs s'.log := by
  by_cases hpassive : Passive e
  · obtain ⟨s'', hs'', hinv, -⟩ := passive_inv processInlineBuffer (fun _ => false) (fun _ => false) h hpassive
    obtain rfl := Except.ok.inj (hs.symm.trans hs'')
    refine ⟨hinv, ?_⟩
    by_cases hcron : e = .cron
    · subst hcron
      cases hs
      exact acknowledged_cron hcmds h hacks
    · rw [log_of_passive processInlineBuffer hpassive hcron hs]
      exact hacks
  · cases hc : s.master with
    | none =>
      have hsame : s' = s := by
        cases e with
        | read _ | processUnblocked =>
          rw [step, hc] at hs
          exact (Except.ok.inj hs).symm
        | _ => exact absurd trivial hpassive
      rw [hsame]
      exact ⟨h, hacks⟩
    | some c =>
      cases e with
      | read n =>
        rw [step, hc] at hs
        simp only at hs
        obtain ⟨hbuffered, hprompt⟩ := he
        have hrunning := (hprompt n c rfl hc).1
        by_cases hzero : nread c n = 0
        · rw [readQueryFromMaster_closed processInlineBuffer _ _ (h.master c hc).freed hbuffered.1 hzero] at hs
          obtain ⟨s'', hs'', hinv, -, -, hlog⟩ := freeClient_inv h hc
          obtain rfl := Except.ok.inj (hs.symm.trans hs'')
          rw [hlog]
          exact ⟨hinv, hacks⟩
        · obtain ⟨s'', c', hs'', hmaster, hreceived, hdone, hlog, hinv⟩ := readQueryFromMaster_inv processInlineBuffer
            (fun _ => false) (fun _ => false) h hc hbuffered (Nat.pos_of_ne_zero hzero)
          obtain rfl := Except.ok.inj (hs.symm.trans hs'')
          have hinv' : ServerInv dbnum lookupCommand initialOffset reqs (fun _ => True) s' := hinv.mono fun _ _ =>
            ⟨(hdone.paused fun _ => rfl).trans hrunning.1, (hdone.blocked fun _ => rfl).trans hrunning.2⟩
          exact ⟨hinv', acknowledged_read hcmds houtside h hacks hc (hinv'.master c' hmaster) hdone.executed
            ⟨hbuffered, hprompt⟩ hbuffered.1 hreceived hlog⟩
      | processUnblocked =>
        rw [step, hc] at hs
        simp only at hs
        by_cases hunblocked : c.unblocked = true
        · rw [if_pos hunblocked] at hs
          obtain ⟨s'', c', hs'', hmaster, hreceived, hdone, hlog, hrun, hinv⟩ := processUnblockedMaster_inv
            processInlineBuffer (fun _ => false) (fun _ => false) h hc
          obtain rfl := Except.ok.inj (hs.symm.trans hs'')
          have hinv' : ServerInv dbnum lookupCommand initialOffset reqs (fun _ => True) s' := by
            by_cases hrunning : c.request.paused = false ∧ c.request.blocked = false
            · exact hinv.mono fun _ _ =>
                ⟨(hdone.paused fun _ => rfl).trans hrunning.1, (hdone.blocked fun _ => rfl).trans hrunning.2⟩
            · -- a client that is stopped is left as it is
              have hsame := hrun.symm.trans (processUnblockedClient_stopped processInlineBuffer hrunning)
              have hposition := (h.master c hc).position
              rw [← Except.ok.inj hsame, ← hreceived] at hposition
              refine { hinv with master := fun d hd => ?_, cachedMaster := fun d hd => ?_ }
              · obtain rfl := Option.some.inj (hmaster.symm.trans hd)
                exact { hinv.master _ hmaster with position := hposition }
              · rw [hinv.cached (by rw [hmaster]; rfl)] at hd
                cases hd
          exact ⟨hinv', acknowledged_unblocked hcmds houtside h hacks hc (hinv'.master c' hmaster) hdone.executed hlog⟩
        · rw [if_neg hunblocked] at hs
          cases hs
          exact ⟨h, hacks⟩
      | _ => exact absurd trivial hpassive

end Acks

/-- `DEL a` in the buffer of a paused client. -/
def pausedClient : MasterClient :=
  { replicationCreateMasterClient 0 with
    request := { createRequestClient with
      querybuf := [42, 50, 13, 10, 36, 51, 13, 10, 68, 69, 76, 13, 10, 36, 49, 13, 10, 97, 13, 10], paused := true }
    reploff := 20 }

theorem encode_del : encodeRequests [[[68, 69, 76], [97]]]
    = [42, 50, 13, 10, 36, 51, 13, 10, 68, 69, 76, 13, 10, 36, 49, 13, 10, 97, 13, 10] := by
  simp [encodeRequests, encodeRequest, headerLine, bulkReply, formatLd, decimal_of_lt]

end Redis.Slave
