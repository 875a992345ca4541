import Redis.Slave.Link
import Redis.Lib.Outcome
import Mathlib.Tactic.Ring

namespace Redis.Slave

open Networking

/-!
# Partial resynchronizations

* `calls` — what is executed, without the acknowledgements;
* `processCommands_append`, `calls_processCommands` — the commands of a stream are executed
  alike, however they are divided into reads;
* `ClientInv`, `ServerInv` — where the client of the master is in the stream;
* `partial_resync_transparent` — a link that breaks and is continued.
-/

/-- What is executed. -/
def calls (log : List Effect) : List Effect := log.filter (fun e => match e with | .ack _ => false | _ => true)

@[simp] theorem calls_nil : calls [] = [] := rfl

@[simp] theorem calls_append (log log' : List Effect) : calls (log ++ log') = calls log ++ calls log' :=
  List.filter_append ..

@[simp] theorem calls_call (dbid : Nat) (argv : List Bytes) (log : List Effect) :
    calls (.call dbid argv :: log) = .call dbid argv :: calls log := rfl

@[simp] theorem calls_multi (log : List Effect) : calls (.multi :: log) = .multi :: calls log := rfl

@[simp] theorem calls_exec (log : List Effect) : calls (.exec :: log) = .exec :: calls log := rfl

@[simp] theorem calls_ack (offset : Int) (log : List Effect) : calls (.ack offset :: log) = calls log := rfl

/-! ### Commands -/

/-- The options send a number of acknowledgements. -/
theorem replconfOptions_eq (args : List Bytes) :
    ∃ k, ∀ reploff, replconfOptions reploff args = List.replicate k (.ack reploff) := by
  induction args using replconfOptions.induct with
  | case1 option value rest hport hvalue ih =>
    obtain ⟨k, ih⟩ := ih
    exact ⟨k, fun reploff => by rw [replconfOptions, if_pos hport, if_pos hvalue, ih]⟩
  | case2 option value rest hport hvalue =>
    exact ⟨0, fun reploff => by rw [replconfOptions, if_pos hport, if_neg hvalue, List.replicate_zero]⟩
  | case3 option value rest hport haddr hlen ih =>
    obtain ⟨k, ih⟩ := ih
    exact ⟨k, fun reploff => by rw [replconfOptions, if_neg hport, if_pos haddr, if_pos hlen, ih]⟩
  | case4 option value rest hport haddr hlen =>
    exact ⟨0, fun reploff => by rw [replconfOptions, if_neg hport, if_pos haddr, if_neg hlen, List.replicate_zero]⟩
  | case5 option value rest hport haddr hcapa ih =>
    obtain ⟨k, ih⟩ := ih
    exact ⟨k, fun reploff => by rw [replconfOptions, if_neg hport, if_neg haddr, if_pos hcapa, ih]⟩
  | case6 option value rest hport haddr hcapa hack =>
    exact ⟨0, fun reploff => by
      rw [replconfOptions, if_neg hport, if_neg haddr, if_neg hcapa, if_pos hack, List.replicate_zero]⟩
  | case7 option value rest hport haddr hcapa hack hgetack ih =>
    obtain ⟨k, ih⟩ := ih
    exact ⟨k + 1, fun reploff => by
      rw [replconfOptions, if_neg hport, if_neg haddr, if_neg hcapa, if_neg hack, if_pos hgetack, replicationSendAck, ih,
        List.replicate_succ]⟩
  | case8 option value rest hport haddr hcapa hack hgetack =>
    exact ⟨0, fun reploff => by
      rw [replconfOptions, if_neg hport, if_neg haddr, if_neg hcapa, if_neg hack, if_neg hgetack, List.replicate_zero]⟩
  | case9 args hargs =>
    refine ⟨0, fun reploff => ?_⟩
    rw [replconfOptions.eq_def]
    split
    · next option value rest => exact absurd rfl (hargs option value rest)
    · rfl

theorem replconfCommand_eq (argv : List Bytes) :
    ∃ k, ∀ reploff, replconfCommand reploff argv = List.replicate k (.ack reploff) := by
  by_cases hodd : argv.length % 2 = 0
  · exact ⟨0, fun reploff => by rw [replconfCommand, if_pos hodd, List.replicate_zero]⟩
  · obtain ⟨k, hk⟩ := replconfOptions_eq argv.tail
    exact ⟨k, fun reploff => by rw [replconfCommand, if_neg hodd, hk]⟩

theorem calls_replicate_ack (k : Nat) (offset : Int) : calls (List.replicate k (.ack offset)) = [] := by
  induction k with
  | zero => rfl
  | succ k ih => rw [List.replicate_succ, calls_ack, ih]

theorem calls_replconfCommand (reploff : Int) (argv : List Bytes) : calls (replconfCommand reploff argv) = [] := by
  obtain ⟨k, hk⟩ := replconfCommand_eq argv
  rw [hk, calls_replicate_ack]

section Commands

variable (dbnum : Nat) (lookupCommand : List Bytes → Bool)

variable (reploff : Int)

theorem calls_call_eq (dbid : Nat) (argv : List Bytes) :
    (call dbnum reploff dbid argv).1 = (call dbnum 0 dbid argv).1 ∧
      calls (call dbnum reploff dbid argv).2 = [.call dbid argv] := by
  refine ⟨rfl, ?_⟩
  rw [call, calls_call]
  by_cases hreplconf : isReplconf argv = true
  · rw [if_pos hreplconf, calls_replconfCommand]
  · rw [if_neg hreplconf, calls_nil]

/-- The offset matters to the acknowledgements only. -/
theorem execQueue_reploff (dbid : Nat) (queue : List (List Bytes)) :
    (execQueue dbnum reploff dbid queue).1 = (execQueue dbnum 0 dbid queue).1 ∧
      calls (execQueue dbnum reploff dbid queue).2 = calls (execQueue dbnum 0 dbid queue).2 := by
  induction queue generalizing dbid with
  | nil => exact ⟨rfl, rfl⟩
  | cons argv queue ih =>
    obtain ⟨hdb, hcalls⟩ := calls_call_eq dbnum reploff dbid argv
    obtain ⟨-, hcalls0⟩ := calls_call_eq dbnum 0 dbid argv
    obtain ⟨hdb', hcalls'⟩ := ih (call dbnum 0 dbid argv).1
    simp only [execQueue, hdb, calls_append, hcalls, hcalls0, hdb', hcalls']
    exact ⟨trivial, trivial⟩

theorem processCommand_reploff (ctx : Context) (argv : List Bytes) :
    (processCommand dbnum lookupCommand reploff ctx argv).1 = (processCommand dbnum lookupCommand 0 ctx argv).1 ∧
      calls (processCommand dbnum lookupCommand reploff ctx argv).2
        = calls (processCommand dbnum lookupCommand 0 ctx argv).2 := by
  rw [processCommand, processCommand]
  split
  · cases ctx.mstate with
    | none =>
      obtain ⟨hdb, hcalls⟩ := calls_call_eq dbnum reploff ctx.dbid argv
      obtain ⟨-, hcalls0⟩ := calls_call_eq dbnum 0 ctx.dbid argv
      simp only [processPlain]
      split
      · exact ⟨rfl, rfl⟩
      · split
        · exact ⟨rfl, rfl⟩
        · simp only [hdb, hcalls, hcalls0]
          exact ⟨trivial, trivial⟩
    | some queue =>
      obtain ⟨hdb, hcalls⟩ := execQueue_reploff dbnum reploff ctx.dbid queue
      simp only [processQueued]
      split
      · rw [execCommand, execCommand]
        split
        · exact ⟨rfl, rfl⟩
        · simp only [hdb, calls_append, calls_multi, List.cons_append, hcalls]
          exact ⟨trivial, trivial⟩
      · split
        · exact ⟨rfl, rfl⟩
        · split
          · exact ⟨rfl, rfl⟩
          · exact ⟨rfl, rfl⟩
  · exact ⟨rfl, rfl⟩

theorem processCommands_reploff (ctx : Context) (cmds : List (List Bytes)) :
    (processCommands dbnum lookupCommand reploff ctx cmds).1 = (processCommands dbnum lookupCommand 0 ctx cmds).1 ∧
      calls (processCommands dbnum lookupCommand reploff ctx cmds).2
        = calls (processCommands dbnum lookupCommand 0 ctx cmds).2 := by
  induction cmds generalizing ctx with
  | nil => exact ⟨rfl, rfl⟩
  | cons argv cmds ih =>
    obtain ⟨hctx, hcalls⟩ := processCommand_reploff dbnum lookupCommand reploff ctx argv
    obtain ⟨hctx', hcalls'⟩ := ih (processCommand dbnum lookupCommand 0 ctx argv).1
    simp only [processCommands, hctx, calls_append, hcalls, hctx', hcalls']
    exact ⟨trivial, trivial⟩

theorem processCommands_append (ctx : Context) (cmds cmds' : List (List Bytes)) :
    processCommands dbnum lookupCommand reploff ctx (cmds ++ cmds')
      = ((processCommands dbnum lookupCommand reploff (processCommands dbnum lookupCommand reploff ctx cmds).1 cmds').1,
        (processCommands dbnum lookupCommand reploff ctx cmds).2 ++
          (processCommands dbnum lookupCommand reploff (processCommands dbnum lookupCommand reploff ctx cmds).1 cmds').2) := by
  induction cmds generalizing ctx with
  | nil => simp [processCommands]
  | cons argv cmds ih => simp only [List.cons_append, processCommands, ih, List.append_assoc]

/-- What a new client executes for these commands. -/
def interpret (cmds : List (List Bytes)) : Context × List Effect :=
  let r := processCommands dbnum lookupCommand 0 (replicationCreateMasterClient 0).ctx cmds
  (r.1, calls r.2)

/-- More commands, at any offset. -/
theorem interpret_append (cmds cmds' : List (List Bytes)) :
    interpret dbnum lookupCommand (cmds ++ cmds')
      = ((processCommands dbnum lookupCommand reploff (interpret dbnum lookupCommand cmds).1 cmds').1,
        (interpret dbnum lookupCommand cmds).2 ++
          calls (processCommands dbnum lookupCommand reploff (interpret dbnum lookupCommand cmds).1 cmds').2) := by
  obtain ⟨hctx, hcalls⟩ := processCommands_reploff dbnum lookupCommand reploff (interpret dbnum lookupCommand cmds).1 cmds'
  rw [hctx, hcalls, interpret, interpret, processCommands_append, calls_append]

theorem interpret_prefix {cmds cmds' : List (List Bytes)} (h : cmds <+: cmds') :
    (interpret dbnum lookupCommand cmds).2 <+: (interpret dbnum lookupCommand cmds').2 := by
  obtain ⟨more, rfl⟩ := h
  rw [interpret_append dbnum lookupCommand 0]
  exact List.prefix_append _ _

end Commands

/-! ### Where the client is in the stream -/

section Invariant

variable (dbnum : Nat) (lookupCommand : List Bytes → Bool) (initialOffset : Int) (reqs : List (List Bytes))

/-- The client of the master has read `received`, and has executed what it has parsed.  If
    `starved`, it has parsed all that can be parsed. -/
structure ClientInv (received : Bytes) (log : List Effect) (starved : Prop) (c : MasterClient) : Prop where
  position : Position c.request ((encodeRequests reqs).drop received.length) reqs starved
  protocolError : c.request.protocolError = none
  freed : c.request.freed = false
  reploff : c.reploff = initialOffset + received.length
  ctx : c.ctx = (interpret dbnum lookupCommand c.request.executed).1
  log : calls log = (interpret dbnum lookupCommand c.request.executed).2

/-- What every event keeps, `starved` telling of which clients more is known. -/
structure ServerInv (starved : MasterClient → Prop) (s : Server) : Prop where
  received : s.received <+: encodeRequests reqs
  cached : s.master.isSome → s.cachedMaster = none
  rest : s.master.isSome → s.rest = (encodeRequests reqs).drop s.received.length
  master : ∀ c, s.master = some c → ClientInv dbnum lookupCommand initialOffset reqs s.received s.log (starved c) c
  cachedMaster : ∀ c, s.cachedMaster = some c →
    ClientInv dbnum lookupCommand initialOffset reqs s.received s.log (starved c) c
  log : calls s.log <+: (interpret dbnum lookupCommand (nonempty reqs)).2

variable {dbnum lookupCommand initialOffset reqs} {received : Bytes} {log : List Effect} {starved starved' : Prop}
  {c : MasterClient} {s : Server} {p p' : MasterClient → Prop}

theorem ClientInv.mono (h : ClientInv dbnum lookupCommand initialOffset reqs received log starved c)
    (himp : starved' → starved) : ClientInv dbnum lookupCommand initialOffset reqs received log starved' c :=
  { h with position := h.position.mono himp }

theorem ServerInv.mono (h : ServerInv dbnum lookupCommand initialOffset reqs p s) (himp : ∀ c, p' c → p c) :
    ServerInv dbnum lookupCommand initialOffset reqs p' s :=
  { h with
    master := fun c hc => (h.master c hc).mono (himp c)
    cachedMaster := fun c hc => (h.cachedMaster c hc).mono (himp c) }

/-- The log of a client is that of a part of the stream. -/
theorem ClientInv.log_prefix (h : ClientInv dbnum lookupCommand initialOffset reqs received log starved c) :
    calls log <+: (interpret dbnum lookupCommand (nonempty reqs)).2 := by
  rw [h.log]
  exact interpret_prefix dbnum lookupCommand h.position.executed_prefix

/-- The flags of a client do not matter. -/
theorem ClientInv.flags (h : ClientInv dbnum lookupCommand initialOffset reqs received log starved c)
    (paused blocked unblocked : Bool) :
    ClientInv dbnum lookupCommand initialOffset reqs received log starved
      { c with request := { c.request with paused, blocked }, unblocked } :=
  ⟨h.position.flags paused blocked, h.protocolError, h.freed, h.reploff, h.ctx, h.log⟩

theorem start_inv (hlimits : ∀ q ∈ reqs, WithinLimits q) :
    ServerInv dbnum lookupCommand initialOffset reqs (fun _ => True) (start (encodeRequests reqs) initialOffset) where
  received := ⟨encodeRequests reqs, rfl⟩
  cached := fun _ => rfl
  rest := fun _ => rfl
  master := by
    rintro c ⟨⟩
    exact ⟨.idle reqs rfl rfl rfl (by simp [replicationCreateMasterClient, createRequestClient]) rfl (Nat.zero_le _)
      hlimits rfl (fun _ => .inl rfl), rfl, rfl, by simp [replicationCreateMasterClient, start], rfl, rfl⟩
  cachedMaster := by
    rintro c ⟨⟩
  log := List.nil_prefix

/-! ### Events -/

/-- A master that is lost is cached as it is, or it is freed. -/
theorem freeClient_inv (h : ServerInv dbnum lookupCommand initialOffset reqs p s) (hc : s.master = some c) :
    ∃ s', freeClient s c = .ok s' ∧ ServerInv dbnum lookupCommand initialOffset reqs p s' ∧ s'.master = none ∧
      s'.received = s.received ∧ s'.log = s.log := by
  have hnone := h.cached (by rw [hc]; rfl)
  rw [freeClient]
  by_cases hodd : c.request.protocolError.isSome = true ∨ c.request.blocked = true ∨ c.unblocked = true
  · rw [if_pos hodd]
    refine ⟨_, rfl, ⟨h.received, by simp, by simp, by simp, ?_, h.log⟩, rfl, rfl, rfl⟩
    intro c' hc'
    exact h.cachedMaster c' hc'
  · rw [if_neg hodd, replicationCacheMaster, hnone, if_neg (by simp)]
    refine ⟨_, rfl, ⟨h.received, by simp, by simp, by simp, ?_, h.log⟩, rfl, rfl, rfl⟩
    rintro c' ⟨⟩
    exact h.master c hc

/-- The requests that were parsed are executed. -/
theorem processRequests_inv {request : RequestClient} {pauses blocks : Nat → Bool} (starved : Prop)
    (hreceived : s.received <+: encodeRequests reqs) (hcached : s.cachedMaster = none)
    (hrest : s.rest = (encodeRequests reqs).drop s.received.length)
    (hposition : Position request ((encodeRequests reqs).drop s.received.length) reqs starved)
    (hdone : Networking.Processed pauses blocks c.request request) (herror : c.request.protocolError = none)
    (hfreed : c.request.freed = false) (hreploff : c.reploff = initialOffset + s.received.length)
    (hctx : c.ctx = (interpret dbnum lookupCommand c.request.executed).1)
    (hlog : calls s.log = (interpret dbnum lookupCommand c.request.executed).2) :
    ∃ s' c', processRequests dbnum lookupCommand s c request = s' ∧ s'.master = some c' ∧ c'.request = request ∧
      s'.received = s.received ∧ c'.reploff = c.reploff ∧
      s'.log = s.log ++ (processCommands dbnum lookupCommand c.reploff c.ctx
        (request.executed.drop c.request.executed.length)).2 ∧
      ServerInv dbnum lookupCommand initialOffset reqs (fun _ => starved) s' := by
  obtain ⟨new, hnew⟩ := hdone.executed
  have hdrop : request.executed.drop c.request.executed.length = new := by
    rw [← hnew, List.drop_left]
  have happend := interpret_append dbnum lookupCommand c.reploff c.request.executed new
  rw [hnew, ← hctx, ← hlog] at happend
  have hclient : ClientInv dbnum lookupCommand initialOffset reqs s.received
      (s.log ++ (processCommands dbnum lookupCommand c.reploff c.ctx new).2) starved
      { c with request, ctx := (processCommands dbnum lookupCommand c.reploff c.ctx new).1 } :=
    ⟨hposition, hdone.protocolError.trans herror, hdone.freed.trans hfreed, hreploff, by rw [happend],
      by rw [happend, calls_append]⟩
  refine ⟨_, _, rfl, rfl, rfl, rfl, rfl, rfl, ⟨hreceived, fun _ => hcached, fun _ => hrest, ?_, ?_, ?_⟩⟩
  · rintro c' ⟨⟩
    rw [processRequests, hdrop]
    exact hclient
  · intro c' hc'
    rw [processRequests, hcached] at hc'
    cases hc'
  · rw [processRequests, hdrop]
    exact hclient.log_prefix

variable (processInlineBuffer : RequestClient → Bool × RequestClient) (pauses blocks : Nat → Bool)

/-- How many bytes `readQueryFromClient` gets when `n` have arrived. -/
def nread (c : MasterClient) (n : Nat) : Nat := min (readLen c.request).toNat n

/-- No more than `n` bytes arrive, and the buffer stays below the limit unless a large
    argument is being read. -/
def Buffered (s : Server) : Event → Prop
  | .read n => n ≤ s.rest.length ∧ ∀ c, s.master = some c →
      c.request.readsLarge ∨ c.request.querybuf.length + nread c n ≤ PROTO_INLINE_MAX_SIZE
  | _ => True

/-- A read that gets nothing finds the link closed. -/
theorem readQueryFromMaster_closed (hfreed : c.request.freed = false) {n : Nat} (hn : n ≤ s.rest.length)
    (hzero : nread c n = 0) :
    readQueryFromMaster dbnum lookupCommand processInlineBuffer pauses blocks s c n = freeClient s c := by
  have hlen : (s.rest.take n).length = n := by
    rw [List.length_take]
    omega
  have hread : readQueryFromClient processInlineBuffer pauses blocks c.request (s.rest.take n)
      = .ok ({ c.request with freed := true }, s.rest.take n) := by
    rw [readQueryFromClient, hlen]
    simp only
    rw [if_pos (show min (readLen c.request).toNat n = 0 from hzero)]
  have hsame : ({ c with request := { c.request with freed := false }, reploff := c.reploff + ((0 : Nat) : Int) } : MasterClient)
      = c := by
    rw [← hfreed]
    simp
  rw [readQueryFromMaster]
  simp only
  rw [hread, Outcome.ok_bind]
  simp only [Nat.sub_self, List.drop_zero, List.take_zero, List.append_nil, if_true, hsame]

/-- A read that gets something. -/
theorem readQueryFromMaster_inv (h : ServerInv dbnum lookupCommand initialOffset reqs p s) (hc : s.master = some c)
    {n : Nat} (hbuffered : Buffered s (.read n)) (hpos : 0 < nread c n) :
    ∃ s' c', readQueryFromMaster dbnum lookupCommand processInlineBuffer pauses blocks s c n = .ok s' ∧
      s'.master = some c' ∧ s'.received = s.received ++ s.rest.take (nread c n) ∧
      Networking.Processed pauses blocks c.request c'.request ∧
      s'.log = s.log ++ (processCommands dbnum lookupCommand c'.reploff c.ctx
        (c'.request.executed.drop c.request.executed.length)).2 ∧
      ServerInv dbnum lookupCommand initialOffset reqs
        (fun _ => c'.request.paused = false ∧ c'.request.blocked = false) s' := by
  obtain ⟨hn, hroom⟩ := hbuffered
  have hclient := h.master c hc
  have hmaster : s.master.isSome = true := by rw [hc]; rfl
  have hrest := h.rest hmaster
  have hroom' : (c.request.readsLarge ∧ (c.request.querybuf.length : Int) + nread c n ≤ c.request.bulklen + 2) ∨
      (¬ c.request.readsLarge ∧ c.request.querybuf.length + nread c n ≤ PROTO_INLINE_MAX_SIZE) := by
    by_cases hlarge : c.request.readsLarge
    · have hle := (hclient.position.readsLarge hlarge).1
      have hlen := readLen_of_large hlarge
      refine .inl ⟨hlarge, ?_⟩
      rw [nread]
      split at hlen <;> omega
    · exact .inr ⟨hlarge, (hroom c hc).resolve_left hlarge⟩
  have hmn : nread c n ≤ n := Nat.min_le_right _ _
  have hposition : Position c.request s.rest reqs False := hrest ▸ hclient.position.mono False.elim
  obtain ⟨request, hread, hposition', hdone⟩ := readQueryFromClient_spec processInlineBuffer pauses blocks
    hposition hclient.protocolError hn rfl hpos hroom'
  -- as many bytes are gone from what arrived as were read
  have hcount : (s.rest.take n).length - ((s.rest.take n).drop (nread c n)).length = nread c n := by
    rw [List.length_drop, List.length_take]
    omega
  have htake : (s.received ++ s.rest.take (nread c n)).length = s.received.length + nread c n := by
    rw [List.length_append, List.length_take]
    omega
  have hdrop : s.rest.drop (nread c n) = (encodeRequests reqs).drop (s.received ++ s.rest.take (nread c n)).length := by
    rw [htake, hrest, List.drop_drop]
  have hprefix : s.received ++ s.rest.take (nread c n) <+: encodeRequests reqs := by
    obtain ⟨tail, htail⟩ := h.received
    have hrest' : s.rest = tail := by rw [hrest, ← htail, List.drop_left]
    refine ⟨tail.drop (nread c n), ?_⟩
    rw [List.append_assoc, hrest', List.take_append_drop, htail]
  have hread' : readQueryFromClient processInlineBuffer pauses blocks c.request (s.rest.take n)
      = .ok (request, (s.rest.take n).drop (nread c n)) := hread
  rw [readQueryFromMaster]
  simp only
  rw [hread', Outcome.ok_bind]
  simp only [hcount]
  have hnotfreed : request.freed = false := hdone.freed.trans hclient.freed
  rw [if_neg (by simp [hnotfreed])]
  obtain ⟨s', c', hs', hmaster', hrequest, hreceived, hreploff, hlog, hinv⟩ := processRequests_inv
    (s := { s with rest := s.rest.drop (nread c n), received := s.received ++ s.rest.take (nread c n) })
    (c := { c with reploff := c.reploff + (nread c n : Int) })
    (request.paused = false ∧ request.blocked = false) hprefix (h.cached hmaster) hdrop (hdrop ▸ hposition') hdone
    hclient.protocolError hclient.freed (by rw [htake, hclient.reploff]; push_cast; ring) hclient.ctx hclient.log
  refine ⟨s', c', by rw [hs'], hmaster', hreceived, by rw [hrequest]; exact hdone, by rw [hrequest, hreploff]; exact hlog, ?_⟩
  rw [hrequest]
  exact hinv

/-- `processUnblockedClients` goes on with what is in the buffer. -/
theorem processUnblockedMaster_inv (h : ServerInv dbnum lookupCommand initialOffset reqs p s) (hc : s.master = some c) :
    ∃ s' c', processUnblockedMaster dbnum lookupCommand processInlineBuffer pauses blocks s c = .ok s' ∧
      s'.master = some c' ∧ s'.received = s.received ∧ Networking.Processed pauses blocks c.request c'.request ∧
      s'.log = s.log ++ (processCommands dbnum lookupCommand c.reploff c.ctx
        (c'.request.executed.drop c.request.executed.length)).2 ∧
      processUnblockedClient processInlineBuffer pauses blocks c.request = .ok c'.request ∧
      ServerInv dbnum lookupCommand initialOffset reqs
        (fun _ => c'.request.paused = false ∧ c'.request.blocked = false) s' := by
  have hclient := h.master c hc
  have hmaster : s.master.isSome = true := by rw [hc]; rfl
  obtain ⟨request, hrun, hposition, hdone⟩ := processUnblockedClient_spec processInlineBuffer pauses blocks
    (hclient.position.mono False.elim) hclient.protocolError
  obtain ⟨s', c', hs', hmaster', hrequest, hreceived, -, hlog, hinv⟩ := processRequests_inv
    (c := { c with unblocked := false }) (request.paused = false ∧ request.blocked = false) h.received (h.cached hmaster)
    (h.rest hmaster) hposition hdone hclient.protocolError hclient.freed hclient.reploff hclient.ctx hclient.log
  refine ⟨s', c', ?_, hmaster', hreceived, by rw [hrequest]; exact hdone, by rw [hrequest]; exact hlog,
    by rw [hrequest]; exact hrun, ?_⟩
  · rw [processUnblockedMaster, hrun, Outcome.ok_bind, hs']
  · rw [hrequest]
    exact hinv

/-- The client goes on where the stream begins again. -/
theorem resync_inv {P : Prop} (h : ServerInv dbnum lookupCommand initialOffset reqs (fun _ => P) s)
    (hc : s.cachedMaster = some c) :
    psyncOffset c = initialOffset + s.received.length + 1 ∧
      ServerInv dbnum lookupCommand initialOffset reqs (fun _ => P)
        { s with
          master := some (replicationResurrectCachedMaster c)
          cachedMaster := none
          rest := (encodeRequests reqs).drop (psyncOffset c - (initialOffset + 1)).toNat } := by
  have hclient := h.cachedMaster c hc
  have hoffset : psyncOffset c = initialOffset + s.received.length + 1 := by rw [psyncOffset, hclient.reploff]
  have hplace : (psyncOffset c - (initialOffset + 1)).toNat = s.received.length := by
    rw [hoffset]
    omega
  have hsame : replicationResurrectCachedMaster c = c := by
    rw [replicationResurrectCachedMaster, ← hclient.protocolError]
  refine ⟨hoffset, ⟨h.received, fun _ => rfl, fun _ => by rw [hplace], ?_, by simp, h.log⟩⟩
  rintro c' ⟨⟩
  rw [hsame]
  exact hclient

/-- Events by which nothing is read or executed. -/
def Passive : Event → Prop
  | .read _ | .processUnblocked => False
  | _ => True

/-- What the other events keep. -/
theorem passive_inv {P : Prop} (h : ServerInv dbnum lookupCommand initialOffset reqs (fun _ => P) s) {e : Event}
    (hpassive : Passive e) :
    ∃ s', step dbnum lookupCommand processInlineBuffer pauses blocks (encodeRequests reqs) initialOffset s e = .ok s' ∧
      ServerInv dbnum lookupCommand initialOffset reqs (fun _ => P) s' ∧ s'.received = s.received ∧
      calls s'.log = calls s.log := by
  cases e with
  | read n | processUnblocked => exact hpassive.elim
  | pause =>
    refine ⟨_, rfl, ⟨h.received, ?_, ?_, ?_, ?_, h.log⟩, rfl, rfl⟩
    · simpa using h.cached
    · simpa using h.rest
    · intro c' hc'
      obtain ⟨c, hc, rfl⟩ := Option.map_eq_some_iff.mp hc'
      exact (h.master c hc).flags true c.request.blocked c.unblocked
    · intro c' hc'
      obtain ⟨c, hc, rfl⟩ := Option.map_eq_some_iff.mp hc'
      exact (h.cachedMaster c hc).flags true c.request.blocked c.unblocked
  | unpause =>
    refine ⟨_, rfl, ⟨h.received, ?_, ?_, ?_, ?_, h.log⟩, rfl, rfl⟩
    · simpa using h.cached
    · simpa using h.rest
    · intro c' hc'
      obtain ⟨c, hc, rfl⟩ := Option.map_eq_some_iff.mp hc'
      exact (h.master c hc).flags false c.request.blocked _
    · intro c' hc'
      obtain ⟨c, hc, rfl⟩ := Option.map_eq_some_iff.mp hc'
      exact (h.cachedMaster c hc).flags false c.request.blocked c.unblocked
  | unblock =>
    refine ⟨_, rfl, ⟨h.received, ?_, ?_, ?_, h.cachedMaster, h.log⟩, rfl, rfl⟩
    · simpa using h.cached
    · simpa using h.rest
    · intro c' hc'
      obtain ⟨c, hc, rfl⟩ := Option.map_eq_some_iff.mp hc'
      exact (h.master c hc).flags c.request.paused false _
  | cron =>
    have hlog : calls (s.log ++ (s.master.map (fun c => replicationSendAck c.reploff)).toList) = calls s.log := by
      rw [calls_append]
      cases s.master with
      | none => simp
      | some c => simp [replicationSendAck]
    refine ⟨_, rfl, ⟨h.received, h.cached, h.rest, ?_, ?_, ?_⟩, rfl, hlog⟩
    · intro c hc
      exact { h.master c hc with log := hlog.trans (h.master c hc).log }
    · intro c hc
      exact { h.cachedMaster c hc with log := hlog.trans (h.cachedMaster c hc).log }
    · rw [hlog]
      exact h.log
  | disconnect =>
    cases hc : s.master with
    | none => exact ⟨s, by rw [step, hc], h, rfl, rfl⟩
    | some c =>
      obtain ⟨s', hs', hinv, -, hreceived, hlog⟩ := freeClient_inv h hc
      exact ⟨s', by rw [step, hc]; exact hs', hinv, hreceived, by rw [hlog]⟩
  | resync =>
    cases hc : s.master with
    | some c => exact ⟨s, by rw [step, hc], h, rfl, rfl⟩
    | none =>
      cases hcached : s.cachedMaster with
      | none => exact ⟨s, by rw [step, hc, hcached], h, rfl, rfl⟩
      | some c => exact ⟨_, by rw [step, hc, hcached], (resync_inv h hcached).2, rfl, rfl⟩

/-- What every event keeps when nothing is known of what the parser has left. -/
theorem step_inv (h : ServerInv dbnum lookupCommand initialOffset reqs (fun _ => False) s) (e : Event)
    (hbuffered : Buffered s e) :
    ∃ s', step dbnum lookupCommand processInlineBuffer pauses blocks (encodeRequests reqs) initialOffset s e = .ok s' ∧
      ServerInv dbnum lookupCommand initialOffset reqs (fun _ => False) s' := by
  by_cases hpassive : Passive e
  · obtain ⟨s', hs', hinv, -⟩ := passive_inv processInlineBuffer pauses blocks h hpassive
    exact ⟨s', hs', hinv⟩
  · cases hc : s.master with
    | none =>
      cases e with
      | read n | processUnblocked => exact ⟨s, by rw [step, hc], h⟩
      | _ => exact absurd trivial hpassive
    | some c =>
      cases e with
      | read n =>
        rw [step, hc]
        by_cases hzero : nread c n = 0
        · obtain ⟨s', hs', hinv, -⟩ := freeClient_inv h hc
          have hfreed := (h.master c hc).freed
          exact ⟨s', (readQueryFromMaster_closed processInlineBuffer pauses blocks hfreed hbuffered.1 hzero).trans hs', hinv⟩
        · obtain ⟨s', c', hs', -, -, -, -, hinv⟩ :=
            readQueryFromMaster_inv processInlineBuffer pauses blocks h hc hbuffered (Nat.pos_of_ne_zero hzero)
          exact ⟨s', hs', hinv.mono fun _ => False.elim⟩
      | processUnblocked =>
        rw [step, hc]
        simp only
        by_cases hunblocked : c.unblocked = true
        · obtain ⟨s', c', hs', -, -, -, -, -, hinv⟩ := processUnblockedMaster_inv processInlineBuffer pauses blocks h hc
          exact ⟨s', by rw [if_pos hunblocked, hs'], hinv.mono fun _ => False.elim⟩
        · exact ⟨s, by rw [if_neg hunblocked], h⟩
      | _ => exact absurd trivial hpassive

/-- The states that are reached. -/
theorem reach_inv (hlimits : ∀ q ∈ reqs, WithinLimits q)
    (h : Reach dbnum lookupCommand processInlineBuffer pauses blocks Buffered (encodeRequests reqs) initialOffset s) :
    ServerInv dbnum lookupCommand initialOffset reqs (fun _ => False) s := by
  induction h with
  | start => exact (start_inv hlimits).mono fun _ => False.elim
  | step e _ he hs ih =>
    obtain ⟨s', hs', hinv⟩ := step_inv processInlineBuffer pauses blocks ih e he
    obtain rfl := Except.ok.inj (hs.symm.trans hs')
    exact hinv

end Invariant

/-! ### Commands that are complete -/

theorem length_encodeRequests_cons (q : List Bytes) (tail : List (List Bytes)) :
    (encodeRequests (q :: tail)).length = (encodeRequest q).length + (encodeRequests tail).length := by
  rw [encodeRequests, List.flatMap_cons, List.length_append]
  rfl

theorem length_encodeRequests_le {a b : List (List Bytes)} (h : a.Sublist b) :
    (encodeRequests a).length ≤ (encodeRequests b).length := by
  induction h with
  | slnil => exact Nat.le_refl _
  | cons q _ ih =>
    rw [length_encodeRequests_cons]
    omega
  | cons_cons q _ ih =>
    rw [length_encodeRequests_cons, length_encodeRequests_cons]
    omega

/-- The line that begins a command is a part of it. -/
theorem length_headerBody_lt (q : List Bytes) : (headerBody 42 q.length).length + 1 < (encodeRequest q).length := by
  rw [encodeRequest, headerLine_eq, List.length_append, List.length_cons, List.length_cons]
  omega

theorem nonempty_sublist (reqs : List (List Bytes)) : (nonempty reqs).Sublist reqs := List.filter_sublist

/-- A client that can parse no more has less than one command in its buffer. -/
theorem position_complete {c : RequestClient} {rest : Bytes} {reqs todo : List (List Bytes)}
    (h : Position c rest reqs True) (htodo : c.executed ++ todo = nonempty reqs) (hne : todo ≠ []) :
    (encodeRequests todo.tail).length < rest.length := by
  obtain ⟨q, tail, rfl⟩ := List.exists_cons_of_ne_nil hne
  rw [List.tail_cons]
  cases h with
  | idle more _ _ _ _ hbytes _ _ hexec hshort =>
    have hmore : nonempty more = q :: tail := List.append_cancel_left (hexec.trans htodo.symm)
    have hlen := congrArg List.length hbytes
    rw [List.length_append] at hlen
    rcases hshort trivial with hnil | ⟨q', tail', rfl, hle⟩
    · have hsub := length_encodeRequests_le (nonempty_sublist more)
      have hpos := length_headerBody_lt q
      rw [hmore, length_encodeRequests_cons] at hsub
      rw [hnil, List.length_nil] at hlen
      omega
    · have hsub : tail.Sublist tail' := by
        rw [nonempty, List.filter_cons] at hmore
        split at hmore
        · obtain ⟨-, rfl⟩ := List.cons.inj hmore
          exact nonempty_sublist tail'
        · exact (List.sublist_cons_self q tail).trans (hmore ▸ nonempty_sublist tail')
      have hsublen := length_encodeRequests_le hsub
      have hline := length_headerBody_lt q'
      rw [length_encodeRequests_cons] at hlen
      omega
  | inside args more _ _ hreading _ _ hexec hstarved =>
    have htail : nonempty more = tail :=
      (List.cons.inj (List.append_cancel_left (hexec.trans htodo.symm))).2
    have hsub := length_encodeRequests_le (nonempty_sublist more)
    rw [htail] at hsub
    exact hsub.trans_lt (hreading.length_lt (hstarved trivial))

/-- All commands that end in what has been received are executed. -/
theorem executed_of_complete {c : RequestClient} {reqs : List (List Bytes)} {n : Nat}
    (h : Position c ((encodeRequests reqs).drop n) reqs True) (hcmds : ∀ q ∈ reqs, q ≠ []) {i : Nat} (hi : i < reqs.length)
    (hend : (encodeRequests (reqs.take (i + 1))).length ≤ n) : i < c.executed.length := by
  have hall := nonempty_eq_self hcmds
  by_contra hlt
  obtain ⟨todo, htodo⟩ := h.executed_prefix
  rw [hall] at htodo
  have hlen := congrArg List.length htodo
  rw [List.length_append] at hlen
  have hne : todo ≠ [] := by
    rintro rfl
    rw [List.length_nil] at hlen
    omega
  have hcomplete := position_complete h (hall.symm ▸ htodo) hne
  -- what comes after the command is a part of what is left
  have hsub : (reqs.drop (i + 1)).Sublist todo.tail := by
    have hplace : i + 1 - c.executed.length = (i - c.executed.length) + 1 := by omega
    rw [← htodo, List.drop_append, List.drop_eq_nil_of_le (by omega), List.nil_append, hplace, ← List.drop_tail]
    exact List.drop_sublist _ _
  have hle := length_encodeRequests_le hsub
  have hsplit : (encodeRequests reqs).length
      = (encodeRequests (reqs.take (i + 1))).length + (encodeRequests (reqs.drop (i + 1))).length := by
    rw [encodeRequests, encodeRequests, encodeRequests, ← List.length_append, ← List.flatMap_append,
      List.take_append_drop]
  rw [List.length_drop] at hcomplete
  omega

/-! ### An unbroken link -/

section Steady

variable (dbnum : Nat) (lookupCommand : List Bytes → Bool) (initialOffset : Int) (reqs : List (List Bytes))
  (processInlineBuffer : RequestClient → Bool × RequestClient)

/-- No client pauses the slave. -/
def NoPause (s : Server) (e : Event) : Prop := Buffered s e ∧ (e = .cron ∨ e = .disconnect ∨ e = .resync ∨ ∃ n, e = .read n)

/-- Bytes are read from a link that does not break. -/
def Unbroken (s : Server) (e : Event) : Prop := Buffered s e ∧ ∃ n c, e = .read n ∧ s.master = some c ∧ 0 < nread c n

/-- The client of the master, whether the link is there or not. -/
def Server.client (s : Server) : Option MasterClient := s.master.or s.cachedMaster

/-- The states in which the client is not stopped. -/
structure SteadyInv (s : Server) : Prop where
  inv : ServerInv dbnum lookupCommand initialOffset reqs (fun _ => True) s
  running : ∀ c, s.client = some c → c.request.paused = false ∧ c.request.blocked = false
  /-- The same bytes may have been read from a link that did not break. -/
  unbroken : ∀ c, s.client = some c → ∃ t, Reach dbnum lookupCommand processInlineBuffer (fun _ => false) (fun _ => false)
    Unbroken (encodeRequests reqs) initialOffset t ∧ t.master = some c ∧ t.received = s.received ∧
    t.rest = (encodeRequests reqs).drop s.received.length ∧ calls t.log = calls s.log

variable {dbnum lookupCommand initialOffset reqs processInlineBuffer} {s s' : Server}

variable {c : MasterClient}

theorem ServerInv.client {p : MasterClient → Prop} (h : ServerInv dbnum lookupCommand initialOffset reqs p s)
    (hc : s.client = some c) :
    ClientInv dbnum lookupCommand initialOffset reqs s.received s.log (p c) c := by
  rw [Server.client, Option.or_eq_some_iff] at hc
  rcases hc with hc | ⟨-, hc⟩
  · exact h.master c hc
  · exact h.cachedMaster c hc

theorem master_of_freeClient (h : freeClient s c = .ok s') : s'.master = none := by
  rw [freeClient] at h
  split at h
  · cases h
    rfl
  · rw [replicationCacheMaster] at h
    split at h
    · cases h
    · cases h
      rfl

/-- What is read and executed does not depend on what was logged or cached before. -/
theorem readQueryFromMaster_congr {t : Server} {c c' : MasterClient} {n : Nat} {pauses blocks : Nat → Bool}
    (hrest : t.rest = s.rest) (hreceived : t.received = s.received)
    (hs : readQueryFromMaster dbnum lookupCommand processInlineBuffer pauses blocks s c n = .ok s')
    (hmaster : s'.master = some c') :
    ∃ t', readQueryFromMaster dbnum lookupCommand processInlineBuffer pauses blocks t c n = .ok t' ∧
      t'.master = some c' ∧ t'.received = s'.received ∧ t'.rest = s'.rest ∧
      (calls t.log = calls s.log → calls t'.log = calls s'.log) := by
  rw [readQueryFromMaster] at hs ⊢
  simp only at hs ⊢
  rw [hrest, hreceived]
  obtain ⟨⟨request, left⟩, hread, hs⟩ := Outcome.bind_eq_ok.mp hs
  rw [hread, Outcome.ok_bind]
  simp only at hs ⊢
  by_cases hfreed : request.freed = true
  · rw [if_pos hfreed] at hs
    rw [master_of_freeClient hs] at hmaster
    cases hmaster
  · rw [if_neg hfreed] at hs ⊢
    cases hs
    refine ⟨_, rfl, hmaster, rfl, rfl, fun hlog => ?_⟩
    simp only [processRequests, calls_append, hlog]

theorem steady_start (hlimits : ∀ q ∈ reqs, WithinLimits q) :
    SteadyInv dbnum lookupCommand initialOffset reqs processInlineBuffer (start (encodeRequests reqs) initialOffset) where
  inv := start_inv hlimits
  running := by
    rintro c ⟨⟩
    exact ⟨rfl, rfl⟩
  unbroken := fun c hc => ⟨_, .start, hc, rfl, rfl, rfl⟩

theorem client_eq (hc : s.master = some c) : s.client = some c := by
  rw [Server.client, hc]
  rfl

/-- A link that breaks keeps the client, and so does one that is continued. -/
theorem steady_of_client (h : SteadyInv dbnum lookupCommand initialOffset reqs processInlineBuffer s)
    (hinv : ServerInv dbnum lookupCommand initialOffset reqs (fun _ => True) s') (hreceived : s'.received = s.received)
    (hlog : calls s'.log = calls s.log) (hclient : ∀ c, s'.client = some c → s.client = some c) :
    SteadyInv dbnum lookupCommand initialOffset reqs processInlineBuffer s' where
  inv := hinv
  running := fun c hc => h.running c (hclient c hc)
  unbroken := by
    intro c hc
    obtain ⟨t, ht, hmaster, hreceived', hrest, hlog'⟩ := h.unbroken c (hclient c hc)
    exact ⟨t, ht, hmaster, hreceived'.trans hreceived.symm, by rw [hrest, hreceived], hlog'.trans hlog.symm⟩

theorem client_of_freeClient (hc : s.master = some c) (hcached : s.cachedMaster = none)
    (h : freeClient s c = .ok s') : ∀ c', s'.client = some c' → s.client = some c' := by
  intro c' hc'
  rw [client_eq hc]
  rw [freeClient] at h
  split at h
  · cases h
    rw [Server.client, hcached] at hc'
    cases hc'
  · rw [replicationCacheMaster] at h
    split at h
    · cases h
    · cases h
      exact hc'

/-- A read from the client's position in the stream. -/
theorem steady_read (h : SteadyInv dbnum lookupCommand initialOffset reqs processInlineBuffer s)
    (hc : s.master = some c) {n : Nat} (hbuffered : Buffered s (.read n)) (hpos : 0 < nread c n)
    (hs : readQueryFromMaster dbnum lookupCommand processInlineBuffer (fun _ => false) (fun _ => false) s c n = .ok s') :
    SteadyInv dbnum lookupCommand initialOffset reqs processInlineBuffer s' := by
  obtain ⟨s'', c', hs'', hmaster, hreceived, hdone, -, hinv⟩ :=
    readQueryFromMaster_inv processInlineBuffer (fun _ => false) (fun _ => false) h.inv hc hbuffered hpos
  obtain rfl := Except.ok.inj (hs.symm.trans hs'')
  have hrunning := h.running c (client_eq hc)
  have hrunning' : c'.request.paused = false ∧ c'.request.blocked = false :=
    ⟨(hdone.paused fun _ => rfl).trans hrunning.1, (hdone.blocked fun _ => rfl).trans hrunning.2⟩
  have hclient : s'.client = some c' := client_eq hmaster
  refine ⟨hinv.mono fun _ _ => hrunning', ?_, ?_⟩
  · intro d hd
    obtain rfl := Option.some.inj (hclient.symm.trans hd)
    exact hrunning'
  · intro d hd
    obtain rfl := Option.some.inj (hclient.symm.trans hd)
    obtain ⟨t, ht, htmaster, htreceived, htrest, htlog⟩ := h.unbroken c (client_eq hc)
    have hrest : t.rest = s.rest := htrest.trans (h.inv.rest (by rw [hc]; rfl)).symm
    obtain ⟨t', ht', htmaster', htreceived', htrest', htlog'⟩ := readQueryFromMaster_congr hrest htreceived hs hmaster
    refine ⟨t', .step (.read n) ht ⟨?_, n, c, rfl, htmaster, hpos⟩ (by rw [step, htmaster]; exact ht'), htmaster',
      htreceived', htrest'.trans (hinv.rest (by rw [hmaster]; rfl)), htlog' htlog⟩
    refine ⟨hrest ▸ hbuffered.1, fun d hd => ?_⟩
    obtain rfl := Option.some.inj (htmaster.symm.trans hd)
    exact hbuffered.2 c hc

theorem steady_step (h : SteadyInv dbnum lookupCommand initialOffset reqs processInlineBuffer s) {e : Event}
    (he : NoPause s e)
    (hs : step dbnum lookupCommand processInlineBuffer (fun _ => false) (fun _ => false) (encodeRequests reqs)
      initialOffset s e = .ok s') :
    SteadyInv dbnum lookupCommand initialOffset reqs processInlineBuffer s' := by
  obtain ⟨hbuffered, rfl | rfl | rfl | ⟨n, rfl⟩⟩ := he
  · obtain ⟨s'', hs'', hinv, hreceived, hlog⟩ := passive_inv processInlineBuffer (fun _ => false) (fun _ => false) h.inv
      (e := .cron) trivial
    obtain rfl := Except.ok.inj (hs.symm.trans hs'')
    refine steady_of_client h hinv hreceived hlog ?_
    cases hs
    exact fun c hc => hc
  · obtain ⟨s'', hs'', hinv, hreceived, hlog⟩ := passive_inv processInlineBuffer (fun _ => false) (fun _ => false) h.inv
      (e := .disconnect) trivial
    obtain rfl := Except.ok.inj (hs.symm.trans hs'')
    refine steady_of_client h hinv hreceived hlog ?_
    cases hc : s.master with
    | none =>
      rw [step, hc] at hs
      cases hs
      exact fun c hc => hc
    | some c =>
      rw [step, hc] at hs
      exact client_of_freeClient hc (h.inv.cached (by rw [hc]; rfl)) hs
  · obtain ⟨s'', hs'', hinv, hreceived, hlog⟩ := passive_inv processInlineBuffer (fun _ => false) (fun _ => false) h.inv
      (e := .resync) trivial
    obtain rfl := Except.ok.inj (hs.symm.trans hs'')
    refine steady_of_client h hinv hreceived hlog ?_
    cases hc : s.master with
    | some c =>
      rw [step, hc] at hs
      cases hs
      exact fun c hc => hc
    | none =>
      cases hcached : s.cachedMaster with
      | none =>
        rw [step, hc, hcached] at hs
        cases hs
        exact fun c hc => hc
      | some c =>
        rw [step, hc, hcached] at hs
        cases hs
        have hclient : s.client = some c := by rw [Server.client, hc, hcached]; rfl
        have hsame : replicationResurrectCachedMaster c = c := by
          rw [replicationResurrectCachedMaster, ← (h.inv.client hclient).protocolError]
        rintro c' ⟨⟩
        rw [hclient, hsame]
  · cases hc : s.master with
    | none =>
      rw [step, hc] at hs
      cases hs
      exact h
    | some c =>
      rw [step, hc] at hs
      by_cases hzero : nread c n = 0
      · simp only at hs
        rw [readQueryFromMaster_closed processInlineBuffer _ _ (h.inv.master c hc).freed hbuffered.1 hzero] at hs
        obtain ⟨s'', hs'', hinv, -, hreceived, hlog⟩ := freeClient_inv h.inv hc
        obtain rfl := Except.ok.inj (hs.symm.trans hs'')
        exact steady_of_client h hinv hreceived (by rw [hlog])
          (client_of_freeClient hc (h.inv.cached (by rw [hc]; rfl)) hs)
      · exact steady_read h hc hbuffered (Nat.pos_of_ne_zero hzero) hs

end Steady

/-- **A partial resynchronization is transparent.**  However the stream is cut into reads and
    wherever the link breaks, PSYNC asks for the byte after the last one that was received,
    and what is executed, in which database and in which transaction, is what the stream
    says, as far as it goes.  As long as no client pauses the slave, this is at any time what
    would be executed on a link that did not break, and nothing that is complete waits. -/
theorem partial_resync_transparent (dbnum : Nat) (lookupCommand : List Bytes → Bool)
    (processInlineBuffer : RequestClient → Bool × RequestClient) (pauses blocks : Nat → Bool) (initialOffset : Int)
    {reqs : List (List Bytes)} (hlimits : ∀ q ∈ reqs, (encodeRequest q).length < PROTO_INLINE_MAX_SIZE ∨ WithinLimits q)
    (hcmds : ∀ q ∈ reqs, q ≠ []) :
    (∀ s, Reach dbnum lookupCommand processInlineBuffer pauses blocks Buffered (encodeRequests reqs) initialOffset s →
      s.received <+: encodeRequests reqs ∧ calls s.log <+: (interpret dbnum lookupCommand reqs).2 ∧
      (∀ c, s.cachedMaster = some c → psyncOffset c = initialOffset + s.received.length + 1) ∧
      (∀ c, s.client = some c → c.request.executed <+: reqs ∧
        c.ctx = (interpret dbnum lookupCommand c.request.executed).1 ∧
        calls s.log = (interpret dbnum lookupCommand c.request.executed).2) ∧
      ∀ e, Buffered s e → ∃ s', step dbnum lookupCommand processInlineBuffer pauses blocks (encodeRequests reqs)
        initialOffset s e = .ok s') ∧
    ∀ s, Reach dbnum lookupCommand processInlineBuffer (fun _ => false) (fun _ => false) NoPause (encodeRequests reqs)
        initialOffset s → ∀ c, s.client = some c →
      (∃ t, Reach dbnum lookupCommand processInlineBuffer (fun _ => false) (fun _ => false) Unbroken
          (encodeRequests reqs) initialOffset t ∧
        t.master = some c ∧ t.received = s.received ∧ calls t.log = calls s.log) ∧
      (∀ i < reqs.length, (encodeRequests (reqs.take (i + 1))).length ≤ s.received.length →
        i < c.request.executed.length) ∧
      (s.received = encodeRequests reqs → c.request.querybuf = [] ∧
        c.ctx = (interpret dbnum lookupCommand reqs).1 ∧ calls s.log = (interpret dbnum lookupCommand reqs).2) := by
  have hlimits' : ∀ q ∈ reqs, WithinLimits q := fun q hq => (hlimits q hq).elim withinLimits_of_length id
  have hall := nonempty_eq_self hcmds
  constructor
  · intro s h
    have hinv := reach_inv processInlineBuffer pauses blocks hlimits' h
    refine ⟨hinv.received, hall ▸ hinv.log, ?_, ?_, ?_⟩
    · intro c hc
      exact (resync_inv hinv hc).1
    · intro c hc
      have hclient := hinv.client hc
      exact ⟨hall ▸ hclient.position.executed_prefix, hclient.ctx, hclient.log⟩
    · intro e he
      obtain ⟨s', hs', -⟩ := step_inv processInlineBuffer pauses blocks hinv e he
      exact ⟨s', hs'⟩
  · intro s h c hc
    have hsteady : SteadyInv dbnum lookupCommand initialOffset reqs processInlineBuffer s := by
      clear hc
      induction h with
      | start => exact steady_start hlimits'
      | step e _ he hs ih => exact steady_step ih he hs
    have hclient := hsteady.inv.client hc
    refine ⟨?_, fun i hi hend => executed_of_complete hclient.position hcmds hi hend, fun hreceived => ?_⟩
    · obtain ⟨t, ht, hmaster, hreceived, -, hlog⟩ := hsteady.unbroken c hc
      exact ⟨t, ht, hmaster, hreceived, hlog⟩
    · have hposition := hclient.position
      rw [hreceived, List.drop_length] at hposition
      obtain ⟨hexecuted, hempty⟩ := hposition.finished
      rw [hall] at hexecuted
      exact ⟨hempty, hexecuted ▸ hclient.ctx, hexecuted ▸ hclient.log⟩

/-- The client after nine bytes of `PING`. -/
def pingClient : MasterClient :=
  { replicationCreateMasterClient 0 with
    request := { createRequestClient with
      querybuf := [80], reqtype := some .multibulk, multibulklen := 1, bulklen := 4 }
    reploff := 9 }

theorem encode_ping : encodeRequests [[[80, 73, 78, 71]]] = [42, 49, 13, 10, 36, 52, 13, 10, 80, 73, 78, 71, 13, 10] := by
  simp [encodeRequests, encodeRequest, headerLine, bulkReply, formatLd, decimal_of_lt]

theorem read_ping : step 16 (fun _ => true) (fun c => (false, c)) (fun _ => false) (fun _ => false)
    (encodeRequests [[[80, 73, 78, 71]]]) 0 (start (encodeRequests [[[80, 73, 78, 71]]]) 0) (.read 9)
    = .ok ⟨some pingClient, none, [73, 78, 71, 13, 10], [42, 49, 13, 10, 36, 52, 13, 10, 80], []⟩ := by
  rw [encode_ping]
  rfl

theorem limits_ping : ∀ q ∈ [[[80, 73, 78, 71]]], (encodeRequest q).length < PROTO_INLINE_MAX_SIZE ∨ WithinLimits q := by
  intro q hq
  rw [List.mem_singleton.mp hq]
  exact .inr ⟨by decide, by decide⟩

/-- The link breaks in the middle of `PING`. -/
theorem partial_resync_transparent_ping : psyncOffset pingClient = 0 + (([42, 49, 13, 10, 36, 52, 13, 10, 80] : Bytes).length : Int) + 1 := by
  have htheorem := partial_resync_transparent 16 (fun _ => true) (fun c => (false, c)) (fun _ => false) (fun _ => false) 0
    limits_ping (by simp)
  have hbuffered : Buffered (start (encodeRequests [[[80, 73, 78, 71]]]) 0) (.read 9) := by
    refine ⟨by rw [encode_ping]; decide, ?_⟩
    rintro c ⟨⟩
    exact .inr (by decide)
  exact (htheorem.1 _ (.step .disconnect (.step (.read 9) .start hbuffered read_ping) trivial rfl)).2.2.1 pingClient rfl

end Redis.Slave
