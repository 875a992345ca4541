import Redis.Replication.Join

namespace Redis.Replication

open Outcome

/-!
# Slaves — every slave receives the same stream

The remaining steps, the runs, and the main result.

* `Becomes` — a slave that goes on, with what it is owed;
* `stepMaster_spec` — every step keeps `Master.Settled`;
* `slaves_receive_stream` — in every run, every slave is queued the stream from its offset on,
  and executes every command in its database;
* `copied_error` — what `PSYNC` with an offset that is no number does to another slave.
-/

variable {m m' m'' : Master} {s s' : Slave}

/-! ### A slave goes on -/

/-- A slave of `m` that is owed what it was owed before. -/
structure Becomes (m : Master) (s s' : Slave) : Prop where
  ready : s'.Ready
  owes : m.Owes s'
  id : s'.id = s.id
  resync : s'.resync = s.resync
  offset : s'.psyncInitialOffset = s.psyncInitialOffset
  replySkip : s'.io.flags.replySkip = s.io.flags.replySkip

theorem Becomes.refl (h : m.Core) (hs : s ∈ m.slaves) : Becomes m s s :=
  ⟨h.ready s hs, h.owes s hs, rfl, rfl, rfl, rfl⟩

theorem Master.Joins.of_becomes (h : m.Inv) {l : List Slave} (hl : ∀ s' ∈ l, ∃ s ∈ m.slaves, Becomes m s s')
    (hlen : l.length ≤ m.slaves.length) : m.Joins (m.setSlaves l) where
  inv := by
    have hall : ∀ s ∈ l, s.Ready ∧ m.Owes s := by
      intro s' hs'
      obtain ⟨s, -, hs⟩ := hl s' hs'
      exact ⟨hs.ready, hs.owes⟩
    refine (h.toCore.setSlaves hall).setSelected (fun hne s' hs' hfull => ?_)
    obtain ⟨s, hs, hbecomes⟩ := hl s' hs'
    rw [hbecomes.offset]
    exact h.selecting hne s hs (hbecomes.resync ▸ hfull)
  backlog := rfl
  length := hlen
  origin := fun s' hs' => by
    obtain ⟨s, hs, hbecomes⟩ := hl s' hs'
    exact ⟨s, hs, hbecomes.id, hbecomes.replySkip⟩

theorem Master.Joins.trans (h : m.Joins m') (h' : m'.Joins m'') : m.Joins m'' where
  inv := h'.inv
  backlog := h'.backlog.trans h.backlog
  length := h'.length.trans h.length
  origin := fun s'' hs'' => by
    obtain ⟨s', hs', hid', hskip'⟩ := h'.origin s'' hs''
    obtain ⟨s, hs, hid, hskip⟩ := h.origin s' hs'
    exact ⟨s, hs, hid'.trans hid, hskip'.trans hskip⟩

theorem Master.Joins.settled (h : m.Settled) (hj : m.Joins m') : m'.Settled where
  toInv := hj.inv
  backlog := fun hne => by
    rw [hj.backlog]
    refine h.backlog (fun hnil => hne ?_)
    have := hj.length
    rw [hnil, List.length_nil] at this
    exact List.eq_nil_of_length_eq_zero (by omega)
  replySkip := fun s' hs' => by
    obtain ⟨s, hs, -, hskip⟩ := hj.origin s' hs'
    rw [hskip]
    exact h.replySkip s hs

variable {f : Slave → Except Fault (Option Slave)}

theorem forSlaves_settled (h : m.Settled)
    (hf : ∀ s ∈ m.slaves, Sat (f s) (fun r => ∀ s', r = some s' → Becomes m s s') (fun _ => False)) :
    ∃ m', m.forSlaves f = .ok m' ∧ m'.Settled := by
  obtain ⟨l, hl, hR, hlen⟩ := forSlaves_spec hf
  exact ⟨_, hl, (Master.Joins.of_becomes h.toInv hR hlen).settled h⟩

/-- Something happens to one of the slaves. -/
theorem atSlave_settled (h : m.Settled) (id : Nat)
    (hf : ∀ s ∈ m.slaves, Sat (f s) (fun r => ∀ s', r = some s' → Becomes m s s') (fun _ => False)) :
    ∃ m', m.forSlaves (atSlave id f) = .ok m' ∧ m'.Settled := by
  refine forSlaves_settled h (fun s hs => ?_)
  refine Sat.ite (fun _ => hf s hs) (fun _ => ?_)
  intro s' hs'
  obtain rfl := Option.some.inj hs'
  exact Becomes.refl h.toCore hs

/-! ### The end of a BGSAVE -/

/-- The state of a slave moves on, to one in which it can be written to or is sent the file. -/
theorem setReplstate_becomes (h : m.Core) (hs : s ∈ m.slaves) {state : ReplState} (hjoined : s.replstate ≠ .waitBgsaveStart)
    (hstart : state ≠ .waitBgsaveStart) (hend : state ≠ .waitBgsaveEnd) (onAck : Bool) (handler : WriteHandler)
    (hquiet : state.forReplies = .other → s.io.replstate = .other ∧ handler ≠ .sendReplyToClient) :
    Becomes m s { s.setReplstate state with
      io := { (s.setReplstate state).io with replPutOnlineOnAck := onAck }, writeHandler := handler } := by
  have hready := h.ready s hs
  obtain ⟨⟨h1, h2, h3, h4, h5⟩, h6, h7, h8, h9, h10, h11⟩ := hready.sane
  refine ⟨⟨⟨⟨h1, h2, h3, h4, h5⟩, h6, h7, h8, h9, h10, h11⟩, hready.replyOff, rfl, fun hother => ?_, hready.queued⟩, ?_, rfl, rfl, rfl,
    rfl⟩
  · obtain ⟨hother', hhandler⟩ := hquiet hother
    obtain ⟨hpend, -, hacc, hsent⟩ := hready.quiet hother'
    exact ⟨hpend, hhandler, hacc, hsent⟩
  · exact (h.owes s hs).update rfl rfl rfl rfl (fun hc => hc) (by simp [Slave.setReplstate, hjoined, hstart])
      (by simp [Slave.setReplstate, hend]) (fun b hb => ⟨b, hb, rfl⟩)

theorem bgsaveDone_becomes (h : m.Core) (hs : s ∈ m.slaves) {ok : Bool} {opened : Nat → Bool} {type : RdbChildType}
    (hdone : bgsaveDone ok opened type s = some s') : Becomes m s s' := by
  rw [bgsaveDone.eq_def] at hdone
  by_cases hend : s.replstate = .waitBgsaveEnd
  · rw [if_pos hend] at hdone
    have hother : s.io.replstate = .other := by rw [(h.ready s hs).shown, hend]; rfl
    cases type with
    | socket =>
      obtain rfl := Option.some.inj hdone
      exact setReplstate_becomes h hs (by simp [hend]) (by simp) (by simp) true s.writeHandler
        (fun hst => by simp [ReplState.forReplies] at hst)
    | disk =>
      simp only at hdone
      split at hdone
      · obtain rfl := Option.some.inj hdone
        exact setReplstate_becomes h hs (by simp [hend]) (by simp) (by simp) s.io.replPutOnlineOnAck .sendBulkToSlave
          (fun _ => ⟨hother, by simp⟩)
      · cases hdone
  · rw [if_neg hend] at hdone
    obtain rfl := Option.some.inj hdone
    exact Becomes.refl h hs

theorem updateSlavesWaitingBgsave_joins (h : m.Inv) (env : SyncEnv) (ok : Bool) (opened : Nat → Bool) (type : RdbChildType) :
    m.Joins (updateSlavesWaitingBgsave env ok opened type m) := by
  have hdone : m.Joins (m.setSlaves (m.slaves.filterMap (bgsaveDone ok opened type))) := by
    refine Master.Joins.of_becomes h (fun s' hs' => ?_) (List.length_filterMap_le _ _)
    obtain ⟨s, hs, hsome⟩ := List.mem_filterMap.mp hs'
    exact ⟨s, hs, bgsaveDone_becomes h.toCore hs hsome⟩
  rw [updateSlavesWaitingBgsave]
  cases mincapaOf m.slaves with
  | none => exact hdone
  | some mincapa => exact hdone.trans (startBgsaveForReplication_joins hdone.inv env mincapa)

/-- The child has terminated. -/
theorem Master.Joins.childDone (h : m.Joins m') : m.Joins { m' with rdbChild := none } := h.children none

theorem backgroundSaveDoneHandler_joins (h : m.Inv) (env : SyncEnv) (ok : Bool) (reported opened : Nat → Bool) :
    m.Joins (backgroundSaveDoneHandler env ok reported opened m) := by
  rw [backgroundSaveDoneHandler.eq_def]
  cases m.rdbChild with
  | none => exact Master.Joins.refl h
  | some type =>
    cases type with
    | disk =>
      have hdone := (Master.Joins.refl h).childDone
      exact hdone.trans (updateSlavesWaitingBgsave_joins hdone.inv env ok opened .disk)
    | socket =>
      -- the slaves that have not received the file are freed
      obtain ⟨l, hl⟩ : ∃ l, l = m.slaves.filter (fun s => s.replstate ≠ .waitBgsaveEnd || (ok && reported s.id)) := ⟨_, rfl⟩
      have hsub : ∀ s ∈ l, s ∈ m.slaves := by
        rw [hl]
        exact fun _ hs => List.mem_of_mem_filter hs
      have hlen : l.length ≤ m.slaves.length := by
        rw [hl]
        exact List.length_filter_le _ _
      have hkept : m.Joins (m.setSlaves l) := ⟨h.sub hsub, rfl, hlen, fun s hs => ⟨s, hsub s hs, rfl, rfl⟩⟩
      simp only [← hl]
      exact hkept.childDone.trans (updateSlavesWaitingBgsave_joins hkept.childDone.inv env ok opened .socket)

theorem replicationCronBgsave_joins (h : m.Inv) (env : SyncEnv) (delayed : Bool) :
    m.Joins (replicationCronBgsave env delayed m) := by
  rw [replicationCronBgsave]
  split
  · cases mincapaOf m.slaves with
    | none => exact Master.Joins.refl h
    | some mincapa =>
      simp only [Option.elim_some]
      split
      · exact startBgsaveForReplication_joins h env mincapa
      · exact Master.Joins.refl h
  · exact Master.Joins.refl h

theorem putSlaveOnline_becomes (h : m.Core) (hs : s ∈ m.slaves) (hjoined : s.replstate ≠ .waitBgsaveStart) (installed : Bool)
    (honline : putSlaveOnline installed s = some s') : Becomes m s s' := by
  rw [putSlaveOnline] at honline
  simp only at honline
  split at honline
  · obtain rfl := Option.some.inj honline
    exact setReplstate_becomes h hs hjoined (by simp) (by simp) false .sendReplyToClient
      (fun hst => by simp [ReplState.forReplies] at hst)
  · cases honline

/-! ### The sockets -/

/-- A slave that can be written to: some bytes of its queue are accepted. -/
theorem write_spec (h : m.Settled) (hs : s ∈ m.slaves) (hwritable : s.io.replstate ≠ .other)
    (writes : List (WriteResult × Bool)) (pending : Bool) :
    Sat (({ s with io := { s.io with flags := { s.io.flags with pendingWrite := pending } } } : Slave).write writes)
      (fun r => ∀ s', r = some s' → Becomes m s s' ∧ s'.io.replstate ≠ .other) (fun _ => False) := by
  have hready := h.ready s hs
  have hskip := h.replySkip s hs
  obtain ⟨b, hq⟩ := hready.queued
  obtain ⟨io, hio⟩ : ∃ io, io = { s.io with flags := { s.io.flags with pendingWrite := pending } } := ⟨_, rfl⟩
  have hsane : io.Sane := hio ▸ (hready.io_sane hskip).pendingWrite pending
  have hqueued : Queued io b := hio ▸ hq
  obtain ⟨valid, d, sent, rest, hrun, hsane', hsame, hb, hrest⟩ := writeToClient_queued hsane hqueued writes
  rw [Slave.write]
  simp only [← hio, hrun, Except.mapError, ok_bind]
  intro s' hs'
  split at hs'
  · obtain rfl := Option.some.inj hs'
    have hstate : d.replstate = s.io.replstate := by rw [hsame.replstate, hio]
    have hoff : d.flags.replyOff = false := hsane'.connected.replyOff
    have hskip' : d.flags.replySkip = false := hsane'.connected.replySkip
    refine ⟨⟨⟨?_, hoff, hstate.trans hready.shown, fun hother => ?_, rest, hrest⟩, ?_, rfl, rfl, rfl, ?_⟩, ?_⟩
    · show (answering d).Sane
      rw [answering_eq hoff hskip']
      exact hsane'
    · exact absurd (hstate ▸ hother) hwritable
    · refine (h.owes s hs).update rfl rfl rfl rfl (fun hc => hc) Iff.rfl (fun hst => hst) (fun b' hb' => ⟨rest, hrest, ?_⟩)
      -- what is queued is determined
      have hsameb : b' = b := (hb' (fun _ => [])).symm.trans (hq (fun _ => []))
      rw [hsameb, hb, List.append_assoc]
    · exact hskip'.trans hskip.symm
    · rw [hstate]
      exact hwritable
  · cases hs'

/-- Handlers and closing do not matter to a slave that can be written to. -/
theorem Becomes.written (h : Becomes m s s') (hwritable : s'.io.replstate ≠ .other) (handler : WriteHandler)
    (closeAsap : Bool) (hclose : s'.closeAsap = true → closeAsap = true) :
    Becomes m s { s' with writeHandler := handler, closeAsap := closeAsap } := by
  obtain ⟨⟨h1, h2, h3, -, h5⟩, howes, hid, hresync, hoffset, hskip⟩ := h
  refine ⟨⟨h1, h2, h3, fun hother => absurd hother hwritable, h5⟩, ?_, hid, hresync, hoffset, hskip⟩
  refine howes.update rfl rfl rfl rfl (fun hc => ?_) Iff.rfl (fun hst => hst) (fun b hb => ⟨b, hb, rfl⟩)
  cases hs : s'.closeAsap with
  | false => rfl
  | true => exact absurd (hclose hs) (by simpa using hc)

theorem handlePendingWrite_becomes (h : m.Settled) (hs : s ∈ m.slaves) (writes : List (WriteResult × Bool))
    (installed : Bool) :
    Sat (handlePendingWrite writes installed s) (fun r => ∀ s', r = some s' → Becomes m s s') (fun _ => False) := by
  rw [handlePendingWrite]
  refine Sat.ite (fun hpend => ?_) (fun _ => ?_)
  · have hwritable : s.io.replstate ≠ .other := by
      intro hother
      have := ((h.ready s hs).quiet hother).1
      simp [hpend] at this
    refine Sat.bind (write_spec h hs hwritable writes false) (fun r hr => ?_)
    intro s' hs'
    obtain ⟨t, rfl, rfl⟩ := Option.map_eq_some_iff.mp hs'
    obtain ⟨hbecomes, hwritable'⟩ := hr t rfl
    by_cases hpending : clientHasPendingReplies t.io = true
    · by_cases hinstalled : installed = true
      · simp only [hpending, hinstalled, Bool.not_true, Bool.false_eq_true, if_false, if_true]
        exact hbecomes.written hwritable' .sendReplyToClient t.closeAsap (fun hc => hc)
      · simp only [hpending, hinstalled, Bool.not_true, Bool.false_eq_true, if_false]
        exact hbecomes.written hwritable' t.writeHandler true (fun _ => rfl)
    · simp only [hpending, Bool.not_false, if_true]
      exact hbecomes
  · intro s' hs'
    obtain rfl := Option.some.inj hs'
    exact Becomes.refl h.toCore hs

theorem sendReplyToClient_becomes (h : m.Settled) (hs : s ∈ m.slaves) (writes : List (WriteResult × Bool)) :
    Sat (sendReplyToClient writes s) (fun r => ∀ s', r = some s' → Becomes m s s') (fun _ => False) := by
  rw [sendReplyToClient]
  refine Sat.ite (fun hhandler => ?_) (fun _ => ?_)
  · have hwritable : s.io.replstate ≠ .other := fun hother => ((h.ready s hs).quiet hother).2.1 hhandler
    refine Sat.bind (write_spec h hs hwritable writes s.io.flags.pendingWrite) (fun r hr => ?_)
    intro s' hs'
    obtain ⟨t, rfl, rfl⟩ := Option.map_eq_some_iff.mp hs'
    obtain ⟨hbecomes, hwritable'⟩ := hr t rfl
    split
    · exact hbecomes
    · exact hbecomes.written hwritable' .none t.closeAsap (fun hc => hc)
  · intro s' hs'
    obtain rfl := Option.some.inj hs'
    exact Becomes.refl h.toCore hs

/-! ### Steps -/

theorem init_settled (runid : Bytes) (diskless : Bool) : (initMaster runid diskless).Settled where
  repl := init_inv runid
  count := rfl
  log_lt := by simp [initMaster]
  ready := by simp [initMaster]
  owes := by simp [initMaster]
  selecting := by simp [initMaster]
  backlog := by simp [initMaster]
  replySkip := by simp [initMaster]

/-- A step that sends no client into the list of slaves with replies of its own in its queue. -/
def MasterOp.Sound (m : Master) : MasterOp → Prop
  | .sync c request env => m.handles c = true → m.Admits env c request
  | _ => True

section Steps

variable (blocks : Blocks)

/-- The backlog changes, the stream does not. -/
theorem Master.Settled.setRepl (h : m.Settled) {r : ReplRun} (hinv : r.Inv) (hsame : m.SameStream { m with repl := r })
    (hslaves : r.server.slaves = m.repl.server.slaves)
    (hoff : r.server.masterReplOffset = m.repl.server.masterReplOffset)
    (hback : m.slaves ≠ [] → r.server.replBacklog.isSome = true) : ({ m with repl := r } : Master).Settled where
  repl := hinv
  count := hslaves.trans h.count
  log_lt := fun e he => by
    show e.1 < r.server.masterReplOffset
    rw [hoff]
    exact h.log_lt e he
  ready := h.ready
  owes := fun s hs => hsame.owes (h.owes s hs)
  selecting := h.selecting
  backlog := hback
  replySkip := h.replySkip

theorem resizeBacklog_spec (h : m.Settled) (newsize : Int) (junk : Nat → UInt8) :
    ∃ m', stepMaster blocks m (.resizeBacklog newsize junk) = .ok m' ∧ m'.Settled := by
  obtain ⟨r, hr⟩ : ∃ r, stepRepl m.repl (.resize newsize junk) = .ok r := ⟨_, rfl⟩
  have hinv := (resize_inv h.repl newsize junk).of_eq_ok hr
  have hkept : r.fed = m.repl.fed ∧ r.server.slaves = m.repl.server.slaves ∧ r.server.runid = m.repl.server.runid ∧
      r.server.masterReplOffset = m.repl.server.masterReplOffset ∧
      (r.server.replBacklog.isSome = true ↔ m.repl.server.replBacklog.isSome = true) := by
    obtain ⟨n, hn⟩ : ∃ n, n = if newsize < CONFIG_REPL_BACKLOG_MIN_SIZE then CONFIG_REPL_BACKLOG_MIN_SIZE
        else newsize.toNat := ⟨_, rfl⟩
    rw [stepRepl, resizeReplicationBacklog] at hr
    simp only [← hn] at hr
    obtain rfl := (Except.ok.inj hr).symm
    by_cases hsame : m.repl.server.replBacklogSize = n
    · simp only [if_pos hsame]
      exact ⟨trivial, trivial, trivial, trivial, trivial⟩
    · by_cases hsome : m.repl.server.replBacklog.isSome = true
      · simp only [if_neg hsame, if_pos hsome]
        exact ⟨trivial, trivial, trivial, trivial, iff_of_true rfl hsome⟩
      · simp only [if_neg hsame, if_neg hsome]
        exact ⟨trivial, trivial, trivial, trivial, trivial⟩
  obtain ⟨hfed, hslaves, hrunid, hoff, hsome⟩ := hkept
  have hnone : r.server.replBacklog.isNone = m.repl.server.replBacklog.isNone := by
    rw [← Option.not_isSome, ← Option.not_isSome, Bool.eq_iff_iff.mpr hsome]
  refine ⟨{ m with repl := r }, ?_, h.setRepl hinv ⟨hfed, rfl, ?_, hrunid⟩ hslaves hoff
    (fun hne => hsome.mpr (h.backlog hne))⟩
  · rw [stepMaster, hr]
    rfl
  · rw [getPsyncInitialOffset, getPsyncInitialOffset, hnone, hoff]

theorem cronFreeBacklog_spec (h : m.Settled) :
    ∃ m', stepMaster blocks m .cronFreeBacklog = .ok m' ∧ m'.Settled := by
  rw [stepMaster]
  by_cases hfree : m.slaves.length = 0 ∧ m.repl.server.replBacklog.isSome = true
  · have hzero : ¬ m.repl.server.slaves ≠ 0 := by
      rw [h.count]
      omega
    have hnil : m.slaves = [] := List.eq_nil_of_length_eq_zero hfree.1
    obtain ⟨r, hr, hslaves, hoff⟩ : ∃ r, stepRepl m.repl .free = .ok r ∧ r.server.slaves = m.repl.server.slaves ∧
        r.server.masterReplOffset = m.repl.server.masterReplOffset := by
      rw [stepRepl, freeReplicationBacklog, if_neg hzero]
      exact ⟨_, rfl, rfl, rfl⟩
    have hinv := (free_inv h.repl).of_eq_ok hr
    rw [if_pos hfree, hr]
    -- there is no slave whose offset would matter
    refine ⟨{ m with repl := r }, rfl, ⟨⟨⟨hinv, hslaves.trans h.count, fun e he => ?_, h.ready, fun s hs => ?_⟩,
      h.selecting⟩, fun hne => absurd hnil hne, h.replySkip⟩⟩
    · show e.1 < r.server.masterReplOffset
      rw [hoff]
      exact h.log_lt e he
    · rw [hnil] at hs
      cases hs
  · rw [if_neg hfree]
    exact ⟨m, rfl, h⟩

/-- Every step keeps what holds between two commands. -/
theorem stepMaster_spec (h : m.Settled) (op : MasterOp) (hop : op.Sound m) :
    ∃ m', stepMaster blocks m op = .ok m' ∧ m'.Settled := by
  have hchildren : ∀ r a d, ({ m with rdbChild := r, aofChild := a, replDisklessSync := d } : Master).Settled :=
    fun r a d => ⟨h.toInv.children r a d, h.backlog, h.replySkip⟩
  cases op with
  | feed db argv =>
    exact replicationFeedSlaves_spec blocks h argv (fun _ => ⟨by omega, by exact_mod_cast db.2⟩)
      (fun d hd => by rw [Option.some.inj hd])
  | feedSelected argv =>
    exact replicationFeedSlaves_spec blocks h argv (fun hne => absurd rfl hne) (fun d hd => by cases hd)
  | sync c request env => exact syncCommand_spec blocks h env c request hop
  | bgsave forked =>
    refine ⟨_, rfl, ?_⟩
    rw [rdbSaveBackground]
    split
    · exact h
    · split
      · exact hchildren _ _ _
      · exact h
  | rewriteaof running =>
    refine ⟨_, rfl, ?_⟩
    split
    · exact h
    · exact hchildren _ _ _
  | bgsaveDone env ok reported opened =>
    exact ⟨_, rfl, (backgroundSaveDoneHandler_joins h.toInv env ok reported opened).settled h⟩
  | cronBgsave env delayed => exact ⟨_, rfl, (replicationCronBgsave_joins h.toInv env delayed).settled h⟩
  | cronFreeBacklog => exact cronFreeBacklog_spec blocks h
  | resizeBacklog newsize junk => exact resizeBacklog_spec blocks h newsize junk
  | configDiskless yes => exact ⟨_, rfl, hchildren _ _ _⟩
  | bulkSent id installed =>
    refine atSlave_settled h id (fun s hs s' hs' => ?_)
    by_cases hbulk : s.replstate = .sendBulk
    · rw [if_pos hbulk] at hs'
      exact putSlaveOnline_becomes h.toCore hs (by simp [hbulk]) installed hs'
    · rw [if_neg hbulk] at hs'
      obtain rfl := Option.some.inj hs'
      exact Becomes.refl h.toCore hs
  | replconfAck id installed =>
    refine atSlave_settled h id (fun s hs s' hs' => ?_)
    by_cases hack : s.io.replPutOnlineOnAck = true ∧ s.replstate = .online
    · rw [if_pos hack] at hs'
      exact putSlaveOnline_becomes h.toCore hs (by simp [hack.2]) installed hs'
    · rw [if_neg hack] at hs'
      obtain rfl := Option.some.inj hs'
      exact Becomes.refl h.toCore hs
  | handlePendingWrite id writes installed =>
    exact atSlave_settled h id (fun s hs => handlePendingWrite_becomes h hs writes installed)
  | sendReplyToClient id writes => exact atSlave_settled h id (fun s hs => sendReplyToClient_becomes h hs writes)
  | freeClientAsync id =>
    refine atSlave_settled h id (fun s hs s' hs' => ?_)
    obtain rfl := Option.some.inj hs'
    have hready := h.ready s hs
    refine ⟨⟨hready.sane, hready.replyOff, hready.shown, hready.quiet, hready.queued⟩, ?_, rfl, rfl, rfl, rfl⟩
    exact (h.owes s hs).update rfl rfl rfl rfl (fun hc => by simp at hc) Iff.rfl (fun hst => hst)
      (fun b hb => ⟨b, hb, rfl⟩)
  | freeClient id => exact atSlave_settled h id (fun s hs s' hs' => by cases hs')

end Steps

/-! ### Runs -/

section Runs

variable (blocks : Blocks)

/-- All steps of a run are sound in the states in which they are taken. -/
def SoundRun (m : Master) : List MasterOp → Prop
  | [] => True
  | op :: ops => op.Sound m ∧ ∀ m', stepMaster blocks m op = .ok m' → SoundRun m' ops

/-- A run does not stop, and ends between two commands. -/
theorem runMaster_spec (ops : List MasterOp) (h : m.Settled) (hsound : SoundRun blocks m ops) :
    ∃ m', runMaster blocks m ops = .ok m' ∧ m'.Settled := by
  induction ops generalizing m with
  | nil => exact ⟨m, rfl, h⟩
  | cons op ops ih =>
    obtain ⟨m₁, hstep, hm₁⟩ := stepMaster_spec blocks h op hsound.1
    obtain ⟨m', hrun, hm'⟩ := ih hm₁ (hsound.2 m₁ hstep)
    refine ⟨m', ?_, hm'⟩
    rw [runMaster, List.foldlM_cons, hstep, ok_bind]
    exact hrun

/-- What a slave receives is the stream of the master. -/
structure Master.Serves (m : Master) (s : Slave) : Prop where
  /-- A slave that waits for a BGSAVE to start has not been queued anything. -/
  waiting : s.replstate = .waitBgsaveStart → s.accepted = [] ∧ Queued s.io []
  /-- The others have been resynchronized, but for one that is being closed. -/
  joined : s.replstate ≠ .waitBgsaveStart →
    s.resync = .full ∨ (∃ offset, s.resync = .continued offset) ∨ s.closeAsap = true
  /-- After a full resynchronization: the stream behind the offset that has been sent. -/
  full : s.resync = .full → ∃ b, Queued s.io b ∧
    m.streamFrom s.psyncInitialOffset = number s.psyncInitialOffset (s.accepted ++ b) ∧
    s.psyncInitialOffset + (s.accepted ++ b).length = m.repl.server.masterReplOffset ∧
    s.accepted ++ b = (m.logFrom s.psyncInitialOffset).flatMap Fed.bytes
  greeting : s.resync = .full → s.prePsync = false → s.closeAsap = false →
    s.greeting = fullResyncLine m.repl.server.runid s.psyncInitialOffset
  inDatabase : s.resync = .full → InDatabase (m.logFrom s.psyncInitialOffset)
  /-- After a partial one: the stream from the requested byte on. -/
  continued : ∀ offset, s.resync = .continued offset → s.greeting = continueLine ∧ ∃ b, Queued s.io b ∧
    m.streamFrom (offset - 1) = number (offset - 1) (s.accepted ++ b) ∧
    offset - 1 + (s.accepted ++ b).length = m.repl.server.masterReplOffset

theorem Master.Settled.serves (h : m.Settled) (hs : s ∈ m.slaves) : m.Serves s := by
  have howes := h.owes s hs
  have hsome := h.backlog (List.ne_nil_of_mem hs)
  have hoffset : getPsyncInitialOffset m.repl.server = m.repl.server.masterReplOffset := by
    rw [getPsyncInitialOffset, if_neg (by simp [Option.isNone_iff_eq_none, Option.isSome_iff_ne_none.mp hsome])]
  refine ⟨fun hwait => ?_, fun hjoined => ?_, fun hfull => ?_, howes.greeting, howes.inDatabase, fun offset hcont => ?_⟩
  · obtain ⟨hacc, -, hq⟩ := howes.waiting (howes.waiting_iff.mp hwait)
    exact ⟨hacc, hq⟩
  · cases hresync : s.resync with
    | waiting => exact absurd (howes.waiting_iff.mpr hresync) hjoined
    | full => exact .inl rfl
    | continued offset => exact .inr (.inl ⟨offset, rfl⟩)
    | failed => exact .inr (.inr (howes.failed hresync))
  · obtain ⟨b, hq, hsent, hlog⟩ := howes.full hfull
    exact ⟨b, hq, hsent.stream, hsent.upTo.trans hoffset, hlog⟩
  · obtain ⟨hgreet, b, hq, hsent⟩ := howes.continued offset hcont
    exact ⟨hgreet, b, hq, hsent.stream, hsent.upTo.trans hoffset⟩

/-- **Every slave receives the same stream.**  A run in which no client becomes a slave with
    replies of its own in its queue does not stop, and every slave has been queued exactly the
    numbered bytes of the master's stream behind the offset it has been sent, or from the
    offset it has asked for; in a stream that starts after a full resynchronization every
    command is executed in its database. -/
theorem slaves_receive_stream (runid : Bytes) (diskless : Bool) (ops : List MasterOp)
    (hsound : SoundRun blocks (initMaster runid diskless) ops) :
    ∃ m, runMaster blocks (initMaster runid diskless) ops = .ok m ∧ ∀ s ∈ m.slaves, m.Serves s := by
  obtain ⟨m, hrun, hm⟩ := runMaster_spec blocks ops (init_settled runid diskless) hsound
  exact ⟨m, hrun, fun s hs => hm.serves hs⟩

end Runs

/-! ### A slave with a reply in its queue -/

/-- Blocks of memory of one byte. -/
def unitBlocks : Blocks where
  fresh := fun _ => ⟨1, Nat.one_pos⟩
  shared := fun _ => ⟨1, Nat.one_pos⟩

/-- The system grants everything. -/
def easyEnv : SyncEnv where
  written := fun _ => true
  piped := true
  forked := true
  junk := fun _ => 0

/-- The buffers of a client that has just connected. -/
def freshIo : ReplyClient := createReplyClient 5 (fun _ => 0)

theorem freshIo_sane : freshIo.Sane := by
  refine ⟨⟨by decide, rfl, rfl, rfl, rfl⟩, ?_, Nat.zero_le _, .inl rfl, ?_, ?_, rfl⟩
  · simp [freshIo, createReplyClient, zrealloc]
  · simp [freshIo, createReplyClient]
  · simp [freshIo, createReplyClient]

theorem freshIo_idle : freshIo.flags.pendingWrite = true → clientHasPendingReplies freshIo = true := by
  intro h
  cases h

/-- A client that has just connected. -/
def freshPeer (id : Nat) : Peer where
  id := id
  io := freshIo
  slave := false
  slaveCapa := 0
  sane := freshIo_sane
  lua := rfl
  replstate := rfl
  pending := freshIo_idle

theorem noArgs_valid : ∀ o ∈ ([] : List ReplyObject), o.Valid := by
  intro o ho
  cases ho

theorem noArgs_lt : ([] : List ReplyObject).length < 2 ^ 31 := by
  rw [List.length_nil]
  omega

/-- No arguments. -/
def noArgs : Argv := ⟨[], noArgs_lt, noArgs_valid⟩

theorem three_lt : 3 < 2 ^ 31 := by omega

/-- A database. -/
def dbThree : Db := ⟨3, three_lt⟩

/-- Two slaves, of which the second is synchronized with the data set of the first. -/
theorem slaves_receive_stream_two :
    ∃ m, runMaster unitBlocks (initMaster [65] false)
        [.sync (freshPeer 1) .sync easyEnv, .feed dbThree noArgs, .sync (freshPeer 2) .sync easyEnv,
          .feed dbThree noArgs] = .ok m ∧ ∀ s ∈ m.slaves, m.Serves s :=
  slaves_receive_stream unitBlocks [65] false _
    ⟨fun _ => rfl, fun _ _ => ⟨trivial, fun _ _ => ⟨fun _ => rfl, fun _ _ => ⟨trivial, fun _ _ => trivial⟩⟩⟩⟩

/-- The error of `PSYNC` is queued. -/
theorem addReplyError_adds (blocks : Blocks) {c : ReplyClient} (h : c.Sane) (err : String) :
    ∃ d b, addReplyError blocks c err = .ok d ∧ c.Adds d (45 :: b) := by
  obtain ⟨c₁, hrun₁, hadds₁⟩ := ReplyClient.addReplyString_adds blocks h [45, 69, 82, 82, 32]
  obtain ⟨c₂, hrun₂, hadds₂⟩ := ReplyClient.addReplyString_adds blocks hadds₁.sane
    (err.toList.map (fun ch => UInt8.ofNat ch.toNat))
  obtain ⟨c₃, hrun₃, hadds₃⟩ := ReplyClient.addReplyString_adds blocks hadds₂.sane [13, 10]
  refine ⟨c₃, _, ?_, hadds₁.trans (hadds₂.trans hadds₃)⟩
  rw [addReplyError, hrun₁, ok_bind, hrun₂, ok_bind, hrun₃]

/-- The master and its one slave, after the slave has asked with an offset that is no number. -/
def afterError (io : ReplyClient) : Master where
  repl := {
    server := { initReplServer [65] with
      replBacklog := some (zrealloc (fun _ => 0) [] CONFIG_DEFAULT_REPL_BACKLOG_SIZE)
      replBacklogOff := 2
      masterReplOffset := 1
      slaves := 1 }
    fed := []
    allocated := 1 }
  slaveseldb := -1
  slaves := [{
    id := 1
    io := { io with replstate := .other, flags := { io.flags with replySkip := false } }
    prePsync := false
    closeAsap := false
    replstate := .waitBgsaveEnd
    slaveCapa := 0
    psyncInitialOffset := 1
    writeHandler := .none
    greeting := fullResyncLine [65] 1
    accepted := []
    resync := .full }]
  rdbChild := some .disk
  aofChild := false
  replDisklessSync := false
  log := []

theorem step_afterError {io : ReplyClient}
    (hio : addReplyError unitBlocks freshIo "value is not an integer or out of range" = .ok io) :
    stepMaster unitBlocks (initMaster [65] false) (.sync (freshPeer 1) (.psync [65] [120]) easyEnv) = .ok (afterError io) := by
  have hpsync : masterTryPartialResynchronization [65] [120] true (initReplServer [65]) =
      .ok (.needFullResync (some "value is not an integer or out of range"), initReplServer [65]) := by
    rfl
  have hserver : (initMaster [65] false).repl.server = initReplServer [65] := rfl
  have hwritten : easyEnv.written (freshPeer 1).id = true := rfl
  obtain ⟨slave, hslave⟩ : ∃ slave, slave = (freshPeer 1).toSlave (.psync [65] [120]) := ⟨_, rfl⟩
  have hslaveIo : slave.io = freshIo := by rw [hslave]; rfl
  rw [stepMaster, syncCommand, if_pos (by rfl), Master.answerSync]
  simp only [← hslave, hserver, hwritten, hpsync, Except.mapError, ok_bind, Master.afterPsync, hslaveIo, hio]
  rw [hslave]
  rfl

/-- The queue of the first slave, with the error that only this one has caused, is copied for
    the second one. -/
theorem copied_error :
    ∃ m s, runMaster unitBlocks (initMaster [65] false)
        [.sync (freshPeer 1) (.psync [65] [120]) easyEnv, .sync (freshPeer 2) .sync easyEnv] = .ok m ∧
      s ∈ m.slaves ∧ s.id = 2 ∧ ¬ m.Serves s := by
  obtain ⟨io, b, hio, hadds⟩ := addReplyError_adds unitBlocks freshIo_sane "value is not an integer or out of range"
  have hq : Queued io (45 :: b) := by
    have hq := (queued_nil_of_idle (show clientHasPendingReplies freshIo = false from rfl)).adds freshIo_sane hadds
    rwa [List.nil_append] at hq
  obtain ⟨src, hsrc⟩ : ∃ src, src = { io with replstate := .other, flags := { io.flags with replySkip := false } } := ⟨_, rfl⟩
  have hsane : (answering src).Sane := by
    obtain ⟨⟨h1, h2, h3, h4, h5⟩, h6, h7, h8, h9, h10, h11⟩ := hadds.sane
    rw [hsrc]
    exact ⟨⟨h1, rfl, rfl, h4, h5⟩, h6, h7, h8, h9, h10, h11⟩
  have hqsrc : Queued src (45 :: b) := hsrc ▸ hq
  have hsent : src.sentlen = 0 := by
    rw [hsrc]
    exact hadds.sentlen
  obtain ⟨dst, hdst⟩ : ∃ dst : ReplyClient, dst = { freshIo with replstate := .other } := ⟨_, rfl⟩
  have hsaneDst : (answering dst).Sane := by
    obtain ⟨⟨h1, h2, h3, h4, h5⟩, h6, h7, h8, h9, h10, h11⟩ := freshIo_sane
    rw [hdst]
    exact ⟨⟨h1, rfl, rfl, h4, h5⟩, h6, h7, h8, h9, h10, h11⟩
  have hidle : clientHasPendingReplies dst = false := by
    rw [hdst]
    rfl
  obtain ⟨d, hcopy, -, hqd, -, -⟩ := copyClientOutputBuffer_spec hsaneDst hidle hsane hsent hqsrc
  obtain ⟨m, hstep, hfed, s, hs, hid, hresync, hacc, hqs⟩ :
      ∃ m, stepMaster unitBlocks (afterError io) (.sync (freshPeer 2) .sync easyEnv) = .ok m ∧ m.repl.fed = [] ∧
        ∃ s ∈ m.slaves, s.id = 2 ∧ s.resync = .full ∧ s.accepted = [] ∧ Queued s.io (45 :: b) := by
    obtain ⟨m₀, hm₀⟩ : ∃ m₀, m₀ = (afterError io).addSlave (((freshPeer 2).toSlave .sync).setReplstate .waitBgsaveStart) :=
      ⟨_, rfl⟩
    have hfind : m₀.slaves.find? (fun s => s.replstate = .waitBgsaveEnd) = some
        { id := 1, io := src, prePsync := false, closeAsap := false, replstate := .waitBgsaveEnd, slaveCapa := 0,
          psyncInitialOffset := 1, writeHandler := .none, greeting := fullResyncLine [65] 1, accepted := [],
          resync := .full } := by
      rw [hm₀, hsrc]
      rfl
    have hchild : m₀.rdbChild = some .disk := by
      rw [hm₀]
      rfl
    have hdstIo : (((freshPeer 2).toSlave .sync).setReplstate .waitBgsaveStart).io = dst := by
      rw [hdst]
      rfl
    rw [stepMaster, syncCommand, if_pos (by rfl), Master.answerSync, Master.fullResync]
    simp only [← hm₀]
    rw [Master.serveSlave.eq_def]
    simp only [hchild, hfind, hdstIo, hcopy, Except.mapError, ok_bind]
    have htwo : m₀.slaves.length = 2 := by
      rw [hm₀]
      rfl
    rw [if_pos (by rfl), pure_bind, Master.ensureBacklog,
      if_neg (by simp [Master.setupSlaves, Master.setSlaves, htwo]), ok_bind, hm₀]
    exact ⟨_, rfl, rfl, _, List.mem_cons_of_mem _ List.mem_cons_self, rfl, rfl, rfl, hqd⟩
  have hrun : runMaster unitBlocks (initMaster [65] false)
      [.sync (freshPeer 1) (.psync [65] [120]) easyEnv, .sync (freshPeer 2) .sync easyEnv] = .ok m := by
    rw [runMaster, List.foldlM_cons, step_afterError hio, ok_bind, List.foldlM_cons, hstep]
    rfl
  refine ⟨m, s, hrun, hs, hid, fun hserves => ?_⟩
  obtain ⟨b', hq', hstream, -⟩ := hserves.full hresync
  have hb : b' = 45 :: b := (hq' (fun _ => [])).symm.trans (hqs (fun _ => []))
  rw [Master.streamFrom, hfed, hacc, hb] at hstream
  simp [number] at hstream

end Redis.Replication
