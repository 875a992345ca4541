import Redis.Replication.Stream

namespace Redis.Replication

open Outcome

/-!
# Slaves — how a slave joins

The ways to become a slave, each of which keeps the invariant.

* `setupSlave_owes` — a full resynchronization from an offset on;
* `startBgsaveForReplication_joins` — all slaves that wait, from the offset of the master on;
* `serveSlave_joins` — among others, from the offset of a slave whose queue is copied;
* `answerSync_spec` — `SYNC` and `PSYNC`.
-/

variable {m m' : Master} {s c : Slave}

/-! ### A slave without a stream -/

/-- Nothing has been written to the slave yet, and `b` is queued. -/
structure Slave.Fresh (s : Slave) (b : Bytes) : Prop where
  sane : (answering s.io).Sane
  replyOff : s.io.flags.replyOff = false
  pendingWrite : s.io.flags.pendingWrite = false
  writeHandler : s.writeHandler ≠ .sendReplyToClient
  accepted : s.accepted = []
  greeting : s.greeting = []
  sentlen : s.io.sentlen = 0
  queued : Queued s.io b

/-- A slave that waits for a BGSAVE to start. -/
theorem Slave.Fresh.of_waits (hready : s.Ready) (howes : m.Owes s) (hwaits : s.waits = true) : s.Fresh [] := by
  have hstate : s.replstate = .waitBgsaveStart := by simpa [Slave.waits] using hwaits
  obtain ⟨hacc, hgreet, hq⟩ := howes.waiting (howes.waiting_iff.mp hstate)
  obtain ⟨hpend, hhandler, -, hsent⟩ := hready.quiet (by rw [hready.shown, hstate]; rfl)
  exact ⟨hready.sane, hready.replyOff, hpend, hhandler, hacc, hgreet, hsent, hq⟩

theorem setReplstate_fresh {b : Bytes} (h : s.Fresh b) (state : ReplState) : (s.setReplstate state).Fresh b := by
  obtain ⟨⟨⟨h1, h2, h3, h4, h5⟩, h6, h7, h8, h9, h10, h11⟩, hoff, hpend, hhandler, hacc, hgreet, hsent, hq⟩ := h
  exact ⟨⟨⟨h1, h2, h3, h4, h5⟩, h6, h7, h8, h9, h10, h11⟩, hoff, hpend, hhandler, hacc, hgreet, hsent, hq⟩

theorem Slave.Fresh.ready {b : Bytes} (h : s.Fresh b) (hshown : s.io.replstate = s.replstate.forReplies) : s.Ready :=
  ⟨h.sane, h.replyOff, hshown, fun _ => ⟨h.pendingWrite, h.writeHandler, h.accepted, h.sentlen⟩, b, h.queued⟩

section Setup

variable (written : Nat → Bool) (runid : Bytes) (offset : Int)

/-- Setting up a slave is to set its state and offset, and to write the line. -/
theorem setupSlave_eq (s : Slave) : ∃ closeAsap greeting, setupSlave written runid offset s =
      { s.setReplstate .waitBgsaveEnd with
        psyncInitialOffset := offset, resync := .full, closeAsap := closeAsap, greeting := greeting } ∧
    (s.prePsync = false → closeAsap = false → greeting = s.greeting ++ fullResyncLine runid offset) := by
  rw [setupSlave]
  by_cases hpre : s.prePsync = true
  · simp only [Slave.setReplstate, hpre, if_true]
    exact ⟨s.closeAsap, s.greeting, rfl, fun h => by simp at h⟩
  · simp only [Bool.not_eq_true] at hpre
    by_cases hwritten : written s.id = true
    · simp only [Slave.setReplstate, hpre, hwritten, if_true, Bool.false_eq_true, if_false]
      exact ⟨s.closeAsap, _, rfl, fun _ _ => rfl⟩
    · simp only [Slave.setReplstate, hpre, hwritten, Bool.false_eq_true, if_false]
      exact ⟨true, s.greeting, rfl, fun _ h => by simp at h⟩

theorem setupSlave_ready {b : Bytes} (h : s.Fresh b) : (setupSlave written runid offset s).Ready := by
  obtain ⟨closeAsap, greeting, heq, -⟩ := setupSlave_eq written runid offset s
  have hset := setReplstate_fresh h .waitBgsaveEnd
  rw [heq]
  exact ⟨hset.sane, hset.replyOff, rfl, fun _ => ⟨hset.pendingWrite, hset.writeHandler, hset.accepted, hset.sentlen⟩,
    b, hset.queued⟩

/-- A full resynchronization from an offset on, behind which the stream is what is queued. -/
theorem setupSlave_owes {b : Bytes} (h : s.Fresh b) (hsent : m.Sent offset b)
    (hlog : b = (m.logFrom offset).flatMap Fed.bytes) (hdb : InDatabase (m.logFrom offset)) :
    m.Owes (setupSlave written m.repl.server.runid offset s) := by
  obtain ⟨closeAsap, greeting, heq, hgreet⟩ := setupSlave_eq written m.repl.server.runid offset s
  rw [heq]
  have hall : s.accepted ++ b = b := by rw [h.accepted, List.nil_append]
  refine ⟨by simp [Slave.setReplstate], fun _ => rfl, by simp, fun _ => ⟨b, h.queued, ?_, ?_⟩, fun _ => hdb, fun _ hpre hclose => ?_, by simp,
    by simp⟩
  · show m.Sent offset (s.accepted ++ b)
    rw [hall]
    exact hsent
  · show s.accepted ++ b = _
    rw [hall]
    exact hlog
  · show greeting = _
    rw [hgreet hpre hclose, h.greeting, List.nil_append]

theorem setupSlave_id (s : Slave) : (setupSlave written runid offset s).id = s.id := by
  obtain ⟨closeAsap, greeting, heq, -⟩ := setupSlave_eq written runid offset s
  rw [heq]
  rfl

theorem setupSlave_flags (s : Slave) : (setupSlave written runid offset s).io.flags = s.io.flags := by
  obtain ⟨closeAsap, greeting, heq, -⟩ := setupSlave_eq written runid offset s
  rw [heq]
  rfl

end Setup

/-! ### The list of slaves -/

/-- The children and the configuration do not matter to the slaves. -/
theorem Master.Inv.children (h : m.Inv) (rdbChild : Option RdbChildType) (aofChild diskless : Bool) :
    ({ m with rdbChild := rdbChild, aofChild := aofChild, replDisklessSync := diskless } : Master).Inv where
  repl := h.repl
  count := h.count
  log_lt := h.log_lt
  ready := h.ready
  owes := fun s hs => (⟨rfl, rfl, rfl, rfl⟩ : m.SameStream
    { m with rdbChild := rdbChild, aofChild := aofChild, replDisklessSync := diskless }).owes (h.owes s hs)
  selecting := h.selecting

/-- Slaves are removed, and others join when no database is selected. -/
theorem Master.Inv.replace (h : m.Inv) {l : List Slave} {seldb : Int} (hseldb : seldb = -1 ∨ seldb = m.slaveseldb)
    (hl : ∀ s ∈ l, s ∈ m.slaves ∨ seldb = -1 ∧ s.Ready ∧ m.Owes s) :
    ({ m.setSlaves l with slaveseldb := seldb } : Master).Inv := by
  have hall : ∀ s ∈ l, s.Ready ∧ m.Owes s := by
    intro s hs
    rcases hl s hs with hs | ⟨-, hs⟩
    · exact ⟨h.ready s hs, h.owes s hs⟩
    · exact hs
  refine (h.toCore.setSlaves hall).setSelected (fun hne s hs hfull => ?_)
  rcases hl s hs with hs | ⟨hnone, -⟩
  · -- no other database has been set
    rcases hseldb with hnone | rfl
    · exact absurd hnone hne
    · exact h.selecting hne s hs hfull
  · exact absurd hnone hne

theorem Master.Inv.sub (h : m.Inv) {l : List Slave} (hl : ∀ s ∈ l, s ∈ m.slaves) : (m.setSlaves l).Inv :=
  h.replace (.inr rfl) (fun s hs => .inl (hl s hs))

/-- A slave that is not fully resynchronized joins. -/
theorem Master.Inv.addSlave (h : m.Inv) (hready : c.Ready) (howes : m.Owes c) (hfull : c.resync ≠ .full) :
    (m.addSlave c).Inv := by
  have hall : ∀ s ∈ m.slaves ++ [c], s.Ready ∧ m.Owes s := by
    intro s hs
    rcases List.mem_append.mp hs with hs | hs
    · exact ⟨h.ready s hs, h.owes s hs⟩
    · rw [List.mem_singleton.mp hs]
      exact ⟨hready, howes⟩
  refine (h.toCore.setSlaves hall).setSelected (fun hne s hs hs' => ?_)
  rcases List.mem_append.mp hs with hs | hs
  · exact h.selecting hne s hs hs'
  · rw [List.mem_singleton.mp hs] at hs'
    exact absurd hs' hfull

/-! ### BGSAVE -/

/-- Behind the offset of the master there is nothing. -/
theorem Master.Core.sent_nil (h : m.Core) : m.Sent (getPsyncInitialOffset m.repl.server) [] ∧
    m.logFrom (getPsyncInitialOffset m.repl.server) = [] := by
  have hle : m.repl.server.masterReplOffset ≤ getPsyncInitialOffset m.repl.server := by
    rw [getPsyncInitialOffset]
    split <;> omega
  refine ⟨⟨?_, by simp⟩, ?_⟩
  · rw [Master.streamFrom, number]
    refine List.filter_eq_nil_iff.mpr (fun b hb => ?_)
    have := h.repl.fed_le b hb
    simp only [decide_eq_true_eq]
    omega
  · rw [Master.logFrom, List.map_eq_nil_iff]
    refine List.filter_eq_nil_iff.mpr (fun e he => ?_)
    have := h.log_lt e he
    simp only [decide_eq_true_eq]
    omega

/-- What the slaves have become, with the same stream. -/
structure Master.Joins (m m' : Master) : Prop where
  inv : m'.Inv
  backlog : m'.repl.server.replBacklog = m.repl.server.replBacklog
  length : m'.slaves.length ≤ m.slaves.length
  origin : ∀ s' ∈ m'.slaves, ∃ s ∈ m.slaves, s'.id = s.id ∧ s'.io.flags.replySkip = s.io.flags.replySkip

theorem Master.Joins.refl (h : m.Inv) : m.Joins m := ⟨h, rfl, le_refl _, fun s hs => ⟨s, hs, rfl, rfl⟩⟩

/-- The slaves that wait are set up. -/
theorem setupSlaves_joins (h : m.Inv) (env : SyncEnv) :
    m.Joins (m.setupSlaves env (getPsyncInitialOffset m.repl.server) Slave.waits) := by
  obtain ⟨hsent, hlog⟩ := h.sent_nil
  refine ⟨h.replace ?_ (fun s' hs' => ?_), rfl, ?_, fun s' hs' => ?_⟩
  · by_cases hany : m.slaves.any Slave.waits = true
    · exact .inl (if_pos hany)
    · exact .inr (if_neg hany)
  · obtain ⟨s, hs, rfl⟩ := List.mem_map.mp hs'
    by_cases hwaits : s.waits = true
    · have hany : m.slaves.any Slave.waits = true := List.any_eq_true.mpr ⟨s, hs, hwaits⟩
      have hfresh := Slave.Fresh.of_waits (h.ready s hs) (h.owes s hs) hwaits
      rw [if_pos hwaits]
      refine .inr ⟨if_pos hany, setupSlave_ready _ _ _ hfresh, setupSlave_owes _ _ hfresh hsent ?_ ?_⟩
      · rw [hlog, List.flatMap_nil]
      · rw [hlog]
        exact inDatabase_nil
    · rw [if_neg hwaits]
      exact .inl hs
  · exact le_of_eq (List.length_map _)
  · obtain ⟨s, hs, rfl⟩ := List.mem_map.mp hs'
    refine ⟨s, hs, ?_⟩
    split
    · exact ⟨setupSlave_id _ _ _ s, by rw [setupSlave_flags]⟩
    · exact ⟨rfl, rfl⟩

/-- After a BGSAVE that has failed, the slaves that wait are no slaves any more. -/
theorem Master.Joins.dropWaiting (h : m.Joins m') : m.Joins (m'.setSlaves (m'.slaves.filter (fun s => !s.waits))) where
  inv := h.inv.sub (fun _ hs => List.mem_of_mem_filter hs)
  backlog := h.backlog
  length := (List.length_filter_le _ _).trans h.length
  origin := fun s' hs' => h.origin s' (List.mem_of_mem_filter hs')

theorem Master.Joins.children (h : m.Joins m') (rdbChild : Option RdbChildType) :
    m.Joins { m' with rdbChild := rdbChild } :=
  ⟨h.inv.children rdbChild m'.aofChild m'.replDisklessSync, h.backlog, h.length, h.origin⟩

/-- `rdbSaveToSlavesSockets`; without a child, the slaves that have not waited are those that do
    not wait. -/
theorem rdbSaveToSlavesSockets_joins (h : m.Inv) (env : SyncEnv) :
    m.Joins (if !(rdbSaveToSlavesSockets env m).1 then
      (rdbSaveToSlavesSockets env m).2.setSlaves
        ((rdbSaveToSlavesSockets env m).2.slaves.filter (fun s => !s.waits))
      else (rdbSaveToSlavesSockets env m).2) := by
  have hset := setupSlaves_joins h env
  rw [rdbSaveToSlavesSockets]
  by_cases hchild : m.aofChild = true ∨ m.rdbChild.isSome = true
  · simp only [if_pos hchild]
    exact (Master.Joins.refl h).dropWaiting
  · simp only [if_neg hchild]
    by_cases hpiped : env.piped = true
    · by_cases hforked : env.forked = true
      · simp only [hpiped, hforked, Bool.not_true, Bool.false_eq_true, if_false, if_true]
        exact hset.children _
      · simp only [hpiped, hforked, Bool.not_true, Bool.false_eq_true, if_false, Bool.not_false, if_true]
        -- who is left has not been touched
        obtain ⟨waiting, hwaiting⟩ : ∃ waiting, waiting =
            m.slaves.filterMap (fun s => if s.waits then some s.id else none) := ⟨_, rfl⟩
        rw [← hwaiting]
        have hleft : ∀ s' ∈ ((m.slaves.map (fun s => if s.waits then
            setupSlave env.written m.repl.server.runid (getPsyncInitialOffset m.repl.server) s else s)).map
            (fun s => if s.id ∈ waiting then s.setReplstate .waitBgsaveStart else s)).filter (fun s => !s.waits),
            s' ∈ m.slaves := by
          intro s' hs'
          obtain ⟨hs', hnot⟩ := List.mem_filter.mp hs'
          obtain ⟨t, ht, rfl⟩ := List.mem_map.mp hs'
          obtain ⟨s, hs, rfl⟩ := List.mem_map.mp ht
          by_cases hwaits : s.waits = true
          · have hid : s.id ∈ waiting := by
              rw [hwaiting]
              exact List.mem_filterMap.mpr ⟨s, hs, by rw [if_pos hwaits]⟩
            rw [if_pos hwaits, setupSlave_id, if_pos hid] at hnot
            simp [Slave.waits, Slave.setReplstate] at hnot
          · rw [if_neg hwaits] at hnot ⊢
            split at hnot
            · simp [Slave.waits, Slave.setReplstate] at hnot
            · rename_i hid
              rw [if_neg hid]
              exact hs
        refine ⟨h.replace ?_ (fun s' hs' => .inl (hleft s' hs')), rfl, ?_, fun s' hs' => ⟨s', hleft s' hs', rfl, rfl⟩⟩
        · by_cases hany : m.slaves.any Slave.waits = true
          · exact .inl (if_pos hany)
          · exact .inr (if_neg hany)
        · refine (List.length_filter_le _ _).trans ?_
          simp [Master.setSlaves, Master.setupSlaves]
    · simp only [hpiped, Bool.not_false, if_true]
      exact (Master.Joins.refl h).dropWaiting

theorem startBgsaveForReplication_joins (h : m.Inv) (env : SyncEnv) (mincapa : Nat) :
    m.Joins (startBgsaveForReplication env mincapa m) := by
  rw [startBgsaveForReplication]
  by_cases htarget : (m.replDisklessSync && decide (mincapa &&& SLAVE_CAPA_EOF ≠ 0)) = true
  · simp only [htarget, if_true]
    exact rdbSaveToSlavesSockets_joins h env
  · simp only [htarget, Bool.false_eq_true, if_false]
    rw [rdbSaveBackground]
    by_cases hchild : m.aofChild = true ∨ m.rdbChild.isSome = true
    · simp only [if_pos hchild, Option.isSome_none, Option.getD_none, Bool.not_false, if_true]
      exact (Master.Joins.refl h).dropWaiting
    · simp only [if_neg hchild]
      by_cases hforked : env.forked = true
      · simp only [hforked, if_true, Option.isSome_some, Option.getD_some, Bool.not_true, Bool.false_eq_true, if_false]
        have hset := setupSlaves_joins (h.children (some .disk) m.aofChild m.replDisklessSync) env
        exact ⟨hset.inv, hset.backlog, hset.length, hset.origin⟩
      · simp only [hforked, Bool.false_eq_true, if_false, Option.isSome_none, Option.getD_none, Bool.not_false, if_true]
        exact (Master.Joins.refl h).dropWaiting

/-! ### `syncCommand` -/

/-- The queue of a slave that accumulates the differences is copied. -/
theorem attach_joins (h : m.Inv) (env : SyncEnv) {slave : Slave} (hc : c.Fresh [])
    (hidle : clientHasPendingReplies c.io = false) (hmem : c ∈ m.slaves) (huniq : ∀ s ∈ m.slaves, s.id = c.id → s = c)
    (hslave : slave ∈ m.slaves) (hend : slave.replstate = .waitBgsaveEnd) :
    ∃ io, copyClientOutputBuffer c.io slave.io = .ok io ∧
      m.Joins ((m.setSlaves (m.slaves.map (fun s => if s.id = c.id then { s with io := io } else s))).setupSlaves env
        slave.psyncInitialOffset (fun s => s.id = c.id)) := by
  have hready := h.ready slave hslave
  have howes := h.owes slave hslave
  obtain ⟨-, -, hacc, hsent⟩ := hready.quiet (by rw [hready.shown, hend]; rfl)
  obtain ⟨b, hq, hstream, hlog⟩ := howes.full (howes.full_of_end hend)
  have hdb := howes.inDatabase (howes.full_of_end hend)
  rw [hacc, List.nil_append] at hstream hlog
  obtain ⟨io, hcopy, hsane, hqueued, hzero, hsame⟩ := copyClientOutputBuffer_spec hc.sane hidle hready.sane hsent hq
  have hfresh : ({ c with io := io } : Slave).Fresh b := by
    refine ⟨hsane, ?_, ?_, hc.writeHandler, hc.accepted, hc.greeting, hzero, hqueued⟩
    · show io.flags.replyOff = false
      rw [hsame.flags]
      exact hc.replyOff
    · show io.flags.pendingWrite = false
      rw [hsame.flags]
      exact hc.pendingWrite
  have hany : (m.slaves.map (fun s => if s.id = c.id then { s with io := io } else s)).any
      (fun s => decide (s.id = c.id)) = true := by
    rw [List.any_eq_true]
    refine ⟨{ c with io := io }, List.mem_map.mpr ⟨c, hmem, by rw [if_pos rfl]⟩, by simp⟩
  refine ⟨io, hcopy, h.replace (.inl (if_pos hany)) (fun s' hs' => ?_), rfl, ?_, fun s' hs' => ?_⟩
  · obtain ⟨t, ht, rfl⟩ := List.mem_map.mp hs'
    obtain ⟨s, hs, rfl⟩ := List.mem_map.mp ht
    by_cases hid : s.id = c.id
    · obtain rfl := huniq s hs hid
      simp only [if_true, decide_true]
      exact .inr ⟨if_pos hany, setupSlave_ready _ _ _ hfresh, setupSlave_owes _ _ hfresh hstream hlog hdb⟩
    · simp only [hid, if_false, decide_false, Bool.false_eq_true]
      exact .inl hs
  · simp [Master.setupSlaves, Master.setSlaves]
  · obtain ⟨t, ht, rfl⟩ := List.mem_map.mp hs'
    obtain ⟨s, hs, rfl⟩ := List.mem_map.mp ht
    refine ⟨s, hs, ?_⟩
    by_cases hid : s.id = c.id
    · simp only [hid, if_true, decide_true, setupSlave_id, setupSlave_flags, true_and]
      obtain rfl := huniq s hs hid
      rw [hsame.flags]
    · simp [hid]

/-- `syncCommand` from `CASE 1` on. -/
theorem serveSlave_joins (h : m.Inv) (env : SyncEnv) (hc : c.Fresh []) (hidle : clientHasPendingReplies c.io = false)
    (hmem : c ∈ m.slaves) (huniq : ∀ s ∈ m.slaves, s.id = c.id → s = c) :
    ∃ m', m.serveSlave env c = .ok m' ∧ m.Joins m' := by
  have hsame : ∃ m', (Except.ok m : Except Fault Master) = .ok m' ∧ m.Joins m' := ⟨m, rfl, Master.Joins.refl h⟩
  rw [Master.serveSlave.eq_def]
  cases m.rdbChild with
  | none =>
    simp only
    by_cases hdelay : (m.replDisklessSync && decide (c.slaveCapa &&& SLAVE_CAPA_EOF ≠ 0)) = true
    · rw [if_pos hdelay]
      exact hsame
    · rw [if_neg hdelay]
      by_cases haof : (!m.aofChild) = true
      · rw [if_pos haof]
        exact ⟨_, rfl, startBgsaveForReplication_joins h env c.slaveCapa⟩
      · rw [if_neg haof]
        exact hsame
  | some type =>
    cases type with
    | socket => exact hsame
    | disk =>
      simp only
      cases hfind : m.slaves.find? (fun s => s.replstate = .waitBgsaveEnd) with
      | none => exact hsame
      | some slave =>
        simp only
        have hend : slave.replstate = .waitBgsaveEnd := by simpa using List.find?_some hfind
        by_cases hcapa : c.slaveCapa &&& slave.slaveCapa = slave.slaveCapa
        · rw [if_pos hcapa]
          obtain ⟨io, hcopy, hjoins⟩ := attach_joins h env hc hidle hmem huniq (List.mem_of_find?_eq_some hfind) hend
          rw [hcopy]
          exact ⟨_, rfl, hjoins⟩
        · rw [if_neg hcapa]
          exact hsame

/-- The first slave gets a backlog; the offsets of the slaves count its creation already. -/
theorem ensureBacklog_spec (h : m.Inv) (env : SyncEnv)
    (hback : m.repl.server.replBacklog.isSome = true ∨ m.slaves.length ≤ 1) :
    ∃ m', m.ensureBacklog env = .ok m' ∧ m'.Inv ∧ m'.slaves = m.slaves ∧
      (m'.slaves ≠ [] → m'.repl.server.replBacklog.isSome = true) := by
  rw [Master.ensureBacklog]
  by_cases hcreate : m.slaves.length = 1 ∧ m.repl.server.replBacklog.isNone = true
  · have hnone : ¬ m.repl.server.replBacklog.isSome = true := by simpa using hcreate.2
    obtain ⟨r, hr, hfed, hoff, hsome, hslaves, hrunid⟩ : ∃ r, stepRepl m.repl (.create env.junk) = .ok r ∧
        r.fed = m.repl.fed ∧ r.server.masterReplOffset = m.repl.server.masterReplOffset + 1 ∧
        r.server.replBacklog.isSome = true ∧ r.server.slaves = m.repl.server.slaves ∧
        r.server.runid = m.repl.server.runid := by
      rw [stepRepl, createReplicationBacklog, if_neg hnone]
      exact ⟨_, rfl, rfl, rfl, rfl, rfl, rfl⟩
    have hinv := (create_inv h.repl env.junk).of_eq_ok hr
    have hsame : m.SameStream { m with repl := r } := by
      refine ⟨hfed, rfl, ?_, hrunid⟩
      rw [getPsyncInitialOffset, getPsyncInitialOffset, if_pos hcreate.2,
        if_neg (by simp [Option.isNone_iff_eq_none, Option.isSome_iff_ne_none.mp hsome]), hoff]
    rw [if_pos hcreate, hr]
    refine ⟨{ m with repl := r }, rfl, ⟨⟨hinv, hslaves.trans h.count, fun e he => ?_, h.ready,
      fun s hs => hsame.owes (h.owes s hs)⟩, h.selecting⟩, rfl, fun _ => hsome⟩
    have := h.log_lt e he
    show e.1 < r.server.masterReplOffset
    omega
  · rw [if_neg hcreate]
    refine ⟨m, rfl, h, rfl, fun hne => ?_⟩
    have hpos : 0 < m.slaves.length := List.length_pos_iff.mpr hne
    rcases hback with hsome | hle
    · exact hsome
    · by_contra hnone
      exact hcreate ⟨by omega, by simpa using hnone⟩

/-- What holds after a command: only the client that has sent it may have its replies skipped. -/
structure Master.Served (m : Master) (id : Nat) : Prop extends m.Inv where
  backlog : m.slaves ≠ [] → m.repl.server.replBacklog.isSome = true
  replySkip : ∀ s ∈ m.slaves, s.id ≠ id → s.io.flags.replySkip = false

theorem fullResync_spec (h : m.Settled) (env : SyncEnv) (hc : c.Fresh []) (hidle : clientHasPendingReplies c.io = false)
    (hresync : c.resync = .waiting) (hnew : ∀ s ∈ m.slaves, s.id ≠ c.id) :
    ∃ m', m.fullResync env c = .ok m' ∧ m'.Served c.id := by
  obtain ⟨d, hd⟩ : ∃ d, d = c.setReplstate .waitBgsaveStart := ⟨_, rfl⟩
  have hfresh : d.Fresh [] := hd ▸ setReplstate_fresh hc _
  have hid : d.id = c.id := by rw [hd]; rfl
  have hwait : d.replstate = .waitBgsaveStart := by rw [hd]; rfl
  have hwaiting : d.resync = .waiting := by rw [hd]; exact hresync
  have howes : m.Owes d := by
    refine ⟨by simp [hwait, hwaiting], by simp [hwait], fun _ => ⟨hfresh.accepted, hfresh.greeting, hfresh.queued⟩,
      ?_, ?_, ?_, ?_, ?_⟩
    all_goals simp [hwaiting]
  have hinv := h.toInv.addSlave (hfresh.ready (by rw [hd]; rfl)) howes (by simp [hwaiting])
  have huniq : ∀ s ∈ (m.addSlave d).slaves, s.id = d.id → s = d := by
    intro s hs hsid
    rcases List.mem_append.mp hs with hs | hs
    · exact absurd (hsid.trans hid) (hnew s hs)
    · exact List.mem_singleton.mp hs
  have hidle' : clientHasPendingReplies d.io = false := by rw [hd]; exact hidle
  obtain ⟨m₁, hrun₁, hjoins⟩ := serveSlave_joins hinv env hfresh hidle' (List.mem_append_right _ List.mem_cons_self) huniq
  have hback : m₁.repl.server.replBacklog.isSome = true ∨ m₁.slaves.length ≤ 1 := by
    rw [hjoins.backlog]
    by_cases hnil : m.slaves = []
    · refine .inr (hjoins.length.trans ?_)
      simp [Master.addSlave, Master.setSlaves, hnil]
    · exact .inl (h.backlog hnil)
  obtain ⟨m₂, hrun₂, hinv₂, hslaves, hsome⟩ := ensureBacklog_spec hjoins.inv env hback
  refine ⟨m₂, ?_, hinv₂, hsome, fun s' hs' hne => ?_⟩
  · rw [Master.fullResync]
    simp only [← hd, hrun₁, ok_bind, hrun₂]
  · obtain ⟨s, hs, hsid, hskip⟩ := hjoins.origin s' (hslaves ▸ hs')
    rw [hskip]
    rcases List.mem_append.mp hs with hs | hs
    · exact h.replySkip s hs
    · rw [List.mem_singleton.mp hs] at hsid
      exact absurd (hsid.trans hid) hne

/-! ### `PSYNC` -/

/-- What `PSYNC` finds: the bytes that follow `+CONTINUE` are the stream from the offset on. -/
theorem psync_cases (h : m.repl.Inv) (masterRunid psyncOffset : Bytes) (written : Bool) :
    ∃ reply s', masterTryPartialResynchronization masterRunid psyncOffset written m.repl.server = .ok (reply, s') ∧
      (reply = .needFullResync none ∨
        (∃ err, reply = .needFullResync (some err) ∧ strcaseeq masterRunid m.repl.server.runid = true ∧
          string2ll psyncOffset = none) ∨
        (reply = .closed ∧ m.repl.server.replBacklog.isSome = true) ∨
        ∃ offset bytes, reply = .continued bytes ∧ written = true ∧
          strcaseeq masterRunid m.repl.server.runid = true ∧ string2ll psyncOffset = some offset ∧
          m.repl.server.replBacklog.isSome = true ∧ m.repl.server.replBacklogOff ≤ offset ∧
          m.Sent (offset - 1) bytes) := by
  rw [masterTryPartialResynchronization]
  by_cases hrunid : strcaseeq masterRunid m.repl.server.runid = true
  · rw [if_neg (by simp [hrunid])]
    cases hoffset : string2ll psyncOffset with
    | none => exact ⟨_, _, rfl, .inr (.inl ⟨_, rfl, hrunid, rfl⟩)⟩
    | some offset =>
      simp only
      by_cases hlack : m.repl.server.replBacklog.isNone = true ∨ offset < m.repl.server.replBacklogOff ∨
          offset > m.repl.server.replBacklogOff + m.repl.server.replBacklogHistlen
      · rw [if_pos hlack]
        exact ⟨_, _, rfl, .inl rfl⟩
      · rw [if_neg hlack]
        have hsome : m.repl.server.replBacklog.isSome = true := by
          rw [Option.isSome_iff_ne_none]
          intro hnone
          exact hlack (.inl (by rw [hnone, Option.isNone_none]))
        by_cases hwritten : written = true
        · rcases h.serves with hnone | ⟨buf, hist, hs⟩
          · simp [hnone] at hsome
          · obtain ⟨sent, hsent, hlen, hreply⟩ := hs.reply (show m.repl.server.replBacklogOff ≤ offset by omega) (by omega)
            rw [if_neg (by simp [hwritten]), hreply, ok_bind]
            refine ⟨_, _, rfl, .inr (.inr (.inr ⟨offset, sent, rfl, hwritten, hrunid, rfl, hsome, by omega, ?_, ?_⟩))⟩
            · rw [← hsent, Master.streamFrom]
              refine List.filter_congr (fun b _ => ?_)
              rw [decide_eq_decide]
              omega
            · rw [getPsyncInitialOffset, if_neg (by simp [Option.isNone_iff_eq_none, Option.isSome_iff_ne_none.mp hsome])]
              omega
        · rw [if_pos (by simpa using hwritten)]
          exact ⟨_, _, rfl, .inr (.inr (.inl ⟨rfl, hsome⟩))⟩
  · rw [if_pos (by simpa using hrunid)]
    exact ⟨_, _, rfl, .inl rfl⟩

section Blocks

variable (blocks : Blocks)

/-- A reply that is skipped. -/
theorem addReplyError_skipped {io : ReplyClient} (hlua : io.flags.lua = false) (hskip : io.flags.replySkip = true)
    (err : String) : addReplyError blocks io err = .ok io := by
  have hstring : ∀ b, addReplyString blocks io b = .ok io := by
    intro b
    rw [addReplyString, prepareClientToWrite, if_neg (by simp [hlua]), if_pos (by simp [hskip])]
  rw [addReplyError]
  simp only [hstring, ok_bind]

/-- What may be asked for: replies are on; a request with the run id of the master has a number
    as its offset, or its error is skipped; and what the backlog holds is not skipped. -/
def Master.Admits (m : Master) (env : SyncEnv) (c : Peer) : SyncRequest → Prop
  | .sync => c.io.flags.replyOff = false
  | .psync masterRunid psyncOffset =>
      c.io.flags.replyOff = false ∧
      (strcaseeq masterRunid m.repl.server.runid = true →
        (string2ll psyncOffset = none → c.io.flags.replySkip = true) ∧
        ∀ offset, string2ll psyncOffset = some offset → m.repl.server.replBacklog.isSome = true →
          m.repl.server.replBacklogOff ≤ offset → offset ≤ m.repl.server.masterReplOffset →
          env.written c.id = true → c.io.flags.replySkip = false)

/-- The client as it is when nothing is pending. -/
theorem Peer.fresh (c : Peer) (request : SyncRequest) (hoff : c.io.flags.replyOff = false)
    (hidle : clientHasPendingReplies c.io = false) : (c.toSlave request).Fresh [] := by
  have hpend : c.io.flags.pendingWrite = false := by
    cases hp : c.io.flags.pendingWrite with
    | false => rfl
    | true => simp [c.pending hp] at hidle
  have hzero : c.io.sentlen = 0 := c.sane.sentlen_of_idle hidle
  exact ⟨c.sane, hoff, hpend, by simp [Peer.toSlave], rfl, rfl, hzero, queued_nil_of_idle hidle⟩

/-- A slave joins that is not set up from scratch. -/
theorem Master.Settled.joinOnline (h : m.Settled) (hready : c.Ready) (howes : m.Owes c) (hfull : c.resync ≠ .full)
    (hsome : m.repl.server.replBacklog.isSome = true) : (m.addSlave c).Served c.id where
  toInv := h.toInv.addSlave hready howes hfull
  backlog := fun _ => hsome
  replySkip := fun s hs hne => by
    rcases List.mem_append.mp hs with hs | hs
    · exact h.replySkip s hs
    · rw [List.mem_singleton.mp hs] at hne
      exact absurd rfl hne

end Blocks

section Sync

variable (blocks : Blocks)

/-- The bytes of the backlog for a client that is online. -/
theorem addReplyBacklog_spec {io : ReplyClient} {bytes : Bytes} (hsane : (answering io).Sane)
    (hoff : io.flags.replyOff = false) (hq : Queued io []) (hskip : bytes ≠ [] → io.flags.replySkip = false) :
    ∃ d, addReplyBacklog blocks io bytes = .ok d ∧ (answering d).Sane ∧ d.flags.replyOff = false ∧
      d.replstate = io.replstate ∧ Queued d bytes := by
  rw [addReplyBacklog]
  by_cases hnil : bytes = []
  · rw [if_pos hnil, hnil]
    exact ⟨io, rfl, hsane, hoff, rfl, hq⟩
  · rw [if_neg hnil]
    have hio : io.Sane := by
      rw [answering_eq hoff (hskip hnil)] at hsane
      exact hsane
    obtain ⟨d, hd, hadds⟩ := ReplyClient.addReplySds_adds blocks hio ⟨bytes, blocks.fresh io.allocs⟩
    have hframe : Frame io d := (addReplySds_keeps blocks io _).of_eq_ok hd
    have hq' := hq.adds hio hadds
    rw [List.nil_append] at hq'
    refine ⟨d, hd, ?_, hadds.sane.connected.replyOff, hframe.replstate, hq'⟩
    rw [answering_eq hadds.sane.connected.replyOff hadds.sane.connected.replySkip]
    exact hadds.sane

/-- `PSYNC` is accepted: the slave is queued what has been fed from the offset on. -/
theorem continued_served (h : m.Settled) (hc : c.Fresh []) {psyncOffset bytes : Bytes} {offset : Int}
    (hoffset : string2ll psyncOffset = some offset) (hsome : m.repl.server.replBacklog.isSome = true)
    (hsent : m.Sent (offset - 1) bytes) (hskip : bytes ≠ [] → c.io.flags.replySkip = false) :
    ∃ m', m.afterPsync blocks c psyncOffset (.continued bytes) = .ok (none, m') ∧ m'.Served c.id := by
  obtain ⟨io, hio⟩ : ∃ io, io = { (c.setReplstate .online).io with replPutOnlineOnAck := false } := ⟨_, rfl⟩
  have hfresh := setReplstate_fresh hc .online
  have hsane : (answering io).Sane := by
    obtain ⟨⟨⟨h1, h2, h3, h4, h5⟩, h6, h7, h8, h9, h10, h11⟩⟩ := hfresh
    rw [hio]
    exact ⟨⟨h1, h2, h3, h4, h5⟩, h6, h7, h8, h9, h10, h11⟩
  have hq : Queued io [] := by
    rw [hio]
    exact hfresh.queued
  have hskip' : bytes ≠ [] → io.flags.replySkip = false := by
    rw [hio]
    exact hskip
  have hreplyOff : io.flags.replyOff = false := by
    rw [hio]
    exact hc.replyOff
  obtain ⟨d, hd, hsane', hoff', hstate, hq'⟩ := addReplyBacklog_spec blocks hsane hreplyOff hq hskip'
  have honline : d.replstate = .online := by
    rw [hstate, hio]
    rfl
  refine ⟨m.addSlave { (c.setReplstate .online) with
    greeting := c.greeting ++ continueLine, resync := .continued offset, io := d }, ?_, ?_⟩
  · rw [Master.afterPsync]
    simp only [← hio, hd, hoffset, Option.getD_some]
    rfl
  · refine h.joinOnline ⟨hsane', hoff', honline, fun hother => ?_, bytes, hq'⟩ ?_ (by simp) hsome
    · rw [honline] at hother
      cases hother
    · refine ⟨by simp [Slave.setReplstate], by simp [Slave.setReplstate], by simp, by simp, by simp, by simp,
        fun o ho => ?_, by simp⟩
      obtain rfl := Resync.continued.inj ho
      refine ⟨?_, bytes, hq', ?_⟩
      · show c.greeting ++ continueLine = continueLine
        rw [hc.greeting, List.nil_append]
      · show m.Sent (offset - 1) (c.accepted ++ bytes)
        rw [hc.accepted, List.nil_append]
        exact hsent

/-- `PSYNC` is accepted, but the slave cannot be told. -/
theorem closed_served (h : m.Settled) (hc : c.Fresh [])
    (hsome : m.repl.server.replBacklog.isSome = true) :
    (m.addSlave { c.setReplstate .online with closeAsap := true, resync := .failed }).Served c.id := by
  have hfresh := setReplstate_fresh hc .online
  refine h.joinOnline ⟨hfresh.sane, hfresh.replyOff, rfl, fun hother => ?_, [], hfresh.queued⟩ ?_ (by simp) hsome
  · simp [Slave.setReplstate, ReplState.forReplies] at hother
  · exact ⟨by simp [Slave.setReplstate], by simp [Slave.setReplstate], by simp, by simp, by simp, by simp, by simp,
      fun _ => rfl⟩

/-- The request of a client without pending replies. -/
theorem answerSync_spec (h : m.Settled) (env : SyncEnv) (c : Peer) (request : SyncRequest) (hadm : m.Admits env c request)
    (hidle : clientHasPendingReplies c.io = false) (hnew : ∀ s ∈ m.slaves, s.id ≠ c.id) :
    ∃ m', m.answerSync blocks env c request = .ok m' ∧ m'.Served c.id := by
  cases request with
  | sync => exact fullResync_spec h env (c.fresh .sync hadm hidle) hidle rfl hnew
  | psync masterRunid psyncOffset =>
    obtain ⟨hoff, hrequest⟩ := hadm
    have hfresh := c.fresh (.psync masterRunid psyncOffset) hoff hidle
    obtain ⟨d, hd⟩ : ∃ d, d = c.toSlave (.psync masterRunid psyncOffset) := ⟨_, rfl⟩
    rw [← hd] at hfresh
    have hfull : ∃ m', m.fullResync env d = .ok m' ∧ m'.Served c.id := by
      rw [hd] at hfresh ⊢
      exact fullResync_spec h env hfresh hidle rfl hnew
    obtain ⟨reply, s', hreply, hcases⟩ := psync_cases h.repl masterRunid psyncOffset (env.written c.id)
    rw [Master.answerSync]
    simp only [← hd, hreply, Except.mapError, ok_bind]
    rcases hcases with rfl | ⟨err, rfl, hrunid, hnone⟩ | ⟨rfl, hsome⟩ | ⟨offset, bytes, rfl, hwritten, hrunid, hsomeoff, hsome, hge, hsent⟩
    · simp only [Master.afterPsync, ok_bind]
      exact hfull
    · -- the error is not replied
      have hskip := (hrequest hrunid).1 hnone
      have hsame : addReplyError blocks d.io err = .ok d.io := by
        rw [hd]
        exact addReplyError_skipped blocks c.lua hskip err
      simp only [Master.afterPsync, hsame, Except.mapError, ok_bind, pure_bind]
      exact hfull
    · simp only [Master.afterPsync, ok_bind]
      refine ⟨_, rfl, ?_⟩
      rw [hd] at hfresh ⊢
      exact closed_served h hfresh hsome
    · have hskip : bytes ≠ [] → d.io.flags.replySkip = false := by
        intro hne
        have hpos : 0 < bytes.length := List.length_pos_iff.mpr hne
        have hup := hsent.upTo
        rw [getPsyncInitialOffset, if_neg (by simp [Option.isNone_iff_eq_none, Option.isSome_iff_ne_none.mp hsome])] at hup
        rw [hd]
        exact (hrequest hrunid).2 offset hsomeoff hsome hge (by omega) hwritten
      obtain ⟨m', hm', hserved⟩ := continued_served blocks h hfresh hsomeoff hsome hsent hskip
      rw [hm', ok_bind]
      refine ⟨m', rfl, ?_⟩
      rw [hd] at hserved
      exact hserved

/-- The flag of one command is cleared. -/
theorem resetClient_settled {id : Nat} (h : m.Served id) : (m.resetClient id).Settled := by
  have hget : ∀ s ∈ (m.resetClient id).slaves, ∃ t ∈ m.slaves,
      s = if t.id = id then { t with io := { t.io with flags := { t.io.flags with replySkip := false } } } else t := by
    intro s hs
    obtain ⟨t, ht, rfl⟩ := List.mem_map.mp hs
    exact ⟨t, ht, rfl⟩
  have hall : ∀ s ∈ (m.resetClient id).slaves, s.Ready ∧ m.Owes s := by
    intro s hs
    obtain ⟨t, ht, rfl⟩ := hget s hs
    have hready := h.ready t ht
    split
    · refine ⟨⟨hready.sane, hready.replyOff, hready.shown, hready.quiet, hready.queued⟩, ?_⟩
      exact (h.owes t ht).update rfl rfl rfl rfl (fun hc => hc) Iff.rfl (fun hs => hs) (fun b hb => ⟨b, hb, rfl⟩)
    · exact ⟨hready, h.owes t ht⟩
  refine ⟨(h.toCore.setSlaves hall).setSelected (fun hne s hs hfull => ?_), fun hne => ?_, fun s hs => ?_⟩
  · obtain ⟨t, ht, rfl⟩ := hget s hs
    have hsel := h.selecting hne t ht
    split at hfull
    · rename_i hid
      simp only [if_pos hid]
      exact hsel hfull
    · rename_i hid
      rw [if_neg hid]
      exact hsel hfull
  · refine h.backlog (fun hnil => hne ?_)
    simp [Master.resetClient, Master.setSlaves, hnil]
  · obtain ⟨t, ht, rfl⟩ := hget s hs
    split
    · rfl
    · rename_i hid
      exact h.replySkip t ht hid

/-- `SYNC` and `PSYNC` keep what holds between two commands. -/
theorem syncCommand_spec (h : m.Settled) (env : SyncEnv) (c : Peer) (request : SyncRequest)
    (hadm : m.handles c = true → m.Admits env c request) :
    ∃ m', syncCommand blocks env c request m = .ok m' ∧ m'.Settled := by
  rw [syncCommand]
  by_cases hhandles : m.handles c = true
  · rw [if_pos hhandles]
    have hguard := hhandles
    simp only [Master.handles, Bool.and_eq_true, Bool.not_eq_true', Bool.or_eq_false_iff] at hguard
    obtain ⟨⟨-, hnew⟩, hidle⟩ := hguard
    obtain ⟨m', hrun, hserved⟩ := answerSync_spec blocks h env c request (hadm hhandles) hidle
      (fun s hs hid => by
        have := List.any_eq_false.mp hnew s hs
        simp [hid] at this)
    rw [hrun, ok_bind]
    exact ⟨_, rfl, resetClient_settled hserved⟩
  · rw [if_neg hhandles]
    exact ⟨m, rfl, h⟩

end Sync

end Redis.Replication
