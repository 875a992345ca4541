import Redis.Replication.Output
import Mathlib.Data.List.ReduceOption

namespace Redis.Replication

open Outcome

/-!
# Slaves — what every slave is owed

The stream that the master has numbered, and what a slave has been queued of it.

* `Master.streamFrom`, `Master.logFrom` — the bytes behind an offset, and what they are the
  bytes of;
* `Master.Owes` — for each kind of resynchronization, what the queue of a slave has to be;
* `Master.Inv` — the invariant, which leaves out what only holds between two commands;
* `feed_spec` — feeding one `SELECT` or one command;
* `replicationFeedSlaves_spec` — the whole function.
-/

/-! ### The stream -/

/-- The numbered bytes behind an offset. -/
def Master.streamFrom (m : Master) (start : Int) : List (Int × UInt8) :=
  m.repl.fed.filter (fun b => start < b.1)

/-- What has been fed behind an offset. -/
def Master.logFrom (m : Master) (start : Int) : List Fed :=
  (m.log.filter (fun e => start ≤ e.1)).map Prod.snd

/-- The database that is selected, after one more part of the stream. -/
def Fed.selects (selected : Option Int) : Fed → Option Int
  | .select dictid => some dictid
  | .command _ _ => selected

/-- The database that is selected by a slave that has not selected one before. -/
def selectedAfter (fed : List Fed) : Option Int := fed.foldl Fed.selects none

/-- Every command is executed in the database in which the master has executed it. -/
def InDatabase (fed : List Fed) : Prop :=
  ∀ (before : List Fed) (db : Nat) (argv : List ReplyObject) (after : List Fed),
    fed = before ++ .command (some db) argv :: after → selectedAfter before = some (db : Int)

theorem selectedAfter_concat (fed : List Fed) (f : Fed) :
    selectedAfter (fed ++ [f]) = f.selects (selectedAfter fed) := by
  simp [selectedAfter]

theorem inDatabase_nil : InDatabase [] := by
  intro before db argv after h
  simp at h

theorem InDatabase.concat {fed : List Fed} {f : Fed} (h : InDatabase fed)
    (hf : ∀ (db : Nat) argv, f = .command (some db) argv → selectedAfter fed = some (db : Int)) : InDatabase (fed ++ [f]) := by
  intro before db argv after heq
  -- the command is the last one, or one of those before
  rcases List.eq_nil_or_concat after with rfl | ⟨front, last, rfl⟩
  · obtain ⟨rfl, hlast⟩ := List.append_inj' heq rfl
    obtain rfl := List.singleton_inj.mp hlast
    exact hf db argv rfl
  · rw [List.concat_eq_append, ← List.cons_append, ← List.append_assoc] at heq
    obtain ⟨hfed, -⟩ := List.append_inj' heq rfl
    exact h before db argv front hfed

/-- The stream behind `start` is `b`, up to the offset of the master. -/
structure Master.Sent (m : Master) (start : Int) (b : Bytes) : Prop where
  stream : m.streamFrom start = number start b
  -- where a backlog is going to be created, its offset counts
  upTo : start + b.length = getPsyncInitialOffset m.repl.server

/-! ### What a slave is owed -/

/-- The queue of the slave is what it has to be. -/
structure Master.Owes (m : Master) (s : Slave) : Prop where
  waiting_iff : s.replstate = .waitBgsaveStart ↔ s.resync = .waiting
  full_of_end : s.replstate = .waitBgsaveEnd → s.resync = .full
  waiting : s.resync = .waiting → s.accepted = [] ∧ s.greeting = [] ∧ Queued s.io []
  full : s.resync = .full → ∃ b, Queued s.io b ∧ m.Sent s.psyncInitialOffset (s.accepted ++ b) ∧
    s.accepted ++ b = (m.logFrom s.psyncInitialOffset).flatMap Fed.bytes
  inDatabase : s.resync = .full → InDatabase (m.logFrom s.psyncInitialOffset)
  greeting : s.resync = .full → s.prePsync = false → s.closeAsap = false →
    s.greeting = fullResyncLine m.repl.server.runid s.psyncInitialOffset
  continued : ∀ offset, s.resync = .continued offset → s.greeting = continueLine ∧
    ∃ b, Queued s.io b ∧ m.Sent (offset - 1) (s.accepted ++ b)
  failed : s.resync = .failed → s.closeAsap = true

/-- The slave can be sent replies, and nothing has been written to it before it is online. -/
structure Slave.Ready (s : Slave) : Prop where
  sane : (answering s.io).Sane
  replyOff : s.io.flags.replyOff = false
  shown : s.io.replstate = s.replstate.forReplies
  quiet : s.io.replstate = .other → s.io.flags.pendingWrite = false ∧ s.writeHandler ≠ .sendReplyToClient ∧
    s.accepted = [] ∧ s.io.sentlen = 0
  queued : ∃ b, Queued s.io b

/-- All slaves that are synchronized have selected this database. -/
def Master.Selecting (m : Master) (dictid : Int) : Prop :=
  ∀ s ∈ m.slaves, s.resync = .full → selectedAfter (m.logFrom s.psyncInitialOffset) = some dictid

/-- What holds at every time. -/
structure Master.Core (m : Master) : Prop where
  repl : m.repl.Inv
  count : m.repl.server.slaves = m.slaves.length
  log_lt : ∀ e ∈ m.log, e.1 < m.repl.server.masterReplOffset
  ready : ∀ s ∈ m.slaves, s.Ready
  owes : ∀ s ∈ m.slaves, m.Owes s

/-- What holds at every time but in `replicationFeedSlaves`. -/
structure Master.Inv (m : Master) : Prop extends m.Core where
  selecting : m.slaveseldb ≠ -1 → m.Selecting m.slaveseldb

/-- What holds between two commands. -/
structure Master.Settled (m : Master) : Prop extends m.Inv where
  backlog : m.slaves ≠ [] → m.repl.server.replBacklog.isSome = true
  replySkip : ∀ s ∈ m.slaves, s.io.flags.replySkip = false

theorem answering_eq {c : ReplyClient} (hoff : c.flags.replyOff = false) (hskip : c.flags.replySkip = false) :
    answering c = c := by
  obtain ⟨fd, flags, replstate, onAck, buf, bufpos, reply, replyBytes, sentlen, nextNode, allocs⟩ := c
  obtain ⟨lua, replyOff, replySkip, master, force, pending, close⟩ := flags
  simp only at hoff hskip
  rw [answering, hoff, hskip]

/-- Between two commands, the replies of a slave are not skipped. -/
theorem Slave.Ready.io_sane {s : Slave} (h : s.Ready) (hskip : s.io.flags.replySkip = false) : s.io.Sane := by
  have := h.sane
  rw [answering_eq h.replyOff hskip] at this
  exact this

/-! ### The same stream -/

/-- Nothing has been fed, and the offsets of new slaves are the same. -/
structure Master.SameStream (m m' : Master) : Prop where
  fed : m'.repl.fed = m.repl.fed
  log : m'.log = m.log
  offset : getPsyncInitialOffset m'.repl.server = getPsyncInitialOffset m.repl.server
  runid : m'.repl.server.runid = m.repl.server.runid

section SameStream

variable {m m' m'' : Master} {s s' : Slave}

theorem sameStream_setSlaves (m : Master) (l : List Slave) : m.SameStream (m.setSlaves l) := ⟨rfl, rfl, rfl, rfl⟩

theorem Master.SameStream.streamFrom (h : m.SameStream m') (start : Int) : m'.streamFrom start = m.streamFrom start := by
  rw [Master.streamFrom, h.fed, Master.streamFrom]

theorem Master.SameStream.logFrom (h : m.SameStream m') (start : Int) : m'.logFrom start = m.logFrom start := by
  rw [Master.logFrom, h.log, Master.logFrom]

theorem Master.SameStream.sent (h : m.SameStream m') {start : Int} {b : Bytes} (hs : m.Sent start b) : m'.Sent start b where
  stream := (h.streamFrom start).trans hs.stream
  upTo := hs.upTo.trans h.offset.symm

theorem Master.SameStream.owes (h : m.SameStream m') (hs : m.Owes s) : m'.Owes s where
  waiting_iff := hs.waiting_iff
  full_of_end := hs.full_of_end
  waiting := hs.waiting
  full := fun hfull => by
    obtain ⟨b, hq, hsent, hlog⟩ := hs.full hfull
    exact ⟨b, hq, h.sent hsent, by rw [h.logFrom, hlog]⟩
  inDatabase := fun hfull => by
    rw [h.logFrom]
    exact hs.inDatabase hfull
  greeting := fun hfull hpre hclose => by
    rw [h.runid]
    exact hs.greeting hfull hpre hclose
  continued := fun offset hcont => by
    obtain ⟨hgreet, b, hq, hsent⟩ := hs.continued offset hcont
    exact ⟨hgreet, b, hq, h.sent hsent⟩
  failed := hs.failed

/-- A slave that is owed the same: its queue has changed by what has been accepted. -/
theorem Master.Owes.update (h : m.Owes s) (hresync : s'.resync = s.resync)
    (hoffset : s'.psyncInitialOffset = s.psyncInitialOffset) (hgreet : s'.greeting = s.greeting)
    (hpre : s'.prePsync = s.prePsync) (hclose : s'.closeAsap = false → s.closeAsap = false)
    (hstart : s'.replstate = .waitBgsaveStart ↔ s.replstate = .waitBgsaveStart)
    (hend : s'.replstate = .waitBgsaveEnd → s.replstate = .waitBgsaveEnd)
    (hqueue : ∀ b, Queued s.io b → ∃ b', Queued s'.io b' ∧ s'.accepted ++ b' = s.accepted ++ b) : m.Owes s' where
  waiting_iff := by
    rw [hstart, hresync]
    exact h.waiting_iff
  full_of_end := fun hs => by
    rw [hresync]
    exact h.full_of_end (hend hs)
  waiting := fun hw => by
    obtain ⟨hacc, hgreet', hq⟩ := h.waiting (hresync ▸ hw)
    obtain ⟨b', hq', heq⟩ := hqueue [] hq
    rw [hacc, List.append_nil, List.append_eq_nil_iff] at heq
    exact ⟨heq.1, hgreet.trans hgreet', heq.2 ▸ hq'⟩
  full := fun hf => by
    obtain ⟨b, hq, hsent, hlog⟩ := h.full (hresync ▸ hf)
    obtain ⟨b', hq', heq⟩ := hqueue b hq
    rw [hoffset]
    exact ⟨b', hq', heq.symm ▸ hsent, heq.trans hlog⟩
  inDatabase := fun hf => by
    rw [hoffset]
    exact h.inDatabase (hresync ▸ hf)
  greeting := fun hf hp hc => by
    rw [hgreet, hoffset]
    exact h.greeting (hresync ▸ hf) (hpre ▸ hp) (hclose hc)
  continued := fun offset hcont => by
    obtain ⟨hgreet', b, hq, hsent⟩ := h.continued offset (hresync ▸ hcont)
    obtain ⟨b', hq', heq⟩ := hqueue b hq
    exact ⟨hgreet.trans hgreet', b', hq', heq.symm ▸ hsent⟩
  failed := fun hf => by
    have hc := h.failed (hresync ▸ hf)
    cases hc' : s'.closeAsap with
    | true => rfl
    | false => exact absurd (hclose hc') (by simp [hc])

/-- Other slaves, of the same stream. -/
theorem Master.Core.setSlaves (h : m.Core) {l : List Slave} (hl : ∀ s ∈ l, s.Ready ∧ m.Owes s) : (m.setSlaves l).Core where
  repl := h.repl.slaves l.length
  count := rfl
  log_lt := h.log_lt
  ready := fun s hs => (hl s hs).1
  owes := fun s hs => (sameStream_setSlaves m l).owes (hl s hs).2

end SameStream

/-! ### Loops over the slaves -/

/-- A loop over the slaves that cannot fail. -/
theorem forSlaves_spec {m : Master} {f : Slave → Except Fault (Option Slave)} {R : Slave → Slave → Prop}
    (hf : ∀ s ∈ m.slaves, Sat (f s) (fun r => ∀ s', r = some s' → R s s') (fun _ => False)) :
    ∃ l, m.forSlaves f = .ok (m.setSlaves l) ∧ (∀ s' ∈ l, ∃ s ∈ m.slaves, R s s') ∧ l.length ≤ m.slaves.length := by
  have hmap : ∀ slaves : List Slave, (∀ s ∈ slaves, s ∈ m.slaves) → ∃ rs, slaves.mapM f = .ok rs ∧
      rs.length = slaves.length ∧ ∀ s' ∈ rs.reduceOption, ∃ s ∈ m.slaves, R s s' := by
    intro slaves hsub
    induction slaves with
    | nil => exact ⟨[], rfl, rfl, by simp⟩
    | cons s slaves ih =>
      obtain ⟨rs, hrs, hlen, hR⟩ := ih (fun t ht => hsub t (List.mem_cons_of_mem _ ht))
      obtain ⟨r, hr, hr'⟩ := (hf s (hsub s List.mem_cons_self)).exists_ok
      refine ⟨r :: rs, mapM_cons_eq_ok.mpr ⟨r, rs, hr, hrs, rfl⟩, by simp [hlen], fun s' hs' => ?_⟩
      rw [List.reduceOption_mem_iff, List.mem_cons] at hs'
      rcases hs' with hs' | hs'
      · exact ⟨s, hsub s List.mem_cons_self, hr' s' hs'.symm⟩
      · exact hR s' (List.reduceOption_mem_iff.mpr hs')
  obtain ⟨rs, hrs, hlen, hR⟩ := hmap m.slaves (fun s hs => hs)
  refine ⟨rs.reduceOption, ?_, hR, ?_⟩
  · rw [Master.forSlaves, hrs, ok_bind]
    rfl
  · rw [← hlen]
    exact List.reduceOption_length_le rs

/-! ### Feeding -/

section Feeding

variable {m : Master}

/-- Bytes behind the last one. -/
theorem Master.Sent.feed {m' : Master} {start : Int} {b x : Bytes} (h : m.Sent start b)
    (hsome : m.repl.server.replBacklog.isSome = true) (hsome' : m'.repl.server.replBacklog.isSome = true)
    (hfed : m'.repl.fed = m.repl.fed ++ number m.repl.server.masterReplOffset x)
    (hoffset : m'.repl.server.masterReplOffset = m.repl.server.masterReplOffset + x.length) : m'.Sent start (b ++ x) := by
  have hbegin := h.upTo
  rw [getPsyncInitialOffset, if_neg (by simp [Option.isNone_iff_eq_none, Option.isSome_iff_ne_none.mp hsome])] at hbegin
  refine ⟨?_, ?_⟩
  · have hall : (number m.repl.server.masterReplOffset x).filter (fun b => start < b.1) =
        number m.repl.server.masterReplOffset x := by
      refine List.filter_eq_self.mpr (fun c hc => ?_)
      have := (number_bounds hc).1
      simp only [decide_eq_true_eq]
      omega
    rw [Master.streamFrom, hfed, List.filter_append, hall, number_append, ← h.stream, hbegin, Master.streamFrom]
  · rw [getPsyncInitialOffset, if_neg (by simp [Option.isNone_iff_eq_none, Option.isSome_iff_ne_none.mp hsome']), hoffset, List.length_append]
    push_cast
    omega

/-- The pieces are fed one after the other. -/
theorem foldlM_feed_spec {r : ReplRun} (h : r.Inv) (hsome : r.server.replBacklog.isSome = true) (pieces : List Bytes) :
    ∃ r', pieces.foldlM (fun r p => stepRepl r (.feed p)) r = .ok r' ∧ r'.Inv ∧
      r'.server.replBacklog.isSome = true ∧ r'.server.slaves = r.server.slaves ∧ r'.server.runid = r.server.runid ∧
      r'.fed = r.fed ++ number r.server.masterReplOffset pieces.flatten ∧
      r'.server.masterReplOffset = r.server.masterReplOffset + pieces.flatten.length := by
  induction pieces generalizing r with
  | nil => exact ⟨r, rfl, h, hsome, rfl, rfl, by simp [number], by simp⟩
  | cons p pieces ih =>
    rcases h.serves with hnone | ⟨buf, hist, hs⟩
    · simp [hnone] at hsome
    · obtain ⟨s', buf', hrun, hholds, hmaster, -, hslaves, hrunid⟩ := feedReplicationBacklog_spec hs.holds p
      have hstep : stepRepl r (.feed p) = .ok { r with server := s', fed := r.fed ++ number r.server.masterReplOffset p } := by
        rw [stepRepl, hrun, ok_bind]
        rfl
      have hinv := (feed_inv h p).of_eq_ok hstep
      have hsome' : s'.replBacklog.isSome = true := by rw [hholds.backlog, Option.isSome_some]
      obtain ⟨r', hrest, hinv', hsome'', hslaves', hrunid', hfed, hoff⟩ := ih hinv hsome'
      refine ⟨r', ?_, hinv', hsome'', hslaves'.trans hslaves, hrunid'.trans hrunid, ?_, ?_⟩
      · rw [List.foldlM_cons, hstep, ok_bind, hrest]
      · rw [hfed, List.flatten_cons, number_append, List.append_assoc]
        simp only [hmaster]
      · rw [hoff, List.flatten_cons, List.length_append]
        simp only [hmaster]
        push_cast
        ring

/-- What feeding one part of the stream does. -/
structure Master.Feeds (m m' : Master) (item : Fed) : Prop where
  core : m'.Core
  slaveseldb : m'.slaveseldb = m.slaveseldb
  backlog : m'.repl.server.replBacklog.isSome = true
  /-- Every slave has been there before, and has joined at the same offset. -/
  origin : ∀ s' ∈ m'.slaves, ∃ s ∈ m.slaves, s'.resync = s.resync ∧ s'.psyncInitialOffset = s.psyncInitialOffset ∧
    s'.io.flags.replySkip = s.io.flags.replySkip
  log : ∀ s ∈ m.slaves, s.resync = .full →
    m'.logFrom s.psyncInitialOffset = m.logFrom s.psyncInitialOffset ++ [item]

/-- A part of the stream is fed to the backlog and replied to the slaves. -/
theorem feed_spec (h : m.Core) (hskip : ∀ s ∈ m.slaves, s.io.flags.replySkip = false)
    (hsome : m.repl.server.replBacklog.isSome = true) (item : Fed) {pieces : List Bytes}
    {add : ReplyClient → Except ReplyFault ReplyClient} (hpieces : pieces.flatten = item.bytes)
    (hadd : ∀ c : ReplyClient, c.Sane → ∃ d, add c = .ok d ∧ c.Adds d item.bytes) (hkeeps : ∀ c, Keeps c (add c))
    (hdb : ∀ (db : Nat) argv, item = .command (some db) argv → m.Selecting db) :
    ∃ m', (m.feedBacklog item pieces >>= fun m => m.forSlaves (feedSlave add)) = .ok m' ∧ m.Feeds m' item := by
  obtain ⟨r, hrun, hinv, hsome', hslaves, hrunid, hfed, hoff⟩ := foldlM_feed_spec h.repl hsome pieces
  obtain ⟨m₁, hm₁⟩ : ∃ m₁, m₁ = { m with repl := r, log := m.log ++ [(m.repl.server.masterReplOffset, item)] } := ⟨_, rfl⟩
  have hback : m.feedBacklog item pieces = .ok m₁ := by
    rw [Master.feedBacklog, if_pos hsome, hrun, hm₁]
    rfl
  rw [hpieces] at hfed hoff
  have hfed₁ : m₁.repl.fed = m.repl.fed ++ number m.repl.server.masterReplOffset item.bytes := by rw [hm₁, hfed]
  have hoff₁ : m₁.repl.server.masterReplOffset = m.repl.server.masterReplOffset + item.bytes.length := by rw [hm₁, hoff]
  have hsome₁ : m₁.repl.server.replBacklog.isSome = true := by rw [hm₁, hsome']
  have hpos : 0 < item.bytes.length := List.length_pos_iff.mpr item.bytes_ne_nil
  -- a slave that has joined before is fed everything
  have hlog : ∀ start b, m.Sent start b → m₁.logFrom start = m.logFrom start ++ [item] := by
    intro start b hsent
    have hbegin := hsent.upTo
    rw [getPsyncInitialOffset, if_neg (by simp [Option.isNone_iff_eq_none, Option.isSome_iff_ne_none.mp hsome])] at hbegin
    rw [Master.logFrom, hm₁, List.filter_append, List.map_append, Master.logFrom]
    congr 1
    rw [List.filter_cons_of_pos (by simp only [decide_eq_true_eq]; omega)]
    rfl
  have hloop : ∀ s ∈ m₁.slaves, Sat (feedSlave add s)
      (fun r => ∀ s', r = some s' → s'.Ready ∧ m₁.Owes s' ∧ s'.resync = s.resync ∧
        s'.psyncInitialOffset = s.psyncInitialOffset ∧ s'.io.flags.replySkip = s.io.flags.replySkip)
      (fun _ => False) := by
    intro s hs
    rw [hm₁] at hs
    have hready := h.ready s hs
    have howes := h.owes s hs
    rw [feedSlave]
    by_cases hwait : s.replstate = .waitBgsaveStart
    · -- it is owed nothing yet
      rw [if_pos hwait]
      intro s' hs'
      obtain rfl := Option.some.inj hs'
      have hw := howes.waiting_iff.mp hwait
      refine ⟨hready, ⟨howes.waiting_iff, howes.full_of_end, howes.waiting, ?_, ?_, ?_, ?_, ?_⟩, rfl, rfl, rfl⟩
      all_goals simp [hw]
    · rw [if_neg hwait]
      have hsane := hready.io_sane (hskip s hs)
      obtain ⟨d, hd, hadds⟩ := hadd s.io hsane
      have hframe : Frame s.io d := (hkeeps s.io).of_eq_ok hd
      rw [hd]
      intro s' hs'
      obtain rfl := Option.some.inj hs'
      have hoff' : d.flags.replyOff = false := hadds.sane.connected.replyOff
      have hsane' : (answering d).Sane := by
        rw [answering_eq hoff' hadds.sane.connected.replySkip]
        exact hadds.sane
      have hqueued : ∃ b, Queued d b := by
        obtain ⟨b, hq⟩ := hready.queued
        exact ⟨b ++ item.bytes, hq.adds hsane hadds⟩
      refine ⟨⟨hsane', hoff', hframe.replstate.trans hready.shown, fun hother => ?_, hqueued⟩, ?_, rfl, rfl,
        hframe.replySkip⟩
      · have hother' := hframe.replstate ▸ hother
        obtain ⟨hpend, hhandler, hacc, hsent⟩ := hready.quiet hother'
        exact ⟨(hframe.quiet hother').trans hpend, hhandler, hacc, hadds.sentlen.trans hsent⟩
      · refine ⟨howes.waiting_iff, howes.full_of_end, ?_, ?_, ?_, ?_, ?_, howes.failed⟩
        · intro hw
          exact absurd (howes.waiting_iff.mpr hw) hwait
        · intro hfull
          obtain ⟨b, hq, hsent, hbytes⟩ := howes.full hfull
          refine ⟨b ++ item.bytes, hq.adds hsane hadds, ?_, ?_⟩
          · rw [← List.append_assoc]
            exact hsent.feed hsome hsome₁ hfed₁ hoff₁
          · show s.accepted ++ (b ++ item.bytes) = (m₁.logFrom s.psyncInitialOffset).flatMap Fed.bytes
            rw [hlog _ _ hsent, List.flatMap_append, ← hbytes, List.append_assoc, List.flatMap_singleton]
        · intro hfull
          obtain ⟨b, -, hsent, -⟩ := howes.full hfull
          show InDatabase (m₁.logFrom s.psyncInitialOffset)
          rw [hlog _ _ hsent]
          exact (howes.inDatabase hfull).concat (fun db argv hitem => hdb db argv hitem s hs hfull)
        · intro hfull hpre hclose
          rw [hm₁, hrunid]
          exact howes.greeting hfull hpre hclose
        · intro offset hcont
          obtain ⟨hgreet, b, hq, hsent⟩ := howes.continued offset hcont
          refine ⟨hgreet, b ++ item.bytes, hq.adds hsane hadds, ?_⟩
          rw [← List.append_assoc]
          exact hsent.feed hsome hsome₁ hfed₁ hoff₁
  obtain ⟨l, hl, hR, -⟩ := forSlaves_spec hloop
  refine ⟨m₁.setSlaves l, by rw [hback, ok_bind, hl], ⟨⟨?_, rfl, fun e he => ?_, ?_, ?_⟩, ?_, hsome₁, ?_, ?_⟩⟩
  · rw [hm₁]
    exact hinv.slaves l.length
  · -- the offset has grown
    rw [hm₁] at he
    have hgrown : m.repl.server.masterReplOffset < m₁.repl.server.masterReplOffset := by omega
    rcases List.mem_append.mp he with he | he
    · exact lt_trans (h.log_lt e he) hgrown
    · rw [List.mem_singleton.mp he]
      exact hgrown
  · intro s' hs'
    obtain ⟨s, -, hready, -⟩ := hR s' hs'
    exact hready
  · intro s' hs'
    obtain ⟨s, -, -, howes, -⟩ := hR s' hs'
    exact (sameStream_setSlaves m₁ l).owes howes
  · rw [hm₁]
    rfl
  · intro s' hs'
    obtain ⟨s, hs, -, -, hkept⟩ := hR s' hs'
    exact ⟨s, by rwa [hm₁] at hs, hkept⟩
  · intro s hs hfull
    obtain ⟨b, -, hsent, -⟩ := (h.owes s hs).full hfull
    exact hlog _ _ hsent

/-- What is selected after one more part of the stream. -/
theorem Master.Feeds.selecting {m' : Master} {item : Fed} {dictid : Int} (h : m.Feeds m' item)
    (hitem : ∀ s ∈ m.slaves, s.resync = .full →
      item.selects (selectedAfter (m.logFrom s.psyncInitialOffset)) = some dictid) : m'.Selecting dictid := by
  intro s' hs' hfull
  obtain ⟨s, hs, hresync, hoffset, -⟩ := h.origin s' hs'
  rw [hoffset, h.log s hs (hresync ▸ hfull), selectedAfter_concat]
  exact hitem s hs (hresync ▸ hfull)

theorem Master.Feeds.replySkip {m' : Master} {item : Fed} (h : m.Feeds m' item)
    (hskip : ∀ s ∈ m.slaves, s.io.flags.replySkip = false) : ∀ s' ∈ m'.slaves, s'.io.flags.replySkip = false := by
  intro s' hs'
  obtain ⟨s, hs, -, -, hsame⟩ := h.origin s' hs'
  rw [hsame]
  exact hskip s hs

end Feeding

/-- The database that is set is one that has been selected, or no database. -/
theorem Master.Core.setSelected {m : Master} {dictid : Int} (h : m.Core) (hsel : dictid ≠ -1 → m.Selecting dictid) :
    ({ m with slaveseldb := dictid } : Master).Inv where
  repl := h.repl
  count := h.count
  log_lt := h.log_lt
  ready := h.ready
  owes := fun s hs => (⟨rfl, rfl, rfl, rfl⟩ : m.SameStream { m with slaveseldb := dictid }).owes (h.owes s hs)
  selecting := hsel

section FeedSlaves

variable (blocks : Blocks) {m : Master}

/-- A database is selected, if another one is. -/
theorem feedSelect_spec (h : m.Settled) (hsome : m.repl.server.replBacklog.isSome = true) {dictid : Int}
    (hdictid : m.slaveseldb ≠ dictid → 0 ≤ dictid ∧ dictid < 2 ^ 31) :
    ∃ m', m.feedSelect blocks dictid = .ok m' ∧ m'.Core ∧ m'.repl.server.replBacklog.isSome = true ∧
      (∀ s ∈ m'.slaves, s.io.flags.replySkip = false) ∧ (dictid ≠ -1 → m'.Selecting dictid) := by
  rw [Master.feedSelect]
  by_cases hsame : m.slaveseldb = dictid
  · rw [if_neg (not_not.mpr hsame)]
    exact ⟨m, rfl, h.toCore, hsome, h.replySkip, fun hne => hsame ▸ h.selecting (by rw [hsame]; exact hne)⟩
  · obtain ⟨hlo, hhi⟩ := hdictid hsame
    rw [if_pos hsame]
    have hpieces : [selectcmd dictid].flatten = (Fed.select dictid).bytes := by simp [Fed.bytes]
    obtain ⟨m', hrun, hfeeds⟩ := feed_spec h.toCore h.replySkip hsome (.select dictid) hpieces
      (fun c hc => addReplySelect_adds blocks hc hlo hhi) (fun c => addReply_keeps blocks c _)
      (fun db argv heq => by cases heq)
    exact ⟨m', hrun, hfeeds.core, hfeeds.backlog, hfeeds.replySkip h.replySkip,
      fun _ => hfeeds.selecting (fun s hs hfull => rfl)⟩

/-- `replicationFeedSlaves` keeps what holds between two commands. -/
theorem replicationFeedSlaves_spec (h : m.Settled) {dictid : Int} {db : Option Nat} (argv : Argv)
    (hdictid : m.slaveseldb ≠ dictid → 0 ≤ dictid ∧ dictid < 2 ^ 31) (hdb : ∀ d, db = some d → dictid = d) :
    ∃ m', replicationFeedSlaves blocks m dictid db argv.objs = .ok m' ∧ m'.Settled := by
  rw [replicationFeedSlaves]
  cases hback : m.repl.server.replBacklog with
  | none =>
    -- there are no slaves without a backlog
    have hnil : m.slaves = [] := by
      by_contra hne
      simpa [hback] using h.backlog hne
    rw [if_pos (by simp [hnil])]
    exact ⟨m, rfl, h⟩
  | some buf =>
    have hsome : m.repl.server.replBacklog.isSome = true := by rw [hback, Option.isSome_some]
    rw [if_neg (by simp), if_neg (by simp)]
    obtain ⟨m₁, hrun₁, hcore₁, hsome₁, hskip₁, hsel₁⟩ := feedSelect_spec blocks h hsome hdictid
    rw [hrun₁, ok_bind]
    have hinv₁ := hcore₁.setSelected hsel₁
    obtain ⟨m₂, hrun₂, hfeeds⟩ := feed_spec hinv₁.toCore hskip₁ hsome₁ (.command db argv.objs)
      (flatten_backlogPieces argv.argc_lt argv.valid)
      (fun c hc => addReplyCommand_adds blocks hc argv.argc_lt argv.valid) (addReplyCommand_keeps blocks argv.objs)
      (fun d objs heq => by
        obtain ⟨rfl, rfl⟩ : db = some d ∧ argv.objs = objs := by simpa using heq
        rw [← hdb d rfl]
        exact hsel₁ (by rw [hdb d rfl]; omega))
    refine ⟨m₂, hrun₂, ⟨hfeeds.core, fun hne => ?_⟩, fun _ => hfeeds.backlog, hfeeds.replySkip hskip₁⟩
    rw [hfeeds.slaveseldb] at hne ⊢
    exact hfeeds.selecting (fun s hs hfull => hsel₁ hne s hs hfull)

end FeedSlaves

end Redis.Replication
