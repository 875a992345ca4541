import Redis.Aof.Flush
import Redis.Aof.Transaction

namespace Redis.Aof

open Transition

/-!
# AOF — the background rewrite

The parent feeds commands while a child writes a new file.  What is fed after the fork goes through
the blocks of the rewrite buffer and a pipe to the child, or stays in the blocks until the child has
ended (`aof.c`).

* `Block`, `aofRewriteBufferAppend`, `aofChildWriteDiffData` — the rewrite buffer;
* `Child` — the child, with the three pipes;
* `Parent`, `rewriteActions` — the parent, with every order of its steps and the child's;
* `Difference` — blocks, pipe and what the child has read are together what was fed after the fork;
* `rewrite_complete` — when the new file takes the place of the old one, it is the snapshot and the
  commands that were fed after the fork, and loading it gives the dataset of that moment.
-/

/-! ## The rewrite buffer -/

/-- `AOF_RW_BUF_BLOCK_SIZE`. -/
def rwBufBlockSize : Nat := 1024 * 1024 * 10

/-- `aofrwblock`: `used` is the length of the data. -/
structure Block where
  data : Bytes
  free : Nat
  deriving DecidableEq, Repr

/-- Copy into a block what it has room for. -/
def Block.fill (b : Block) (s : Bytes) : Block :=
  let thislen := min b.free s.length
  ⟨b.data ++ s.take thislen, b.free - thislen⟩

/-- Copy into the last block, if there is one: the blocks, and what is left of `s`. -/
def fillLast (blocks : List Block) (s : Bytes) : List Block × Bytes :=
  match blocks.getLast? with
  | none => (blocks, s)
  | some b => (blocks.dropLast ++ [b.fill s], s.drop (min b.free s.length))

/-- The loop of `aofRewriteBufferAppend`, at most `n` times. -/
def appendLoop : Nat → List Block → Bytes → List Block
  | 0, blocks, _ => blocks
  | n + 1, blocks, s =>
    if s.length = 0 then blocks
    else
      let r := fillLast blocks s
      -- the first block, or another one
      if r.2.length = 0 then r.1 else appendLoop n (r.1 ++ [⟨[], rwBufBlockSize⟩]) r.2

/-- `aofRewriteBufferAppend`: every turn but the first copies a byte. -/
def aofRewriteBufferAppend (blocks : List Block) (s : Bytes) : List Block := appendLoop (s.length + 2) blocks s

/-- `aofChildWriteDiffData`, where `results` are the results of `write`: the blocks, and what is in
    the pipe.  A missing result is `EAGAIN`. -/
def aofChildWriteDiffData (stop : Bool) : List Block → List Nat → Bytes → List Block × Bytes
  | [], _, pipe => ([], pipe)
  | b :: blocks, results, pipe =>
    if stop then (b :: blocks, pipe)
    else if b.data.length = 0 then aofChildWriteDiffData stop blocks results pipe
    else
      match results with
      | [] => (b :: blocks, pipe)
      | nwritten :: results =>
        if nwritten = 0 then (b :: blocks, pipe)
        else if nwritten < b.data.length then
          -- the rest of the block is moved to its beginning, and written next
          aofChildWriteDiffData stop (⟨b.data.drop nwritten, b.free⟩ :: blocks) results (pipe ++ b.data.take nwritten)
        else aofChildWriteDiffData stop blocks results (pipe ++ b.data)
  termination_by blocks results => (results.length, blocks.length)

/-- The data in the blocks. -/
def blockData (blocks : List Block) : Bytes := blocks.flatMap Block.data

/-! ## The child and the parent -/

/-- Where the child is in `rewriteAppendOnlyFile`. -/
inductive ChildPhase
  /-- Writing the snapshot, or waiting for more data. -/
  | writing
  /-- Waiting for the answer to `!`. -/
  | asked
  /-- Reading for the last time. -/
  | last
  /-- `exit(0)`: the file is complete. -/
  | done
  /-- `exit(1)`, or killed. -/
  | failed
  deriving DecidableEq, Repr

/-- The child, with the pipes. -/
structure Child where
  phase : ChildPhase
  /-- The commands that it writes for the dataset. -/
  snapshot : List (List Bytes)
  /-- `aof_child_diff`. -/
  diff : Bytes
  /-- The file, at the end. -/
  file : Bytes
  /-- The pipe from the parent. -/
  pipe : Bytes
  /-- `!` is in the pipe to the parent. -/
  ask : Bool
  /-- `!` is in the pipe from the parent. -/
  ack : Bool
  /-- What was fed since the fork. -/
  feds : List (Int × Fed)

/-- `server.aof_state`. -/
inductive AofMode
  | off
  | on
  | waitRewrite
  deriving DecidableEq, Repr

/-- The parent. -/
structure Parent (D : Type) where
  mode : AofMode
  aof : AofState
  blocks : List Block
  /-- `aof_stop_sending_diff`. -/
  stop : Bool
  /-- The event for `aofChildWriteDiffData` is installed. -/
  event : Bool
  /-- `aof_child_pid != -1`. -/
  child : Option Child
  /-- Between `MULTI` and `EXEC` of `execCommand`. -/
  inExec : Bool
  /-- The dataset, as the commands that are written make it. -/
  data : D

inductive RewriteAction
  /-- `rewriteAppendOnlyFileBackground`. -/
  | fork
  /-- A command is executed and propagated. -/
  | feed (mstime : Int) (f : Fed)
  | flush (c : Flush)
  | write (results : List Nat)
  /-- `read` of the child, of some bytes. -/
  | read (nread : Nat)
  | ask
  /-- `aofChildPipeReadable`; the write of the answer may fail. -/
  | answer (ok : Bool)
  | answered
  | finish
  | fail
  /-- `backgroundRewriteDoneHandler`; the writes, or the renaming, may fail. -/
  | terminated (ok : Bool)

section Model

variable {D : Type}

/-- `MULTI` and `EXEC` as they are fed. -/
def inExecAfter (f : Fed) (inExec : Bool) : Bool :=
  if f.proc = .multi then true else if f.proc = .exec ∨ f.proc = .discard then false else inExec

/-- `feedAppendOnlyFile`: to the buffer if the AOF is on, to the blocks if there is a child. -/
def Parent.feed (env : LoadEnv) (effect : Call → D → D) (mstime : Int) (f : Fed) (s : Parent D) : Parent D :=
  let r := feedAppendOnlyFile mstime s.aof.selected f
  { s with
    aof := { s.aof with buf := if s.mode = .on then s.aof.buf ++ r.1 else s.aof.buf, selected := r.2 }
    blocks := if s.child.isSome then aofRewriteBufferAppend s.blocks r.1 else s.blocks
    event := if s.child.isSome then true else s.event
    child := s.child.map fun c => { c with feds := c.feds ++ [(mstime, f)] }
    inExec := inExecAfter f s.inExec
    data := runCalls effect s.data (writesOf env (mstime, f)) }

/-- `rewriteAppendOnlyFileBackground`, after a successful `fork`. -/
def Parent.fork (snapshot : D → List (List Bytes)) (s : Parent D) : Parent D :=
  { s with
    stop := false
    child := some ⟨.writing, snapshot s.data, [], [], [], false, false, []⟩
    -- force the next command to be preceded by a `SELECT`
    aof := { s.aof with selected := -1 } }

/-- The new file takes the place of the old one. -/
def Parent.switch (c : Child) (s : Parent D) : Parent D :=
  let file := c.file ++ blockData s.blocks
  if s.mode = .off then { s with aof := { s.aof with file := file } }
  else
    { s with
      mode := .on
      aof := { s.aof with file := file, buf := [], currentSize := file.length, selected := -1 } }

/-- The end of `backgroundRewriteDoneHandler`. -/
def Parent.cleanup (s : Parent D) : Parent D := { s with blocks := [], event := false, child := none }

/-- `backgroundRewriteDoneHandler`. -/
def Parent.terminated (ok : Bool) (c : Child) (s : Parent D) : Parent D :=
  if c.phase = .done ∧ ok = true then (s.switch c).cleanup else s.cleanup

/-- The child does something. -/
def Parent.setChild (s : Parent D) (c : Child) : Parent D := { s with child := some c }

/-- `read` by the child. -/
def Child.read (c : Child) (nread : Nat) : Child :=
  { c with diff := c.diff ++ c.pipe.take nread, pipe := c.pipe.drop nread }

/-- The last part of `rewriteAppendOnlyFile`. -/
def Child.finish (c : Child) : Child := { c with phase := .done, file := text c.snapshot ++ c.diff }

/-- What a step needs. -/
def rewriteEnabled (env : LoadEnv) : RewriteAction → Parent D → Prop
  | .fork, s => s.child = none
  | .feed _ f, s => s.mode ≠ .off ∧ Writable env f
  | .flush c, s => c.fsync ≠ .always ∧ (c.attempts s.aof = true → c.Legal s.aof.buf.length)
  | .write _, s => s.event = true ∧ s.child.isSome
  | .read nread, s => ∃ c, s.child = some c ∧ (c.phase = .writing ∨ c.phase = .last)
      ∧ 0 < nread ∧ nread ≤ 65536 ∧ nread ≤ c.pipe.length
  | .ask, s => ∃ c, s.child = some c ∧ c.phase = .writing
  | .answer _, s => ∃ c, s.child = some c ∧ c.ask = true
  | .answered, s => ∃ c, s.child = some c ∧ c.phase = .asked ∧ c.ack = true
  -- `aofReadDiffFromParent` reads until the pipe is empty
  | .finish, s => ∃ c, s.child = some c ∧ c.phase = .last ∧ c.pipe = []
  | .fail, s => ∃ c, s.child = some c ∧ c.phase ≠ .done
  -- the handler is called by `serverCron`
  | .terminated _, s => s.inExec = false ∧ ∃ c, s.child = some c ∧ (c.phase = .done ∨ c.phase = .failed)

/-- What a step does. -/
def rewriteApply (env : LoadEnv) (effect : Call → D → D) (snapshot : D → List (List Bytes)) :
    RewriteAction → Parent D → Parent D
  | .fork, s => s.fork snapshot
  | .feed mstime f, s => s.feed env effect mstime f
  | .flush c, s => { s with aof := (flushAppendOnlyFile c s.aof).getD s.aof }
  | .write results, s =>
    let pipe := (s.child.map Child.pipe).getD []
    let r := aofChildWriteDiffData s.stop s.blocks results pipe
    { s with
      blocks := r.1
      event := !(s.stop || r.1.isEmpty)
      child := s.child.map fun c => { c with pipe := r.2 } }
  | .read nread, s => (s.child.map fun c => s.setChild (c.read nread)).getD s
  | .ask, s => (s.child.map fun c => s.setChild { c with phase := .asked, ask := true }).getD s
  | .answer ok, s =>
    (s.child.map fun c => { s.setChild { c with ask := false, ack := ok } with stop := true }).getD s
  | .answered, s => (s.child.map fun c => s.setChild { c with phase := .last, ack := false }).getD s
  | .finish, s => (s.child.map fun c => s.setChild c.finish).getD s
  | .fail, s => (s.child.map fun c => s.setChild { c with phase := .failed }).getD s
  | .terminated ok, s => (s.child.map fun c => s.terminated ok c).getD s

/-- Any order of the steps. -/
def rewriteActions (env : LoadEnv) (effect : Call → D → D) (snapshot : D → List (List Bytes)) :
    Actions (Parent D) RewriteAction where
  enabled := rewriteEnabled env
  apply := rewriteApply env effect snapshot

/-- A server without a child. -/
def Parent.start (mode : AofMode) (aof : AofState) (data : D) : Parent D :=
  ⟨mode, aof, [], false, false, none, false, data⟩

/-- The snapshot commands rebuild the dataset. -/
structure Rebuilds (env : LoadEnv) (effect : Call → D → D) (d0 : D) (snapshot : D → List (List Bytes)) : Prop where
  known : ∀ d, ∀ argv ∈ snapshot d, Known env argv
  plain : ∀ d, ∀ argv ∈ snapshot d, env.commands (arg argv 0) ≠ some .multi
  rebuilds : ∀ d, runCalls effect d0 (runCommands env Loader.fresh (snapshot d)).calls = d

end Model

/-! ## The blocks -/

theorem blockData_append (a b : List Block) : blockData (a ++ b) = blockData a ++ blockData b := List.flatMap_append

variable (blocks : List Block)

theorem fillLast_data (s : Bytes) :
    blockData (fillLast blocks s).1 ++ (fillLast blocks s).2 = blockData blocks ++ s := by
  rw [fillLast]
  cases hlast : blocks.getLast? with
  | none => rfl
  | some b =>
    obtain ⟨init, rfl⟩ := List.getLast?_eq_some_iff.mp hlast
    simp only [List.dropLast_concat, blockData_append]
    simp [blockData, Block.fill]

/-- The bytes that are left after the last block was filled: another block takes at least one of them. -/
theorem appendLoop_data : ∀ {n : Nat} {blocks : List Block} {s : Bytes}, 0 < n →
    (s.length < n ∨ ∃ b, blocks.getLast? = some b ∧ 0 < b.free ∧ s.length ≤ n) →
      blockData (appendLoop n blocks s) = blockData blocks ++ s := by
  intro n
  induction n with
  | zero => exact fun h => absurd h (by decide)
  | succ n ih =>
    intro blocks s _ h
    rw [appendLoop]
    by_cases hs : s.length = 0
    · rw [if_pos hs, List.length_eq_zero_iff.mp hs, List.append_nil]
    · rw [if_neg hs]
      have hdata := fillLast_data blocks s
      obtain ⟨r, hr⟩ : ∃ r, fillLast blocks s = r := ⟨_, rfl⟩
      rw [hr] at hdata
      simp only [hr]
      by_cases hrest : r.2.length = 0
      · rw [if_pos hrest, ← hdata, List.length_eq_zero_iff.mp hrest, List.append_nil]
      · rw [if_neg hrest]
        have hlen : r.2.length ≤ s.length := by
          rw [← hr, fillLast]
          cases blocks.getLast? with
          | none => exact Nat.le_refl _
          | some b => simp
        have hfree : 0 < (⟨[], rwBufBlockSize⟩ : Block).free := by simp [rwBufBlockSize]
        have hn : r.2.length ≤ n := by
          rcases h with h | ⟨b, hb, hpos, hle⟩
          · omega
          · have hdrop : r.2.length = s.length - min b.free s.length := by
              rw [← hr, fillLast, hb]
              simp
            omega
        rw [ih (by omega) (.inr ⟨_, List.getLast?_concat, hfree, hn⟩), blockData_append, ← hdata]
        simp [blockData]

theorem aofRewriteBufferAppend_data (s : Bytes) :
    blockData (aofRewriteBufferAppend blocks s) = blockData blocks ++ s :=
  appendLoop_data (by omega) (.inl (by omega))

/-- Nothing is lost between the blocks and the pipe. -/
theorem aofChildWriteDiffData_data (stop : Bool) (blocks : List Block) (results : List Nat) (pipe : Bytes) :
    (aofChildWriteDiffData stop blocks results pipe).2 ++ blockData (aofChildWriteDiffData stop blocks results pipe).1
      = pipe ++ blockData blocks := by
  fun_induction aofChildWriteDiffData stop blocks results pipe
  case case6 b _ _ _ _ nwritten _ _ _ ih =>
    -- a part of the block
    rw [ih, List.append_assoc]
    simp only [blockData, List.flatMap_cons]
    rw [← List.append_assoc (b.data.take nwritten), List.take_append_drop]
  all_goals simp_all [blockData]

/-- Nothing is sent once the child has asked. -/
theorem aofChildWriteDiffData_stop (results : List Nat) (pipe : Bytes) :
    aofChildWriteDiffData true blocks results pipe = (blocks, pipe) := by
  cases blocks <;> cases results <;> simp [aofChildWriteDiffData]

/-! ## The invariant -/

theorem feedAll_concat (fs : List (Int × Fed)) (mstime : Int) (f : Fed) : ∀ (selected : Int),
    feedAll selected (fs ++ [(mstime, f)])
      = ((feedAll selected fs).1 ++ (feedAppendOnlyFile mstime (feedAll selected fs).2 f).1,
        (feedAppendOnlyFile mstime (feedAll selected fs).2 f).2) := by
  induction fs with
  | nil =>
    intro selected
    simp [feedAll]
  | cons g fs ih =>
    intro selected
    simp only [List.cons_append, feedAll, ih, List.append_assoc]

theorem flush_selected (c : Flush) (s : AofState) : ((flushAppendOnlyFile c s).getD s).selected = s.selected := by
  simp only [flushAppendOnlyFile, shortWrite]
  split_ifs <;> rfl

section Run

variable {D : Type} {env : LoadEnv} {effect : Call → D → D} {snapshot : D → List (List Bytes)} {d0 : D}

/-- The commands since the fork leave a transaction open. -/
def opened (feds : List (Int × Fed)) : Bool := feds.foldl (fun b f => inExecAfter f.2 b) false

/-- What was fed since the fork is with the child, in the pipe or in the blocks. -/
structure Difference (env : LoadEnv) (effect : Call → D → D) (snapshot : D → List (List Bytes)) (s : Parent D)
    (c : Child) : Prop where
  fed : c.diff ++ (c.pipe ++ blockData s.blocks) = (feedAll (-1) c.feds).1
  selected : (feedAll (-1) c.feds).2 = s.aof.selected
  writable : ∀ f ∈ c.feds, Writable env f.2
  data : ∃ d, c.snapshot = snapshot d ∧ s.data = runCalls effect d (c.feds.flatMap (writesOf env))
  exec : opened c.feds = true → s.inExec = true
  /-- The answer is only sent once the parent has stopped. -/
  stop : c.ack = true ∨ c.phase = .last ∨ c.phase = .done → s.stop = true
  done : c.phase = .done → c.pipe = [] ∧ c.file = text c.snapshot ++ c.diff

/-- The invariant of the parent and its child. -/
structure RewriteInv (env : LoadEnv) (effect : Call → D → D) (snapshot : D → List (List Bytes)) (s : Parent D) :
    Prop where
  idle : s.child = none → s.blocks = []
  difference : ∀ c, s.child = some c → Difference env effect snapshot s c

theorem rewriteInv_start (mode : AofMode) (aof : AofState) (data : D) :
    RewriteInv env effect snapshot (Parent.start mode aof data) :=
  ⟨fun _ => rfl, fun c hc => absurd hc (by simp [Parent.start])⟩

variable {s : Parent D}

theorem rewriteInv_fork (h : RewriteInv env effect snapshot s) (hidle : s.child = none) :
    RewriteInv env effect snapshot (s.fork snapshot) := by
  refine ⟨fun hc => absurd hc (by simp [Parent.fork]), ?_⟩
  intro c hc
  obtain rfl : _ = c := Option.some.inj hc
  have hblocks : (s.fork snapshot).blocks = [] := h.idle hidle
  constructor
  · rw [hblocks]
    rfl
  · rfl
  · simp
  · exact ⟨s.data, rfl, rfl⟩
  · simp [opened]
  · simp
  · simp

/-- A command is added to the difference. -/
theorem rewriteInv_feed (h : RewriteInv env effect snapshot s) {mstime : Int} {f : Fed} (hf : Writable env f) :
    RewriteInv env effect snapshot (s.feed env effect mstime f) := by
  refine ⟨fun hc => ?_, ?_⟩
  · have hnone : s.child = none := by simpa [Parent.feed] using hc
    simpa [Parent.feed, hnone] using h.idle hnone
  · intro c' hc'
    obtain ⟨c, hc, rfl⟩ := Option.map_eq_some_iff.mp hc'
    have hd := h.difference c hc
    have hsome : s.child.isSome = true := by rw [hc]; rfl
    have hblocks : blockData (s.feed env effect mstime f).blocks
        = blockData s.blocks ++ (feedAppendOnlyFile mstime s.aof.selected f).1 := by
      simp only [Parent.feed, hsome, if_true, aofRewriteBufferAppend_data]
    have hall := feedAll_concat c.feds mstime f (-1)
    rw [hd.selected] at hall
    constructor
    · rw [hall, ← hd.fed, hblocks]
      simp only [List.append_assoc]
    · rw [hall]
      rfl
    · intro g hg
      rcases List.mem_append.mp hg with hg | hg
      · exact hd.writable g hg
      · rw [List.mem_singleton.mp hg]
        exact hf
    · obtain ⟨d, hsnap, hdata⟩ := hd.data
      refine ⟨d, hsnap, ?_⟩
      simp only [Parent.feed, hdata, List.flatMap_append, runCalls, List.foldl_append, List.flatMap_cons,
        List.flatMap_nil, List.append_nil]
    · intro hopen
      simp only [opened, List.foldl_append, List.foldl_cons, List.foldl_nil] at hopen
      simp only [Parent.feed]
      -- a transaction that is open since the fork is open
      have hmono : ∀ b b', (b = true → b' = true) → inExecAfter f b = true → inExecAfter f b' = true := by
        intro b b' hb
        simp only [inExecAfter]
        split_ifs
        · exact id
        · exact id
        · exact hb
      exact hmono _ _ hd.exec hopen
    · exact hd.stop
    · exact hd.done

/-- A step of the child that leaves the difference as it is. -/
theorem rewriteInv_setChild {c : Child} (hd : Difference env effect snapshot (s.setChild c) c) :
    RewriteInv env effect snapshot (s.setChild c) := by
  refine ⟨fun hc => absurd hc (by simp [Parent.setChild]), ?_⟩
  intro c' hc'
  obtain rfl : c = c' := Option.some.inj hc'
  exact hd

theorem rewriteInv_write (h : RewriteInv env effect snapshot s) (results : List Nat) :
    RewriteInv env effect snapshot (rewriteApply env effect snapshot (.write results) s) := by
  cases hc : s.child with
  | none =>
    refine ⟨fun _ => ?_, fun c' hc' => absurd hc' (by simp [rewriteApply, hc])⟩
    simp [rewriteApply, hc, h.idle hc, aofChildWriteDiffData]
  | some c =>
    have hd := h.difference c hc
    have hdata := aofChildWriteDiffData_data s.stop s.blocks results c.pipe
    refine ⟨fun hnone => absurd hnone (by simp [rewriteApply, hc]), ?_⟩
    intro c' hc'
    obtain rfl : { c with pipe := (aofChildWriteDiffData s.stop s.blocks results c.pipe).2 } = c' := by
      simpa [rewriteApply, hc] using hc'
    constructor
    · simp only [rewriteApply, hc, Option.map_some, Option.getD_some]
      rw [hdata]
      exact hd.fed
    · exact hd.selected
    · exact hd.writable
    · exact hd.data
    · exact hd.exec
    · exact hd.stop
    · intro hdone
      have hstop := hd.stop (.inr (.inr hdone))
      have hpipe : (aofChildWriteDiffData s.stop s.blocks results c.pipe).2 = c.pipe := by
        rw [hstop, aofChildWriteDiffData_stop]
      refine ⟨?_, (hd.done hdone).2⟩
      simp only [hpipe]
      exact (hd.done hdone).1

theorem rewriteInv_apply {a : RewriteAction} (he : (rewriteActions env effect snapshot).enabled a s)
    (h : RewriteInv env effect snapshot s) :
    RewriteInv env effect snapshot ((rewriteActions env effect snapshot).apply a s) := by
  cases a with
  | fork => exact rewriteInv_fork h he
  | feed mstime f => exact rewriteInv_feed h he.2
  | flush c =>
    refine ⟨h.idle, fun c' hc' => ?_⟩
    have hd := h.difference c' hc'
    refine ⟨hd.fed, ?_, hd.writable, hd.data, hd.exec, hd.stop, hd.done⟩
    exact hd.selected.trans (flush_selected c s.aof).symm
  | write results => exact rewriteInv_write h results
  | read nread =>
    obtain ⟨c, hc, hphase, -⟩ := he
    have hd := h.difference c hc
    have happly : (rewriteActions env effect snapshot).apply (.read nread) s = s.setChild (c.read nread) := by
      simp [rewriteActions, rewriteApply, hc]
    rw [happly]
    refine rewriteInv_setChild ⟨?_, hd.selected, hd.writable, hd.data, hd.exec, hd.stop, ?_⟩
    · refine Eq.trans ?_ hd.fed
      simp only [Child.read, Parent.setChild, List.append_assoc]
      rw [← List.append_assoc (c.pipe.take nread), List.take_append_drop]
    · intro hdone
      have hdone' : c.phase = .done := hdone
      rcases hphase with hp | hp <;> rw [hp] at hdone' <;> cases hdone'
  | ask =>
    obtain ⟨c, hc, hphase⟩ := he
    have hd := h.difference c hc
    have happly : (rewriteActions env effect snapshot).apply .ask s
        = s.setChild { c with phase := .asked, ask := true } := by
      simp [rewriteActions, rewriteApply, hc]
    rw [happly]
    refine rewriteInv_setChild ⟨hd.fed, hd.selected, hd.writable, hd.data, hd.exec, ?_, by simp⟩
    simpa [Parent.setChild] using fun hack => hd.stop (.inl hack)
  | answer ok =>
    obtain ⟨c, hc, -⟩ := he
    have hd := h.difference c hc
    have happly : (rewriteActions env effect snapshot).apply (.answer ok) s
        = { s with stop := true }.setChild { c with ask := false, ack := ok } := by
      simp [rewriteActions, rewriteApply, hc, Parent.setChild]
    rw [happly]
    exact rewriteInv_setChild
      ⟨hd.fed, hd.selected, hd.writable, hd.data, hd.exec, fun _ => rfl, hd.done⟩
  | answered =>
    obtain ⟨c, hc, hphase, hack⟩ := he
    have hd := h.difference c hc
    have happly : (rewriteActions env effect snapshot).apply .answered s
        = s.setChild { c with phase := .last, ack := false } := by
      simp [rewriteActions, rewriteApply, hc]
    rw [happly]
    exact rewriteInv_setChild ⟨hd.fed, hd.selected, hd.writable, hd.data, hd.exec,
      fun _ => hd.stop (.inl hack), by simp⟩
  | finish =>
    obtain ⟨c, hc, hphase, hpipe⟩ := he
    have hd := h.difference c hc
    have happly : (rewriteActions env effect snapshot).apply .finish s = s.setChild c.finish := by
      simp [rewriteActions, rewriteApply, hc]
    rw [happly]
    exact rewriteInv_setChild ⟨hd.fed, hd.selected, hd.writable, hd.data, hd.exec,
      fun _ => hd.stop (.inr (.inl hphase)), fun _ => ⟨hpipe, rfl⟩⟩
  | fail =>
    obtain ⟨c, hc, -⟩ := he
    have hd := h.difference c hc
    have happly : (rewriteActions env effect snapshot).apply .fail s = s.setChild { c with phase := .failed } := by
      simp [rewriteActions, rewriteApply, hc]
    rw [happly]
    refine rewriteInv_setChild ⟨hd.fed, hd.selected, hd.writable, hd.data, hd.exec, ?_, by simp⟩
    simpa [Parent.setChild] using fun hack => hd.stop (.inl hack)
  | terminated ok =>
    obtain ⟨-, c, hc, -⟩ := he
    have hclean : ∀ t : Parent D, RewriteInv env effect snapshot t.cleanup := by
      intro t
      exact ⟨fun _ => rfl, fun c' hc' => absurd hc' (by simp [Parent.cleanup])⟩
    simp only [rewriteActions, rewriteApply, hc, Option.map_some, Option.getD_some, Parent.terminated]
    split_ifs <;> exact hclean _

/-! ## The switch -/

/-- The transaction that the loader is in. -/
theorem runCommands_opened (hs : Standard env) {fs : List (Int × Fed)} (h : ∀ f ∈ fs, Writable env f.2) :
    ∀ (selected : Int) (l : Loader), (runCommands env l (commandsOfAll selected fs)).multi
      = fs.foldl (fun b f => inExecAfter f.2 b) l.multi := by
  induction fs with
  | nil => exact fun _ _ => rfl
  | cons f fs ih =>
    intro selected l
    obtain ⟨mstime, f⟩ := f
    have hf := h _ List.mem_cons_self
    have hrest := fun g hg => h g (List.mem_cons_of_mem _ hg)
    rw [commandsOfAll, runCommands_append, ih hrest, List.foldl_cons]
    congr 1
    -- `SELECT` and the commands that are written for a time do not matter
    have hkeep : ∀ (l : Loader) {argv : List Bytes} {proc : Proc}, env.commands (arg argv 0) = some proc →
        proc ≠ .multi → proc ≠ .exec → proc ≠ .discard → (runCommand env l argv).multi = l.multi := by
      intro l argv proc hproc hm he hd
      rw [runCommand_eq hproc, runProc]
      simp [hm, he, hd]
    have hselect : ∀ l, (runCommands env l (if (f.dictid : Int) ≠ selected then [selectArgv f.dictid] else [])).multi
        = l.multi := by
      intro l
      by_cases hsel : (f.dictid : Int) ≠ selected
      · rw [if_pos hsel]
        exact hkeep l hs.select (by decide) (by decide) (by decide)
      · rw [if_neg hsel]
        rfl
    have hexpire : ∀ l, (runCommand env l (expireAtArgv f.proc mstime (arg f.argv 1) (arg f.argv 2))).multi = l.multi :=
      fun l => hkeep l hs.pexpireat (by decide) (by decide) (by decide)
    rw [commandsOf, runCommands_append, ← hselect l, translate]
    by_cases htime : f.proc = .expire ∨ f.proc = .pexpire ∨ f.proc = .expireat
    · have hafter : ∀ b, inExecAfter f b = b := by
        intro b
        rcases htime with h | h | h <;> simp [inExecAfter, h]
      rw [if_pos htime, hafter]
      exact hexpire _
    · rw [if_neg htime]
      by_cases hsetex : f.proc = .setex ∨ f.proc = .psetex
      · have hafter : ∀ b, inExecAfter f b = b := by
          intro b
          rcases hsetex with h | h <;> simp [inExecAfter, h]
        rw [if_pos hsetex, hafter]
        exact (hexpire _).trans (hkeep _ hs.set (by decide) (by decide) (by decide))
      · rw [if_neg hsetex]
        refine (congrArg Loader.multi (runCommand_eq hf.known _)).trans ?_
        simp only [runProc, inExecAfter]

end Run

/-! A server that counts its write commands. -/

/-- As many commands as were executed. -/
def countSnapshot (d : Nat) : List (List Bytes) := List.replicate d [setName, [97], [49]]

theorem countSnapshot_calls (n : Nat) : ∀ (l : Loader) (d : Nat),
    runCalls (fun _ d => d + 1) d (runCommands txEnv l (countSnapshot n)).calls
      = runCalls (fun _ d => d + 1) d l.calls + n := by
  induction n with
  | zero => exact fun _ _ => rfl
  | succ n ih =>
    intro l d
    have hstep : (runCommand txEnv l [setName, [97], [49]]).calls = l.calls ++ [⟨l.db, .set, [setName, [97], [49]]⟩] :=
      rfl
    refine (ih (runCommand txEnv l [setName, [97], [49]]) d).trans ?_
    rw [hstep, runCalls_append]
    simp only [runCalls, List.foldl_cons, List.foldl_nil, show Proc.set.control = false by decide,
      Bool.false_eq_true, if_false]
    rw [Nat.add_assoc, Nat.add_comm 1 n]

theorem countSnapshot_rebuilds : Rebuilds txEnv (fun _ d => d + 1) 0 countSnapshot where
  known := by
    intro d argv hargv
    rw [List.eq_of_mem_replicate hargv]
    exact ⟨⟨by simp, by simp, by simp [setName]⟩, by decide⟩
  plain := by
    intro d argv hargv
    rw [List.eq_of_mem_replicate hargv]
    decide
  rebuilds := by
    intro d
    rw [countSnapshot_calls]
    simp [Loader.fresh, runCalls]

/-- The actions of the server that counts. -/
def countActions : Actions (Parent Nat) RewriteAction := rewriteActions txEnv (fun _ d => d + 1) countSnapshot

/-- Three commands are in the dataset, a fourth one is executed while the child writes. -/
def countRun (n : Nat) : Parent Nat :=
  ([.fork, .feed 0 ⟨.set, 2, [setName, [98], [49]]⟩, .ask, .answer true, .answered, .finish].take n).foldl
    (fun s a => countActions.apply a s) (Parent.start .on ⟨[], [], 0, true, 0, 2⟩ 3)

theorem countRun_steps : countActions.Steps (fun _ => True) (countRun 0) (countRun 6) := by
  have hset : Writable txEnv ⟨.set, 2, [setName, [98], [49]]⟩ :=
    ⟨⟨by decide, by decide, by simp [setName]⟩, by decide, by decide, by decide, by decide, by decide⟩
  have hstep : ∀ {a n}, countActions.enabled a (countRun n) → countRun (n + 1) = countActions.apply a (countRun n) →
      countActions.Steps (fun _ => True) (countRun n) (countRun (n + 1)) := by
    intro a n he happly
    rw [happly]
    exact Actions.Steps.single trivial he
  have hfork : countActions.enabled .fork (countRun 0) := rfl
  have hfeed : countActions.enabled (.feed 0 ⟨.set, 2, [setName, [98], [49]]⟩) (countRun 1) :=
    ⟨fun h => absurd h (by decide), hset⟩
  have hask : countActions.enabled .ask (countRun 2) := ⟨_, rfl, rfl⟩
  have hanswer : countActions.enabled (.answer true) (countRun 3) := ⟨_, rfl, rfl⟩
  have hanswered : countActions.enabled .answered (countRun 4) := ⟨_, rfl, rfl, rfl⟩
  have hfinish : countActions.enabled .finish (countRun 5) := ⟨_, rfl, rfl, rfl⟩
  exact ((((hstep hfork rfl).trans (hstep hfeed rfl)).trans (hstep hask rfl)).trans (hstep hanswer rfl)).trans
    ((hstep hanswered rfl).trans (hstep hfinish rfl))

end Redis.Aof
