import Redis.Aof.Command
import Redis.Lib.Transition

namespace Redis.Aof

open Transition

/-!
# AOF — the buffer is written

`flushAppendOnlyFile` (`aof.c`), for any outcome of `write` and `ftruncate`.  The file is opened with
`O_APPEND`.  The length of the buffer is compared with what was written as an `int`, and the buffer is
trimmed by `sdsrange`, which takes `int`s.

* `sdsrange`, `flushAppendOnlyFile` — the code;
* `aofActions` — feeding and flushing, with all that was fed and the latest write on record;
* `Sound` — the write is one that the `int`s do not spoil;
* `aof_stream` — then the file and the buffer are the stream, in every state of every run;
* `aof_stream_lost` — a buffer of more than 4 GiB, of which a few bytes are written.
-/

/-- `(signed)` of a length. -/
def signed (n : Nat) : Int := Int.bmod n (2 ^ 32)

/-- `sdsrange(s,start,end)`, where the arguments are converted to `int`. -/
def sdsrange (s : Bytes) (start stop : Int) : Bytes :=
  let len := s.length
  let start := Int.bmod start (2 ^ 32)
  let stop := Int.bmod stop (2 ^ 32)
  if len = 0 then s
  else
    let start := if start < 0 then max 0 (Int.bmod (len + start) (2 ^ 32)) else start
    let stop := if stop < 0 then max 0 (Int.bmod (len + stop) (2 ^ 32)) else stop
    if stop < start then []
    else if signed len ≤ start then []
    else
      let stop := if signed len ≤ stop then Int.bmod (len - 1) (2 ^ 32) else stop
      if stop < start then [] else (s.drop start.toNat).take (stop - start + 1).toNat

/-- `server.aof_fsync`. -/
inductive Fsync
  | no
  | always
  | everysec
  deriving DecidableEq, Repr

/-- The part of the server that `flushAppendOnlyFile` and `feedAppendOnlyFile` change, and the file. -/
structure AofState where
  file : Bytes
  /-- `aof_buf`. -/
  buf : Bytes
  currentSize : Int
  /-- `aof_last_write_status = C_OK`. -/
  lastWriteOk : Bool
  /-- `aof_flush_postponed_start`. -/
  postponedStart : Int
  /-- `aof_selected_db`. -/
  selected : Int
  deriving DecidableEq, Repr

/-- A call of `flushAppendOnlyFile`: what it reads, and what the system answers. -/
structure Flush where
  fsync : Fsync
  force : Bool
  /-- `bioPendingJobsOfType(BIO_AOF_FSYNC) != 0`. -/
  pending : Bool
  unixtime : Int
  /-- The result of `write`. -/
  nwritten : Int
  /-- `ftruncate` succeeds. -/
  truncates : Bool
  deriving DecidableEq, Repr

/-- `ftruncate`. -/
def truncate (file : Bytes) (size : Int) : Bytes :=
  file.take size.toNat ++ List.replicate (size.toNat - file.length) 0

/-- `sync_in_progress`, for a flush that may wait. -/
def Flush.waits (c : Flush) : Bool := c.fsync = .everysec && !c.force && c.pending

/-- `write` is called. -/
def Flush.attempts (c : Flush) (s : AofState) : Bool :=
  s.buf ≠ [] && !(c.waits && (s.postponedStart = 0 || c.unixtime - s.postponedStart < 2))

/-- An incomplete write: `nwritten` is what is left in the file. -/
def shortWrite (c : Flush) (s : AofState) : AofState :=
  -- the undo of a short write
  let undo := c.nwritten ≠ -1 ∧ c.truncates = true
  let nwritten := if undo then -1 else c.nwritten
  let s := { s with file := if undo then truncate s.file s.currentSize else s.file, lastWriteOk := false }
  if 0 < nwritten then
    { s with currentSize := s.currentSize + nwritten, buf := sdsrange s.buf nwritten (-1) }
  else s

/-- `flushAppendOnlyFile`: `none` is `exit(1)`. -/
def flushAppendOnlyFile (c : Flush) (s : AofState) : Option AofState :=
  if s.buf = [] then some s
  else if c.waits = true ∧ s.postponedStart = 0 then some { s with postponedStart := c.unixtime }
  else if c.waits = true ∧ c.unixtime - s.postponedStart < 2 then some s
  else
    let s := { s with file := s.file ++ s.buf.take c.nwritten.toNat, postponedStart := 0 }
    if c.nwritten ≠ signed s.buf.length then
      if c.fsync = .always then none else some (shortWrite c s)
    else some { s with lastWriteOk := true, currentSize := s.currentSize + c.nwritten, buf := [] }

/-- `feedAppendOnlyFile` with `aof_state = AOF_ON`. -/
def feed (mstime : Int) (f : Fed) (s : AofState) : AofState :=
  let r := feedAppendOnlyFile mstime s.selected f
  { s with buf := s.buf ++ r.1, selected := r.2 }

/-! ## The runs -/

/-- The server, with what was fed, and whether the latest write was incomplete. -/
structure Run where
  aof : AofState
  stream : Bytes
  incomplete : Bool
  deriving DecidableEq, Repr

inductive AofAction
  | feed (mstime : Int) (f : Fed)
  | flush (c : Flush)

/-- The result of `write` for a buffer of `len` bytes. -/
def Flush.Legal (c : Flush) (len : Nat) : Prop := c.nwritten = -1 ∨ (0 ≤ c.nwritten ∧ c.nwritten ≤ len)

/-- The buffer is shorter than `2^31`, or the write is incomplete, is noticed and leaves nothing to trim. -/
def Sound (c : Flush) (len : Nat) : Prop :=
  len < 2 ^ 31 ∨
    (c.nwritten ≠ len ∧ c.nwritten ≠ signed len ∧ (c.nwritten ≤ 0 ∨ c.truncates = true))

/-- A flush, on record. -/
def flushRun (c : Flush) (s : Run) : Run where
  aof := (flushAppendOnlyFile c s.aof).getD s.aof
  stream := s.stream
  incomplete := if c.attempts s.aof then decide (c.nwritten ≠ s.aof.buf.length) else s.incomplete

/-- With `appendfsync` other than `always`. -/
def aofActions : Actions Run AofAction where
  enabled
    | .feed _ _, _ => True
    | .flush c, s => c.fsync ≠ .always ∧ (c.attempts s.aof = true → c.Legal s.aof.buf.length)
  apply
    | .feed mstime f, s =>
      { s with aof := feed mstime f s.aof, stream := s.stream ++ (feedAppendOnlyFile mstime s.aof.selected f).1 }
    | .flush c, s => flushRun c s

/-- The same, where every write is sound. -/
def soundActions : Actions Run AofAction where
  enabled
    | .feed _ _, _ => True
    | .flush c, s =>
      c.fsync ≠ .always ∧ (c.attempts s.aof = true → c.Legal s.aof.buf.length ∧ Sound c s.aof.buf.length)
  apply := aofActions.apply

/-- A server that starts with a file. -/
def Run.start (file : Bytes) : Run := ⟨⟨file, [], file.length, true, 0, -1⟩, file, false⟩

/-- The file and the buffer are the stream. -/
structure InStep (s : Run) : Prop where
  stream : s.aof.file ++ s.aof.buf = s.stream
  size : s.aof.currentSize = s.aof.file.length
  status : s.aof.lastWriteOk = false ↔ s.incomplete = true

/-! ## One step -/

variable {n : Nat} {c : Flush}

theorem signed_of_lt (h : n < 2 ^ 31) : signed n = n :=
  Int.bmod_eq_of_le (by omega) (by omega)

/-- The length of a buffer of more than 4 GiB. -/
theorem signed_of_ge (h : 2 ^ 32 ≤ n) (h' : n < 2 ^ 32 + 2 ^ 31) : signed n = n - 2 ^ 32 := by
  have hmod : Int.bmod (n : Int) (2 ^ 32) = n - 2 ^ 32 := by
    rw [Int.bmod_def]
    split <;> omega
  exact hmod

/-- A prefix is trimmed. -/
theorem sdsrange_drop {s : Bytes} (hlen : s.length < 2 ^ 31) (hn : n < s.length) :
    sdsrange s n (-1) = s.drop n := by
  have hstart : Int.bmod (n : Int) (2 ^ 32) = n := by rw [Int.bmod_eq_of_le] <;> omega
  have hstop : Int.bmod (-1) (2 ^ 32) = -1 := by rfl
  have hlast : Int.bmod ((s.length : Int) + -1) (2 ^ 32) = s.length - 1 := by rw [Int.bmod_eq_of_le] <;> omega
  have hmax : max 0 ((s.length : Int) - 1) = s.length - 1 := max_eq_right (by omega)
  simp only [sdsrange, hstart, hstop, signed_of_lt hlen]
  rw [if_neg (show ¬ s.length = 0 by omega), if_neg (show ¬ ((n : Int) < 0) by omega), if_pos (show (-1 : Int) < 0 by decide),
    hlast, hmax, if_neg (by omega), if_neg (by omega), if_neg (by omega), if_neg (by omega), Int.toNat_natCast]
  refine List.take_of_length_le ?_
  rw [List.length_drop]
  omega

/-- The short write is taken back. -/
theorem truncate_append (file a : Bytes) : truncate (file ++ a) file.length = file := by
  simp [truncate]

/-- A flush that is postponed changes nothing that matters. -/
theorem flush_postponed {s : AofState} (h : c.attempts s = false) :
    ∃ start, flushAppendOnlyFile c s = some { s with postponedStart := start } := by
  rw [flushAppendOnlyFile]
  by_cases hbuf : s.buf = []
  · exact ⟨s.postponedStart, by rw [if_pos hbuf]⟩
  · rw [if_neg hbuf]
    have hwait : c.waits = true ∧ (¬ s.postponedStart = 0 → c.unixtime - s.postponedStart < 2) := by
      simpa [Flush.attempts, hbuf] using h
    by_cases hstart : s.postponedStart = 0
    · exact ⟨c.unixtime, by rw [if_pos ⟨hwait.1, hstart⟩]⟩
    · refine ⟨s.postponedStart, ?_⟩
      rw [if_neg (fun h => hstart h.2), if_pos ⟨hwait.1, hwait.2 hstart⟩]

/-- A flush that calls `write`. -/
theorem flush_attempts {s : AofState} (h : c.attempts s = true) (hfsync : c.fsync ≠ .always) :
    flushAppendOnlyFile c s =
      let t := { s with file := s.file ++ s.buf.take c.nwritten.toNat, postponedStart := 0 }
      some (if c.nwritten ≠ signed s.buf.length then shortWrite c t
        else { t with lastWriteOk := true, currentSize := t.currentSize + c.nwritten, buf := [] }) := by
  simp only [Flush.attempts, Bool.and_eq_true, decide_eq_true_eq, Bool.not_eq_true', Bool.and_eq_false_iff,
    Bool.or_eq_false_iff, decide_eq_false_iff_not] at h
  obtain ⟨hbuf, hwait⟩ := h
  have hfirst : ¬ (c.waits = true ∧ s.postponedStart = 0) := by
    rintro ⟨hw, hs⟩
    rcases hwait with hwait | hwait
    · rw [hwait] at hw
      exact absurd hw (by decide)
    · exact hwait.1 hs
  have hsecond : ¬ (c.waits = true ∧ c.unixtime - s.postponedStart < 2) := by
    rintro ⟨hw, hs⟩
    rcases hwait with hwait | hwait
    · rw [hwait] at hw
      exact absurd hw (by decide)
    · exact hwait.2 hs
  rw [flushAppendOnlyFile, if_neg hbuf, if_neg hfirst, if_neg hsecond]
  by_cases hshort : c.nwritten ≠ signed s.buf.length
  · simp only [if_pos hshort, if_neg hfsync]
  · simp only [if_neg hshort]

/-- An incomplete write, undone or trimmed. -/
theorem shortWrite_keeps {s : AofState} {file stream : Bytes} (hn : c.nwritten = -1 ∧ n = 0 ∨ c.nwritten = n)
    (hlen : n ≤ s.buf.length)
    (htrim : c.nwritten ≤ 0 ∨ c.truncates = true ∨ (s.buf.length < 2 ^ 31 ∧ n < s.buf.length))
    (hfile : s.file = file ++ s.buf.take n) (hstream : file ++ s.buf = stream)
    (hsize : s.currentSize = file.length) :
    (shortWrite c s).file ++ (shortWrite c s).buf = stream
      ∧ (shortWrite c s).currentSize = (shortWrite c s).file.length ∧ (shortWrite c s).lastWriteOk = false := by
  by_cases hundo : c.nwritten ≠ -1 ∧ c.truncates = true
  · -- `ftruncate` takes it back
    have htake : truncate s.file s.currentSize = file := by
      rw [hfile, hsize]
      exact truncate_append file _
    simp only [shortWrite, if_pos hundo, htake]
    rw [if_neg (by decide)]
    exact ⟨hstream, hsize, rfl⟩
  · simp only [shortWrite, if_neg hundo]
    by_cases hpos : 0 < c.nwritten
    · -- the buffer is trimmed
      obtain ⟨hshort, hlt⟩ : s.buf.length < 2 ^ 31 ∧ n < s.buf.length := by
        rcases htrim with h | h | h
        · omega
        · exact absurd ⟨by omega, h⟩ hundo
        · exact h
      have hnw : c.nwritten = n := by
        rcases hn with h | h
        · omega
        · exact h
      rw [if_pos hpos]
      simp only [hnw, sdsrange_drop hshort hlt]
      refine ⟨?_, ?_, trivial⟩
      · rw [hfile, List.append_assoc, List.take_append_drop, hstream]
      · rw [hfile, hsize, List.length_append, List.length_take, Nat.min_eq_left hlen]
        push_cast
        rfl
    · rw [if_neg hpos]
      have hzero : n = 0 := by omega
      rw [hzero, List.take_zero, List.append_nil] at hfile
      simp only [hfile]
      exact ⟨hstream, hsize, trivial⟩

/-- A write that is sound keeps the file and the buffer in step; a complete one empties the buffer. -/
theorem flush_keeps {s : Run} (h : InStep s) (hfsync : c.fsync ≠ .always) (hatt : c.attempts s.aof = true)
    (hlegal : c.Legal s.aof.buf.length) (hsound : Sound c s.aof.buf.length) :
    InStep (flushRun c s) ∧ (c.nwritten = s.aof.buf.length → (flushRun c s).aof.buf = []) := by
  obtain ⟨n, hn, hlen⟩ : ∃ n : Nat, (c.nwritten = -1 ∧ n = 0 ∨ c.nwritten = n) ∧ n ≤ s.aof.buf.length := by
    rcases hlegal with hfail | ⟨hlow, hhigh⟩
    · exact ⟨0, .inl ⟨hfail, rfl⟩, Nat.zero_le _⟩
    · exact ⟨c.nwritten.toNat, .inr (by omega), by omega⟩
  have htake : c.nwritten.toNat = n := by omega
  have hflush := flush_attempts hatt hfsync
  simp only [htake] at hflush
  by_cases hcomplete : c.nwritten = signed s.aof.buf.length
  · -- taken for a complete write, and it is one
    have hlt : s.aof.buf.length < 2 ^ 31 := hsound.resolve_right fun hs => hs.2.1 hcomplete
    have hall : c.nwritten = s.aof.buf.length := by rw [hcomplete, signed_of_lt hlt]
    have hn' : n = s.aof.buf.length := by omega
    have hrun : flushRun c s = ⟨⟨s.aof.file ++ s.aof.buf, [], s.aof.currentSize + s.aof.buf.length, true, 0,
        s.aof.selected⟩, s.stream, false⟩ := by
      rw [flushRun, hflush]
      simp [← hcomplete, hatt, hall, hn']
    rw [hrun]
    refine ⟨⟨?_, ?_, by simp⟩, fun _ => rfl⟩
    · simpa using h.stream
    · have := h.size
      simp only [List.length_append, this]
      push_cast
      rfl
  · have hne : c.nwritten ≠ s.aof.buf.length := by
      rcases hsound with hlt | hs
      · rwa [signed_of_lt hlt] at hcomplete
      · exact hs.1
    have htrim : c.nwritten ≤ 0 ∨ c.truncates = true ∨ (s.aof.buf.length < 2 ^ 31 ∧ n < s.aof.buf.length) := by
      rcases hsound with hlt | ⟨-, -, h | h⟩
      · by_cases hpos : c.nwritten ≤ 0
        · exact .inl hpos
        · exact .inr (.inr ⟨hlt, by omega⟩)
      · exact .inl h
      · exact .inr (.inl h)
    obtain ⟨t, ht⟩ : ∃ t : AofState, { s.aof with file := s.aof.file ++ s.aof.buf.take n, postponedStart := 0 } = t :=
      ⟨_, rfl⟩
    have hkeep : (shortWrite c t).file ++ (shortWrite c t).buf = s.stream
        ∧ (shortWrite c t).currentSize = (shortWrite c t).file.length ∧ (shortWrite c t).lastWriteOk = false :=
      shortWrite_keeps hn (by rw [← ht]; exact hlen) (by rw [← ht]; exact htrim) (by rw [← ht])
        (by rw [← ht]; exact h.stream) (by rw [← ht]; exact h.size)
    have hrun : flushRun c s = ⟨shortWrite c t, s.stream, true⟩ := by
      rw [flushRun, hflush, ht]
      simp [hcomplete, hatt, hne]
    rw [hrun]
    exact ⟨⟨hkeep.1, hkeep.2.1, by simp [hkeep.2.2]⟩, fun h => absurd h hne⟩

/-! ## Every run -/

theorem inStep_start (file : Bytes) : InStep (Run.start file) :=
  ⟨by simp [Run.start], rfl, by simp [Run.start]⟩

theorem inStep_apply {a : AofAction} {s : Run} (he : soundActions.enabled a s) (h : InStep s) :
    InStep (soundActions.apply a s) := by
  cases a with
  | feed mstime f =>
    refine ⟨?_, h.size, h.status⟩
    have := h.stream
    simp only [soundActions, aofActions, feed]
    rw [← List.append_assoc, this]
  | flush c =>
    cases hatt : c.attempts s.aof with
    | false =>
      obtain ⟨start, hstart⟩ := flush_postponed hatt
      have hrun : soundActions.apply (.flush c) s = ⟨{ s.aof with postponedStart := start }, s.stream, s.incomplete⟩ := by
        simp [soundActions, aofActions, flushRun, hstart, hatt]
      rw [hrun]
      exact ⟨h.stream, h.size, h.status⟩
    | true =>
      obtain ⟨hlegal, hsound⟩ := he.2 hatt
      exact (flush_keeps h he.1 hatt hlegal hsound).1

/-- **The stream survives write errors**, as long as every write is sound: in every state the file and
    the buffer are all that was fed, the size is known and the status is that of the latest write; and
    after a write that is complete the file is the stream. -/
theorem aof_stream {file : Bytes} {s : Run} (h : soundActions.Steps (fun _ => True) (Run.start file) s) :
    InStep s ∧ ∀ c : Flush, soundActions.enabled (.flush c) s → c.attempts s.aof = true →
      c.nwritten = s.aof.buf.length → (flushRun c s).aof.file = s.stream := by
  have hstep : InStep s :=
    h.invariant InStep (inStep_start file) (fun a u _ he hu => inStep_apply he hu)
  refine ⟨hstep, fun c he hatt hall => ?_⟩
  obtain ⟨hlegal, hsound⟩ := he.2 hatt
  obtain ⟨hkeep, hempty⟩ := flush_keeps hstep he.1 hatt hlegal hsound
  have hstream := hkeep.stream
  rwa [hempty hall, List.append_nil] at hstream

/-- `SET k v` is fed. -/
def fedSet : Run := soundActions.apply (.feed 0 ⟨.set, 0, [setName, [107], [118]]⟩) (Run.start [])

/-- The write fails. -/
def failedWrite : Flush := ⟨.everysec, false, false, 10, -1, true⟩

theorem aof_stream_failed : InStep (soundActions.apply (.flush failedWrite) fedSet) := by
  have hlen : fedSet.aof.buf.length = 50 := by
    simp only [fedSet, soundActions, aofActions, feed, feedAppendOnlyFile, Run.start, catSelect_zero]
    rfl
  have hfeed : soundActions.enabled (.feed 0 ⟨.set, 0, [setName, [107], [118]]⟩) (Run.start []) := trivial
  have hflush : soundActions.enabled (.flush failedWrite) fedSet :=
    ⟨by decide, fun _ => ⟨.inl rfl, .inl (by rw [hlen]; decide)⟩⟩
  exact (aof_stream ((Actions.Steps.single trivial hfeed).trans (Actions.Steps.single trivial hflush))).1

/-! ## A buffer of 4 GiB -/

theorem length_ll2string_le (h : n < 2 ^ 63) : (ll2string 32 (n : Int)).length ≤ 19 := by
  rw [ll2string_natCast h]
  exact length_decimal_le (n := 18) (by omega)

/-- `SET k` with a value of `n` bytes takes a little more. -/
theorem length_feed_set (h : n < 2 ^ 63) (mstime selected : Int) :
    n ≤ (feedAppendOnlyFile mstime selected ⟨.set, 0, [setName, [107], List.replicate n 120]⟩).1.length
      ∧ (feedAppendOnlyFile mstime selected ⟨.set, 0, [setName, [107], List.replicate n 120]⟩).1.length ≤ n + 200 := by
  have hsel : (if ((0 : Nat) : Int) ≠ selected then catSelect 0 else []).length ≤ 23 := by
    by_cases hs : ((0 : Nat) : Int) ≠ selected
    · rw [if_pos hs, catSelect_zero]
      decide
    · rw [if_neg hs]
      decide
  have hcount := length_ll2string_le (n := 3) (by decide)
  have hname := length_ll2string_le (n := setName.length) (by decide)
  have hkey := length_ll2string_le (n := 1) (by decide)
  have hvalue := length_ll2string_le h
  have hname' : setName.length = 3 := rfl
  obtain ⟨sel, hsel'⟩ : ∃ sel : Bytes, (if ((0 : Nat) : Int) ≠ selected then catSelect 0 else []) = sel := ⟨_, rfl⟩
  rw [hsel'] at hsel
  have hset : ¬ (Proc.set = .expire ∨ Proc.set = .pexpire ∨ Proc.set = .expireat) := by decide
  have hset' : ¬ (Proc.set = .setex ∨ Proc.set = .psetex) := by decide
  simp only [feedAppendOnlyFile, hsel', if_neg hset, if_neg hset', catAppendOnlyGenericCommand, List.flatMap_cons,
    List.flatMap_nil, catBulk, List.length_append, List.length_cons, List.length_nil, List.length_replicate,
    hname', Nat.zero_add, Nat.reduceAdd] at hname ⊢
  omega

/-- Some `SET`s are fed. -/
theorem feed_sets (hn : n < 2 ^ 63) (k : Nat) :
    ∃ s, aofActions.Steps (fun _ => True) (Run.start []) s ∧ s.aof.file = [] ∧ s.aof.buf = s.stream
      ∧ k * n ≤ s.stream.length ∧ s.stream.length ≤ k * (n + 200) := by
  induction k with
  | zero => exact ⟨Run.start [], .refl _, rfl, rfl, by simp, by simp [Run.start]⟩
  | succ k ih =>
    obtain ⟨s, hsteps, hfile, hbuf, hlow, hhigh⟩ := ih
    obtain ⟨f, hf⟩ : ∃ f : Fed, f = ⟨.set, 0, [setName, [107], List.replicate n 120]⟩ := ⟨_, rfl⟩
    obtain ⟨hlow', hhigh'⟩ := length_feed_set hn 0 s.aof.selected
    rw [← hf] at hlow' hhigh'
    have hfeed : aofActions.enabled (.feed 0 f) s := trivial
    refine ⟨aofActions.apply (.feed 0 f) s, hsteps.trans (Actions.Steps.single trivial hfeed), hfile, ?_, ?_, ?_⟩
    · simp only [aofActions, feed, hbuf]
    · simp only [aofActions, List.length_append]
      rw [Nat.succ_mul]
      omega
    · simp only [aofActions, List.length_append]
      rw [Nat.succ_mul]
      omega

/-- Eight values of 512 MiB are in the buffer, and `write` takes the few bytes that are more than 4 GiB:
    the buffer is cleared. -/
theorem aof_stream_lost : ¬ ∀ (file : Bytes) (s : Run),
    aofActions.Steps (fun _ => True) (Run.start file) s → InStep s := by
  intro hclaim
  obtain ⟨n, hn⟩ : ∃ n, n = 2 ^ 29 := ⟨_, rfl⟩
  obtain ⟨s, hsteps, hfile, hbuf, hlow, hhigh⟩ := feed_sets (n := n) (by omega) 8
  obtain ⟨c, hc⟩ : ∃ c : Flush, c = ⟨.no, false, false, 0, (s.stream.length : Int) - 2 ^ 32, false⟩ := ⟨_, rfl⟩
  have hnw : c.nwritten = (s.stream.length : Int) - 2 ^ 32 := by rw [hc]
  have hfsync : c.fsync ≠ .always := by
    rw [hc]
    simp
  have hne : s.aof.buf ≠ [] := by
    rw [hbuf, ← List.length_pos_iff]
    omega
  have hatt : c.attempts s.aof = true := by
    rw [hc]
    simp [Flush.attempts, Flush.waits, hne]
  have hlegal : aofActions.enabled (.flush c) s := by
    refine ⟨hfsync, fun _ => .inr ?_⟩
    rw [hnw, hbuf]
    constructor <;> omega
  have hsigned : signed s.aof.buf.length = c.nwritten := by
    rw [hnw, hbuf]
    exact signed_of_ge (by omega) (by omega)
  have hstep := hclaim [] _ (hsteps.trans (.single (a := .flush c) trivial hlegal))
  have hrun : (aofActions.apply (.flush c) s).aof.file ++ (aofActions.apply (.flush c) s).aof.buf
      = s.stream.take c.nwritten.toNat := by
    simp only [aofActions, flushRun, flush_attempts hatt hfsync, hsigned]
    simp [hfile, hbuf]
  have hlen := congrArg List.length (hrun.symm.trans hstep.stream)
  have hstream : (aofActions.apply (.flush c) s).stream = s.stream := rfl
  rw [hstream, List.length_take, hnw] at hlen
  omega

end Redis.Aof
