import Redis.Lib.Outcome
import Redis.Lib.RingBuffer
import Redis.Libc

namespace Redis

open Buffer RingBuffer Outcome

/-!
# The replication backlog of `replication.c`

The master keeps the last bytes of the replication stream in a circular buffer, so that a
slave that comes back can be sent the part it has missed.

* `createReplicationBacklog`, `resizeReplicationBacklog`, `freeReplicationBacklog`;
* `feedReplicationBacklog` — the writer, with its loop over the end of the buffer;
* `addReplyReplicationBacklog` — the reader;
* `masterTryPartialResynchronization` — the test that decides whether a slave can be
  continued.

The byte that is fed when the offset becomes `n` has the number `n`; the run remembers all
of them.
-/

/-- What the C code would do instead of returning. -/
inductive BacklogFault
  /-- A `serverAssert` that fails. -/
  | assertion
  /-- Bytes are copied to or from the backlog and there is none. -/
  | nullBacklog
  /-- An access outside the backlog. -/
  | outOfBounds
  | fuel
  deriving DecidableEq, Repr

/-- The part of `server` that the backlog uses. -/
structure ReplServer where
  replBacklog : Option Bytes
  replBacklogSize : Nat
  replBacklogHistlen : Nat
  replBacklogIdx : Nat
  replBacklogOff : Int
  masterReplOffset : Int
  /-- `listLength(server.slaves)`. -/
  slaves : Nat
  runid : Bytes
  deriving DecidableEq, Repr

/-- `CONFIG_REPL_BACKLOG_MIN_SIZE`. -/
def CONFIG_REPL_BACKLOG_MIN_SIZE : Nat := 1024 * 16

/-- `CONFIG_DEFAULT_REPL_BACKLOG_SIZE`. -/
def CONFIG_DEFAULT_REPL_BACKLOG_SIZE : Nat := 1024 * 1024

/-- `initServerConfig`, with the run id it has drawn. -/
def initReplServer (runid : Bytes) : ReplServer where
  replBacklog := none
  replBacklogSize := CONFIG_DEFAULT_REPL_BACKLOG_SIZE
  replBacklogHistlen := 0
  replBacklogIdx := 0
  replBacklogOff := 0
  masterReplOffset := 0
  slaves := 0
  runid := runid

/-- `createReplicationBacklog`; `junk` is what fresh memory holds at each offset. -/
def createReplicationBacklog (junk : Nat → UInt8) (s : ReplServer) : Except BacklogFault ReplServer :=
  if s.replBacklog.isSome then .error .assertion
  else
    .ok { s with
      replBacklog := some (zrealloc junk [] s.replBacklogSize)
      replBacklogHistlen := 0
      replBacklogIdx := 0
      -- no slave of an earlier backlog can ask for the next byte
      masterReplOffset := s.masterReplOffset + 1
      replBacklogOff := s.masterReplOffset + 1 + 1 }

/-- `resizeReplicationBacklog`. -/
def resizeReplicationBacklog (junk : Nat → UInt8) (newsize : Int) (s : ReplServer) : ReplServer :=
  let newsize := if newsize < CONFIG_REPL_BACKLOG_MIN_SIZE then CONFIG_REPL_BACKLOG_MIN_SIZE else newsize.toNat
  if s.replBacklogSize = newsize then s
  else if s.replBacklog.isSome then
    -- the old bytes are dropped, not copied
    { s with
      replBacklogSize := newsize
      replBacklog := some (zrealloc junk [] newsize)
      replBacklogHistlen := 0
      replBacklogIdx := 0
      replBacklogOff := s.masterReplOffset + 1 }
  else { s with replBacklogSize := newsize }

/-- `freeReplicationBacklog`. -/
def freeReplicationBacklog (s : ReplServer) : Except BacklogFault ReplServer :=
  if s.slaves ≠ 0 then .error .assertion else .ok { s with replBacklog := none }

/-- `memcpy(server.repl_backlog+off,p,..)`. -/
def memcpyBacklog (s : ReplServer) (off : Nat) (p : Bytes) : Except BacklogFault ReplServer :=
  match s.replBacklog with
  | none => .error .nullBacklog
  | some buf =>
      match overwrite? buf off p with
      | none => .error .outOfBounds
      | some buf => .ok { s with replBacklog := some buf }

/-- The loop of `feedReplicationBacklog`. -/
def feedLoop : Nat → ReplServer → Bytes → Except BacklogFault ReplServer
  | fuel, s, p =>
      if p.length = 0 then .ok s
      else match fuel with
        | 0 => .error .fuel
        | fuel + 1 => do
            let room := s.replBacklogSize - s.replBacklogIdx
            let thislen := if room > p.length then p.length else room
            let s ← memcpyBacklog s s.replBacklogIdx (p.take thislen)
            let idx := s.replBacklogIdx + thislen
            feedLoop fuel
              { s with
                replBacklogIdx := if idx = s.replBacklogSize then 0 else idx
                replBacklogHistlen := s.replBacklogHistlen + thislen }
              (p.drop thislen)

/-- `feedReplicationBacklog`. -/
def feedReplicationBacklog (p : Bytes) (s : ReplServer) : Except BacklogFault ReplServer := do
  let s ← feedLoop p.length { s with masterReplOffset := s.masterReplOffset + p.length } p
  let histlen :=
    if s.replBacklogHistlen > s.replBacklogSize then s.replBacklogSize else s.replBacklogHistlen
  return { s with
    replBacklogHistlen := histlen
    replBacklogOff := s.masterReplOffset - histlen + 1 }

/-- `sdsnewlen(server.repl_backlog+j,thislen)`. -/
def sdsBacklog (s : ReplServer) (j thislen : Int) : Except BacklogFault Bytes :=
  match s.replBacklog with
  | none => .error .nullBacklog
  | some buf =>
      if j < 0 ∨ thislen < 0 then .error .outOfBounds
      else match slice? buf j.toNat thislen.toNat with
        | none => .error .outOfBounds
        | some bs => .ok bs

/-- The loop of `addReplyReplicationBacklog`: what it adds to the replies. -/
def addReplyLoop (s : ReplServer) : Nat → Int → Int → Except BacklogFault Bytes
  | fuel, j, len =>
      if len = 0 then .ok []
      else match fuel with
        | 0 => .error .fuel
        | fuel + 1 => do
            let thislen := if s.replBacklogSize - j < len then s.replBacklogSize - j else len
            let sds ← sdsBacklog s j thislen
            let rest ← addReplyLoop s fuel 0 (len - thislen)
            return sds ++ rest

/-- `addReplyReplicationBacklog`: the bytes it adds to the replies, and its result. -/
def addReplyReplicationBacklog (s : ReplServer) (offset : Int) : Except BacklogFault (Bytes × Int) :=
  if s.replBacklogHistlen = 0 then .ok ([], 0)
  else do
    let skip := offset - s.replBacklogOff
    let j : Int := Int.tmod (s.replBacklogIdx + (s.replBacklogSize - s.replBacklogHistlen)) s.replBacklogSize
    let j := Int.tmod (j + skip) s.replBacklogSize
    let len := s.replBacklogHistlen - skip
    let bytes ← addReplyLoop s len.toNat j len
    return (bytes, len)

/-- What `masterTryPartialResynchronization` does with the client. -/
inductive PsyncReply
  /-- `C_ERR`: a full resynchronization is needed; an error may have been replied. -/
  | needFullResync (error : Option String)
  /-- `C_OK`, but `+CONTINUE` could not be written and the client is closed. -/
  | closed
  /-- `C_OK`: the bytes that follow `+CONTINUE`. -/
  | continued (bytes : Bytes)
  deriving DecidableEq, Repr

/-- `masterTryPartialResynchronization`: the arguments of `PSYNC`, and whether `write`
    accepts the line `+CONTINUE`. -/
def masterTryPartialResynchronization (masterRunid psyncOffset : Bytes) (written : Bool) (s : ReplServer) :
    Except BacklogFault (PsyncReply × ReplServer) :=
  if !strcaseeq masterRunid s.runid then .ok (.needFullResync none, s)
  else match string2ll psyncOffset with
    | none => .ok (.needFullResync (some "value is not an integer or out of range"), s)
    | some offset =>
        if s.replBacklog.isNone ∨ offset < s.replBacklogOff ∨ offset > s.replBacklogOff + s.replBacklogHistlen then
          .ok (.needFullResync none, s)
        else if !written then .ok (.closed, { s with slaves := s.slaves + 1 })
        else do
          let reply ← addReplyReplicationBacklog s offset
          return (.continued reply.1, { s with slaves := s.slaves + 1 })

/-! ### Runs -/

/-- What can happen to the backlog. -/
inductive ReplOp
  | feed (p : Bytes)
  | resize (newsize : Int) (junk : Nat → UInt8)
  | create (junk : Nat → UInt8)
  | free
  | psync (masterRunid psyncOffset : Bytes) (written : Bool)
  /-- A slave is added to `server.slaves` by a full resynchronization. -/
  | attach
  /-- A slave is removed by `freeClient`. -/
  | detach

/-- The bytes with their numbers, when the offset is `m` before the first one. -/
def number (m : Int) : Bytes → List (Int × UInt8)
  | [] => []
  | b :: bs => (m + 1, b) :: number (m + 1) bs

/-- The server, every byte ever fed with its number, and the offset at which the buffer in
    use was allocated. -/
structure ReplRun where
  server : ReplServer
  fed : List (Int × UInt8)
  allocated : Int

/-- A server that has just started. -/
def initReplRun (runid : Bytes) : ReplRun := ⟨initReplServer runid, [], 0⟩

/-- One operation. -/
def stepRepl (r : ReplRun) : ReplOp → Except BacklogFault ReplRun
  | .feed p => do
      let s ← feedReplicationBacklog p r.server
      return { r with server := s, fed := r.fed ++ number r.server.masterReplOffset p }
  | .resize newsize junk =>
      let s := resizeReplicationBacklog junk newsize r.server
      .ok { r with
        server := s
        allocated := if s.replBacklogSize = r.server.replBacklogSize then r.allocated else s.masterReplOffset }
  | .create junk => do
      let s ← createReplicationBacklog junk r.server
      return { r with server := s, allocated := s.masterReplOffset }
  | .free => do
      let s ← freeReplicationBacklog r.server
      return { r with server := s }
  | .psync masterRunid psyncOffset written => do
      let reply ← masterTryPartialResynchronization masterRunid psyncOffset written r.server
      return { r with server := reply.2 }
  | .attach => .ok { r with server := { r.server with slaves := r.server.slaves + 1 } }
  | .detach => .ok { r with server := { r.server with slaves := r.server.slaves - 1 } }

/-- A run, from a server that has just started. -/
def runRepl (runid : Bytes) (ops : List ReplOp) : Except BacklogFault ReplRun :=
  ops.foldlM stepRepl (initReplRun runid)

/-- `C_OK` is returned: the slave is not sent to a full resynchronization. -/
def PsyncReply.accepted : PsyncReply → Bool
  | .needFullResync _ => false
  | .closed => true
  | .continued _ => true

/-- The byte has been fed into the buffer in use and not been overwritten since. -/
def ReplRun.InBuffer (r : ReplRun) (n : Int) : Prop :=
  r.allocated < n ∧ r.server.masterReplOffset - r.server.replBacklogSize < n ∧ n ≤ r.server.masterReplOffset

/-! ### Numbered bytes -/

theorem number_append (m : Int) (p q : Bytes) :
    number m (p ++ q) = number m p ++ number (m + p.length) q := by
  induction p generalizing m with
  | nil => simp [number]
  | cons b p ih =>
    rw [List.cons_append, number, ih, number, List.cons_append, List.length_cons]
    congr 3
    push_cast
    ring

theorem number_bounds {m : Int} {p : Bytes} {b : Int × UInt8} (hb : b ∈ number m p) :
    m < b.1 ∧ b.1 ≤ m + p.length := by
  induction p generalizing m with
  | nil => simp [number] at hb
  | cons c p ih =>
    rw [number, List.mem_cons] at hb
    rw [List.length_cons]
    rcases hb with rfl | hb
    · constructor <;> push_cast <;> omega
    · have := ih hb
      constructor <;> push_cast <;> omega

/-- The bytes with a number from some point on are a suffix. -/
theorem filter_number (m : Int) (p : Bytes) (k : Nat) :
    (number m p).filter (fun b => m + 1 + k ≤ b.1) = number (m + k) (p.drop k) := by
  induction p generalizing m k with
  | nil => simp [number]
  | cons c p ih =>
    cases k with
    | zero =>
      rw [List.filter_eq_self.mpr]
      · simp
      · intro b hb
        have := number_bounds hb
        simp only [decide_eq_true_eq]
        push_cast
        omega
    | succ k =>
      have hrest := ih (m + 1) k
      rw [number, List.filter_cons_of_neg (by simp only [decide_eq_true_eq]; push_cast; omega),
        List.drop_succ_cons]
      have hshift : m + 1 + ((k + 1 : Nat) : Int) = m + 1 + 1 + k := by push_cast; ring
      have hshift' : m + ((k + 1 : Nat) : Int) = m + 1 + k := by push_cast; ring
      rw [hshift, hshift', hrest]

/-! ### The writer -/

section Writer

variable {s : ReplServer} {buf : Bytes}

/-- One loop of the writer after another: the bytes are pushed into the buffer, and everything
    but the buffer, the index and the length is left alone. -/
theorem feedLoop_spec (fuel : Nat) (p : Bytes) (hbuf : s.replBacklog = some buf)
    (hlen : buf.length = s.replBacklogSize) (hidx : s.replBacklogIdx < s.replBacklogSize)
    (hfuel : p.length ≤ fuel) :
    ∃ buf' idx', feedLoop fuel s p = .ok { s with
        replBacklog := some buf'
        replBacklogIdx := idx'
        replBacklogHistlen := s.replBacklogHistlen + p.length } ∧
      buf'.length = s.replBacklogSize ∧ idx' < s.replBacklogSize ∧
      buf'.rotate idx' = (buf.rotate s.replBacklogIdx ++ p).drop p.length := by
  induction fuel generalizing s buf p with
  | zero =>
    have hp : p = [] := List.eq_nil_of_length_eq_zero (by omega)
    subst hp
    refine ⟨buf, s.replBacklogIdx, ?_, hlen, hidx, by simp⟩
    rw [feedLoop, if_pos List.length_nil]
    simp [← hbuf]
  | succ fuel ih =>
    by_cases hp : p.length = 0
    · obtain rfl := List.eq_nil_of_length_eq_zero hp
      refine ⟨buf, s.replBacklogIdx, ?_, hlen, hidx, by simp⟩
      rw [feedLoop, if_pos List.length_nil]
      simp [← hbuf]
    · -- at least one byte fits before the end of the buffer
      obtain ⟨n, hn⟩ : ∃ n, n = if s.replBacklogSize - s.replBacklogIdx > p.length then p.length
          else s.replBacklogSize - s.replBacklogIdx := ⟨_, rfl⟩
      have hpos : 0 < n := by split at hn <;> omega
      have hnp : n ≤ p.length := by split at hn <;> omega
      have hfit : s.replBacklogIdx + n ≤ s.replBacklogSize := by split at hn <;> omega
      have htake : (p.take n).length = n := by rw [List.length_take]; omega
      obtain ⟨buf₁, hwrite, hlen₁, hview₁⟩ :=
        rotate_overwrite buf (p.take n) s.replBacklogIdx (by rw [htake]; omega)
      obtain ⟨idx₁, hidx₁⟩ : ∃ idx₁, idx₁ = if s.replBacklogIdx + n = s.replBacklogSize then 0
          else s.replBacklogIdx + n := ⟨_, rfl⟩
      have hlt₁ : idx₁ < s.replBacklogSize := by split at hidx₁ <;> omega
      have hrot₁ : buf₁.rotate idx₁ = buf₁.rotate (s.replBacklogIdx + n) := by
        by_cases hend : s.replBacklogIdx + n = s.replBacklogSize
        · rw [hidx₁, if_pos hend]
          exact rotate_wrap (by omega)
        · rw [hidx₁, if_neg hend]
      have hnext : ({ s with
          replBacklog := some buf₁
          replBacklogIdx := idx₁
          replBacklogHistlen := s.replBacklogHistlen + n } : ReplServer).replBacklog = some buf₁ := rfl
      obtain ⟨buf', idx', hrun, hlen', hlt', hview'⟩ :=
        ih (p.drop n) hnext (hlen₁.trans hlen) hlt₁ (by rw [List.length_drop]; omega)
      refine ⟨buf', idx', ?_, hlen', hlt', ?_⟩
      · rw [feedLoop, if_neg hp]
        have hcopy : memcpyBacklog s s.replBacklogIdx (p.take n) = .ok { s with replBacklog := some buf₁ } := by
          rw [memcpyBacklog, hbuf]
          simp only [hwrite]
        simp only [← hn, hcopy, ok_bind, ← hidx₁]
        rw [hrun, List.length_drop]
        simp only [Nat.add_assoc, Nat.add_sub_cancel' hnp]
      · rw [hview', hrot₁]
        rw [htake] at hview₁
        rw [hview₁]
        have hpush := drop_push (buf.rotate s.replBacklogIdx) (p.take n) (p.drop n)
        rw [List.take_append_drop, htake] at hpush
        exact hpush

/-- The buffer of the server has been fed `hist` since it was allocated. -/
structure ReplServer.Holds (s : ReplServer) (buf hist : Bytes) : Prop where
  backlog : s.replBacklog = some buf
  length : buf.length = s.replBacklogSize
  idx_lt : s.replBacklogIdx < s.replBacklogSize
  histlen : s.replBacklogHistlen = min s.replBacklogSize hist.length
  off : s.replBacklogOff = s.masterReplOffset - s.replBacklogHistlen + 1
  -- from the oldest byte to the newest one, behind what the fresh memory held
  view : ∃ old : Bytes, old.length = s.replBacklogSize ∧
    buf.rotate s.replBacklogIdx = (old ++ hist).drop hist.length

/-- A buffer that has just been allocated. -/
theorem ReplServer.Holds.fresh {junk : Nat → UInt8} (hbuf : s.replBacklog = some (zrealloc junk [] s.replBacklogSize))
    (hpos : 0 < s.replBacklogSize) (hidx : s.replBacklogIdx = 0) (hhist : s.replBacklogHistlen = 0)
    (hoff : s.replBacklogOff = s.masterReplOffset + 1) :
    s.Holds (zrealloc junk [] s.replBacklogSize) [] where
  backlog := hbuf
  length := by simp [zrealloc]
  idx_lt := by omega
  histlen := by rw [hhist, List.length_nil, Nat.min_zero]
  off := by rw [hoff, hhist, Nat.cast_zero, sub_zero]
  view := ⟨zrealloc junk [] s.replBacklogSize, by simp [zrealloc], by simp [hidx]⟩

theorem feedReplicationBacklog_spec {hist : Bytes} (h : s.Holds buf hist) (p : Bytes) :
    ∃ s' buf', feedReplicationBacklog p s = .ok s' ∧ s'.Holds buf' (hist ++ p) ∧
      s'.masterReplOffset = s.masterReplOffset + p.length ∧ s'.replBacklogSize = s.replBacklogSize ∧
      s'.slaves = s.slaves ∧ s'.runid = s.runid := by
  have hbuf : ({ s with masterReplOffset := s.masterReplOffset + p.length } : ReplServer).replBacklog = some buf :=
    h.backlog
  obtain ⟨buf', idx', hrun, hlen', hlt', hview'⟩ := feedLoop_spec p.length p hbuf h.length h.idx_lt (le_refl _)
  obtain ⟨old, hold, hview⟩ := h.view
  have hhist := h.histlen
  rw [feedReplicationBacklog, hrun, ok_bind]
  refine ⟨_, buf', rfl, ⟨rfl, hlen', hlt', ?_, rfl, old, hold, ?_⟩, rfl, rfl, rfl, rfl⟩
  · -- the two ways to bound the length agree
    show (if s.replBacklogHistlen + p.length > s.replBacklogSize then s.replBacklogSize
      else s.replBacklogHistlen + p.length) = min s.replBacklogSize (hist ++ p).length
    rw [List.length_append]
    split <;> omega
  · have hpush := drop_push old hist p
    rw [← hview] at hpush
    exact hview'.trans hpush

end Writer

/-! ### The reader -/

section Reader

variable {s : ReplServer} {buf : Bytes}

/-- The reader when it does not cross the end of the buffer. -/
theorem addReplyLoop_run (fuel j len : Nat) (hbuf : s.replBacklog = some buf)
    (hlen : buf.length = s.replBacklogSize) (hfit : j + len ≤ s.replBacklogSize) (hfuel : len ≤ fuel) :
    addReplyLoop s fuel j len = .ok ((buf.drop j).take len) := by
  by_cases hzero : len = 0
  · subst hzero
    rw [addReplyLoop.eq_def]
    simp
  · obtain ⟨fuel, rfl⟩ := Nat.exists_eq_succ_of_ne_zero (show fuel ≠ 0 by omega)
    have hsds : sdsBacklog s j len = .ok ((buf.drop j).take len) := by
      rw [sdsBacklog, hbuf]
      simp only [Int.toNat_natCast, slice?]
      rw [if_neg (by omega), if_pos (by omega)]
    have hend : addReplyLoop s fuel 0 0 = .ok [] := by
      rw [addReplyLoop.eq_def]
      simp
    rw [addReplyLoop.eq_def]
    simp only
    rw [if_neg (by omega), if_neg (by omega), hsds, ok_bind, sub_self, hend, ok_bind, List.append_nil]
    rfl

/-- The reader, in one run or in two. -/
theorem addReplyLoop_spec {fuel j len : Nat} (hbuf : s.replBacklog = some buf)
    (hlen : buf.length = s.replBacklogSize) (hj : j < s.replBacklogSize) (hle : len ≤ s.replBacklogSize)
    (hfuel : len ≤ fuel) : addReplyLoop s fuel j len = .ok ((buf.rotate j).take len) := by
  rw [take_rotate (by omega) (by omega)]
  by_cases hwrap : s.replBacklogSize - j < len
  · obtain ⟨fuel, rfl⟩ := Nat.exists_eq_succ_of_ne_zero (show fuel ≠ 0 by omega)
    have hsds : sdsBacklog s j ((s.replBacklogSize : Int) - j) = .ok (buf.drop j) := by
      rw [sdsBacklog, hbuf]
      simp only [slice?]
      rw [if_neg (by omega), if_pos (by omega), List.take_of_length_le (by rw [List.length_drop]; omega),
        Int.toNat_natCast]
    have hrest := addReplyLoop_run fuel 0 (len - (s.replBacklogSize - j)) hbuf hlen (by omega) (by omega)
    have hcast : ((len - (s.replBacklogSize - j) : Nat) : Int) = len - (s.replBacklogSize - j) := by omega
    rw [hcast, Nat.cast_zero, List.drop_zero] at hrest
    have hall : (buf.drop j).take len = buf.drop j := by
      rw [List.take_of_length_le]
      rw [List.length_drop]
      omega
    rw [addReplyLoop.eq_def]
    simp only
    rw [if_neg (by omega), if_pos (by omega), hsds, ok_bind, hrest, ok_bind, hlen, hall]
    rfl
  · rw [addReplyLoop_run fuel j len hbuf hlen (by omega) hfuel, Nat.sub_eq_zero_of_le (by omega), List.take_zero,
      List.append_nil]

/-- From an offset in the buffer on, the reader replies the rest of the history. -/
theorem addReplyReplicationBacklog_spec {hist : Bytes} {skip : Nat} (h : s.Holds buf hist)
    (hskip : skip ≤ s.replBacklogHistlen) :
    addReplyReplicationBacklog s (s.replBacklogOff + skip) =
      .ok (hist.drop (hist.length - s.replBacklogHistlen + skip), s.replBacklogHistlen - skip) := by
  have hhist := h.histlen
  have hidx := h.idx_lt
  by_cases hzero : s.replBacklogHistlen = 0
  · obtain rfl : skip = 0 := by omega
    rw [addReplyReplicationBacklog, if_pos hzero, hzero, List.drop_of_length_le (by omega)]
    rfl
  · obtain ⟨old, hold, hview⟩ := h.view
    -- the distance of the first byte to send from the oldest cell
    obtain ⟨k, hk⟩ : ∃ k, k = s.replBacklogSize - s.replBacklogHistlen + skip := ⟨_, rfl⟩
    have hj : Int.tmod (Int.tmod (s.replBacklogIdx + (s.replBacklogSize - s.replBacklogHistlen))
        s.replBacklogSize + (s.replBacklogOff + skip - s.replBacklogOff)) s.replBacklogSize =
        ((s.replBacklogIdx + k) % s.replBacklogSize : Nat) := by
      have hfirst : (s.replBacklogIdx + (s.replBacklogSize - s.replBacklogHistlen) : Int) =
          ((s.replBacklogIdx + (s.replBacklogSize - s.replBacklogHistlen) : Nat) : Int) := by omega
      rw [hfirst, ← Int.ofNat_tmod, add_sub_cancel_left, ← Nat.cast_add, ← Int.ofNat_tmod, Nat.mod_add_mod,
        hk, Nat.add_assoc]
    have hlen : (s.replBacklogHistlen : Int) - (s.replBacklogOff + skip - s.replBacklogOff) =
        (s.replBacklogHistlen - skip : Nat) := by omega
    have hloop := addReplyLoop_spec h.backlog h.length (Nat.mod_lt (s.replBacklogIdx + k) (by omega))
      (show s.replBacklogHistlen - skip ≤ _ by omega) (le_refl _)
    have hread : (buf.rotate ((s.replBacklogIdx + k) % s.replBacklogSize)).take (s.replBacklogHistlen - skip) =
        hist.drop (hist.length - s.replBacklogHistlen + skip) := by
      have hviewlen : ((old ++ hist).drop hist.length).length = s.replBacklogSize := by
        rw [List.length_drop, List.length_append]
        omega
      have hrest : s.replBacklogHistlen - skip = ((old ++ hist).drop hist.length).length - k := by omega
      have hpos : hist.length + k = old.length + (hist.length - s.replBacklogHistlen + skip) := by omega
      rw [← h.length, List.rotate_mod, ← List.rotate_rotate, hview, hrest, take_rotate_eq_drop (by omega),
        List.drop_drop, hpos, ← List.drop_drop, List.drop_left]
    rw [addReplyReplicationBacklog, if_neg hzero]
    simp only [hj, hlen, Int.toNat_natCast]
    rw [hloop, ok_bind, hread, Nat.cast_sub hskip]
    rfl

end Reader

/-! ### The invariant -/

section Runs

variable {r r' : ReplRun} {buf hist : Bytes}

/-- The buffer in use holds the last bytes of the stream. -/
structure ReplRun.Serves (r : ReplRun) (buf hist : Bytes) : Prop where
  holds : r.server.Holds buf hist
  master : r.server.masterReplOffset = r.allocated + hist.length
  fed : ∃ older, r.fed = older ++ number r.allocated hist ∧ ∀ b ∈ older, b.1 ≤ r.allocated

/-- What every operation keeps. -/
structure ReplRun.Inv (r : ReplRun) : Prop where
  min_size : CONFIG_REPL_BACKLOG_MIN_SIZE ≤ r.server.replBacklogSize
  fed_le : ∀ b ∈ r.fed, b.1 ≤ r.server.masterReplOffset
  serves : r.server.replBacklog = none ∨ ∃ buf hist, r.Serves buf hist

/-- A buffer allocated at the current offset. -/
theorem ReplRun.Inv.of_fresh {junk : Nat → UInt8}
    (hmin : CONFIG_REPL_BACKLOG_MIN_SIZE ≤ r.server.replBacklogSize)
    (hfed : ∀ b ∈ r.fed, b.1 ≤ r.server.masterReplOffset)
    (hbuf : r.server.replBacklog = some (zrealloc junk [] r.server.replBacklogSize))
    (hidx : r.server.replBacklogIdx = 0) (hhist : r.server.replBacklogHistlen = 0)
    (hoff : r.server.replBacklogOff = r.server.masterReplOffset + 1)
    (halloc : r.allocated = r.server.masterReplOffset) : r.Inv := by
  have hpos : 0 < r.server.replBacklogSize := lt_of_lt_of_le (by decide) hmin
  refine ⟨hmin, hfed, .inr ⟨_, [], ReplServer.Holds.fresh hbuf hpos hidx hhist hoff, ?_, r.fed, ?_, ?_⟩⟩
  · rw [halloc, List.length_nil, Nat.cast_zero, add_zero]
  · rw [number, List.append_nil]
  · rw [halloc]
    exact hfed

/-- The operations that touch the list of slaves only. -/
theorem ReplRun.Inv.slaves (h : r.Inv) (n : Nat) : ({ r with server := { r.server with slaves := n } } : ReplRun).Inv := by
  refine ⟨h.min_size, h.fed_le, h.serves.imp id (fun ⟨buf, hist, hs⟩ => ⟨buf, hist, ?_, hs.master, hs.fed⟩)⟩
  obtain ⟨h1, h2, h3, h4, h5, h6⟩ := hs.holds
  exact ⟨h1, h2, h3, h4, h5, h6⟩

theorem init_inv (runid : Bytes) : (initReplRun runid).Inv where
  min_size := by
    show CONFIG_REPL_BACKLOG_MIN_SIZE ≤ CONFIG_DEFAULT_REPL_BACKLOG_SIZE
    decide
  fed_le := by
    intro b hb
    cases hb
  serves := .inl rfl

theorem create_inv (h : r.Inv) (junk : Nat → UInt8) :
    Sat (stepRepl r (.create junk)) ReplRun.Inv (fun e => e = .assertion ∨ e = .nullBacklog) := by
  rw [stepRepl, createReplicationBacklog]
  by_cases hsome : r.server.replBacklog.isSome = true
  · rw [if_pos hsome]
    exact .inl rfl
  · rw [if_neg hsome, ok_bind]
    refine ReplRun.Inv.of_fresh h.min_size (fun b hb => ?_) rfl rfl rfl rfl rfl
    have := h.fed_le b hb
    show b.1 ≤ r.server.masterReplOffset + 1
    omega

theorem resize_inv (h : r.Inv) (newsize : Int) (junk : Nat → UInt8) :
    Sat (stepRepl r (.resize newsize junk)) ReplRun.Inv (fun e => e = .assertion ∨ e = .nullBacklog) := by
  obtain ⟨n, hn⟩ : ∃ n, n = if newsize < CONFIG_REPL_BACKLOG_MIN_SIZE then CONFIG_REPL_BACKLOG_MIN_SIZE
      else newsize.toNat := ⟨_, rfl⟩
  have hmin : CONFIG_REPL_BACKLOG_MIN_SIZE ≤ n := by split at hn <;> omega
  rw [stepRepl, resizeReplicationBacklog]
  simp only [← hn]
  by_cases hsame : r.server.replBacklogSize = n
  · simp only [if_pos hsame]
    exact h
  · simp only [if_neg hsame]
    by_cases hsome : r.server.replBacklog.isSome = true
    · simp only [if_pos hsome, if_neg (Ne.symm hsame)]
      exact ReplRun.Inv.of_fresh hmin h.fed_le rfl rfl rfl rfl rfl
    · simp only [if_neg hsome, if_neg (Ne.symm hsame)]
      exact ⟨hmin, h.fed_le, .inl (by simpa using hsome)⟩

theorem free_inv (h : r.Inv) :
    Sat (stepRepl r .free) ReplRun.Inv (fun e => e = .assertion ∨ e = .nullBacklog) := by
  rw [stepRepl, freeReplicationBacklog]
  by_cases hslaves : r.server.slaves ≠ 0
  · rw [if_pos hslaves]
    exact .inl rfl
  · rw [if_neg hslaves, ok_bind]
    exact ⟨h.min_size, h.fed_le, .inl rfl⟩

theorem feed_inv (h : r.Inv) (p : Bytes) :
    Sat (stepRepl r (.feed p)) ReplRun.Inv (fun e => e = .assertion ∨ e = .nullBacklog) := by
  have hnum : ∀ b ∈ r.fed ++ number r.server.masterReplOffset p, b.1 ≤ r.server.masterReplOffset + p.length := by
    intro b hb
    rcases List.mem_append.mp hb with hb | hb
    · have := h.fed_le b hb
      omega
    · exact (number_bounds hb).2
  rw [stepRepl]
  rcases h.serves with hnone | ⟨buf, hist, hs⟩
  · by_cases hp : p.length = 0
    · -- nothing is copied
      rw [feedReplicationBacklog, feedLoop.eq_def]
      simp only [if_pos hp]
      exact ⟨h.min_size, hnum, .inl hnone⟩
    · obtain ⟨fuel, hfuel⟩ := Nat.exists_eq_succ_of_ne_zero hp
      have hcopy : ∀ off q m, memcpyBacklog { r.server with masterReplOffset := m } off q = .error .nullBacklog := by
        intro off q m
        rw [memcpyBacklog, hnone]
      rw [feedReplicationBacklog, feedLoop.eq_def]
      simp only [hfuel, hcopy]
      exact .inr rfl
  · obtain ⟨s', buf', hrun, hholds, hmaster, hsize, -⟩ := feedReplicationBacklog_spec hs.holds p
    obtain ⟨older, hfed, holder⟩ := hs.fed
    rw [hrun, ok_bind]
    refine ⟨?_, ?_, .inr ⟨buf', hist ++ p, hholds, ?_, older, ?_, holder⟩⟩
    · show _ ≤ s'.replBacklogSize
      rw [hsize]
      exact h.min_size
    · show ∀ b ∈ r.fed ++ number r.server.masterReplOffset p, b.1 ≤ s'.masterReplOffset
      rw [hmaster]
      exact hnum
    · show s'.masterReplOffset = r.allocated + ((hist ++ p).length : Nat)
      rw [hmaster, hs.master, List.length_append]
      push_cast
      ring
    · show r.fed ++ number r.server.masterReplOffset p = older ++ number r.allocated (hist ++ p)
      rw [hfed, hs.master, number_append, List.append_assoc]

/-- The offsets whose bytes are all in the buffer, or the next one, are those of the test. -/
theorem ReplRun.Serves.inBuffer_iff (h : r.Serves buf hist) (offset : Int)
    (hle : offset ≤ r.server.masterReplOffset + 1) :
    (∀ n, offset ≤ n → n ≤ r.server.masterReplOffset → r.InBuffer n) ↔ r.server.replBacklogOff ≤ offset := by
  have hoff := h.holds.off
  have hhist := h.holds.histlen
  have hmaster := h.master
  constructor
  · intro hall
    by_cases hnext : offset = r.server.masterReplOffset + 1
    · omega
    · obtain ⟨h1, h2, -⟩ := hall offset (le_refl _) (by omega)
      omega
  · intro hge n hn hn'
    refine ⟨?_, ?_, hn'⟩
    · omega
    · omega

/-- What is sent from an accepted offset on. -/
theorem ReplRun.Serves.reply (h : r.Serves buf hist) {offset : Int} (hoff : r.server.replBacklogOff ≤ offset)
    (hle : offset ≤ r.server.replBacklogOff + r.server.replBacklogHistlen) :
    ∃ sent : Bytes, r.fed.filter (fun b => offset ≤ b.1) = number (offset - 1) sent ∧
      (sent.length : Int) = r.server.masterReplOffset + 1 - offset ∧
      addReplyReplicationBacklog r.server offset = .ok (sent, sent.length) := by
  obtain ⟨older, hfed, holder⟩ := h.fed
  have hoff' := h.holds.off
  have hhist := h.holds.histlen
  have hmaster := h.master
  obtain ⟨skip, hskip⟩ : ∃ skip : Nat, offset = r.server.replBacklogOff + skip :=
    ⟨(offset - r.server.replBacklogOff).toNat, by omega⟩
  obtain ⟨k, hk⟩ : ∃ k, k = hist.length - r.server.replBacklogHistlen + skip := ⟨_, rfl⟩
  have hreply := addReplyReplicationBacklog_spec h.holds (show skip ≤ _ by omega)
  have hlen : (hist.drop k).length = r.server.replBacklogHistlen - skip := by
    rw [List.length_drop]
    omega
  refine ⟨hist.drop k, ?_, ?_, ?_⟩
  · -- the bytes of earlier buffers have smaller numbers
    have hold : older.filter (fun b => offset ≤ b.1) = [] := by
      refine List.filter_eq_nil_iff.mpr (fun b hb => ?_)
      have := holder b hb
      simp only [decide_eq_true_eq]
      omega
    have hnum := filter_number r.allocated hist k
    have hfirst : r.allocated + 1 + k = offset := by omega
    have hfirst' : r.allocated + k = offset - 1 := by omega
    rw [hfirst, hfirst'] at hnum
    rw [hfed, List.filter_append, hold, List.nil_append, hnum]
  · omega
  · rw [hskip, hreply, ← hk, hlen, Nat.cast_sub (by omega)]

/-- What `PSYNC` gets in this state. -/
structure PsyncSpec (r : ReplRun) (masterRunid psyncOffset : Bytes) (written : Bool) (reply : PsyncReply) : Prop where
  /-- Accepted are the offsets whose bytes are all in the buffer. -/
  accepted_iff : reply.accepted ↔ strcaseeq masterRunid r.server.runid ∧ r.server.replBacklog ≠ none ∧
    ∃ offset, string2ll psyncOffset = some offset ∧ offset ≤ r.server.masterReplOffset + 1 ∧
      ∀ n, offset ≤ n → n ≤ r.server.masterReplOffset → r.InBuffer n
  /-- The fed bytes from the offset on are those that are sent. -/
  sent : reply.accepted → ∃ offset sent, string2ll psyncOffset = some offset ∧
    r.fed.filter (fun b => offset ≤ b.1) = number (offset - 1) sent ∧
    (sent.length : Int) = r.server.masterReplOffset + 1 - offset ∧
    addReplyReplicationBacklog r.server offset = .ok (sent, sent.length) ∧
    (written → reply = .continued sent)

theorem psync_spec (h : r.Inv) (masterRunid psyncOffset : Bytes) (written : Bool) :
    ∃ reply n, masterTryPartialResynchronization masterRunid psyncOffset written r.server =
        .ok (reply, { r.server with slaves := n }) ∧
      PsyncSpec r masterRunid psyncOffset written reply := by
  rw [masterTryPartialResynchronization]
  by_cases hrunid : strcaseeq masterRunid r.server.runid = true
  · rw [if_neg (by simpa using hrunid)]
    cases hoffset : string2ll psyncOffset with
    | none =>
      exact ⟨_, r.server.slaves, rfl, by simp [PsyncReply.accepted, hoffset], by simp [PsyncReply.accepted]⟩
    | some offset =>
      rcases h.serves with hnone | ⟨buf, hist, hs⟩
      · simp only
        rw [if_pos (.inl (by simp [hnone]))]
        exact ⟨_, r.server.slaves, rfl, by simp [PsyncReply.accepted, hnone], by simp [PsyncReply.accepted]⟩
      · have hbuf := hs.holds.backlog
        have hoff := hs.holds.off
        simp only
        by_cases hin : r.server.replBacklogOff ≤ offset ∧ offset ≤ r.server.replBacklogOff + r.server.replBacklogHistlen
        · obtain ⟨sent, hsent, hlen, hreply⟩ := hs.reply hin.1 hin.2
          have hle : offset ≤ r.server.masterReplOffset + 1 := by omega
          have hheld := (hs.inBuffer_iff offset hle).mpr hin.1
          have haccept : strcaseeq masterRunid r.server.runid ∧ r.server.replBacklog ≠ none ∧
              ∃ o, some offset = some o ∧ o ≤ r.server.masterReplOffset + 1 ∧
                ∀ n, o ≤ n → n ≤ r.server.masterReplOffset → r.InBuffer n :=
            ⟨hrunid, by simp [hbuf], offset, rfl, hle, hheld⟩
          rw [if_neg (by rw [hbuf, Option.isNone_some]; simp only [Bool.false_eq_true, false_or]; omega)]
          cases written with
          | false =>
            refine ⟨.closed, r.server.slaves + 1, rfl, ?_, fun _ => ⟨offset, sent, hoffset, hsent, hlen, hreply, ?_⟩⟩
            · rw [hoffset]
              exact iff_of_true rfl haccept
            · simp
          | true =>
            rw [hreply, ok_bind]
            refine ⟨.continued sent, r.server.slaves + 1, rfl, ?_,
              fun _ => ⟨offset, sent, hoffset, hsent, hlen, hreply, fun _ => rfl⟩⟩
            rw [hoffset]
            exact iff_of_true rfl haccept
        · rw [if_pos (.inr (by omega))]
          refine ⟨.needFullResync none, r.server.slaves, rfl, ?_, by simp [PsyncReply.accepted]⟩
          rw [hoffset]
          refine iff_of_false (by simp [PsyncReply.accepted]) ?_
          intro ⟨_, _, o, ho, hle, hheld⟩
          cases ho
          have := (hs.inBuffer_iff offset hle).mp hheld
          omega
  · rw [if_pos (by simpa using hrunid)]
    exact ⟨_, r.server.slaves, rfl, by simp [PsyncReply.accepted, hrunid], by simp [PsyncReply.accepted]⟩

theorem stepRepl_inv (h : r.Inv) (op : ReplOp) :
    Sat (stepRepl r op) ReplRun.Inv (fun e => e = .assertion ∨ e = .nullBacklog) := by
  cases op with
  | feed p => exact feed_inv h p
  | resize newsize junk => exact resize_inv h newsize junk
  | create junk => exact create_inv h junk
  | free => exact free_inv h
  | psync masterRunid psyncOffset written =>
    obtain ⟨reply, n, hrun, -⟩ := psync_spec h masterRunid psyncOffset written
    rw [stepRepl, hrun, ok_bind]
    exact h.slaves n
  | attach | detach => exact h.slaves _

/-- Every run keeps the invariant; it can only be stopped by an assertion, or by bytes fed
    without a backlog. -/
theorem runRepl_inv (runid : Bytes) (ops : List ReplOp) :
    Sat (runRepl runid ops) ReplRun.Inv (fun e => e = .assertion ∨ e = .nullBacklog) := by
  rw [runRepl]
  exact sat_foldlM (fun _ r => r.Inv) ops (initReplRun runid) (init_inv runid)
    (fun _ op _ _ _ h => stepRepl_inv h op)

end Runs

end Redis
