import Redis.Libc

namespace Redis.Bulk

/-!
# The transfer of the RDB file

A slave reads the file of a full synchronization from its master with `readSyncBulkPayload` of
`replication.c`: first a line, `$` and the length or `$EOF:` and a mark of 40 bytes, then the
data.  A mark ends the stream of a master that does not know the length beforehand.

* `Transfer`, `readSyncBulkPayload` — the static variables and one call;
* `Received` — in mark mode, the file and the window are what has been read;
* `mark_mode_exact` — the end is seen with the last byte, and the file is the payload.
-/

/-! ### The model -/

def CONFIG_RUN_ID_SIZE : Nat := 40

/-- The fields of `server`, the temporary file, and the static variables of the function. -/
structure Transfer where
  repl_transfer_size : Int
  repl_transfer_read : Nat
  file : Bytes
  eofmark : Bytes
  lastbytes : Bytes
  usemark : Bool

/-- What a call meets: the line that `syncReadLine` returns, the bytes that are there to read
    (none where `read` fails), and whether the file takes them. -/
structure Io where
  line : Option Bytes
  input : Bytes
  writes : Bool

/-- How a call ends. -/
inductive SyncCall
  | again (t : Transfer)
  /-- `cancelReplicationHandshake`. -/
  | cancelled (t : Transfer)
  /-- The temporary file becomes the RDB file. -/
  | complete (t : Transfer)

/-- The end of `syncWithMaster`: a new temporary file.  The static variables stay. -/
def startTransfer (t : Transfer) : Transfer :=
  { t with repl_transfer_size := -1, repl_transfer_read := 0, file := [] }

/-- `$EOF:` and at least 40 characters. -/
def announcesMark (line : Bytes) : Bool :=
  (line.drop 1).take 4 == [69, 79, 70, 58] && decide (CONFIG_RUN_ID_SIZE ≤ (cstr (line.drop 5)).length)

/-- "if (server.repl_transfer_size == -1)". -/
def readLine (t : Transfer) : Option Bytes → SyncCall
  | none => .cancelled t
  | some line =>
      match cstr line with
      -- a newline works as a PING
      | [] => .again t
      | c :: _ =>
          if c ≠ 36 then .cancelled t
          else if announcesMark line then .again { t with
            usemark := true
            eofmark := (line.drop 5).take CONFIG_RUN_ID_SIZE
            lastbytes := List.replicate CONFIG_RUN_ID_SIZE 0
            repl_transfer_size := 0 }
          else .again { t with usemark := false, repl_transfer_size := strtol (line.drop 1) }

/-- The last bytes received, after `buf`. -/
def updateLastbytes (lastbytes buf : Bytes) : Bytes :=
  if CONFIG_RUN_ID_SIZE ≤ buf.length then buf.drop (buf.length - CONFIG_RUN_ID_SIZE)
  else lastbytes.drop buf.length ++ buf

/-- "Read bulk data". -/
def readData (t : Transfer) (input : Bytes) (writes : Bool) : SyncCall :=
  let left := t.repl_transfer_size - t.repl_transfer_read
  let readlen : Int := if t.usemark then 4096 else if left < 4096 then left else 4096
  let buf := input.take readlen.toNat
  if buf = [] then .cancelled t
  else
    let t := { t with lastbytes := if t.usemark then updateLastbytes t.lastbytes buf else t.lastbytes }
    let eof_reached := t.usemark && t.lastbytes == t.eofmark
    if !writes then .cancelled t
    else
      let t := { t with file := t.file ++ buf, repl_transfer_read := t.repl_transfer_read + buf.length }
      if eof_reached then
        -- `ftruncate` fails for a negative length
        if t.repl_transfer_read < CONFIG_RUN_ID_SIZE then .cancelled t
        else .complete { t with file := t.file.take (t.repl_transfer_read - CONFIG_RUN_ID_SIZE) }
      else if !t.usemark && t.repl_transfer_size == t.repl_transfer_read then .complete t
      else .again t

def readSyncBulkPayload (t : Transfer) (io : Io) : SyncCall :=
  if t.repl_transfer_size = -1 then readLine t io.line else readData t io.input io.writes

/-- A call for each event of the socket, until the transfer is over. -/
def runCalls (t : Transfer) : List Io → SyncCall
  | [] => .again t
  | io :: ios =>
      match readSyncBulkPayload t io with
      | .again u => runCalls u ios
      | .cancelled u => .cancelled u
      | .complete u => .complete u

/-- The line that announces a mark. -/
def announcement (mark : Bytes) : Io := ⟨some (36 :: 69 :: 79 :: 70 :: 58 :: mark), [], true⟩

/-- A read of `buf`, which the file takes. -/
def readOf (buf : Bytes) : Io := ⟨none, buf, true⟩

/-! ### The window -/

/-- The last 40 bytes of what has been read, after zeros. -/
def lastWindow (bs : Bytes) : Bytes := (List.replicate CONFIG_RUN_ID_SIZE 0 ++ bs).drop bs.length

theorem updateLastbytes_lastWindow (bs buf : Bytes) : updateLastbytes (lastWindow bs) buf = lastWindow (bs ++ buf) := by
  obtain ⟨zs, hzs⟩ : ∃ zs, zs = List.replicate CONFIG_RUN_ID_SIZE (0 : UInt8) ++ bs := ⟨_, rfl⟩
  have hlen : zs.length = bs.length + CONFIG_RUN_ID_SIZE := by
    rw [hzs, List.length_append, List.length_replicate, Nat.add_comm]
  rw [updateLastbytes, lastWindow, lastWindow, ← List.append_assoc, ← hzs, List.length_append]
  by_cases hlong : CONFIG_RUN_ID_SIZE ≤ buf.length
  · rw [if_pos hlong, List.drop_append, List.drop_of_length_le (show zs.length ≤ bs.length + buf.length by omega), List.nil_append, hlen]
    congr 1
    omega
  · rw [if_neg hlong, List.drop_drop, List.drop_append_of_le_length (by omega)]

variable {mark bs : Bytes}

/-- A mark has no zeros, so that the window is the mark only where it is full. -/
theorem lastWindow_eq_iff (hmark : mark.length = CONFIG_RUN_ID_SIZE) (hzero : 0 ∉ mark) :
    lastWindow bs = mark ↔ mark <:+ bs := by
  have hwindow : lastWindow bs
      = List.replicate (CONFIG_RUN_ID_SIZE - bs.length) 0 ++ bs.drop (bs.length - CONFIG_RUN_ID_SIZE) := by
    rw [lastWindow, List.drop_append, List.drop_replicate, List.length_replicate]
  constructor
  · intro heq
    have hfull : CONFIG_RUN_ID_SIZE ≤ bs.length := by
      by_contra hshort
      apply hzero
      rw [← heq, hwindow]
      exact List.mem_append_left _ (List.mem_replicate.mpr ⟨by omega, rfl⟩)
    rw [hwindow, Nat.sub_eq_zero_of_le hfull] at heq
    rw [← heq]
    exact List.drop_suffix _ _
  · rintro ⟨a, rfl⟩
    rw [lastWindow, ← List.append_assoc, List.length_append, hmark]
    apply List.drop_left'
    rw [List.length_append, List.length_replicate, Nat.add_comm]

/-! ### A transfer with a mark -/

/-- In mark mode, after `bs` has been read. -/
structure Received (mark bs : Bytes) (t : Transfer) : Prop where
  usemark : t.usemark = true
  eofmark : t.eofmark = mark
  lastbytes : t.lastbytes = lastWindow bs
  file : t.file = bs
  read : t.repl_transfer_read = bs.length
  size : t.repl_transfer_size = 0

/-- The line puts the slave in mark mode, whatever an earlier transfer has left. -/
theorem announcement_received (hmark : mark.length = CONFIG_RUN_ID_SIZE) (t : Transfer) {u : Transfer}
    (hline : readSyncBulkPayload (startTransfer t) (announcement mark) = .again u) (hmode : u.usemark = true) :
    Received mark [] u ∧ 0 ∉ mark := by
  have hread : readSyncBulkPayload (startTransfer t) (announcement mark)
      = readLine (startTransfer t) (some (36 :: 69 :: 79 :: 70 :: 58 :: mark)) := rfl
  have hcstr : cstr (36 :: 69 :: 79 :: 70 :: 58 :: mark) = 36 :: cstr (69 :: 79 :: 70 :: 58 :: mark) := by
    simp [cstr]
  rw [hread, readLine, hcstr] at hline
  simp only [ne_eq, not_true_eq_false, if_false] at hline
  split_ifs at hline with hannounced
  · obtain rfl := SyncCall.again.inj hline
    refine ⟨⟨rfl, List.take_of_length_le hmark.le, by simp [lastWindow], rfl, rfl, rfl⟩, fun hmem => ?_⟩
    -- a zero would end the string before its fortieth character
    rw [announcesMark, Bool.and_eq_true, decide_eq_true_eq] at hannounced
    have hall : cstr mark = mark :=
      (List.takeWhile_prefix _).eq_of_length_le (by rw [hmark]; exact hannounced.2)
    have hne := List.all_eq_true.mp List.all_takeWhile 0 (show (0 : UInt8) ∈ cstr mark by rwa [hall])
    exact absurd hne (by decide)
  · obtain rfl := SyncCall.again.inj hline
    cases hmode

section Step

variable {t : Transfer} {buf : Bytes}

/-- A call in mark mode. -/
theorem readOf_eq (h : Received mark bs t) (hbuf : buf ≠ []) (hlen : buf.length ≤ 4096) :
    ∃ u, Received mark (bs ++ buf) u ∧ readSyncBulkPayload t (readOf buf) =
      if lastWindow (bs ++ buf) = mark then
        if u.repl_transfer_read < CONFIG_RUN_ID_SIZE then .cancelled u
        else .complete { u with file := u.file.take (u.repl_transfer_read - CONFIG_RUN_ID_SIZE) }
      else .again u := by
  obtain ⟨size, read, file, eofmark, lastbytes, usemark⟩ := t
  obtain ⟨husemark, heofmark, hlastbytes, hfile, hread, hsize⟩ := h
  simp only at husemark heofmark hlastbytes hfile hread hsize
  subst hfile husemark heofmark hlastbytes hread hsize
  refine ⟨⟨0, file.length + buf.length, file ++ buf, eofmark, lastWindow (file ++ buf), true⟩,
    ⟨rfl, rfl, rfl, rfl, List.length_append.symm, rfl⟩, ?_⟩
  have htake : buf.take (Int.toNat 4096) = buf := List.take_of_length_le hlen
  simp only [readSyncBulkPayload, readOf, readData, if_true, htake, hbuf, if_false,
    updateLastbytes_lastWindow, Bool.true_and, beq_iff_eq, Bool.not_true, Bool.false_and, Bool.false_eq_true,
    show ¬ (0 : Int) = -1 by decide]

section

variable (hmark : mark.length = CONFIG_RUN_ID_SIZE) (hzero : 0 ∉ mark) (h : Received mark bs t) (hbuf : buf ≠ [])
  (hlen : buf.length ≤ 4096)

include hmark hzero h hbuf hlen

/-- The bytes so far do not end with the mark. -/
theorem readOf_again (hno : ¬ mark <:+ bs ++ buf) :
    ∃ u, readSyncBulkPayload t (readOf buf) = .again u ∧ Received mark (bs ++ buf) u := by
  obtain ⟨u, hu, hcall⟩ := readOf_eq h hbuf hlen
  rw [if_neg (mt (lastWindow_eq_iff hmark hzero).mp hno)] at hcall
  exact ⟨u, hcall, hu⟩

/-- They do. -/
theorem readOf_complete {payload : Bytes} (hend : bs ++ buf = payload ++ mark) :
    ∃ u, readSyncBulkPayload t (readOf buf) = .complete u ∧ u.file = payload := by
  obtain ⟨u, hu, hcall⟩ := readOf_eq h hbuf hlen
  rw [hend] at hu hcall
  have hread := hu.read
  rw [List.length_append, hmark] at hread
  rw [if_pos ((lastWindow_eq_iff hmark hzero).mpr (List.suffix_append _ _)), if_neg (by omega)] at hcall
  refine ⟨_, hcall, ?_⟩
  rw [hu.file, hread, Nat.add_sub_cancel]
  exact List.take_left

end

end Step

/-- The rest of a transfer. -/
theorem runCalls_exact (hmark : mark.length = CONFIG_RUN_ID_SIZE) (hzero : 0 ∉ mark) {payload : Bytes}
    (honly : ∀ a b, payload ++ mark = a ++ mark ++ b → b = []) (cuts : List Bytes) :
    ∀ (bs : Bytes) (t : Transfer), Received mark bs t → cuts ≠ [] → (∀ buf ∈ cuts, buf ≠ [] ∧ buf.length ≤ 4096) →
      bs ++ cuts.flatten = payload ++ mark →
      (∀ pre suf, cuts = pre ++ suf → suf ≠ [] → ∃ u, runCalls t (pre.map readOf) = .again u ∧ u.file = bs ++ pre.flatten) ∧
        ∃ u, runCalls t (cuts.map readOf) = .complete u ∧ u.file = payload := by
  induction cuts with
  | nil => exact fun _ _ _ hne => absurd rfl hne
  | cons buf rest ih =>
    intro bs t h _ hcuts hall
    obtain ⟨hbuf, hlen⟩ := hcuts buf List.mem_cons_self
    rw [List.flatten_cons, ← List.append_assoc] at hall
    rcases List.eq_nil_or_concat rest with rfl | ⟨front, last, hlast⟩
    · obtain ⟨u, hcall, hfile⟩ := readOf_complete hmark hzero h hbuf hlen (by simpa using hall)
      refine ⟨fun pre suf hsplit hsuf => ?_, u, by simp [runCalls, hcall], hfile⟩
      cases pre with
      | nil => exact ⟨t, rfl, by rw [h.file]; simp⟩
      | cons _ pre => simp_all
    · -- something follows, so the mark has not been read
      have hmore : rest ≠ [] := by simp [hlast]
      have hno : ¬ mark <:+ bs ++ buf := by
        rintro ⟨a, ha⟩
        rw [← ha] at hall
        have hnil := honly a _ hall.symm
        rw [hlast, List.concat_eq_append, List.flatten_append, List.append_eq_nil_iff] at hnil
        exact (hcuts last (by simp [hlast])).1 (by simpa using hnil.2)
      obtain ⟨u, hcall, hu⟩ := readOf_again hmark hzero h hbuf hlen hno
      obtain ⟨hpre, hdone⟩ := ih _ u hu hmore (fun b hb => hcuts b (List.mem_cons_of_mem _ hb)) hall
      refine ⟨fun pre suf hsplit hsuf => ?_, by simpa [runCalls, hcall] using hdone⟩
      cases pre with
      | nil => exact ⟨t, rfl, by rw [h.file]; simp⟩
      | cons b pre =>
        obtain ⟨rfl, hrest⟩ := List.cons.inj hsplit
        obtain ⟨w, hw, hfile⟩ := hpre pre suf hrest hsuf
        exact ⟨w, by simpa [runCalls, hcall] using hw, by rw [hfile]; simp⟩

/-- **The end of a diskless transfer.**  Whatever earlier transfers have left: after the line that
    announces the mark, the end is reached at the last of the reads that deliver the payload and the
    mark, at no earlier one, and the file is the payload. -/
theorem mark_mode_exact (t : Transfer) {mark payload : Bytes} (hmark : mark.length = CONFIG_RUN_ID_SIZE) {u : Transfer}
    (hline : readSyncBulkPayload (startTransfer t) (announcement mark) = .again u) (hmode : u.usemark = true)
    (honly : ∀ a b, payload ++ mark = a ++ mark ++ b → b = []) (cuts : List Bytes)
    (hcuts : ∀ buf ∈ cuts, 1 ≤ buf.length ∧ buf.length ≤ 4096) (hall : cuts.flatten = payload ++ mark) :
    (∀ pre suf, cuts = pre ++ suf → suf ≠ [] → ∃ w, runCalls (startTransfer t) (announcement mark :: pre.map readOf) = .again w) ∧
      ∃ w, runCalls (startTransfer t) (announcement mark :: cuts.map readOf) = .complete w ∧ w.file = payload := by
  obtain ⟨hreceived, hzero⟩ := announcement_received hmark t hline hmode
  have hne : cuts ≠ [] := by
    rintro rfl
    rw [List.flatten_nil] at hall
    have hlen := congrArg List.length hall
    rw [List.length_append, hmark] at hlen
    exact absurd hlen (by rw [List.length_nil, CONFIG_RUN_ID_SIZE]; omega)
  obtain ⟨hpre, hdone⟩ := runCalls_exact hmark hzero honly cuts [] u hreceived hne
    (fun buf hbuf => ⟨List.length_pos_iff.mp (hcuts buf hbuf).1, (hcuts buf hbuf).2⟩) hall
  simp only [runCalls, hline]
  exact ⟨fun pre suf hsplit hsuf => (hpre pre suf hsplit hsuf).imp fun _ hw => hw.1, hdone⟩

/-- One byte before a mark of forty `a`, in two reads, after a transfer that has stopped inside of
    its mark. -/
theorem mark_mode_exact_a :
    ∃ w, runCalls (startTransfer ⟨0, 41, [], List.replicate 40 97, 82 :: List.replicate 39 97, true⟩)
      (announcement (List.replicate 40 97) :: [[82, 97], List.replicate 39 97].map readOf) = .complete w ∧ w.file = [82] := by
  refine (mark_mode_exact _ (List.length_replicate ..) rfl rfl ?_ _ (by decide) (by decide)).2
  intro a b hab
  cases a with
  | nil => cases hab
  | cons c a =>
    have hlen := congrArg List.length hab
    simp only [List.length_append, List.length_replicate, List.length_cons, List.length_nil] at hlen
    exact List.eq_nil_of_length_eq_zero (by omega)

end Redis.Bulk
