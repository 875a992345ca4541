import Redis.Replication.Master

namespace Redis.Replication

open Buffer Outcome

/-!
# Slaves — what is queued

The output buffers of a slave, over the lemmas of `Redis.Networking.Delivery`.

* `Frame` — what adding replies and writing them to the socket leave alone;
* `addReplyCommand_adds` — a slave is replied the same bytes that the backlog is fed
  (`flatten_backlogPieces`);
* `copyClientOutputBuffer_spec` — the copy has the queue of the original.
-/

variable {c c' c'' : ReplyClient}

/-! ### The frame -/

/-- Neither the state nor `CLIENT REPLY SKIP` is touched, and a client that cannot be written to
    yet is not put on the list of pending writes. -/
structure Frame (c c' : ReplyClient) : Prop where
  replstate : c'.replstate = c.replstate
  replySkip : c'.flags.replySkip = c.flags.replySkip
  quiet : c.replstate = .other → c'.flags.pendingWrite = c.flags.pendingWrite

theorem Frame.refl (c : ReplyClient) : Frame c c := ⟨rfl, rfl, fun _ => rfl⟩

theorem Frame.trans (h : Frame c c') (h' : Frame c' c'') : Frame c c'' where
  replstate := h'.replstate.trans h.replstate
  replySkip := h'.replySkip.trans h.replySkip
  quiet := fun hother => (h'.quiet (h.replstate.trans hother)).trans (h.quiet hother)

/-- The outcome of a program that adds replies to `c`. -/
def Keeps (c : ReplyClient) (m : Except ReplyFault ReplyClient) : Prop := Sat m (Frame c) (fun _ => True)

variable {m : Except ReplyFault ReplyClient} {obj : ReplyObject}

theorem Keeps.of_frame (h : Frame c c') (hm : Keeps c' m) : Keeps c m :=
  Sat.weaken hm (fun _ h' => h.trans h')

theorem Keeps.bind {f : ReplyClient → Except ReplyFault ReplyClient} (hm : Keeps c m) (hf : ∀ d, Keeps d (f d)) :
    Keeps c (m >>= f) :=
  Sat.bind hm (fun d hd => (hf d).of_frame hd)

theorem prepareClientToWrite_frame (h : prepareClientToWrite c = some c') : Frame c c' := by
  rw [prepareClientToWrite] at h
  split_ifs at h with h1 h2 h3 h4 h5
  · obtain rfl := Option.some.inj h
    exact Frame.refl c
  · -- it is put on the list: it is not one that cannot be written to
    obtain rfl := Option.some.inj h
    refine ⟨rfl, rfl, fun hother => ?_⟩
    simp [hother] at h5
  · obtain rfl := Option.some.inj h
    exact Frame.refl c

theorem addReplyToBuffer_frame (c : ReplyClient) (s : Bytes) :
    Sat (addReplyToBuffer c s) (fun r => ∀ d, r = some d → Frame c d) (fun _ => True) := by
  rw [addReplyToBuffer]
  refine Sat.ite (fun _ => ?_) (fun _ => Sat.ite (fun _ => ?_) (fun _ => Sat.ite (fun _ => ?_) (fun _ => ?_)))
  · intro d hd
    obtain rfl := Option.some.inj hd
    exact Frame.refl c
  · intro d hd
    cases hd
  · intro d hd
    cases hd
  · cases overwrite? c.buf c.bufpos s with
    | none => trivial
    | some buf =>
      intro d hd
      obtain rfl := Option.some.inj hd
      exact ⟨rfl, rfl, fun _ => rfl⟩

section Blocks

variable (blocks : Blocks)

theorem addReplyToList_frame (c : ReplyClient) (encoding : SdsEncoding) (s : Sds) :
    Frame c (addReplyToList blocks c encoding s) := by
  have hpush : Frame c (pushReply c encoding s) := ⟨rfl, rfl, fun _ => rfl⟩
  rw [addReplyToList]
  by_cases hclose : c.flags.closeAfterReply = true
  · rw [if_pos hclose]
    exact Frame.refl c
  · rw [if_neg hclose]
    cases c.reply.getLast? with
    | none => exact hpush
    | some tail =>
      simp only
      cases tail.ptr with
      | none => exact hpush
      | some t =>
        simp only
        split
        · exact ⟨rfl, rfl, fun _ => rfl⟩
        · exact hpush

theorem addReplyEncoded_keeps (c : ReplyClient) (encoding : SdsEncoding) (s : Sds) :
    Keeps c (addReplyEncoded blocks c encoding s) := by
  rw [addReplyEncoded]
  refine Sat.bind (addReplyToBuffer_frame c s.bytes) (fun r hr => ?_)
  cases r with
  | none => exact addReplyToList_frame blocks c encoding s
  | some d => exact hr d rfl

theorem addReply_keeps (c : ReplyClient) (obj : ReplyObject) : Keeps c (addReply blocks c obj) := by
  rw [addReply]
  cases hprep : prepareClientToWrite c with
  | none => exact Frame.refl c
  | some d =>
    have hd := prepareClientToWrite_frame hprep
    cases obj with
    | sds encoding s => exact (addReplyEncoded_keeps blocks d encoding s).of_frame hd
    | int n =>
      -- the copy has counted one more block
      have hd' : Frame c { d with allocs := d.allocs + 1 } := ⟨hd.replstate, hd.replySkip, hd.quiet⟩
      have hdecoded := (addReplyEncoded_keeps blocks { d with allocs := d.allocs + 1 } (decodedObject blocks d n).1
        (decodedObject blocks d n).2).of_frame hd'
      refine Sat.ite (fun _ => ?_) (fun _ => hdecoded)
      refine Sat.bind (addReplyToBuffer_frame d (ll2string 32 n)) (fun r hr => ?_)
      cases r with
      | none => exact hdecoded
      | some e => exact hd.trans (hr e rfl)

theorem addReplySds_keeps (c : ReplyClient) (s : Sds) : Keeps c (addReplySds blocks c s) := by
  rw [addReplySds]
  cases hprep : prepareClientToWrite c with
  | none => exact Frame.refl c
  | some d =>
    have hd := prepareClientToWrite_frame hprep
    refine Sat.bind (addReplyToBuffer_frame d s.bytes) (fun r hr => ?_)
    cases r with
    | none => exact hd.trans (addReplyToList_frame blocks d .raw s)
    | some e => exact hd.trans (hr e rfl)

theorem addReplyString_keeps (c : ReplyClient) (s : Bytes) : Keeps c (addReplyString blocks c s) := by
  rw [addReplyString]
  cases hprep : prepareClientToWrite c with
  | none => exact Frame.refl c
  | some d =>
    have hd := prepareClientToWrite_frame hprep
    have hd' : Frame c { d with allocs := d.allocs + 1 } := ⟨hd.replstate, hd.replySkip, hd.quiet⟩
    refine Sat.bind (addReplyToBuffer_frame d s) (fun r hr => ?_)
    cases r with
    | none => exact hd'.trans (addReplyToList_frame blocks _ _ _)
    | some e => exact hd.trans (hr e rfl)

theorem addReplyLongLongWithPrefix_keeps (c : ReplyClient) (ll : Int) (p : UInt8) :
    Keeps c (addReplyLongLongWithPrefix blocks c ll p) :=
  Sat.ite (fun _ => addReply_keeps blocks c _)
    (fun _ => Sat.ite (fun _ => addReply_keeps blocks c _) (fun _ => addReplyString_keeps blocks c _))

theorem addReplyBulk_keeps (c : ReplyClient) (obj : ReplyObject) : Keeps c (addReplyBulk blocks c obj) := by
  rw [addReplyBulk]
  refine Keeps.bind ?_ (fun d => (addReply_keeps blocks d obj).bind (fun e => addReply_keeps blocks e _))
  exact Sat.ite (fun _ => addReply_keeps blocks c _) (fun _ => addReplyLongLongWithPrefix_keeps blocks c _ _)

theorem addReplyCommand_keeps (argv : List ReplyObject) (c : ReplyClient) : Keeps c (addReplyCommand blocks argv c) := by
  rw [addReplyCommand]
  refine Keeps.bind ?_ (fun d => ?_)
  · exact Sat.ite (fun _ => addReply_keeps blocks c _) (fun _ => addReplyLongLongWithPrefix_keeps blocks c _ _)
  · exact sat_foldlM (fun _ e => Frame d e) argv d (Frame.refl d)
      (fun _ obj _ e _ he => (addReplyBulk_keeps blocks e obj).of_frame he)

end Blocks

/-! ### Writing -/

/-- Writing to the socket leaves the flags and the state alone. -/
structure SameFlags (c c' : ReplyClient) : Prop where
  replstate : c'.replstate = c.replstate
  flags : c'.flags = c.flags

theorem SameFlags.refl (c : ReplyClient) : SameFlags c c := ⟨rfl, rfl⟩

theorem SameFlags.trans (h : SameFlags c c') (h' : SameFlags c' c'') : SameFlags c c'' :=
  ⟨h'.replstate.trans h.replstate, h'.flags.trans h.flags⟩

/-- What a round of the loop leaves alone. -/
inductive RoundKeeps (c : ReplyClient) : Except ReplyFault WriteRound → Prop
  | error (e : ReplyFault) : RoundKeeps c (.error e)
  | skip (d : ReplyClient) (h : SameFlags c d) : RoundKeeps c (.ok (.skip d))
  | send (data : Bytes) (sent : Nat → ReplyClient) (h : ∀ n, SameFlags c (sent n)) :
      RoundKeeps c (.ok (.send data sent))

theorem writeRound_keeps (c : ReplyClient) : RoundKeeps c (writeRound c) := by
  rw [writeRound]
  by_cases hb : c.bufpos > 0
  · rw [if_pos hb]
    cases slice? c.buf c.sentlen (c.bufpos - c.sentlen) with
    | none => exact .error _
    | some data =>
      refine .send _ _ (fun n => ?_)
      split <;> exact ⟨rfl, rfl⟩
  · rw [if_neg hb]
    cases c.reply with
    | nil => exact .error _
    | cons o rest =>
      simp only
      cases o.ptr with
      | none => exact .error _
      | some s =>
        simp only
        by_cases hempty : s.bytes.length = 0
        · rw [if_pos hempty]
          exact .skip _ ⟨rfl, rfl⟩
        · rw [if_neg hempty]
          cases slice? s.bytes c.sentlen (s.bytes.length - c.sentlen) with
          | none => exact .error _
          | some data =>
            refine .send _ _ (fun n => ?_)
            split <;> exact ⟨rfl, rfl⟩

theorem writeLoop_keeps (fuel : Nat) (c : ReplyClient) (totwritten : Nat) (writes : List (WriteResult × Bool)) :
    Sat (writeLoop fuel c totwritten writes) (fun st => SameFlags c st.client) (fun _ => True) := by
  induction fuel generalizing c totwritten writes with
  | zero =>
    rw [writeLoop]
    exact Sat.ite (fun _ => SameFlags.refl c) (fun _ => trivial)
  | succ fuel ih =>
    rw [writeLoop]
    refine Sat.ite (fun _ => SameFlags.refl c) (fun _ => ?_)
    have hround := writeRound_keeps c
    revert hround
    generalize writeRound c = round
    intro hround
    cases hround with
    | error e => trivial
    | skip d h =>
      simp only [ok_bind]
      exact (ih d totwritten writes).weaken (fun st hst => h.trans hst)
    | send data sent h =>
      simp only [ok_bind]
      cases writes with
      | nil => exact SameFlags.refl c
      | cons r writes =>
        obtain ⟨result, full⟩ := r
        refine Sat.ite (fun _ => SameFlags.refl c) (fun _ => Sat.ite (fun _ => h _) (fun _ => ?_))
        exact Sat.bind (ih _ _ writes) (fun st hst => (h _).trans hst)

theorem writeToClient_keeps (c : ReplyClient) (writes : List (WriteResult × Bool)) :
    Sat (writeToClient c writes) (fun r => SameFlags c r.2.1) (fun _ => True) := by
  rw [writeToClient]
  refine Sat.bind (writeLoop_keeps _ c 0 writes) (fun st hst => ?_)
  exact Sat.ite (fun _ => hst) (fun _ => Sat.ite (fun _ => ⟨hst.replstate, hst.flags⟩) (fun _ => hst))

/-! ### What is queued -/

/-- The bytes that are queued, where no header waits to be set. -/
def Queued (c : ReplyClient) (b : Bytes) : Prop := ∀ hdr, c.unsent hdr = b

/-- There is no header that waits to be set: it would be a part of what is queued. -/
theorem Queued.not_waiting {b : Bytes} (h : Queued c b) (hc : c.Sane) : ∀ n ∈ c.reply, ¬ n.waiting := by
  intro n hn hwait
  have hptr : n.ptr = none := by simpa [ReplyNode.waiting] using hwait
  obtain ⟨before, behind, hreply⟩ := List.append_of_mem hn
  have hlen : ∀ hdr, (c.unsent hdr).length + c.sentlen = (c.queued hdr).length := by
    intro hdr
    have := hc.sentlen_le hdr
    rw [ReplyClient.unsent, List.length_drop]
    omega
  have hshort := hlen (fun _ => [])
  have hlong := hlen (fun _ => [0])
  rw [h, ReplyClient.queued, hreply] at hshort hlong
  -- every node is at least as long when its header is longer
  have hmono : ∀ l : List ReplyNode, (l.flatMap (·.render (fun _ => []))).length ≤
      (l.flatMap (·.render (fun _ => [0]))).length := by
    intro l
    induction l with
    | nil => simp
    | cons o l ih =>
      have ho : (o.render (fun _ => [])).length ≤ (o.render (fun _ => [0])).length := by
        rw [ReplyNode.render, ReplyNode.render]
        cases o.ptr <;> simp
      simp only [List.flatMap_cons, List.length_append]
      omega
  have hbefore := hmono before
  have hbehind := hmono behind
  have hn0 : n.render (fun _ => []) = [] := by rw [ReplyNode.render, hptr]
  have hn1 : n.render (fun _ => [0]) = [0] := by rw [ReplyNode.render, hptr]
  simp only [List.length_append, List.flatMap_append, List.flatMap_cons, hn0, hn1, List.length_nil,
    List.length_cons] at hshort hlong
  omega

theorem Queued.adds {b x : Bytes} (h : Queued c b) (hc : c.Sane) (hadds : c.Adds c' x) : Queued c' (b ++ x) :=
  fun hdr => by rw [hadds.unsent hc, h]

/-- Nothing is queued if nothing is pending. -/
theorem queued_nil_of_idle (hidle : clientHasPendingReplies c = false) : Queued c [] := by
  simp only [clientHasPendingReplies, Bool.or_eq_false_iff, decide_eq_false_iff_not, not_not] at hidle
  intro hdr
  rw [ReplyClient.unsent, ReplyClient.queued, hidle.1, List.eq_nil_of_length_eq_zero hidle.2]
  simp

/-- A client that is written to: some bytes of the queue are accepted. -/
theorem writeToClient_queued {b : Bytes} (h : c.Sane) (hq : Queued c b) (writes : List (WriteResult × Bool)) :
    ∃ valid d sent rest, writeToClient c writes = .ok (valid, d, sent) ∧ d.Sane ∧ SameFlags c d ∧
      b = sent ++ rest ∧ Queued d rest := by
  have hsat := (ReplyClient.writeToClient_spec h writes).and (writeToClient_keeps c writes)
  have htotal : Sat (writeToClient c writes)
      (fun r => c.Sends r.2.1 r.2.2 ∧ SameFlags c r.2.1) (fun _ => False) := by
    refine hsat.mono (fun _ hr => hr) (fun e he => ?_)
    obtain ⟨-, n, hn, hwait⟩ := he.1
    exact hq.not_waiting h n hn hwait
  obtain ⟨⟨valid, d, sent⟩, hrun, hsends, hsame⟩ := htotal.exists_ok
  refine ⟨valid, d, sent, d.unsent (fun _ => []), hrun, hsends.sane, hsame, ?_, fun hdr => ?_⟩
  · rw [← hsends.unsent, hq]
  · -- the rest does not depend on the headers
    have h0 := hsends.unsent (fun _ => [])
    have h1 := hsends.unsent hdr
    rw [hq] at h0 h1
    exact List.append_cancel_left (h1.symm.trans h0)

/-! ### A command -/

/-- The bytes of a command in the format of the protocol. -/
def commandBytes (argv : List ReplyObject) : Bytes :=
  headerLine 42 argv.length ++ argv.flatMap (fun o => bulkReply o.bytes)

/-- The bytes of what is fed. -/
def Fed.bytes : Fed → Bytes
  | .select dictid => selectcmd dictid
  | .command _ argv => commandBytes argv

theorem Fed.bytes_ne_nil (f : Fed) : f.bytes ≠ [] := by
  cases f with
  | select dictid => simp [Fed.bytes, selectcmd]
  | command db argv => simp [Fed.bytes, commandBytes, headerLine]

theorem sdigits10_eq {v : Int} (hlo : -2 ^ 63 ≤ v) (hhi : v < 2 ^ 63) : sdigits10 v = (formatLd v).length := by
  rw [sdigits10, formatLd, List.length_append]
  by_cases hneg : v < 0
  · have habs : (if v ≠ LLONG_MIN then (-v).toNat else LLONG_MAX + 1) = v.natAbs := by
      rw [LLONG_MIN, LLONG_MAX]
      split_ifs <;> omega
    rw [if_pos hneg, if_pos hneg, habs, digits10_eq_length (by omega), List.length_singleton, Nat.add_comm]
  · have habs : v.toNat = v.natAbs := by omega
    rw [if_neg hneg, if_neg hneg, habs, digits10_eq_length (by omega), List.length_nil, Nat.zero_add]

theorem stringObjectLen_eq (h : obj.Valid) : stringObjectLen obj = obj.bytes.length := by
  cases obj with
  | sds encoding s => rfl
  | int n => exact sdigits10_eq h.1 h.2

theorem backlogObject_eq (h : obj.Valid) : backlogObject obj = obj.bytes := by
  cases obj with
  | sds encoding s => rfl
  | int n => exact ll2string_eq_of_le (by decide) h.1 h.2

theorem auxLine_eq (c : UInt8) {n : Nat} (h : n < 2 ^ 63) : auxLine c n = headerLine c n := by
  rw [auxLine, ll2string_eq_of_le (by decide) (by omega) (by omega)]
  rfl

theorem length_bytes_lt (h : obj.Valid) : obj.bytes.length < 2 ^ 63 := by
  cases obj with
  | sds encoding s => exact h
  | int n =>
    have := ReplyClient.length_formatLd h.1 h.2
    show (formatLd n).length < 2 ^ 63
    omega

/-- The pieces for the backlog are the command in the format of the protocol. -/
theorem flatten_backlogPieces {argv : List ReplyObject} (hlen : argv.length < 2 ^ 31) (hvalid : ∀ o ∈ argv, o.Valid) :
    (backlogPieces argv).flatten = commandBytes argv := by
  have hargs : (argv.flatMap (fun o => [auxLine 36 (stringObjectLen o), backlogObject o, [13, 10]])).flatten =
      argv.flatMap (fun o => bulkReply o.bytes) := by
    clear hlen
    induction argv with
    | nil => rfl
    | cons o argv ih =>
      have ho := hvalid o List.mem_cons_self
      rw [List.flatMap_cons, List.flatten_append, ih (fun o ho => hvalid o (List.mem_cons_of_mem _ ho)),
        List.flatMap_cons, stringObjectLen_eq ho, backlogObject_eq ho, auxLine_eq 36 (length_bytes_lt ho)]
      simp [bulkReply]
  rw [backlogPieces, List.flatten_cons, hargs, auxLine_eq 42 (by omega), commandBytes]

section Blocks

variable (blocks : Blocks)

theorem addReplyMultiBulkLen_adds (h : c.Sane) {n : Nat} (hn : n < 2 ^ 63) :
    ∃ d, addReplyMultiBulkLen blocks c n = .ok d ∧ c.Adds d (headerLine 42 n) := by
  rw [addReplyMultiBulkLen]
  by_cases hshared : n < OBJ_SHARED_BULKHDR_LEN
  · rw [if_pos hshared]
    exact ReplyClient.addReply_adds blocks h
      (ReplyClient.headerLine_valid blocks 42 n (by omega) (by exact_mod_cast hn))
  · rw [if_neg hshared]
    exact ReplyClient.addReplyLongLongWithPrefix_adds blocks h 42 (by omega) (by exact_mod_cast hn)

theorem foldlM_addReplyBulk_adds (h : c.Sane) {argv : List ReplyObject} (hvalid : ∀ o ∈ argv, o.Valid) :
    ∃ d, argv.foldlM (addReplyBulk blocks) c = .ok d ∧ d.Sane ∧ d.sentlen = c.sentlen ∧
      ∀ hdr, d.queued hdr = c.queued hdr ++ argv.flatMap (fun o => bulkReply o.bytes) := by
  induction argv generalizing c with
  | nil => exact ⟨c, rfl, h, rfl, by simp⟩
  | cons o argv ih =>
    obtain ⟨d, hrun, hadds⟩ := ReplyClient.addReplyBulk_adds blocks h (hvalid o List.mem_cons_self)
    obtain ⟨e, hrest, hsane, hsent, hqueued⟩ := ih hadds.sane (fun o ho => hvalid o (List.mem_cons_of_mem _ ho))
    refine ⟨e, ?_, hsane, hsent.trans hadds.sentlen, fun hdr => ?_⟩
    · rw [List.foldlM_cons, hrun, ok_bind, hrest]
    · rw [hqueued, hadds.queued, List.flatMap_cons, List.append_assoc]

theorem addReplyCommand_adds (h : c.Sane) {argv : List ReplyObject} (hlen : argv.length < 2 ^ 31)
    (hvalid : ∀ o ∈ argv, o.Valid) :
    ∃ d, addReplyCommand blocks argv c = .ok d ∧ c.Adds d (commandBytes argv) := by
  obtain ⟨d, hrun, hadds⟩ := addReplyMultiBulkLen_adds blocks h (show argv.length < 2 ^ 63 by omega)
  obtain ⟨e, hrest, hsane, hsent, hqueued⟩ := foldlM_addReplyBulk_adds blocks hadds.sane hvalid
  refine ⟨e, ?_, hsane, hsent.trans hadds.sentlen, fun hdr => ?_⟩
  · rw [addReplyCommand, hrun, ok_bind, hrest]
  · rw [hqueued, hadds.queued, commandBytes, List.append_assoc]

theorem selectcmd_valid {dictid : Int} (hlo : 0 ≤ dictid) (hhi : dictid < 2 ^ 31) :
    (sharedObject blocks (selectcmd dictid)).Valid := by
  have hbound : dictid < 2 ^ 63 := by omega
  have hdigits := ReplyClient.length_formatLd (show -2 ^ 63 ≤ dictid by omega) hbound
  have h64 : ll2string 64 dictid = formatLd dictid := ll2string_eq_of_le (by decide) (by omega) hbound
  have h21 : ll2string LONG_STR_SIZE dictid = formatLd dictid := ll2string_eq_of_le (by decide) (by omega) hbound
  have hlen := ReplyClient.length_formatLd (show (-2 ^ 63 : Int) ≤ (formatLd dictid).length by omega)
    (show ((formatLd dictid).length : Int) < 2 ^ 63 by omega)
  show (selectcmd dictid).length < 2 ^ 63
  simp only [selectcmd, h64, h21, ite_self, List.length_append, List.length_cons, List.length_nil]
  omega

theorem addReplySelect_adds (h : c.Sane) {dictid : Int} (hlo : 0 ≤ dictid) (hhi : dictid < 2 ^ 31) :
    ∃ d, addReply blocks c (sharedObject blocks (selectcmd dictid)) = .ok d ∧ c.Adds d (selectcmd dictid) :=
  ReplyClient.addReply_adds blocks h (selectcmd_valid blocks hlo hhi)

end Blocks

/-! ### The copy -/

/-- The queue of a client of which nothing has been sent is copied as a whole. -/
theorem copyClientOutputBuffer_spec {dst src : ReplyClient} {b : Bytes} (hdst : (answering dst).Sane)
    (hidle : clientHasPendingReplies dst = false) (hsrc : (answering src).Sane) (hsent : src.sentlen = 0)
    (hq : Queued src b) :
    ∃ d, copyClientOutputBuffer dst src = .ok d ∧ (answering d).Sane ∧ Queued d b ∧ d.sentlen = 0 ∧ SameFlags dst d := by
  have hlen : dst.buf.length = PROTO_REPLY_CHUNK_BYTES := hdst.buf_length
  have hsrclen : src.buf.length = PROTO_REPLY_CHUNK_BYTES := hsrc.buf_length
  have hpos : src.bufpos ≤ PROTO_REPLY_CHUNK_BYTES := hsrc.bufpos_le
  have hzero : dst.sentlen = 0 := hdst.sentlen_of_idle hidle
  have htake : (src.buf.take src.bufpos).length = src.bufpos := by
    rw [List.length_take]
    omega
  rw [copyClientOutputBuffer, overwrite?, if_pos (by omega)]
  obtain ⟨hfd, hoff, hskip, hmaster, hclose⟩ := hdst.connected
  refine ⟨_, rfl, ⟨⟨hfd, hoff, hskip, hmaster, hclose⟩, ?_, hpos, .inl hzero, hsrc.addr_lt, hsrc.nodup,
    hsrc.replyBytes⟩, fun hdr => ?_, hzero, ⟨rfl, rfl⟩⟩
  · simp only [answering, List.take_zero, List.nil_append, List.length_append, List.length_drop]
    omega
  · rw [← hq hdr, ReplyClient.unsent, ReplyClient.unsent, ReplyClient.queued, ReplyClient.queued, hsent]
    show ((dst.buf.take 0 ++ (src.buf.take src.bufpos ++ _)).take src.bufpos ++ _).drop dst.sentlen = _
    rw [List.take_zero, List.nil_append, List.take_left' htake, hzero]

end Redis.Replication
