import Redis.Networking.Reply
import Mathlib.Data.List.Nodup

namespace Redis

open Buffer Outcome

/-!
# Replies reach the client complete and in order

What is queued for a client is a string with holes: a header that is not set stands for
whatever it will be set to.  Adding a reply extends this string, setting a header fills its
hole, and `write` takes bytes off the front, so that the bytes accepted and the bytes still
queued always make up all replies.
-/

/-! ### What is queued -/

/-- The bytes of a node, when the headers are going to be set to these. -/
def ReplyNode.render (hdr : Nat → Bytes) (n : ReplyNode) : Bytes :=
  match n.ptr with
  | some s => s.bytes
  | none => hdr n.addr

/-- The memory that a node stands for in `c->reply_bytes`. -/
def ReplyNode.mem (n : ReplyNode) : Nat :=
  match n.ptr with
  | some s => s.mem
  | none => 0

/-- The length of a node, and 0 if its header is not set. -/
def ReplyNode.setLen (n : ReplyNode) : Nat :=
  match n.ptr with
  | some s => s.bytes.length
  | none => 0

theorem ReplyNode.setLen_le (n : ReplyNode) (hdr : Nat → Bytes) : n.setLen ≤ (n.render hdr).length := by
  rw [setLen, render]
  cases n.ptr with
  | none => exact Nat.zero_le _
  | some s => exact le_refl _

/-- The header of the node is not set. -/
def ReplyNode.waiting (n : ReplyNode) : Bool := n.ptr.isNone

/-- The bytes of an object. -/
def ReplyObject.bytes : ReplyObject → Bytes
  | .sds _ s => s.bytes
  | .int n => formatLd n

/-- The lengths and the integers that a machine can have. -/
def ReplyObject.Valid : ReplyObject → Prop
  | .sds _ s => s.bytes.length < 2 ^ 63
  | .int n => -2 ^ 63 ≤ n ∧ n < 2 ^ 63

namespace ReplyClient

/-- The bytes in the static buffer and in the list. -/
def queued (c : ReplyClient) (hdr : Nat → Bytes) : Bytes :=
  c.buf.take c.bufpos ++ c.reply.flatMap (·.render hdr)

/-- The bytes that have not been sent. -/
def unsent (c : ReplyClient) (hdr : Nat → Bytes) : Bytes := (c.queued hdr).drop c.sentlen

/-- The length of what is being sent: the static buffer or the first node. -/
def frontLen (c : ReplyClient) : Nat :=
  if c.bufpos > 0 then c.bufpos else (c.reply.head?.map ReplyNode.setLen).getD 0

/-- A client that receives replies. -/
structure Connected (c : ReplyClient) : Prop where
  fd : 0 < c.fd
  replyOff : c.flags.replyOff = false
  replySkip : c.flags.replySkip = false
  master : c.flags.master = false
  closeAfterReply : c.flags.closeAfterReply = false

/-- What every operation keeps. -/
structure Sane (c : ReplyClient) : Prop where
  connected : c.Connected
  buf_length : c.buf.length = PROTO_REPLY_CHUNK_BYTES
  bufpos_le : c.bufpos ≤ PROTO_REPLY_CHUNK_BYTES
  -- a partial write is one of the front
  sentlen : c.sentlen = 0 ∨ c.sentlen < c.frontLen
  addr_lt : ∀ n ∈ c.reply, n.addr < c.nextNode
  nodup : (c.reply.map ReplyNode.addr).Nodup
  replyBytes : c.replyBytes = (c.reply.map ReplyNode.mem).sum

/-- `c'` has these bytes behind what `c` has queued, and nothing else has changed. -/
structure Adds (c c' : ReplyClient) (b : Bytes) : Prop where
  sane : c'.Sane
  sentlen : c'.sentlen = c.sentlen
  queued : ∀ hdr, c'.queued hdr = c.queued hdr ++ b

variable {c c' c'' : ReplyClient} {b b' : Bytes}

theorem Adds.trans (h : c.Adds c' b) (h' : c'.Adds c'' b') : c.Adds c'' (b ++ b') where
  sane := h'.sane
  sentlen := h'.sentlen.trans h.sentlen
  queued := fun hdr => by rw [h'.queued, h.queued, List.append_assoc]

theorem frontLen_le (hbuf : c.buf.length = PROTO_REPLY_CHUNK_BYTES) (hpos : c.bufpos ≤ PROTO_REPLY_CHUNK_BYTES)
    (hdr : Nat → Bytes) : c.frontLen ≤ (c.queued hdr).length := by
  rw [frontLen, queued, List.length_append, List.length_take]
  by_cases hb : c.bufpos > 0
  · rw [if_pos hb]
    omega
  · rw [if_neg hb]
    cases c.reply with
    | nil => exact Nat.zero_le _
    | cons o rest =>
      have := o.setLen_le hdr
      rw [List.flatMap_cons, List.length_append, List.head?_cons, Option.map_some, Option.getD_some]
      omega

/-- What is sent of the front has been queued. -/
theorem Sane.sentlen_le (h : c.Sane) (hdr : Nat → Bytes) : c.sentlen ≤ (c.queued hdr).length := by
  have hfront := frontLen_le h.buf_length h.bufpos_le hdr
  rcases h.sentlen with hzero | hlt
  · omega
  · omega

theorem Adds.unsent (h : c.Adds c' b) (hc : c.Sane) (hdr : Nat → Bytes) :
    c'.unsent hdr = c.unsent hdr ++ b := by
  rw [ReplyClient.unsent, ReplyClient.unsent, h.queued, h.sentlen,
    List.drop_append_of_le_length (hc.sentlen_le hdr)]

/-! ### Adding replies -/

/-- The flag that `prepareClientToWrite` sets does not matter here. -/
theorem Sane.pendingWrite (h : c.Sane) (p : Bool) :
    ({ c with flags := { c.flags with pendingWrite := p } } : ReplyClient).Sane := by
  obtain ⟨⟨h1, h2, h3, h4, h5⟩, h6, h7, h8, h9, h10, h11⟩ := h
  exact ⟨⟨h1, h2, h3, h4, h5⟩, h6, h7, h8, h9, h10, h11⟩

theorem prepareClientToWrite_eq (h : c.Sane) :
    ∃ p, prepareClientToWrite c = some { c with flags := { c.flags with pendingWrite := p } } := by
  obtain ⟨hfd, hoff, hskip, hmaster, -⟩ := h.connected
  have hsame : some c = some { c with flags := { c.flags with pendingWrite := c.flags.pendingWrite } } := rfl
  rw [prepareClientToWrite]
  by_cases hlua : c.flags.lua = true
  · rw [if_pos hlua]
    exact ⟨_, hsame⟩
  · rw [if_neg hlua, if_neg (by simp [hoff, hskip]), if_neg (by simp [hmaster]), if_neg (by omega)]
    split
    · exact ⟨true, rfl⟩
    · exact ⟨_, hsame⟩

/-- The static buffer takes the bytes or refuses them. -/
theorem addReplyToBuffer_spec (h : c.Sane) (s : Bytes) :
    addReplyToBuffer c s = .ok none ∨ ∃ c', addReplyToBuffer c s = .ok (some c') ∧ c.Adds c' s := by
  have hlen := h.buf_length
  have hpos := h.bufpos_le
  rw [addReplyToBuffer, if_neg (by simp [h.connected.closeAfterReply])]
  by_cases hlist : c.reply.length > 0
  · rw [if_pos hlist]
    exact .inl rfl
  · rw [if_neg hlist]
    by_cases hroom : s.length > PROTO_REPLY_CHUNK_BYTES - c.bufpos
    · rw [if_pos hroom]
      exact .inl rfl
    · rw [if_neg hroom, overwrite?, if_pos (by omega)]
      have hnil : c.reply = [] := List.eq_nil_of_length_eq_zero (by omega)
      have htake : (c.buf.take c.bufpos).length = c.bufpos := by
        rw [List.length_take]
        omega
      refine .inr ⟨_, rfl, ⟨⟨h.connected.fd, h.connected.replyOff, h.connected.replySkip, h.connected.master,
        h.connected.closeAfterReply⟩, ?_, ?_, ?_, h.addr_lt, h.nodup, h.replyBytes⟩, rfl, ?_⟩
      · simp only [List.length_append, List.length_take, List.length_drop]
        omega
      · show c.bufpos + s.length ≤ _
        omega
      · -- the buffer is the front, and it only gets longer
        have hsent := h.sentlen
        rw [frontLen, hnil, List.head?_nil, Option.map_none, Option.getD_none] at hsent
        rw [frontLen]
        show c.sentlen = 0 ∨ c.sentlen < if c.bufpos + s.length > 0 then c.bufpos + s.length else _
        split at hsent <;> split <;> omega
      · intro hdr
        show (c.buf.take c.bufpos ++ (s ++ c.buf.drop (c.bufpos + s.length))).take (c.bufpos + s.length) ++ _ = _
        rw [← List.append_assoc, List.take_left' (by rw [List.length_append, htake]), queued, hnil]
        simp

section Lists

variable (blocks : Blocks)

/-- A node with a header to be set or with a string, behind the others. -/
theorem push_sane (h : c.Sane) (encoding : SdsEncoding) (ptr : Option Sds) :
    ({ c with
      reply := c.reply ++ [⟨c.nextNode, encoding, ptr⟩]
      replyBytes := c.replyBytes + (⟨c.nextNode, encoding, ptr⟩ : ReplyNode).mem
      nextNode := c.nextNode + 1 } : ReplyClient).Sane := by
  obtain ⟨hfd, hoff, hskip, hmaster, hclose⟩ := h.connected
  refine ⟨⟨hfd, hoff, hskip, hmaster, hclose⟩, h.buf_length, h.bufpos_le, ?_, ?_, ?_, ?_⟩
  · -- the front is another one only if there was none
    have hsent := h.sentlen
    rw [frontLen] at hsent ⊢
    show c.sentlen = 0 ∨ c.sentlen < if c.bufpos > 0 then c.bufpos else _
    cases hreply : c.reply with
    | nil =>
      rw [hreply, List.head?_nil, Option.map_none, Option.getD_none] at hsent
      split at hsent <;> split <;> omega
    | cons o rest =>
      rw [hreply] at hsent
      exact hsent
  · intro n hn
    rcases List.mem_append.mp hn with hn | hn
    · exact Nat.lt_succ_of_lt (h.addr_lt n hn)
    · rw [List.mem_singleton.mp hn]
      exact Nat.lt_succ_self _
  · show ((c.reply ++ [_]).map ReplyNode.addr).Nodup
    rw [List.map_append, List.map_singleton]
    refine h.nodup.append (List.nodup_singleton _) ?_
    intro a ha ha'
    obtain ⟨n, hn, rfl⟩ := List.mem_map.mp ha
    have hlt := h.addr_lt n hn
    rw [List.mem_singleton.mp ha'] at hlt
    exact lt_irrefl _ hlt
  · show c.replyBytes + _ = ((c.reply ++ [_]).map ReplyNode.mem).sum
    rw [List.map_append, List.sum_append, h.replyBytes, List.map_singleton, List.sum_singleton]

theorem pushReply_adds (h : c.Sane) (encoding : SdsEncoding) (s : Sds) : c.Adds (pushReply c encoding s) s.bytes where
  sane := push_sane h encoding (some s)
  sentlen := rfl
  queued := fun hdr => by
    rw [pushReply, queued, queued, List.flatMap_append, List.append_assoc]
    simp [ReplyNode.render]

theorem addReplyToList_adds (h : c.Sane) (encoding : SdsEncoding) (s : Sds) :
    c.Adds (addReplyToList blocks c encoding s) s.bytes := by
  obtain ⟨hfd, hoff, hskip, hmaster, hclose⟩ := h.connected
  rw [addReplyToList, if_neg (by simp [hclose])]
  cases hlast : c.reply.getLast? with
  | none => exact pushReply_adds h encoding s
  | some tail =>
    simp only
    cases hptr : tail.ptr with
    | none => exact pushReply_adds h encoding s
    | some t =>
      simp only
      by_cases hglue : tail.encoding = .raw ∧ t.bytes.length + s.bytes.length ≤ PROTO_REPLY_CHUNK_BYTES
      · rw [if_pos hglue]
        -- the last node, with the string behind its own
        obtain ⟨front, hreply⟩ := List.getLast?_eq_some_iff.mp hlast
        have hdrop : c.reply.dropLast = front := by rw [hreply, List.dropLast_concat]
        obtain ⟨m, hm⟩ : ∃ m, m = blocks.fresh c.allocs := ⟨_, rfl⟩
        rw [hdrop, ← hm]
        refine ⟨⟨⟨hfd, hoff, hskip, hmaster, hclose⟩, h.buf_length, h.bufpos_le, ?_, ?_, ?_, ?_⟩, rfl, ?_⟩
        · have hsent := h.sentlen
          rw [frontLen, hreply] at hsent
          rw [frontLen]
          show c.sentlen = 0 ∨ c.sentlen < if c.bufpos > 0 then c.bufpos else _
          cases front with
          | nil =>
            simp only [List.nil_append, List.head?_cons, Option.map_some, Option.getD_some, ReplyNode.setLen, hptr] at hsent ⊢
            rw [List.length_append]
            split at hsent <;> split <;> omega
          | cons o rest => exact hsent
        · intro n hn
          rcases List.mem_append.mp hn with hn | hn
          · exact h.addr_lt n (hreply ▸ List.mem_append_left _ hn)
          · rw [List.mem_singleton.mp hn]
            exact h.addr_lt tail (hreply ▸ List.mem_append_right _ (List.mem_singleton_self _))
        · have := h.nodup
          rw [hreply, List.map_append] at this
          show ((front ++ [_]).map ReplyNode.addr).Nodup
          rw [List.map_append]
          exact this
        · have := h.replyBytes
          rw [hreply, List.map_append, List.sum_append, List.map_singleton, List.sum_singleton, ReplyNode.mem, hptr] at this
          show c.replyBytes - t.mem + m = ((front ++ [_]).map ReplyNode.mem).sum
          rw [List.map_append, List.sum_append, List.map_singleton, List.sum_singleton, ReplyNode.mem]
          simp only at this ⊢
          omega
        · intro hdr
          rw [queued, queued, hreply]
          simp only [List.flatMap_append, List.append_assoc, ReplyNode.render, hptr, List.flatMap_singleton]
      · rw [if_neg hglue]
        exact pushReply_adds h encoding s

/-- Only the buffers, the list and the counters of a client matter to what is added to it. -/
theorem Adds.of_prepared {p : Bool} {n : Nat}
    (h : ({ c with flags := { c.flags with pendingWrite := p }, allocs := n } : ReplyClient).Adds c' b) : c.Adds c' b :=
  ⟨h.sane, h.sentlen, h.queued⟩

theorem Sane.prepared (h : c.Sane) (p : Bool) (n : Nat) :
    ({ c with flags := { c.flags with pendingWrite := p }, allocs := n } : ReplyClient).Sane := by
  obtain ⟨⟨h1, h2, h3, h4, h5⟩, h6, h7, h8, h9, h10, h11⟩ := h
  exact ⟨⟨h1, h2, h3, h4, h5⟩, h6, h7, h8, h9, h10, h11⟩

theorem addReplyEncoded_adds (h : c.Sane) (encoding : SdsEncoding) (s : Sds) :
    ∃ c', addReplyEncoded blocks c encoding s = .ok c' ∧ c.Adds c' s.bytes := by
  rw [addReplyEncoded]
  rcases addReplyToBuffer_spec h s.bytes with hbuf | ⟨c', hbuf, hadds⟩
  · rw [hbuf, ok_bind]
    exact ⟨_, rfl, addReplyToList_adds blocks h encoding s⟩
  · rw [hbuf, ok_bind]
    exact ⟨c', rfl, hadds⟩

variable {obj : ReplyObject} {ln : ReplyNode}

theorem addReply_adds (h : c.Sane) (hobj : obj.Valid) :
    ∃ c', addReply blocks c obj = .ok c' ∧ c.Adds c' obj.bytes := by
  obtain ⟨p, hp⟩ := prepareClientToWrite_eq h
  rw [addReply, hp]
  cases obj with
  | sds encoding s =>
    obtain ⟨c', hrun, hadds⟩ := addReplyEncoded_adds blocks (h.prepared p c.allocs) encoding s
    exact ⟨c', hrun, hadds.of_prepared⟩
  | int n =>
    have hbytes : ll2string 32 n = formatLd n := ll2string_eq hobj.1 hobj.2
    -- the decoded object
    obtain ⟨d, hdecoded, hadds⟩ := addReplyEncoded_adds blocks (h.prepared p (c.allocs + 1)) .embstr
      ⟨formatLd n, blocks.fresh c.allocs⟩
    simp only [decodedObject, hbytes]
    split
    · rcases addReplyToBuffer_spec (h.prepared p c.allocs) (formatLd n) with hbuf | ⟨c', hbuf, hadds'⟩
      · rw [hbuf, ok_bind]
        exact ⟨d, hdecoded, hadds.of_prepared⟩
      · rw [hbuf, ok_bind]
        exact ⟨c', rfl, hadds'.of_prepared⟩
    · exact ⟨d, hdecoded, hadds.of_prepared⟩

theorem addReplySds_adds (h : c.Sane) (s : Sds) :
    ∃ c', addReplySds blocks c s = .ok c' ∧ c.Adds c' s.bytes := by
  obtain ⟨p, hp⟩ := prepareClientToWrite_eq h
  have hc := h.prepared p c.allocs
  rw [addReplySds, hp]
  rcases addReplyToBuffer_spec hc s.bytes with hbuf | ⟨c', hbuf, hadds⟩
  · simp only [hbuf, ok_bind]
    exact ⟨_, rfl, (addReplyToList_adds blocks hc .raw s).of_prepared⟩
  · simp only [hbuf, ok_bind]
    exact ⟨c', rfl, hadds.of_prepared⟩

theorem addReplyString_adds (h : c.Sane) (s : Bytes) :
    ∃ c', addReplyString blocks c s = .ok c' ∧ c.Adds c' s := by
  obtain ⟨p, hp⟩ := prepareClientToWrite_eq h
  rw [addReplyString, hp]
  rcases addReplyToBuffer_spec (h.prepared p c.allocs) s with hbuf | ⟨c', hbuf, hadds⟩
  · simp only [hbuf, ok_bind]
    exact ⟨_, rfl, (addReplyToList_adds blocks (h.prepared p (c.allocs + 1)) _ ⟨s, blocks.fresh c.allocs⟩).of_prepared⟩
  · simp only [hbuf, ok_bind]
    exact ⟨c', rfl, hadds.of_prepared⟩

theorem length_formatLd {n : Int} (hlo : -2 ^ 63 ≤ n) (hhi : n < 2 ^ 63) : (formatLd n).length ≤ 21 := by
  have hlen : (decimal n.natAbs).length ≤ 20 := length_decimal_le (by omega)
  rw [formatLd, List.length_append]
  split <;> simp only [List.length_cons, List.length_nil] <;> omega

theorem headerLine_valid (p : UInt8) (ll : Int) (hlo : 0 ≤ ll) (hhi : ll < 2 ^ 63) :
    (sharedObject blocks (headerLine p ll)).Valid := by
  have hlen := length_formatLd (show -2 ^ 63 ≤ ll by omega) hhi
  show (headerLine p ll).length < 2 ^ 63
  simp only [headerLine, List.length_append, List.length_cons, List.length_nil]
  omega

theorem addReplyLongLongWithPrefix_adds (h : c.Sane) {ll : Int} (p : UInt8) (hlo : 0 ≤ ll) (hhi : ll < 2 ^ 63) :
    ∃ c', addReplyLongLongWithPrefix blocks c ll p = .ok c' ∧ c.Adds c' (headerLine p ll) := by
  rw [addReplyLongLongWithPrefix]
  by_cases hstar : p = 42 ∧ ll < OBJ_SHARED_BULKHDR_LEN ∧ ll ≥ 0
  · rw [if_pos hstar, hstar.1]
    exact addReply_adds blocks h (headerLine_valid blocks 42 ll hlo hhi)
  · rw [if_neg hstar]
    by_cases hdollar : p = 36 ∧ ll < OBJ_SHARED_BULKHDR_LEN ∧ ll ≥ 0
    · rw [if_pos hdollar, hdollar.1]
      exact addReply_adds blocks h (headerLine_valid blocks 36 ll hlo hhi)
    · rw [if_neg hdollar, ll2string_eq_of_le (by decide) (by omega) hhi]
      exact addReplyString_adds blocks h _

/-- The loop counts the digits behind the first one. -/
theorem bulkLenLoop_eq (fuel : Nat) (n : Int) (len : Nat) (hfuel : n.natAbs < 10 ^ (fuel + 1)) :
    bulkLenLoop fuel n (len + 1) = len + (decimal n.natAbs).length := by
  induction fuel generalizing n len with
  | zero =>
    rw [bulkLenLoop, decimal_of_lt (by omega)]
    rfl
  | succ fuel ih =>
    have habs : (n.tdiv 10).natAbs = n.natAbs / 10 := Int.natAbs_tdiv n 10
    rw [bulkLenLoop]
    by_cases hzero : n.tdiv 10 ≠ 0
    · have hge : 10 ≤ n.natAbs := by
        by_contra hlt
        exact hzero (Int.natAbs_eq_zero.mp (by omega))
      rw [if_pos hzero, ih, habs, decimal_of_ge hge, List.length_append, List.length_singleton]
      · omega
      · rw [habs]
        rw [pow_succ] at hfuel
        omega
    · have hlt : n.natAbs < 10 := by
        have : (n.tdiv 10).natAbs = 0 := by
          rw [not_not.mp hzero]
          rfl
        omega
      rw [if_neg hzero, decimal_of_lt hlt]
      rfl

/-- The length in the header is the one of the bytes behind it. -/
theorem bulkLen_eq (h : obj.Valid) : bulkLen obj = obj.bytes.length := by
  cases obj with
  | sds encoding s => rfl
  | int n =>
    obtain ⟨hlo, hhi⟩ := h
    have habs : n.natAbs < 10 ^ 21 := by omega
    rw [bulkLen, ReplyObject.bytes, formatLd, List.length_append]
    by_cases hneg : n < 0
    · have hsame : (if n = LLONG_MIN then n else -n).natAbs = n.natAbs := by
        split
        · rfl
        · exact Int.natAbs_neg n
      rw [if_pos hneg, if_pos hneg, bulkLenLoop_eq 20 _ 1 (by rw [hsame]; exact habs), hsame]
      rfl
    · rw [if_neg hneg, if_neg hneg, bulkLenLoop_eq 20 n 0 habs]
      rfl

theorem addReplyBulk_adds (h : c.Sane) (hobj : obj.Valid) :
    ∃ c', addReplyBulk blocks c obj = .ok c' ∧ c.Adds c' (bulkReply obj.bytes) := by
  have hlen : (obj.bytes.length : Int) < 2 ^ 63 := by
    cases obj with
    | sds encoding s =>
      have : s.bytes.length < 2 ^ 63 := hobj
      exact_mod_cast this
    | int n =>
      have := length_formatLd hobj.1 hobj.2
      show ((formatLd n).length : Int) < 2 ^ 63
      omega
  have hheader : ∃ c₁, addReplyBulkLen blocks c obj = .ok c₁ ∧ c.Adds c₁ (headerLine 36 obj.bytes.length) := by
    rw [addReplyBulkLen, bulkLen_eq hobj]
    split
    · exact addReply_adds blocks h (headerLine_valid blocks 36 _ (by omega) hlen)
    · exact addReplyLongLongWithPrefix_adds blocks h 36 (by omega) hlen
  obtain ⟨c₁, hrun₁, hadds₁⟩ := hheader
  obtain ⟨c₂, hrun₂, hadds₂⟩ := addReply_adds blocks hadds₁.sane hobj
  have hcrlf : (sharedObject blocks [13, 10]).Valid := by
    show [13, 10].length < 2 ^ 63
    decide
  obtain ⟨c₃, hrun₃, hadds₃⟩ := addReply_adds blocks hadds₂.sane hcrlf
  refine ⟨c₃, ?_, hadds₁.trans (hadds₂.trans hadds₃)⟩
  rw [addReplyBulk, hrun₁, ok_bind, hrun₂, ok_bind, hrun₃]

/-! ### Headers -/

theorem addDeferredMultiBulkLength_spec (h : c.Sane) :
    ∃ k c', addDeferredMultiBulkLength c = (some k, c') ∧ c'.Sane ∧ c'.sentlen = c.sentlen ∧
      ∀ hdr, c'.queued hdr = c.queued hdr ++ hdr k := by
  obtain ⟨p, hp⟩ := prepareClientToWrite_eq h
  rw [addDeferredMultiBulkLength, hp]
  refine ⟨c.nextNode, _, rfl, push_sane (h.prepared p c.allocs) .raw none, rfl, fun hdr => ?_⟩
  rw [queued, queued, List.flatMap_append, List.append_assoc]
  simp [ReplyNode.render]

/-- Headers other than `k` render as before. -/
theorem flatMap_render_update {k : Nat} {x : Bytes} {l : List ReplyNode} (h : ∀ n ∈ l, n.addr ≠ k) (hdr : Nat → Bytes) :
    l.flatMap (·.render (Function.update hdr k x)) = l.flatMap (·.render hdr) := by
  refine List.flatMap_congr (fun n hn => ?_)
  rw [ReplyNode.render, ReplyNode.render, Function.update_of_ne (h n hn)]

/-- A node is given its string, and nodes behind it may be removed. -/
theorem fill_sane (h : c.Sane) {before behind rest : List ReplyNode} (hreply : c.reply = before ++ ln :: behind)
    (hptr : ln.ptr = none) (hrest : rest.Sublist behind) (s : Sds) {bytes : Nat}
    (hbytes : bytes = (before.map ReplyNode.mem).sum + (s.mem + (rest.map ReplyNode.mem).sum)) (allocs : Nat) :
    ({ c with
      reply := before ++ { ln with encoding := .raw, ptr := some s } :: rest
      replyBytes := bytes
      allocs := allocs } : ReplyClient).Sane := by
  obtain ⟨hfd, hoff, hskip, hmaster, hclose⟩ := h.connected
  refine ⟨⟨hfd, hoff, hskip, hmaster, hclose⟩, h.buf_length, h.bufpos_le, ?_, ?_, ?_, ?_⟩
  · -- nothing of a node without a string has been sent
    have hsent := h.sentlen
    rw [frontLen, hreply] at hsent
    rw [frontLen]
    show c.sentlen = 0 ∨ c.sentlen < if c.bufpos > 0 then c.bufpos else _
    cases before with
    | nil =>
      simp only [List.nil_append, List.head?_cons, Option.map_some, Option.getD_some, ReplyNode.setLen, hptr] at hsent ⊢
      split at hsent <;> split <;> omega
    | cons o tail => exact hsent
  · intro n hn
    rcases List.mem_append.mp hn with hn | hn
    · exact h.addr_lt n (hreply ▸ List.mem_append_left _ hn)
    · rcases List.mem_cons.mp hn with rfl | hn
      · exact h.addr_lt ln (hreply ▸ List.mem_append_right _ List.mem_cons_self)
      · exact h.addr_lt n (hreply ▸ List.mem_append_right _ (List.mem_cons_of_mem _ (hrest.subset hn)))
  · refine h.nodup.sublist ?_
    show ((before ++ _ :: rest).map ReplyNode.addr).Sublist _
    rw [hreply, List.map_append, List.map_append]
    exact (List.Sublist.refl _).append (List.Sublist.cons_cons _ (hrest.map _))
  · show bytes = ((before ++ _ :: rest).map ReplyNode.mem).sum
    rw [hbytes, List.map_append, List.sum_append, List.map_cons, List.sum_cons]
    rfl

/-- The nodes on the two sides of a node have other addresses. -/
theorem Sane.addr_ne (h : c.Sane) {before behind : List ReplyNode} (hreply : c.reply = before ++ ln :: behind) :
    (∀ n ∈ before, n.addr ≠ ln.addr) ∧ ∀ n ∈ behind, n.addr ≠ ln.addr := by
  have hnodup := h.nodup
  rw [hreply, List.map_append, List.map_cons, List.nodup_middle, List.nodup_cons] at hnodup
  constructor
  · intro n hn heq
    exact hnodup.1 (heq ▸ List.mem_append_left _ (List.mem_map_of_mem hn))
  · intro n hn heq
    exact hnodup.1 (heq ▸ List.mem_append_right _ (List.mem_map_of_mem hn))

/-- Setting a header that is waited for fills the hole that it has left. -/
theorem setDeferredMultiBulkLength_spec (h : c.Sane) (hln : ln ∈ c.reply) (hwait : ln.waiting) (length : Int) :
    ∃ c', setDeferredMultiBulkLength blocks c (some ln.addr) length = .ok c' ∧ c'.Sane ∧ c'.sentlen = c.sentlen ∧
      ∀ hdr, c'.queued hdr = c.queued (Function.update hdr ln.addr (headerLine 42 length)) := by
  obtain ⟨before, behind, hreply⟩ := List.append_of_mem hln
  obtain ⟨hbefore, hbehind⟩ := h.addr_ne hreply
  have hptr : ln.ptr = none := by simpa [ReplyNode.waiting] using hwait
  have htake : c.reply.takeWhile (·.addr ≠ ln.addr) = before := by
    rw [hreply, List.takeWhile_append_of_pos (by simpa using hbefore)]
    simp
  have hdrop : c.reply.dropWhile (·.addr ≠ ln.addr) = ln :: behind := by
    rw [hreply, List.dropWhile_append_of_pos (by simpa using hbefore)]
    simp
  have hsum := h.replyBytes
  rw [hreply, List.map_append, List.sum_append, List.map_cons, List.sum_cons, ReplyNode.mem, hptr] at hsum
  -- what was queued, with the header in its place
  have hqueued : ∀ hdr, c.queued (Function.update hdr ln.addr (headerLine 42 length)) =
      c.buf.take c.bufpos ++ (before.flatMap (·.render hdr) ++ (headerLine 42 length ++ behind.flatMap (·.render hdr))) := by
    intro hdr
    rw [queued, hreply, List.flatMap_append, List.flatMap_cons, flatMap_render_update hbefore,
      flatMap_render_update hbehind, ReplyNode.render, hptr]
    simp only [Function.update_self]
  rw [setDeferredMultiBulkLength]
  simp only [hdrop, htake]
  cases behind with
  | nil =>
    refine ⟨_, rfl, fill_sane h hreply hptr (List.Sublist.refl _) _ ?_ _, rfl, fun hdr => ?_⟩
    · simp only at hsum ⊢
      omega
    · rw [hqueued, queued, List.flatMap_append, List.flatMap_cons]
      rfl
  | cons next rest =>
    cases hnext : next.ptr with
    | none =>
      simp only [hnext]
      refine ⟨_, rfl, fill_sane h hreply hptr (List.Sublist.refl _) _ ?_ _, rfl, fun hdr => ?_⟩
      · simp only at hsum ⊢
        omega
      · rw [hqueued, queued, List.flatMap_append, List.flatMap_cons]
        rfl
    | some s =>
      simp only [hnext]
      refine ⟨_, rfl, fill_sane h hreply hptr (List.sublist_cons_self _ _) _ ?_ _, rfl, fun hdr => ?_⟩
      · rw [List.map_cons, List.sum_cons, ReplyNode.mem, hnext] at hsum
        simp only at hsum ⊢
        omega
      · rw [hqueued, queued, List.flatMap_append, List.flatMap_cons, List.flatMap_cons]
        simp only [ReplyNode.render, hnext, List.append_assoc]

end Lists

/-! ### Sending -/

/-- `c'` is left when these bytes have been sent. -/
structure Sends (c c' : ReplyClient) (b : Bytes) : Prop where
  sane : c'.Sane
  unsent : ∀ hdr, c.unsent hdr = b ++ c'.unsent hdr
  suffix : c'.reply <:+ c.reply

theorem Sends.refl (h : c.Sane) : c.Sends c [] := ⟨h, fun _ => rfl, List.suffix_refl _⟩

theorem Sends.trans (h : c.Sends c' b) (h' : c'.Sends c'' b') : c.Sends c'' (b ++ b') where
  sane := h'.sane
  unsent := fun hdr => by rw [h.unsent, h'.unsent, List.append_assoc]
  suffix := h'.suffix.trans h.suffix

/-- Nothing is pending: nothing has been sent of it. -/
theorem Sane.sentlen_of_idle (h : c.Sane) (hidle : clientHasPendingReplies c = false) : c.sentlen = 0 := by
  have hsent := h.sentlen
  simp only [clientHasPendingReplies, Bool.or_eq_false_iff, decide_eq_false_iff_not, not_not] at hidle
  rw [frontLen, if_neg (by omega), List.eq_nil_of_length_eq_zero hidle.2] at hsent
  simp only [List.head?_nil, Option.map_none, Option.getD_none] at hsent
  omega

/-- What a round of the loop finds. -/
inductive RoundSpec (c : ReplyClient) : Except ReplyFault WriteRound → Prop
  /-- A header that is not set. -/
  | null (n : ReplyNode) (hn : n ∈ c.reply) (hwait : n.waiting) : RoundSpec c (.error .nullNode)
  | skip (c' : ReplyClient) (hsends : c.Sends c' []) (hlen : c'.reply.length < c.reply.length) :
      RoundSpec c (.ok (.skip c'))
  | send (data : Bytes) (sent : Nat → ReplyClient)
      (hsends : ∀ n, 0 < n → n ≤ data.length → c.Sends (sent n) (data.take n)) : RoundSpec c (.ok (.send data sent))

/-- The first bytes of what is being sent, when more of it is left. -/
theorem sent_part (h : c.Sane) {front : Bytes} {n : Nat} (hfront : front.length = c.frontLen)
    (hqueued : ∀ hdr, ∃ tail, c.queued hdr = front ++ tail) (hlt : c.sentlen + n < c.frontLen) :
    c.Sends { c with sentlen := c.sentlen + n } ((front.drop c.sentlen).take n) := by
  obtain ⟨hfd, hoff, hskip, hmaster, hclose⟩ := h.connected
  refine ⟨⟨⟨hfd, hoff, hskip, hmaster, hclose⟩, h.buf_length, h.bufpos_le, .inr hlt, h.addr_lt, h.nodup,
    h.replyBytes⟩, fun hdr => ?_, List.suffix_refl _⟩
  obtain ⟨tail, htail⟩ := hqueued hdr
  show (c.queued hdr).drop c.sentlen = _ ++ (c.queued hdr).drop (c.sentlen + n)
  rw [htail, List.drop_append_of_le_length (by omega), List.drop_append_of_le_length (by omega), ← List.drop_drop,
    ← List.append_assoc, List.take_append_drop]

/-- The static buffer at the front. -/
theorem sent_buffer (h : c.Sane) (hb : c.bufpos > 0) {n : Nat} (hle : c.sentlen + n ≤ c.bufpos) :
    c.Sends (if c.sentlen + n = c.bufpos then { c with bufpos := 0, sentlen := 0 }
      else { c with sentlen := c.sentlen + n }) (((c.buf.take c.bufpos).drop c.sentlen).take n) := by
  have hlen := h.buf_length
  have hpos := h.bufpos_le
  have hfront : c.frontLen = c.bufpos := if_pos hb
  have htake : (c.buf.take c.bufpos).length = c.bufpos := by
    rw [List.length_take]
    omega
  by_cases hdone : c.sentlen + n = c.bufpos
  · obtain ⟨hfd, hoff, hskip, hmaster, hclose⟩ := h.connected
    rw [if_pos hdone]
    refine ⟨⟨⟨hfd, hoff, hskip, hmaster, hclose⟩, h.buf_length, Nat.zero_le _, .inl rfl, h.addr_lt, h.nodup,
      h.replyBytes⟩, fun hdr => ?_, List.suffix_refl _⟩
    have hall : ((c.buf.take c.bufpos).drop c.sentlen).take n = (c.buf.take c.bufpos).drop c.sentlen := by
      rw [List.take_of_length_le]
      rw [List.length_drop]
      omega
    rw [hall, unsent, queued, List.drop_append_of_le_length (by omega)]
    rfl
  · rw [if_neg hdone]
    exact sent_part h (htake.trans hfront.symm) (fun hdr => ⟨_, rfl⟩) (by omega)

variable {rest : List ReplyNode}

/-- What is queued when the list is at the front. -/
theorem queued_cons (hb : c.bufpos = 0) {o : ReplyNode} {s : Sds} (hreply : c.reply = o :: rest)
    (hptr : o.ptr = some s) (hdr : Nat → Bytes) :
    c.queued hdr = s.bytes ++ rest.flatMap (·.render hdr) := by
  rw [queued, hb, hreply, List.take_zero, List.nil_append, List.flatMap_cons, ReplyNode.render, hptr]

/-- The first node is removed. -/
theorem sent_first (h : c.Sane) (hb : c.bufpos = 0) {o : ReplyNode} {s : Sds} (hreply : c.reply = o :: rest)
    (hptr : o.ptr = some s) (hle : c.sentlen ≤ s.bytes.length) {m : Nat} (hm : m = 0) :
    c.Sends { c with reply := rest, sentlen := m, replyBytes := c.replyBytes - s.mem } (s.bytes.drop c.sentlen) := by
  obtain ⟨hfd, hoff, hskip, hmaster, hclose⟩ := h.connected
  have hsum := h.replyBytes
  have hnodup := h.nodup
  rw [hreply, List.map_cons, List.sum_cons, ReplyNode.mem, hptr] at hsum
  rw [hreply, List.map_cons, List.nodup_cons] at hnodup
  refine ⟨⟨⟨hfd, hoff, hskip, hmaster, hclose⟩, h.buf_length, h.bufpos_le, .inl hm, ?_, hnodup.2, ?_⟩, fun hdr => ?_, ?_⟩
  · intro n hn
    exact h.addr_lt n (hreply ▸ List.mem_cons_of_mem _ hn)
  · show c.replyBytes - s.mem = (rest.map ReplyNode.mem).sum
    simp only at hsum
    omega
  · rw [unsent, queued_cons hb hreply hptr, List.drop_append_of_le_length hle, unsent, queued, hm, List.drop_zero]
    show _ = _ ++ (c.buf.take c.bufpos ++ _)
    rw [hb, List.take_zero, List.nil_append]
  · rw [hreply]
    exact List.suffix_cons _ _

/-- The first node at the front. -/
theorem sent_node (h : c.Sane) (hb : c.bufpos = 0) {o : ReplyNode} {s : Sds} (hreply : c.reply = o :: rest)
    (hptr : o.ptr = some s) {n : Nat} (hle : c.sentlen + n ≤ s.bytes.length) :
    c.Sends (if c.sentlen + n = s.bytes.length then
        { c with reply := rest, sentlen := 0, replyBytes := c.replyBytes - s.mem }
      else { c with sentlen := c.sentlen + n }) ((s.bytes.drop c.sentlen).take n) := by
  have hfront : s.bytes.length = c.frontLen := by
    rw [frontLen, if_neg (by omega), hreply, List.head?_cons, Option.map_some, Option.getD_some, ReplyNode.setLen, hptr]
  by_cases hdone : c.sentlen + n = s.bytes.length
  · rw [if_pos hdone, List.take_of_length_le (by rw [List.length_drop]; omega)]
    exact sent_first h hb hreply hptr (by omega) rfl
  · rw [if_neg hdone]
    exact sent_part h hfront (fun hdr => ⟨_, queued_cons hb hreply hptr hdr⟩) (by omega)

theorem writeRound_spec (h : c.Sane) (hpending : clientHasPendingReplies c) : RoundSpec c (writeRound c) := by
  have hlen := h.buf_length
  have hpos := h.bufpos_le
  have hsent := h.sentlen
  rw [frontLen] at hsent
  rw [writeRound]
  by_cases hb : c.bufpos > 0
  · rw [if_pos hb] at hsent
    rw [if_pos hb, slice?, if_pos (by omega)]
    refine .send _ _ (fun n hn hle => ?_)
    rw [List.length_take, List.length_drop] at hle
    rw [← List.drop_take]
    exact sent_buffer h hb (by omega)
  · rw [if_neg hb] at hsent
    rw [if_neg hb]
    cases hreply : c.reply with
    | nil => simp [clientHasPendingReplies, hreply] at hpending; omega
    | cons o rest =>
      rw [hreply] at hsent
      simp only [List.head?_cons, Option.map_some, Option.getD_some, ReplyNode.setLen] at hsent
      simp only
      cases hptr : o.ptr with
      | none => exact .null o (by simp [hreply]) (by simp [ReplyNode.waiting, hptr])
      | some s =>
        simp only [hptr] at hsent ⊢
        by_cases hempty : s.bytes.length = 0
        · rw [if_pos hempty]
          refine .skip _ ?_ ?_
          · have hnil : s.bytes.drop c.sentlen = [] := List.drop_of_length_le (by omega)
            have hzero : c.sentlen = 0 := by omega
            have hsends := sent_first h (by omega) hreply hptr (by omega) hzero
            rw [hnil] at hsends
            exact hsends
          · simp [hreply]
        · rw [if_neg hempty, slice?, if_pos (by omega)]
          refine .send _ _ (fun n hn hle => ?_)
          rw [List.length_take, List.length_drop] at hle
          have hall : (s.bytes.drop c.sentlen).take (s.bytes.length - c.sentlen) = s.bytes.drop c.sentlen :=
            List.take_of_length_le (by rw [List.length_drop])
          have hsends := sent_node h (by omega) hreply hptr (show c.sentlen + n ≤ s.bytes.length by omega)
          rw [hall]
          rw [hreply] at hsends
          exact hsends

/-- The loop sends a part of what is queued, unless it meets a header that is not set. -/
theorem writeLoop_spec (fuel : Nat) (h : c.Sane) (totwritten : Nat) (writes : List (WriteResult × Bool))
    (hfuel : writes.length + c.reply.length < fuel) :
    Sat (writeLoop fuel c totwritten writes) (fun st => c.Sends st.client st.accepted)
      (fun e => e = .nullNode ∧ ∃ n ∈ c.reply, n.waiting) := by
  induction fuel generalizing c totwritten writes with
  | zero => omega
  | succ fuel ih =>
    rw [writeLoop]
    by_cases hpending : clientHasPendingReplies c = true
    · rw [if_neg (by simp [hpending])]
      simp only
      have hround := writeRound_spec h hpending
      revert hround
      generalize writeRound c = round
      intro hround
      cases hround with
      | null n hn hwait => exact ⟨rfl, n, hn, hwait⟩
      | skip c' hsends hlen =>
        rw [ok_bind]
        refine (ih hsends.sane totwritten writes (by omega)).mono (fun st hst => ?_) (fun e he => ?_)
        · exact hsends.trans hst
        · obtain ⟨he, n, hn, hwait⟩ := he
          exact ⟨he, n, hsends.suffix.subset hn, hwait⟩
      | send data sent hsends =>
        rw [ok_bind]
        cases writes with
        | nil => exact Sends.refl h
        | cons r writes =>
          obtain ⟨result, full⟩ := r
          obtain ⟨n, hn⟩ : ∃ n, n = result.nwritten data.length := ⟨_, rfl⟩
          have hle : n ≤ data.length := by
            rw [hn]
            cases result with
            | accepted m => exact Nat.min_le_right _ _
            | again | failed => exact Nat.zero_le _
          simp only [← hn]
          by_cases hzero : n = 0
          · rw [if_pos hzero]
            exact Sends.refl h
          · have hsent := hsends n (by omega) hle
            have hshort := hsent.suffix.length_le
            rw [List.length_cons] at hfuel
            rw [if_neg hzero]
            split
            · exact hsent
            · have hrest := ih hsent.sane (totwritten + n) writes (by omega)
              refine Sat.bind (hrest.mono (fun st hst => hst) (fun e he => ?_)) (fun st hst => ?_)
              · obtain ⟨he, m, hm, hwait⟩ := he
                exact ⟨he, m, hsent.suffix.subset hm, hwait⟩
              · exact hsent.trans hst
    · rw [if_pos (by simp [hpending])]
      exact Sends.refl h

/-- `writeToClient` sends a part of what is queued. -/
theorem writeToClient_spec (h : c.Sane) (writes : List (WriteResult × Bool)) :
    Sat (writeToClient c writes) (fun r => c.Sends r.2.1 r.2.2)
      (fun e => e = .nullNode ∧ ∃ n ∈ c.reply, n.waiting) := by
  rw [writeToClient]
  refine Sat.bind (writeLoop_spec _ h 0 writes (by omega)) (fun st hst => ?_)
  refine Sat.ite (fun _ => hst) (fun _ => Sat.ite (fun hdone => ?_) (fun _ => hst))
  -- the assignment changes nothing
  have hzero := hst.sane.sentlen_of_idle (by simpa using hdone)
  have hsame : ({ st.client with sentlen := 0 } : ReplyClient) = st.client := by
    rw [← hzero]
  show c.Sends { st.client with sentlen := 0 } st.accepted
  rw [hsame]
  exact hst

end ReplyClient

/-! ### Runs -/

/-- A part of the replies: bytes, or the header of the node with this address. -/
inductive ReplyPiece
  | bytes (b : Bytes)
  | header (addr : Nat)

/-- The bytes of the replies, when the headers are going to be set to these. -/
def renderPieces (hdr : Nat → Bytes) (pieces : List ReplyPiece) : Bytes :=
  pieces.flatMap (fun
    | .bytes b => b
    | .header addr => hdr addr)

/-- The header of a node is known. -/
def ReplyPiece.fill (addr : Nat) (b : Bytes) : ReplyPiece → ReplyPiece
  | .header a => if a = addr then .bytes b else .header a
  | .bytes b => .bytes b

theorem renderPieces_append (hdr : Nat → Bytes) (p q : List ReplyPiece) :
    renderPieces hdr (p ++ q) = renderPieces hdr p ++ renderPieces hdr q := List.flatMap_append

theorem renderPieces_fill (hdr : Nat → Bytes) (addr : Nat) (b : Bytes) (pieces : List ReplyPiece) :
    renderPieces hdr (pieces.map (·.fill addr b)) = renderPieces (Function.update hdr addr b) pieces := by
  rw [renderPieces, List.flatMap_map, renderPieces]
  refine List.flatMap_congr (fun p _ => ?_)
  cases p with
  | bytes b' => rfl
  | header a =>
    by_cases ha : a = addr
    · simp [ReplyPiece.fill, ha]
    · simp [ReplyPiece.fill, ha]

/-- What can happen to the replies of a client. -/
inductive ReplyOp
  | addReply (obj : ReplyObject) (hobj : obj.Valid)
  | addReplySds (s : Sds)
  | addReplyString (s : Bytes)
  | addReplyBulk (obj : ReplyObject) (hobj : obj.Valid)
  | addDeferredMultiBulkLength
  /-- The header of the node with this address is set. -/
  | setDeferredMultiBulkLength (addr : Nat) (length : Int)
  | writeToClient (writes : List (WriteResult × Bool))

/-- The client, all replies in the order they were added, the bytes accepted by `write`, and
    whether the client has not been freed. -/
structure ReplyRun where
  client : ReplyClient
  pieces : List ReplyPiece
  accepted : Bytes
  alive : Bool

/-- `createClient`; `junk` is what the fresh memory of `c->buf` holds. -/
def createReplyClient (fd : Int) (junk : Nat → UInt8) : ReplyClient where
  fd := fd
  flags := ⟨false, false, false, false, false, false, false⟩
  replstate := .none
  replPutOnlineOnAck := false
  buf := zrealloc junk [] PROTO_REPLY_CHUNK_BYTES
  bufpos := 0
  reply := []
  replyBytes := 0
  sentlen := 0
  nextNode := 0
  allocs := 0

section Runs

variable (blocks : Blocks)

/-- A reply is added. -/
def ReplyRun.add (r : ReplyRun) (b : Bytes) (m : Except ReplyFault ReplyClient) : Except ReplyFault ReplyRun := do
  let c ← m
  return { r with client := c, pieces := r.pieces ++ [.bytes b] }

/-- One operation; nothing happens to a client that has been freed. -/
def stepReply (r : ReplyRun) (op : ReplyOp) : Except ReplyFault ReplyRun :=
  if !r.alive then .ok r
  else match op with
    | .addReply obj _ => r.add obj.bytes (addReply blocks r.client obj)
    | .addReplySds s => r.add s.bytes (addReplySds blocks r.client s)
    | .addReplyString s => r.add s (addReplyString blocks r.client s)
    | .addReplyBulk obj _ => r.add (bulkReply obj.bytes) (addReplyBulk blocks r.client obj)
    | .addDeferredMultiBulkLength =>
        let node := addDeferredMultiBulkLength r.client
        .ok { r with client := node.2, pieces := r.pieces ++ (node.1.map ReplyPiece.header).toList }
    | .setDeferredMultiBulkLength addr length =>
        if r.client.reply.any (fun n => n.addr = addr && n.waiting) then do
          let c ← setDeferredMultiBulkLength blocks r.client (some addr) length
          return { r with client := c, pieces := r.pieces.map (·.fill addr (headerLine 42 length)) }
        else .error .dangling
    | .writeToClient writes => do
        let result ← writeToClient r.client writes
        return { r with client := result.2.1, accepted := r.accepted ++ result.2.2, alive := result.1 }

/-- A run, from a client that has just connected. -/
def runReply (fd : Int) (junk : Nat → UInt8) (ops : List ReplyOp) : Except ReplyFault ReplyRun :=
  ops.foldlM (stepReply blocks) ⟨createReplyClient fd junk, [], [], true⟩

/-- The bytes accepted and the bytes queued make up all replies. -/
structure ReplyRun.Inv (r : ReplyRun) : Prop where
  sane : r.client.Sane
  whole : ∀ hdr, r.accepted ++ r.client.unsent hdr = renderPieces hdr r.pieces

variable {r : ReplyRun}

theorem ReplyRun.Inv.add (h : r.Inv) {b : Bytes} {m : Except ReplyFault ReplyClient}
    (hm : ∃ c, m = .ok c ∧ r.client.Adds c b) : Sat (r.add b m) ReplyRun.Inv (fun e => e = .dangling ∨ e = .nullNode) := by
  obtain ⟨c, hc, hadds⟩ := hm
  rw [ReplyRun.add, hc, ok_bind]
  refine ⟨hadds.sane, fun hdr => ?_⟩
  show r.accepted ++ c.unsent hdr = renderPieces hdr (r.pieces ++ [.bytes b])
  rw [hadds.unsent h.sane, renderPieces_append, ← h.whole, List.append_assoc]
  simp [renderPieces]

theorem stepReply_inv (h : r.Inv) (op : ReplyOp) :
    Sat (stepReply blocks r op) ReplyRun.Inv (fun e => e = .dangling ∨ e = .nullNode) := by
  rw [stepReply.eq_def]
  refine Sat.ite (fun _ => h) (fun _ => ?_)
  cases op with
  | addReply obj hobj => exact h.add (ReplyClient.addReply_adds blocks h.sane hobj)
  | addReplySds s => exact h.add (ReplyClient.addReplySds_adds blocks h.sane s)
  | addReplyString s => exact h.add (ReplyClient.addReplyString_adds blocks h.sane s)
  | addReplyBulk obj hobj => exact h.add (ReplyClient.addReplyBulk_adds blocks h.sane hobj)
  | addDeferredMultiBulkLength =>
    obtain ⟨k, c, hrun, hsane, hsent, hqueued⟩ := ReplyClient.addDeferredMultiBulkLength_spec h.sane
    simp only [hrun]
    refine ⟨hsane, fun hdr => ?_⟩
    show r.accepted ++ c.unsent hdr = renderPieces hdr (r.pieces ++ [.header k])
    rw [ReplyClient.unsent, hqueued, hsent, List.drop_append_of_le_length (h.sane.sentlen_le hdr), renderPieces_append,
      ← h.whole, List.append_assoc, ReplyClient.unsent]
    simp [renderPieces]
  | setDeferredMultiBulkLength addr length =>
    refine Sat.ite (fun hwait => ?_) (fun _ => .inl rfl)
    obtain ⟨ln, hln, hfound⟩ := List.any_eq_true.mp hwait
    simp only [Bool.and_eq_true, decide_eq_true_eq] at hfound
    obtain ⟨rfl, hnull⟩ := hfound
    obtain ⟨c, hrun, hsane, hsent, hqueued⟩ :=
      ReplyClient.setDeferredMultiBulkLength_spec blocks h.sane hln hnull length
    rw [hrun, ok_bind]
    refine ⟨hsane, fun hdr => ?_⟩
    show r.accepted ++ c.unsent hdr = renderPieces hdr (r.pieces.map _)
    rw [renderPieces_fill, ← h.whole, ReplyClient.unsent, hqueued, hsent, ReplyClient.unsent]
  | writeToClient writes =>
    refine Sat.bind ((ReplyClient.writeToClient_spec h.sane writes).mono (fun _ hr => hr) (fun e he => .inr he.1))
      (fun result hsends => ?_)
    refine ⟨hsends.sane, fun hdr => ?_⟩
    show r.accepted ++ result.2.2 ++ result.2.1.unsent hdr = renderPieces hdr r.pieces
    rw [List.append_assoc, ← hsends.unsent, h.whole]

theorem runReply_inv {fd : Int} (hfd : 0 < fd) (junk : Nat → UInt8) (ops : List ReplyOp) :
    Sat (runReply blocks fd junk ops) ReplyRun.Inv (fun e => e = .dangling ∨ e = .nullNode) := by
  rw [runReply]
  refine sat_foldlM (fun _ (r : ReplyRun) => r.Inv) ops _ ⟨?_, fun hdr => rfl⟩ (fun _ op _ _ _ h => stepReply_inv blocks h op)
  exact ⟨⟨hfd, rfl, rfl, rfl, rfl⟩, by simp [createReplyClient, zrealloc], Nat.zero_le _, .inl rfl,
    (fun n hn => by cases hn), List.nodup_nil, rfl⟩

/-- The memory of the list is the one of its nodes, and a node that is set takes some. -/
theorem ReplyClient.Sane.replyBytes_eq_zero {c : ReplyClient} (h : c.Sane) (hset : ∀ n ∈ c.reply, ¬ n.waiting) :
    c.replyBytes = 0 ↔ c.reply = [] := by
  rw [h.replyBytes]
  constructor
  · intro hzero
    cases hreply : c.reply with
    | nil => rfl
    | cons o rest =>
      have ho := hset o (by simp [hreply])
      rw [hreply, List.map_cons, List.sum_cons, ReplyNode.mem] at hzero
      cases hptr : o.ptr with
      | none => simp [ReplyNode.waiting, hptr] at ho
      | some s =>
        rw [hptr] at hzero
        have := s.mem.2
        simp only at hzero
        omega
  · intro hnil
    rw [hnil]
    rfl

theorem clientHasPendingReplies_eq_false {c : ReplyClient} :
    clientHasPendingReplies c = false ↔ c.reply = [] ∧ c.bufpos = 0 := by
  simp only [clientHasPendingReplies, Bool.or_eq_false_iff, decide_eq_false_iff_not, not_not,
    List.length_eq_zero_iff]
  exact And.comm

end Runs

end Redis
