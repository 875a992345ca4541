import Redis.Networking.Request
import Redis.Lib.Outcome

namespace Redis.Networking

open Buffer Outcome

/-!
# Parsing does not depend on how the bytes arrive

Between two reads the client is somewhere in a request: at its beginning, before an
argument, or inside one.  The bytes in the buffer followed by the bytes still to come are
what is left of the requests from there on, and each step of the parser keeps it so.
-/

/-! ### Lines -/

/-- A line in the buffer: not there up to its end, complete but for the last byte, or there. -/
theorem strchr_line {line v rest X : Bytes} (hline : ∀ b ∈ line, b ≠ 13 ∧ b ≠ 0)
    (h : v ++ rest = line ++ 13 :: 10 :: X) :
    (v.length ≤ line.length ∧ strchr v 13 = none) ∨
    (v.length = line.length + 1 ∧ strchr v 13 = some line.length) ∨
    ∃ v', v = line ++ 13 :: 10 :: v' ∧ v' ++ rest = X ∧ strchr v 13 = some line.length := by
  have hfind : ∀ w : Bytes, strchr (line ++ 13 :: w) 13 = some line.length := by
    intro w
    have hcstr : cstr (line ++ 13 :: w) = line ++ 13 :: cstr w := by
      rw [cstr, List.takeWhile_append_of_pos (fun b hb => by simpa using (hline b hb).2)]
      rfl
    have hnone : line.findIdx? (· = (13 : UInt8)) = none :=
      List.findIdx?_eq_none_iff.mpr (fun b hb => by simpa using (hline b hb).1)
    rw [strchr, hcstr, List.findIdx?_append, hnone, List.findIdx?_cons]
    simp
  have hpart : ∀ w : Bytes, (∀ b ∈ w, b ∈ line) → strchr w 13 = none := by
    intro w hw
    refine List.findIdx?_eq_none_iff.mpr (fun b hb => ?_)
    have := (hline b (hw b ((List.takeWhile_sublist _).subset hb))).1
    simpa using this
  rcases List.append_eq_append_iff.mp h with ⟨a, rfl, -⟩ | ⟨c, rfl, hc⟩
  · refine .inl ⟨by simp, hpart v (fun b hb => List.mem_append_left _ hb)⟩
  · -- how much of the end of the line is in the buffer
    cases c with
    | nil =>
      rw [List.append_nil]
      exact .inl ⟨le_refl _, hpart line (fun b hb => hb)⟩
    | cons x c =>
      obtain ⟨rfl, htail⟩ := List.cons.inj (hc.trans (List.cons_append ..))
      cases c with
      | nil => exact .inr (.inl ⟨by simp, hfind []⟩)
      | cons y c =>
        obtain ⟨rfl, hX⟩ := List.cons.inj (htail.trans (List.cons_append ..))
        exact .inr (.inr ⟨c, rfl, hX.symm, hfind (10 :: c)⟩)

/-- The line of a header, without its end. -/
def headerBody (p : UInt8) (n : Nat) : Bytes := p :: formatLd n

theorem headerLine_eq (p : UInt8) (n : Nat) (X : Bytes) : headerLine p n ++ X = headerBody p n ++ 13 :: 10 :: X := by
  rw [headerLine, headerBody]
  simp

theorem headerBody_ne {p : UInt8} (hp : p ≠ 13 ∧ p ≠ 0) (n : Nat) : ∀ b ∈ headerBody p n, b ≠ 13 ∧ b ≠ 0 := by
  intro b hb
  rw [headerBody, formatLd, if_neg (by omega), List.nil_append, List.mem_cons] at hb
  rcases hb with rfl | hb
  · exact hp
  · obtain ⟨hlo, -⟩ := decimal_digit hb
    constructor
    · rintro rfl
      exact absurd hlo (by decide)
    · rintro rfl
      exact absurd hlo (by decide)

theorem length_headerBody (p : UInt8) {n : Nat} (hn : n < 10 ^ 10) : (headerBody p n).length ≤ 11 := by
  have := length_decimal_le (show n < 10 ^ (9 + 1) from hn)
  rw [headerBody, formatLd, if_neg (by omega), List.nil_append, Int.natAbs_natCast, List.length_cons]
  omega

/-! ### Where the client is in a request -/

/-- What is left of the arguments, the first of which may have its length read already. -/
def bulkBytes (bulklen : Int) : List Bytes → Bytes
  | [] => []
  | a :: args => if bulklen = -1 then (a :: args).flatMap bulkReply else a ++ [13, 10] ++ args.flatMap bulkReply

theorem bulkBytes_start (args : List Bytes) : bulkBytes (-1) args = args.flatMap bulkReply := by
  cases args with
  | nil => rfl
  | cons a args => rw [bulkBytes, if_pos rfl]

/-- The limits that the parser checks. -/
def WithinLimits (argv : List Bytes) : Prop :=
  argv.length ≤ 1024 * 1024 ∧ ∀ a ∈ argv, a.length ≤ 512 * 1024 * 1024

/-- The client is reading arguments from `pos` on: `args` are to be read, and then `X` follows. -/
structure Reading (c : RequestClient) (pos : Nat) (args : List Bytes) (rest X : Bytes) : Prop where
  multibulklen : c.multibulklen = args.length
  bytes : c.querybuf.drop pos ++ rest = bulkBytes c.bulklen args ++ X
  bulklen : c.bulklen = -1 ∨ ∃ a args', args = a :: args' ∧ c.bulklen = (a.length : Nat)
  pos_le : pos ≤ c.querybuf.length
  limit : ∀ a ∈ args, a.length ≤ 512 * 1024 * 1024
  -- the buffer is longer than a line may be only for the one argument that it holds
  room : c.querybuf.length ≤ PROTO_INLINE_MAX_SIZE ∨
    (pos = 0 ∧ (PROTO_MBULK_BIG_ARG : Int) ≤ c.bulklen ∧ (c.querybuf.length : Int) ≤ c.bulklen + 2)

/-- The parser cannot go on with what it has from `pos` on: the line of the next argument is
    not complete, or the argument. -/
def Starved (c : RequestClient) (pos : Nat) : List Bytes → Prop
  | [] => False
  | a :: _ =>
      (c.bulklen = -1 ∧ c.querybuf.length - pos ≤ (headerBody 36 a.length).length + 1) ∨
      (c.bulklen ≠ -1 ∧ (c.querybuf.length : Int) - pos < c.bulklen + 2 ∧
        ((PROTO_MBULK_BIG_ARG : Int) ≤ c.bulklen → pos = 0))

/-- The buffer is shorter than what is to be read of the arguments. -/
theorem Reading.length_lt {c : RequestClient} {args : List Bytes} {rest X : Bytes} (h : Reading c 0 args rest X)
    (hstarved : Starved c 0 args) : X.length < rest.length := by
  have hlen := congrArg List.length h.bytes
  rw [List.drop_zero, List.length_append, List.length_append] at hlen
  cases args with
  | nil => exact hstarved.elim
  | cons a args =>
    rcases hstarved with ⟨hbulk, hle⟩ | ⟨hbulk, hlt, -⟩
    · rw [hbulk, bulkBytes_start, List.flatMap_cons, bulkReply, List.append_assoc, headerLine_eq, List.length_append,
        List.length_cons, List.length_cons] at hlen
      omega
    · obtain hneg | ⟨a', args', hcons, hval⟩ := h.bulklen
      · exact absurd hneg hbulk
      · obtain ⟨rfl, rfl⟩ := List.cons.inj hcons
        rw [bulkBytes, if_neg hbulk, List.length_append, List.length_append, List.length_cons, List.length_cons,
          List.length_nil] at hlen
        omega

/-- The fields that parsing arguments leaves alone. -/
structure SameRequest (c c' : RequestClient) : Prop where
  reqtype : c'.reqtype = c.reqtype
  paused : c'.paused = c.paused
  blocked : c'.blocked = c.blocked
  protocolError : c'.protocolError = c.protocolError
  freed : c'.freed = c.freed
  executed : c'.executed = c.executed

theorem SameRequest.refl (c : RequestClient) : SameRequest c c := ⟨rfl, rfl, rfl, rfl, rfl, rfl⟩

theorem SameRequest.trans {c c' c'' : RequestClient} (h : SameRequest c c') (h' : SameRequest c' c'') :
    SameRequest c c'' :=
  ⟨h'.reqtype.trans h.reqtype, h'.paused.trans h.paused, h'.blocked.trans h.blocked,
    h'.protocolError.trans h.protocolError, h'.freed.trans h.freed, h'.executed.trans h.executed⟩

/-- A buffer that is at least as long as what comes first. -/
theorem append_split {v rest Y Z : Bytes} (h : v ++ rest = Y ++ Z) (hle : Y.length ≤ v.length) :
    ∃ w, v = Y ++ w ∧ w ++ rest = Z := by
  rcases List.append_eq_append_iff.mp h with ⟨b, rfl, hrest⟩ | ⟨w, rfl, hZ⟩
  · have hnil : b = [] := List.eq_nil_of_length_eq_zero (by rw [List.length_append] at hle; omega)
    subst hnil
    exact ⟨[], by simp, by simpa using hrest⟩
  · exact ⟨w, rfl, hZ.symm⟩

section Arguments

variable {c : RequestClient} {pos : Nat} {a : Bytes} {args : List Bytes} {rest X : Bytes}

/-- The length of the next argument is there, or not yet. -/
theorem readBulkLen_spec (h : Reading c pos (a :: args) rest X)
    (hbig : c.bulklen ≠ -1 → (PROTO_MBULK_BIG_ARG : Int) ≤ c.bulklen → pos = 0) :
    (readBulkLen c pos = .wait ∧ Starved c pos (a :: args)) ∨
    ∃ c' pos', readBulkLen c pos = .found c' pos' ∧ Reading c' pos' (a :: args) rest X ∧
      c'.bulklen = (a.length : Nat) ∧ ((PROTO_MBULK_BIG_ARG : Int) ≤ c'.bulklen → pos' = 0) ∧
      c'.argv = c.argv ∧ SameRequest c c' := by
  rw [readBulkLen]
  by_cases hlen : c.bulklen = -1
  · rw [if_pos hlen]
    have hbytes := h.bytes
    have hpos := h.pos_le
    have hlimit := h.limit a List.mem_cons_self
    have hroom : c.querybuf.length ≤ PROTO_INLINE_MAX_SIZE := by
      rcases h.room with hroom | ⟨-, hlong, -⟩
      · exact hroom
      · rw [hlen] at hlong
        exact absurd hlong (by decide)
    rw [hlen, bulkBytes, if_pos rfl, List.flatMap_cons, bulkReply, List.append_assoc, List.append_assoc,
      headerLine_eq] at hbytes
    have hshort := length_headerBody 36 (show a.length < 10 ^ 10 by omega)
    rcases strchr_line (headerBody_ne (by decide) _) hbytes with ⟨hle, hnone⟩ | ⟨hle, hsome⟩ | ⟨v, hv, hX, hsome⟩
    · rw [hnone]
      refine .inl ⟨if_neg (by omega), .inl ⟨hlen, ?_⟩⟩
      rw [List.length_drop] at hle
      omega
    · rw [hsome]
      rw [List.length_drop] at hle
      refine .inl ⟨if_pos (by omega), .inl ⟨hlen, by omega⟩⟩
    · -- the line is there, and the argument begins behind it
      have hdrop : c.querybuf.drop (pos + (headerBody 36 a.length).length + 2) = v := by
        rw [Nat.add_assoc, ← List.drop_drop, hv, ← List.drop_drop, List.drop_left]
        rfl
      have hlength : c.querybuf.length = pos + (headerBody 36 a.length).length + 2 + v.length := by
        have := congrArg List.length hv
        rw [List.length_drop, List.length_append, List.length_cons, List.length_cons] at this
        omega
      have hnumber : (c.querybuf.drop (pos + 1)).take ((headerBody 36 a.length).length - 1) = formatLd a.length := by
        rw [← List.drop_drop, hv, headerBody, List.cons_append, List.drop_one, List.tail_cons, List.length_cons,
          Nat.add_sub_cancel, List.take_left]
      have hnext : bulkBytes (a.length : Nat) (a :: args) ++ X = v ++ rest := by
        rw [hX, bulkBytes, if_neg (by omega)]
        simp only [List.append_assoc]
      rw [hsome]
      simp only
      rw [if_neg (by omega), if_neg (by rw [hv]; simp [headerBody]), hnumber,
        string2ll_formatLd (le_trans hlimit (by decide))]
      simp only
      rw [if_neg (by omega)]
      by_cases hlarge : (a.length : Int) ≥ PROTO_MBULK_BIG_ARG
      · rw [if_pos hlarge]
        refine .inr ⟨_, 0, rfl, ⟨h.multibulklen, ?_, .inr ⟨a, args, rfl, rfl⟩, Nat.zero_le _, h.limit, .inl ?_⟩, rfl,
          fun _ => rfl, rfl, ⟨rfl, rfl, rfl, rfl, rfl, rfl⟩⟩
        · rw [hdrop]
          exact hnext.symm
        · rw [hdrop]
          show v.length ≤ PROTO_INLINE_MAX_SIZE
          omega
      · rw [if_neg hlarge]
        refine .inr ⟨_, _, rfl, ⟨h.multibulklen, ?_, .inr ⟨a, args, rfl, rfl⟩, ?_, h.limit, .inl hroom⟩, rfl,
          fun hge => absurd hge hlarge, rfl, ⟨rfl, rfl, rfl, rfl, rfl, rfl⟩⟩
        · rw [hdrop]
          exact hnext.symm
        · show _ ≤ c.querybuf.length
          omega
  · rw [if_neg hlen]
    obtain hneg | ⟨a', args', hargs, hval⟩ := h.bulklen
    · exact absurd hneg hlen
    · obtain ⟨rfl, rfl⟩ := List.cons.inj hargs
      exact .inr ⟨c, pos, rfl, h, hval, hbig hlen, rfl, SameRequest.refl c⟩

/-- An argument that is complete is taken off the buffer, with or without copying it. -/
theorem takeBulk_spec (h : Reading c pos (a :: args) rest X) (hlen : c.bulklen = (a.length : Nat))
    (hthere : ¬ (c.querybuf.length : Int) - pos < c.bulklen + 2) :
    Reading (takeBulk c pos).1 (takeBulk c pos).2 args rest X ∧ (takeBulk c pos).1.bulklen = -1 ∧
      (takeBulk c pos).1.argv = c.argv ++ [a] ∧ SameRequest c (takeBulk c pos).1 := by
  have hbytes := h.bytes
  have hpos := h.pos_le
  have hcount := h.multibulklen
  rw [hlen, bulkBytes, if_neg (by omega), List.append_assoc] at hbytes
  have hroom : a.length + 2 ≤ (c.querybuf.drop pos).length := by
    rw [List.length_drop]
    omega
  -- the argument and the end of its line are at the front of what is parsed next
  obtain ⟨v, hv, hX⟩ := append_split hbytes (by simpa using hroom)
  have hargs : v ++ rest = bulkBytes (-1) args ++ X := by
    rw [hX, bulkBytes_start]
  have hlength : c.querybuf.length = pos + (a.length + 2 + v.length) := by
    have := congrArg List.length hv
    simp only [List.length_drop, List.length_append, List.length_cons, List.length_nil] at this
    omega
  have hlimit : ∀ b ∈ args, b.length ≤ 512 * 1024 * 1024 := fun b hb => h.limit b (List.mem_cons_of_mem _ hb)
  rw [takeBulk]
  by_cases hwhole : pos = 0 ∧ c.bulklen ≥ PROTO_MBULK_BIG_ARG ∧ (c.querybuf.length : Int) = c.bulklen + 2
  · -- the buffer becomes the object
    rw [if_pos hwhole]
    obtain ⟨rfl, -, hexact⟩ := hwhole
    have hnil : v = [] := List.eq_nil_of_length_eq_zero (by omega)
    subst hnil
    rw [List.drop_zero, List.append_nil] at hv
    refine ⟨⟨?_, hargs, .inl rfl, Nat.le_refl _, hlimit, .inl (Nat.zero_le _)⟩, rfl, ?_, ⟨rfl, rfl, rfl, rfl, rfl, rfl⟩⟩
    · show c.multibulklen - 1 = args.length
      rw [hcount, List.length_cons, Nat.add_sub_cancel]
    · show c.argv ++ [c.querybuf.take (c.querybuf.length - 2)] = c.argv ++ [a]
      rw [hv]
      simp
  · rw [if_neg hwhole]
    have hdrop : c.querybuf.drop (pos + a.length + 2) = v := by
      rw [Nat.add_assoc, ← List.drop_drop, hv, List.append_assoc, ← List.drop_drop, List.drop_left]
      rfl
    have htake : (c.querybuf.drop pos).take a.length = a := by
      rw [hv, List.append_assoc, List.take_left]
    refine ⟨⟨?_, ?_, .inl rfl, ?_, hlimit, .inl ?_⟩, rfl, ?_, ⟨rfl, rfl, rfl, rfl, rfl, rfl⟩⟩
    · show c.multibulklen - 1 = args.length
      rw [hcount, List.length_cons, Nat.add_sub_cancel]
    · show c.querybuf.drop (pos + c.bulklen.toNat + 2) ++ rest = bulkBytes (-1) args ++ X
      rw [hlen, Int.toNat_natCast, hdrop, hargs]
    · show pos + c.bulklen.toNat + 2 ≤ c.querybuf.length
      omega
    · show c.querybuf.length ≤ PROTO_INLINE_MAX_SIZE
      rcases h.room with hroom | ⟨hpos, hlarge, hle⟩
      · exact hroom
      · exact absurd ⟨hpos, hlarge, by omega⟩ hwhole
    · show c.argv ++ [(c.querybuf.drop pos).take c.bulklen.toNat] = c.argv ++ [a]
      rw [hlen, Int.toNat_natCast, htake]

/-- The loop reads all arguments, or it stops in one for want of bytes. -/
theorem bulkLoop_spec (args : List Bytes) (h : Reading c pos args rest X)
    (hbig : c.bulklen ≠ -1 → (PROTO_MBULK_BIG_ARG : Int) ≤ c.bulklen → pos = 0) :
    ∃ c' pos' done todo, bulkLoop args.length c pos = .parsed c' pos' ∧ args = done ++ todo ∧
      Reading c' pos' todo rest X ∧ c'.argv = c.argv ++ done ∧ SameRequest c c' ∧
      ((todo = [] ∧ c'.bulklen = -1) ∨ Starved c' pos' todo) := by
  induction args generalizing c pos with
  | nil =>
    obtain hlen | ⟨a, args, hargs, -⟩ := h.bulklen
    · exact ⟨c, pos, [], [], rfl, rfl, h, by simp, SameRequest.refl c, .inl ⟨rfl, hlen⟩⟩
    · cases hargs
  | cons a args ih =>
    rw [List.length_cons, bulkLoop]
    rcases readBulkLen_spec h hbig with ⟨hread, hstarved⟩ | ⟨c₁, pos₁, hread, h₁, hlen₁, hbig₁, hargv₁, hsame₁⟩
    · rw [hread]
      exact ⟨c, pos, [], a :: args, rfl, rfl, h, by simp, SameRequest.refl c, .inr hstarved⟩
    · rw [hread]
      simp only
      by_cases hthere : (c₁.querybuf.length : Int) - pos₁ < c₁.bulklen + 2
      · rw [if_pos hthere]
        refine ⟨c₁, pos₁, [], a :: args, rfl, rfl, h₁, by simpa using hargv₁, hsame₁, .inr (.inr ⟨?_, hthere, hbig₁⟩)⟩
        rw [hlen₁]
        omega
      · rw [if_neg hthere]
        obtain ⟨h₂, hlen₂, hargv₂, hsame₂⟩ := takeBulk_spec h₁ hlen₁ hthere
        obtain ⟨c', pos', done, todo, hloop, hsplit, h', hargv', hsame', hend⟩ :=
          ih h₂ (fun hne => absurd hlen₂ hne)
        refine ⟨c', pos', a :: done, todo, hloop, by rw [hsplit, List.cons_append], h', ?_,
          hsame₁.trans (hsame₂.trans hsame'), hend⟩
        rw [hargv', hargv₂, hargv₁, List.append_assoc, List.singleton_append]

/-- The parser from the loop on: all arguments, or as many as there are. -/
theorem readBulks_spec (h : Reading c pos args rest X)
    (hbig : c.bulklen ≠ -1 → (PROTO_MBULK_BIG_ARG : Int) ≤ c.bulklen → pos = 0) :
    ∃ c' done todo, readBulks c pos = (decide (todo = []), c') ∧ args = done ++ todo ∧ Reading c' 0 todo rest X ∧
      c'.argv = c.argv ++ done ∧ SameRequest c c' ∧ ((todo = [] ∧ c'.bulklen = -1) ∨ Starved c' 0 todo) := by
  obtain ⟨c₁, pos₁, done, todo, hloop, hsplit, h₁, hargv, hsame, hend⟩ := bulkLoop_spec args h hbig
  obtain ⟨c', hc'⟩ : ∃ c', c' = if pos₁ ≠ 0 then { c₁ with querybuf := c₁.querybuf.drop pos₁ } else c₁ := ⟨_, rfl⟩
  -- the buffer is cut at the position, whatever it is
  have hcut : c' = { c₁ with querybuf := c₁.querybuf.drop pos₁ } := by
    rw [hc']
    by_cases hpos : pos₁ = 0
    · rw [if_neg (not_not.mpr hpos), hpos, List.drop_zero]
    · rw [if_pos hpos]
  have hcount : c'.multibulklen = todo.length := by
    rw [hcut]
    exact h₁.multibulklen
  refine ⟨c', done, todo, ?_, hsplit, ?_, ?_, ?_, ?_⟩
  · rw [readBulks, h.multibulklen, hloop]
    simp only [← hc', hcount, List.length_eq_zero_iff]
  · rw [hcut]
    refine ⟨h₁.multibulklen, ?_, h₁.bulklen, Nat.zero_le _, h₁.limit, ?_⟩
    · rw [List.drop_zero]
      exact h₁.bytes
    · rcases h₁.room with hroom | ⟨hpos, hlarge, hle⟩
      · left
        rw [List.length_drop]
        omega
      · right
        refine ⟨rfl, hlarge, ?_⟩
        rw [hpos, List.drop_zero]
        exact hle
  · rw [hcut]
    exact hargv
  · rw [hcut]
    exact ⟨hsame.reqtype, hsame.paused, hsame.blocked, hsame.protocolError, hsame.freed, hsame.executed⟩
  · refine hend.imp (fun ⟨hnil, hlen⟩ => ⟨hnil, by rw [hcut]; exact hlen⟩) (fun hstarved => ?_)
    rw [hcut]
    cases todo with
    | nil => exact hstarved
    | cons b todo =>
      have hpos := h₁.pos_le
      refine hstarved.imp (fun ⟨hlen, hshort⟩ => ⟨hlen, ?_⟩) (fun ⟨hlen, hshort, _⟩ => ⟨hlen, ?_, fun _ => rfl⟩)
      · rw [List.length_drop]
        omega
      · rw [List.length_drop]
        show ((c₁.querybuf.length - pos₁ : Nat) : Int) - (0 : Nat) < c₁.bulklen + 2
        omega

end Arguments

/-! ### Requests -/

/-- A request with these arguments. -/
def encodeRequest (argv : List Bytes) : Bytes := headerLine 42 argv.length ++ argv.flatMap bulkReply

/-- Requests one after the other. -/
def encodeRequests (reqs : List (List Bytes)) : Bytes := reqs.flatMap encodeRequest

/-- The requests that are executed: those with an argument. -/
def nonempty (reqs : List (List Bytes)) : List (List Bytes) := reqs.filter (fun argv => argv.length ≠ 0)

/-- Where the client is, when the requests `reqs` are sent and `rest` is still to be read.
    If `starved`, the parser cannot go on before more is read. -/
inductive Position (c : RequestClient) (rest : Bytes) (reqs : List (List Bytes)) (starved : Prop) : Prop
  /-- Between two requests, or in the line that begins one. -/
  | idle (todo : List (List Bytes)) (multibulklen : c.multibulklen = 0) (bulklen : c.bulklen = -1)
      (argv : c.argv = []) (reqtype : c.reqtype ≠ some .inline)
      (bytes : c.querybuf ++ rest = encodeRequests todo) (room : c.querybuf.length ≤ PROTO_INLINE_MAX_SIZE)
      (limits : ∀ q ∈ todo, WithinLimits q) (executed : c.executed ++ nonempty todo = nonempty reqs)
      (short : starved → c.querybuf = [] ∨
        ∃ q tail, todo = q :: tail ∧ c.querybuf.length ≤ (headerBody 42 q.length).length + 1)
  /-- In a request, of which the arguments `args` are to be read. -/
  | inside (args : List Bytes) (todo : List (List Bytes)) (ne : args ≠ []) (reqtype : c.reqtype = some .multibulk)
      (reading : Reading c 0 args rest (encodeRequests todo))
      (large : (PROTO_MBULK_BIG_ARG : Int) ≤ c.bulklen → (c.querybuf.length : Int) ≤ c.bulklen + 2)
      (limits : ∀ q ∈ todo, WithinLimits q)
      (executed : c.executed ++ (c.argv ++ args) :: nonempty todo = nonempty reqs)
      (short : starved → Starved c 0 args)

section Requests

variable {c : RequestClient} {rest : Bytes} {reqs : List (List Bytes)} {starved starved' : Prop}

theorem Position.mono (h : Position c rest reqs starved) (himp : starved' → starved) :
    Position c rest reqs starved' := by
  cases h with
  | idle todo h1 h2 h3 h4 h5 h6 h7 h8 h9 =>
    exact .idle todo h1 h2 h3 h4 h5 h6 h7 h8 (fun hs => h9 (himp hs))
  | inside args todo h1 h2 h3 h4 h5 h6 h7 =>
    exact .inside args todo h1 h2 h3 h4 h5 h6 (fun hs => h7 (himp hs))

/-- With an empty buffer there is nothing to parse. -/
theorem Position.of_empty (h : Position c rest reqs starved) (hempty : c.querybuf = []) :
    Position c rest reqs True := by
  cases h with
  | idle todo h1 h2 h3 h4 h5 h6 h7 h8 h9 =>
    exact .idle todo h1 h2 h3 h4 h5 h6 h7 h8 (fun _ => .inl hempty)
  | inside args todo h1 h2 h3 h4 h5 h6 h7 =>
    refine .inside args todo h1 h2 h3 h4 h5 h6 (fun _ => ?_)
    cases args with
    | nil => exact absurd rfl h1
    | cons a args =>
      rw [Starved, hempty]
      obtain hlen | ⟨a', args', -, hlen⟩ := h3.bulklen
      · exact .inl ⟨hlen, by simp⟩
      · refine .inr ⟨by omega, ?_, fun _ => rfl⟩
        rw [hlen, List.length_nil]
        omega

theorem bulkBytes_ne_nil (bulklen : Int) {args : List Bytes} (hne : args ≠ []) : bulkBytes bulklen args ≠ [] := by
  cases args with
  | nil => exact absurd rfl hne
  | cons a args =>
    rw [bulkBytes]
    split
    · simp [bulkReply, headerLine]
    · simp

theorem nonempty_eq_self {cmds : List (List Bytes)} (h : ∀ q ∈ cmds, q ≠ []) : nonempty cmds = cmds := by
  rw [nonempty, List.filter_eq_self]
  intro q hq
  simpa using h q hq

theorem nonempty_singleton {argv : List Bytes} (hne : argv ≠ []) : nonempty [argv] = [argv] := by
  simp [nonempty, hne]

/-- The parser on the arguments of a request that has begun. -/
theorem position_of_readBulks {pos : Nat} {args : List Bytes} {todo : List (List Bytes)}
    (hreq : c.reqtype = some .multibulk) (h : Reading c pos args rest (encodeRequests todo))
    (hbig : c.bulklen ≠ -1 → (PROTO_MBULK_BIG_ARG : Int) ≤ c.bulklen → pos = 0)
    (hlimits : ∀ q ∈ todo, WithinLimits q)
    (hexec : c.executed ++ (c.argv ++ args) :: nonempty todo = nonempty reqs) :
    ∃ ok c', readBulks c pos = (ok, c') ∧ SameRequest c c' ∧
      ((ok = false ∧ Position c' rest reqs True) ∨
       (ok = true ∧ c'.argv = c.argv ++ args ∧ c'.querybuf ++ rest = encodeRequests todo ∧
         c'.querybuf.length ≤ PROTO_INLINE_MAX_SIZE)) := by
  obtain ⟨c', done, left, hrun, hsplit, h', hargv, hsame, hend⟩ := readBulks_spec h hbig
  refine ⟨_, c', hrun, hsame, ?_⟩
  rcases hend with ⟨rfl, hlen⟩ | hstarved
  · -- all arguments are there
    have hbytes := h'.bytes
    rw [List.drop_zero, bulkBytes, List.nil_append] at hbytes
    refine .inr ⟨by simp, by rw [hargv, hsplit, List.append_nil], hbytes, ?_⟩
    rcases h'.room with hroom | ⟨-, hlarge, -⟩
    · exact hroom
    · rw [hlen] at hlarge
      exact absurd hlarge (by decide)
  · cases left with
    | nil => exact hstarved.elim
    | cons a left =>
      refine .inl ⟨by simp, .inside (a :: left) todo (by simp) (hsame.reqtype.trans hreq) h' ?_ hlimits ?_
        (fun _ => hstarved)⟩
      · intro hlarge
        rcases hstarved with ⟨hlen, -⟩ | ⟨-, hshort, -⟩
        · rw [hlen] at hlarge
          exact absurd hlarge (by decide)
        · omega
      · rw [hsame.executed, hargv, List.append_assoc, ← hsplit]
        exact hexec

/-- The parser on a client with something in its buffer: a request is complete, or more has
    to be read first. -/
theorem processMultibulkBuffer_spec (h : Position c rest reqs starved) (hne : c.querybuf ≠ [])
    (hreq : c.reqtype = some .multibulk) :
    ∃ ok c', processMultibulkBuffer c = .ok (ok, c') ∧ SameRequest c c' ∧
      ((ok = false ∧ Position c' rest reqs True) ∨
       (ok = true ∧ ∃ todo, (∀ q ∈ todo, WithinLimits q) ∧ c'.querybuf ++ rest = encodeRequests todo ∧
         c'.querybuf.length ≤ PROTO_INLINE_MAX_SIZE ∧ c'.querybuf.length < c.querybuf.length ∧
         c.executed ++ (nonempty [c'.argv] ++ nonempty todo) = nonempty reqs)) := by
  rw [processMultibulkBuffer]
  cases h with
  | idle todo hcount hlen hargv hreqtype hbytes hroom hlimits hexec hshort =>
    rw [if_pos hcount, if_neg (by simp [hargv])]
    cases todo with
    | nil =>
      have := List.append_eq_nil_iff.mp hbytes
      exact absurd this.1 hne
    | cons q todo =>
      obtain ⟨hq, hlimit⟩ := hlimits q List.mem_cons_self
      have htodo : ∀ q' ∈ todo, WithinLimits q' := fun q' hq' => hlimits q' (List.mem_cons_of_mem _ hq')
      have hline := hbytes
      rw [encodeRequests, List.flatMap_cons, encodeRequest, List.append_assoc, headerLine_eq] at hline
      have hwait : c.querybuf.length ≤ (headerBody 42 q.length).length + 1 → Position c rest reqs True :=
        fun hle => .idle (q :: todo) hcount hlen hargv hreqtype hbytes hroom hlimits hexec
          (fun _ => .inr ⟨q, todo, rfl, hle⟩)
      rcases strchr_line (headerBody_ne (by decide) _) hline with ⟨hle, hnone⟩ | ⟨hle, hsome⟩ | ⟨v, hv, hX, hsome⟩
      · rw [hnone]
        simp only
        rw [if_neg (by omega)]
        exact ⟨false, c, rfl, SameRequest.refl c, .inl ⟨rfl, hwait (by omega)⟩⟩
      · rw [hsome]
        simp only
        rw [if_pos (by omega)]
        exact ⟨false, c, rfl, SameRequest.refl c, .inl ⟨rfl, hwait (by omega)⟩⟩
      · have hlength : c.querybuf.length = (headerBody 42 q.length).length + 2 + v.length := by
          rw [hv, List.length_append, List.length_cons, List.length_cons]
          omega
        have hdrop : c.querybuf.drop ((headerBody 42 q.length).length + 2) = v := by
          rw [hv, ← List.drop_drop, List.drop_left]
          rfl
        have hnumber : (c.querybuf.drop 1).take ((headerBody 42 q.length).length - 1) = formatLd q.length := by
          rw [hv, headerBody, List.cons_append, List.drop_one, List.tail_cons, List.length_cons,
            Nat.add_sub_cancel, List.take_left]
        rw [hsome]
        simp only
        rw [if_neg (by omega), if_neg (by rw [hv]; simp [headerBody]), hnumber,
          string2ll_formatLd (le_trans hq (by decide))]
        simp only
        rw [if_neg (by omega)]
        by_cases hzero : (q.length : Int) ≤ 0
        · -- a request without arguments is complete
          rw [if_pos hzero, hdrop]
          have hnil : q = [] := List.eq_nil_of_length_eq_zero (by omega)
          refine ⟨true, _, rfl, ⟨rfl, rfl, rfl, rfl, rfl, rfl⟩, .inr ⟨rfl, todo, htodo, ?_, ?_, ?_, ?_⟩⟩
          · rw [hnil, List.flatMap_nil, List.nil_append] at hX
            exact hX
          · show v.length ≤ PROTO_INLINE_MAX_SIZE
            omega
          · show v.length < c.querybuf.length
            omega
          · rw [hnil] at hexec
            show c.executed ++ (nonempty [c.argv] ++ nonempty todo) = nonempty reqs
            rw [hargv]
            exact hexec
        · rw [if_neg hzero]
          have hqne : q ≠ [] := by
            rintro rfl
            simp at hzero
          obtain ⟨d, hd⟩ : ∃ d : RequestClient, d = { c with multibulklen := (q.length : Int).toNat, argv := [] } := ⟨_, rfl⟩
          have hreading : Reading d ((headerBody 42 q.length).length + 2) q rest (encodeRequests todo) := by
            subst hd
            refine ⟨Int.toNat_natCast _, ?_, .inl hlen, ?_, hlimit, .inl hroom⟩
            · show c.querybuf.drop _ ++ rest = bulkBytes c.bulklen q ++ encodeRequests todo
              rw [hdrop, hX, hlen, bulkBytes_start, encodeRequests]
            · show _ ≤ c.querybuf.length
              omega
          have hsame : SameRequest c d := by
            subst hd
            exact ⟨rfl, rfl, rfl, rfl, rfl, rfl⟩
          have hargv' : d.argv = [] := by
            subst hd
            rfl
          have hexec' : d.executed ++ (d.argv ++ q) :: nonempty todo = nonempty reqs := by
            rw [hsame.executed, hargv', List.nil_append, ← hexec]
            simp [nonempty, hqne]
          obtain ⟨ok, c', hrun, hsame', hend⟩ := position_of_readBulks (hsame.reqtype.trans hreq) hreading
            (fun hne' => absurd (by subst hd; exact hlen) hne') htodo hexec'
          rw [← hd, hrun]
          refine ⟨ok, c', rfl, hsame.trans hsame', hend.imp id (fun ⟨hok, hargs, hleft, hroom'⟩ =>
            ⟨hok, todo, htodo, hleft, hroom', ?_, ?_⟩)⟩
          · have h1 := congrArg List.length hleft
            have h2 := congrArg List.length hX
            have h3 := List.length_pos_of_ne_nil (bulkBytes_ne_nil (-1) hqne)
            rw [bulkBytes_start] at h3
            rw [List.length_append] at h1
            rw [List.length_append, List.length_append, ← encodeRequests] at h2
            omega
          · rw [hargs, hargv', List.nil_append, nonempty_singleton hqne, ← hexec', hargv', List.nil_append, hsame.executed]
            rfl
  | inside args todo hargs hreqtype hreading hlarge hlimits hexec hshort =>
    have hcount : c.multibulklen ≠ 0 := by
      rw [hreading.multibulklen]
      simpa using hargs
    rw [if_neg hcount]
    obtain ⟨ok, c', hrun, hsame, hend⟩ := position_of_readBulks hreqtype hreading (fun _ _ => rfl) hlimits hexec
    refine ⟨ok, c', by rw [hrun], hsame, hend.imp id (fun ⟨hok, hargv, hbytes, hroom⟩ =>
      ⟨hok, todo, hlimits, hbytes, hroom, ?_, ?_⟩)⟩
    · have h1 := congrArg List.length hbytes
      have h2 := congrArg List.length hreading.bytes
      have h3 := List.length_pos_of_ne_nil (bulkBytes_ne_nil c.bulklen hargs)
      rw [List.drop_zero, List.length_append, List.length_append] at h2
      rw [List.length_append] at h1
      omega
    · rw [hargv, nonempty_singleton (by simp [hargs]), ← hexec]
      rfl

/-- The type of a request is found out from its first byte. -/
theorem Position.reqtype (h : Position c rest reqs starved) (hne : c.querybuf ≠ []) :
    ∃ d, d = (if c.reqtype.isNone then
        { c with reqtype := some (if c.querybuf.head? = some 42 then .multibulk else .inline) } else c : RequestClient) ∧
      d.reqtype = some .multibulk ∧ Position d rest reqs starved ∧ d.querybuf = c.querybuf ∧
      d.protocolError = c.protocolError ∧ d.freed = c.freed := by
  refine ⟨_, rfl, ?_⟩
  cases h with
  | idle todo hcount hlen hargv hreqtype hbytes hroom hlimits hexec hshort =>
    -- the buffer begins with a request
    have hhead : c.querybuf.head? = some 42 := by
      cases todo with
      | nil => exact absurd (List.append_eq_nil_iff.mp hbytes).1 hne
      | cons q todo =>
        obtain ⟨b, w, hw⟩ := List.exists_cons_of_ne_nil hne
        rw [hw, encodeRequests, List.flatMap_cons, encodeRequest, List.append_assoc, headerLine_eq, headerBody] at hbytes
        rw [hw, List.head?_cons, (List.cons.inj hbytes).1]
    cases htype : c.reqtype with
    | none =>
      rw [if_pos Option.isNone_none, if_pos hhead]
      exact ⟨rfl, .idle todo hcount hlen hargv (by simp) hbytes hroom hlimits hexec hshort, rfl, rfl, rfl⟩
    | some t =>
      rw [if_neg (by simp)]
      refine ⟨?_, .idle todo hcount hlen hargv hreqtype hbytes hroom hlimits hexec hshort, rfl, rfl, rfl⟩
      cases t with
      | inline => exact absurd htype hreqtype
      | multibulk => exact htype
  | inside args todo hargs hreqtype hreading hlarge hlimits hexec hshort =>
    rw [if_neg (by simp [hreqtype])]
    exact ⟨hreqtype, .inside args todo hargs hreqtype hreading hlarge hlimits hexec hshort, rfl, rfl, rfl⟩

section Input

variable (processInlineBuffer : RequestClient → Bool × RequestClient) (pauses blocks : Nat → Bool)

/-- What executing requests leaves alone, and what it only adds to. -/
structure Processed (c c' : RequestClient) : Prop where
  protocolError : c'.protocolError = c.protocolError
  freed : c'.freed = c.freed
  executed : c.executed <+: c'.executed
  paused : (∀ k, pauses k = false) → c'.paused = c.paused
  blocked : (∀ k, blocks k = false) → c'.blocked = c.blocked

theorem SameRequest.processed {c c' : RequestClient} (h : SameRequest c c') : Processed pauses blocks c c' :=
  ⟨h.protocolError, h.freed, by rw [h.executed], fun _ => h.paused, fun _ => h.blocked⟩

theorem Processed.trans {c c' c'' : RequestClient} (h : Processed pauses blocks c c')
    (h' : Processed pauses blocks c' c'') : Processed pauses blocks c c'' :=
  ⟨h'.protocolError.trans h.protocolError, h'.freed.trans h.freed, h.executed.trans h'.executed,
    fun hp => (h'.paused hp).trans (h.paused hp), fun hb => (h'.blocked hb).trans (h.blocked hb)⟩

/-- A complete request is executed, if it has an argument. -/
theorem afterRequest_position {todo : List (List Bytes)} (hlimits : ∀ q ∈ todo, WithinLimits q)
    (hbytes : c.querybuf ++ rest = encodeRequests todo) (hroom : c.querybuf.length ≤ PROTO_INLINE_MAX_SIZE)
    (hexec : c.executed ++ (nonempty [c.argv] ++ nonempty todo) = nonempty reqs) :
    Position (afterRequest pauses blocks c) rest reqs False ∧
      (afterRequest pauses blocks c).querybuf = c.querybuf ∧ Processed pauses blocks c (afterRequest pauses blocks c) := by
  rw [afterRequest]
  by_cases hnil : c.argv.length = 0
  · rw [if_pos hnil]
    refine ⟨.idle todo rfl rfl rfl (by simp [resetClient]) hbytes hroom hlimits ?_ False.elim, rfl,
      ⟨rfl, rfl, List.prefix_refl _, fun _ => rfl, fun _ => rfl⟩⟩
    rw [List.eq_nil_of_length_eq_zero hnil] at hexec
    exact hexec
  · rw [if_neg hnil]
    refine ⟨.idle todo rfl rfl rfl (by simp [resetClient]) hbytes hroom hlimits ?_ False.elim, rfl,
      ⟨rfl, rfl, List.prefix_append _ _, fun hp => ?_, fun hb => ?_⟩⟩
    rotate_left
    · show (c.paused || pauses c.executed.length) = c.paused
      rw [hp, Bool.or_false]
    · show (c.blocked || blocks c.executed.length) = c.blocked
      rw [hb, Bool.or_false]
    show c.executed ++ [c.argv] ++ nonempty todo = nonempty reqs
    have hne : c.argv ≠ [] := by
      intro h
      simp [h] at hnil
    rw [← hexec, nonempty_singleton hne, List.append_assoc]

/-- All requests in the buffer are executed, unless the client is paused or blocked. -/
theorem processInputBuffer_spec (fuel : Nat) (h : Position c rest reqs False) (herror : c.protocolError = none)
    (hfuel : c.querybuf.length < fuel) :
    ∃ c', processInputBuffer processInlineBuffer pauses blocks fuel c = .ok c' ∧
      Position c' rest reqs (c'.paused = false ∧ c'.blocked = false) ∧ Processed pauses blocks c c' := by
  have hrefl : Processed pauses blocks c c := (SameRequest.refl c).processed pauses blocks
  induction fuel generalizing c with
  | zero => omega
  | succ fuel ih =>
    rw [processInputBuffer]
    by_cases hempty : c.querybuf.length = 0
    · rw [if_pos hempty]
      have hnil := List.eq_nil_of_length_eq_zero hempty
      exact ⟨c, rfl, (h.of_empty hnil).mono (fun _ => trivial), hrefl⟩
    · rw [if_neg hempty]
      by_cases hpaused : c.paused = true
      · rw [if_pos hpaused]
        exact ⟨c, rfl, h.mono (fun hs => by simp [hpaused] at hs), hrefl⟩
      · rw [if_neg hpaused]
        by_cases hblocked : c.blocked = true
        · rw [if_pos hblocked]
          exact ⟨c, rfl, h.mono (fun hs => by simp [hblocked] at hs), hrefl⟩
        · rw [if_neg hblocked, if_neg (by simp [herror])]
          have hne : c.querybuf ≠ [] := fun hnil => hempty (by rw [hnil]; rfl)
          obtain ⟨d, hd, htype, hpos, hbuf, herror', hfreed⟩ := h.reqtype hne
          have hsame : Processed pauses blocks c d := by
            rw [hd]
            split
            · exact ⟨rfl, rfl, List.prefix_refl _, fun _ => rfl, fun _ => rfl⟩
            · exact hrefl
          simp only
          rw [← hd, if_neg (by simp [htype])]
          obtain ⟨ok, c', hrun, hparse, hend⟩ := processMultibulkBuffer_spec hpos (hbuf ▸ hne) htype
          rw [hrun, ok_bind]
          have hparsed := hsame.trans pauses blocks (hparse.processed pauses blocks)
          rcases hend with ⟨rfl, hwait⟩ | ⟨rfl, todo, hlimits, hbytes, hroom, hless, hexec⟩
          · exact ⟨c', rfl, hwait.mono (fun _ => trivial), hparsed⟩
          · rw [if_pos rfl]
            rw [← hparse.executed] at hexec
            obtain ⟨hpos', hbuf', hafter⟩ := afterRequest_position pauses blocks hlimits hbytes hroom hexec
            obtain ⟨c'', hrun', hpos'', hrest⟩ := ih hpos'
              (by rw [hafter.protocolError, hparsed.protocolError, herror]) (by rw [hbuf']; rw [hbuf] at hless; omega)
              ((SameRequest.refl _).processed pauses blocks)
            exact ⟨c'', hrun', hpos'', (hparsed.trans pauses blocks hafter).trans pauses blocks hrest⟩

end Input

end Requests

/-! ### Runs -/

/-- What can happen to the client; commands may also pause or block it. -/
inductive RequestEvent
  /-- So many bytes arrive, and as many of them are read as `read` is asked for. -/
  | read (n : Nat)
  /-- `CLIENT PAUSE` by another client. -/
  | pause
  | unpause
  /-- The command that blocks the client is served, or its time is over. -/
  | unblock

/-- The client, and the bytes that have not been read. -/
structure RequestRun where
  client : RequestClient
  rest : Bytes

section Runs

variable (processInlineBuffer : RequestClient → Bool × RequestClient) (pauses blocks : Nat → Bool)

/-- One event. -/
def stepRequest (r : RequestRun) : RequestEvent → Except RequestFault RequestRun
  | .read n => do
      let result ← readQueryFromClient processInlineBuffer pauses blocks r.client (r.rest.take n)
      return ⟨result.1, result.2 ++ r.rest.drop n⟩
  | .pause => .ok { r with client := { r.client with paused := true } }
  | .unpause => do
      let c ← processUnblockedClient processInlineBuffer pauses blocks { r.client with paused := false }
      return { r with client := c }
  | .unblock => do
      let c ← processUnblockedClient processInlineBuffer pauses blocks { r.client with blocked := false }
      return { r with client := c }

/-- A large argument is being read. -/
def RequestClient.readsLarge (c : RequestClient) : Prop :=
  c.reqtype = some .multibulk ∧ c.multibulklen ≠ 0 ∧ c.bulklen ≠ -1 ∧ c.bulklen ≥ PROTO_MBULK_BIG_ARG

/-- A read gets some of the bytes that are left, and no large backlog is built up while the
    client is paused or blocked. -/
def Arrives (r : RequestRun) : RequestEvent → Prop
  | .read n => 0 < n ∧ n ≤ r.rest.length ∧
      (r.client.paused = true ∨ r.client.blocked = true →
        r.client.readsLarge ∨ r.client.querybuf.length + n < PROTO_INLINE_MAX_SIZE)
  | _ => True

/-- No read while the whole of a large argument waits in the buffer of a paused client. -/
def NoIdleRead (r : RequestRun) : RequestEvent → Prop
  | .read _ => ¬ (r.client.readsLarge ∧ (r.client.querybuf.length : Int) = r.client.bulklen + 2)
  | _ => True

/-- The states that are reached when these requests are sent, by events that are permitted. -/
inductive RequestReach (permitted : RequestRun → RequestEvent → Prop) (reqs : List (List Bytes)) : RequestRun → Prop
  | start : RequestReach permitted reqs ⟨createRequestClient, encodeRequests reqs⟩
  | step {r r' : RequestRun} (e : RequestEvent) (h : RequestReach permitted reqs r) (he : permitted r e)
      (hr : stepRequest processInlineBuffer pauses blocks r e = .ok r') : RequestReach permitted reqs r'

/-- What every event keeps. -/
structure RequestRun.Inv (r : RequestRun) (reqs : List (List Bytes)) : Prop where
  position : Position r.client r.rest reqs (r.client.paused = false ∧ r.client.blocked = false)
  protocolError : r.client.protocolError = none
  freed : r.client.freed = false

variable {r : RequestRun} {reqs : List (List Bytes)}

theorem start_inv (hlimits : ∀ q ∈ reqs, WithinLimits q) :
    (⟨createRequestClient, encodeRequests reqs⟩ : RequestRun).Inv reqs where
  position := .idle reqs rfl rfl rfl (by simp [createRequestClient]) rfl (Nat.zero_le _) hlimits rfl (fun _ => .inl rfl)
  protocolError := rfl
  freed := rfl

variable {c : RequestClient} {rest : Bytes} {starved : Prop}

/-- The flags do not matter to the position. -/
theorem Position.flags (h : Position c rest reqs starved) (paused blocked : Bool) :
    Position { c with paused := paused, blocked := blocked } rest reqs starved := by
  cases h with
  | idle todo h1 h2 h3 h4 h5 h6 h7 h8 h9 => exact .idle todo h1 h2 h3 h4 h5 h6 h7 h8 h9
  | inside args todo h1 h2 h3 h4 h5 h6 h7 =>
    obtain ⟨g1, g2, g3, g4, g5, g6⟩ := h3
    exact .inside args todo h1 h2 ⟨g1, g2, g3, g4, g5, g6⟩ h4 h5 h6
      (fun hs => by cases args with
        | nil => exact absurd rfl h1
        | cons a args => exact h7 hs)

theorem processUnblockedClient_spec (h : Position c rest reqs False) (herror : c.protocolError = none) :
    ∃ c', processUnblockedClient processInlineBuffer pauses blocks c = .ok c' ∧
      Position c' rest reqs (c'.paused = false ∧ c'.blocked = false) ∧ Processed pauses blocks c c' := by
  rw [processUnblockedClient]
  by_cases hgo : (!c.blocked && decide (c.querybuf.length > 0)) = true
  · rw [if_pos hgo]
    exact processInputBuffer_spec processInlineBuffer pauses blocks _ h herror (Nat.lt_succ_self _)
  · rw [if_neg hgo]
    refine ⟨c, rfl, ?_, (SameRequest.refl c).processed pauses blocks⟩
    by_cases hempty : c.querybuf = []
    · exact (h.of_empty hempty).mono (fun _ => trivial)
    · refine h.mono (fun hs => ?_)
      have hlen := List.length_pos_of_ne_nil hempty
      have hblocked : c.blocked = false := hs.2
      simp [hblocked, hlen] at hgo

theorem readLen_of_large (h : c.readsLarge) :
    readLen c = if c.bulklen + 2 - c.querybuf.length < PROTO_IOBUF_LEN then c.bulklen + 2 - c.querybuf.length
      else PROTO_IOBUF_LEN := if_pos h

/-- A client inside a request is the only one that can be reading a large argument. -/
theorem Position.readsLarge (h : Position c rest reqs starved) (hlarge : c.readsLarge) :
    (c.querybuf.length : Int) ≤ c.bulklen + 2 ∧ c.bulklen ≤ 512 * 1024 * 1024 := by
  cases h with
  | idle todo h1 h2 h3 h4 h5 h6 h7 h8 h9 => exact absurd h1 hlarge.2.1
  | inside args todo h1 h2 h3 h4 h5 h6 h7 =>
    refine ⟨h4 hlarge.2.2.2, ?_⟩
    obtain hlen | ⟨a, args', hargs, hlen⟩ := h3.bulklen
    · exact absurd hlen hlarge.2.2.1
    · have := h3.limit a (by rw [hargs]; exact List.mem_cons_self)
      omega

/-- When the parser waits for more of anything but a large argument, the buffer is short. -/
theorem Position.length_le (h : Position c rest reqs True) (hsmall : ¬ c.readsLarge) :
    c.querybuf.length ≤ PROTO_MBULK_BIG_ARG + 1 := by
  have hbig : (32768 : Nat) = PROTO_MBULK_BIG_ARG := rfl
  cases h with
  | idle todo h1 h2 h3 h4 h5 h6 h7 h8 h9 =>
    rcases h9 trivial with hnil | ⟨q, tail, rfl, hle⟩
    · rw [hnil]
      exact Nat.zero_le _
    · have hq := (h7 q List.mem_cons_self).1
      have := length_headerBody 42 (show q.length < 10 ^ 10 by omega)
      omega
  | inside args todo h1 h2 h3 h4 h5 h6 h7 =>
    have hstarved := h7 trivial
    cases args with
    | nil => exact hstarved.elim
    | cons a args =>
      have ha := h3.limit a List.mem_cons_self
      have := length_headerBody 36 (show a.length < 10 ^ 10 by omega)
      rcases hstarved with ⟨-, hle⟩ | ⟨hlen, hlt, -⟩
      · omega
      · have : ¬ c.bulklen ≥ PROTO_MBULK_BIG_ARG := fun hge => hsmall ⟨h2, by rw [h3.multibulklen]; simp, hlen, hge⟩
        omega

/-- More bytes are appended to the buffer. -/
theorem Position.extend (h : Position c rest reqs starved) (m : Nat) (hm : m ≤ rest.length)
    (hroom : (c.readsLarge ∧ (c.querybuf.length : Int) + m ≤ c.bulklen + 2) ∨
      (¬ c.readsLarge ∧ c.querybuf.length + m ≤ PROTO_INLINE_MAX_SIZE)) :
    Position { c with querybuf := c.querybuf ++ rest.take m } (rest.drop m) reqs False := by
  have hlen : (c.querybuf ++ rest.take m).length = c.querybuf.length + m := by
    rw [List.length_append, List.length_take]
    omega
  have hall : c.querybuf ++ rest.take m ++ rest.drop m = c.querybuf ++ rest := by
    rw [List.append_assoc, List.take_append_drop]
  cases h with
  | idle todo h1 h2 h3 h4 h5 h6 h7 h8 h9 =>
    refine .idle todo h1 h2 h3 h4 (hall.trans h5) ?_ h7 h8 False.elim
    rcases hroom with ⟨hlarge, -⟩ | ⟨-, hle⟩
    · exact absurd h1 hlarge.2.1
    · rw [hlen]
      exact hle
  | inside args todo h1 h2 h3 h4 h5 h6 h7 =>
    refine .inside args todo h1 h2 ⟨h3.multibulklen, ?_, h3.bulklen, Nat.zero_le _, h3.limit, ?_⟩ ?_ h5 h6 False.elim
    · have := h3.bytes
      rw [List.drop_zero] at this ⊢
      exact hall.trans this
    · rcases hroom with ⟨hlarge, hle⟩ | ⟨-, hle⟩
      · refine .inr ⟨rfl, hlarge.2.2.2, ?_⟩
        show ((c.querybuf ++ rest.take m).length : Int) ≤ c.bulklen + 2
        rw [hlen]
        exact_mod_cast hle
      · left
        rw [hlen]
        exact hle
    · intro hge
      show ((c.querybuf ++ rest.take m).length : Int) ≤ c.bulklen + 2
      rw [hlen]
      rcases hroom with ⟨-, hle⟩ | ⟨hsmall, -⟩
      · exact_mod_cast hle
      · refine absurd ⟨h2, ?_, ?_, hge⟩ hsmall
        · rw [h3.multibulklen]
          simpa using h1
        · intro hneg
          rw [hneg] at hge
          exact absurd hge (by decide)

/-- A read that gets at least one byte, and for which there is room. -/
theorem readQueryFromClient_spec (h : Position c rest reqs False) (herror : c.protocolError = none) {n m : Nat}
    (hn : n ≤ rest.length) (hm : m = min (readLen c).toNat n) (hpos : 0 < m)
    (hroom : (c.readsLarge ∧ (c.querybuf.length : Int) + m ≤ c.bulklen + 2) ∨
      (¬ c.readsLarge ∧ c.querybuf.length + m ≤ PROTO_INLINE_MAX_SIZE)) :
    ∃ c', readQueryFromClient processInlineBuffer pauses blocks c (rest.take n) = .ok (c', (rest.take n).drop m) ∧
      Position c' (rest.drop m) reqs (c'.paused = false ∧ c'.blocked = false) ∧ Processed pauses blocks c c' := by
  have hmax : (65536 : Nat) = PROTO_INLINE_MAX_SIZE := rfl
  have hquery : (1073741824 : Nat) = PROTO_MAX_QUERYBUF_LEN := rfl
  have htake : (rest.take n).length = n := by
    rw [List.length_take]
    omega
  have hext := h.extend m (by omega) hroom
  have hshort : ¬ (c.querybuf ++ rest.take m).length > PROTO_MAX_QUERYBUF_LEN := by
    rw [List.length_append, List.length_take]
    rcases hroom with ⟨hlarge, hle⟩ | ⟨-, hle⟩
    · have := (h.readsLarge hlarge).2
      omega
    · omega
  obtain ⟨c', hrun, hpos', hdone⟩ :=
    processInputBuffer_spec processInlineBuffer pauses blocks _ hext herror (Nat.lt_succ_self _)
  have hprefix : (rest.take n).take m = rest.take m := by
    rw [List.take_take]
    congr 1
    omega
  refine ⟨c', ?_, hpos', ⟨hdone.protocolError, hdone.freed, hdone.executed, hdone.paused, hdone.blocked⟩⟩
  rw [readQueryFromClient]
  simp only [htake, ← hm, hprefix]
  rw [if_neg (by omega), if_neg hshort, hrun, ok_bind]
  rfl

theorem read_inv (h : r.Inv reqs) {n : Nat} (harrives : Arrives r (.read n)) (hidle : NoIdleRead r (.read n)) :
    ∃ r', stepRequest processInlineBuffer pauses blocks r (.read n) = .ok r' ∧ r'.Inv reqs := by
  obtain ⟨hpos, hn, hbacklog⟩ := harrives
  obtain ⟨c, rest⟩ := r
  obtain ⟨hposition, herror, hfreed⟩ := h
  simp only at hposition herror hfreed hn hbacklog
  obtain ⟨m, hm⟩ : ∃ m, m = min (readLen c).toNat n := ⟨_, rfl⟩
  have hio : (16384 : Nat) = PROTO_IOBUF_LEN := rfl
  have hmax : (65536 : Nat) = PROTO_INLINE_MAX_SIZE := rfl
  have hbig : (32768 : Nat) = PROTO_MBULK_BIG_ARG := rfl
  -- at least one byte is read, and the buffer does not get too long
  have hread : 0 < m ∧ ((c.readsLarge ∧ (c.querybuf.length : Int) + m ≤ c.bulklen + 2) ∨
      (¬ c.readsLarge ∧ c.querybuf.length + m ≤ PROTO_INLINE_MAX_SIZE)) := by
    by_cases hlarge : c.readsLarge
    · have hle := (hposition.readsLarge hlarge).1
      have hne : ¬ (c.querybuf.length : Int) = c.bulklen + 2 := fun heq => hidle ⟨hlarge, heq⟩
      have hlen := readLen_of_large hlarge
      split at hlen
      · exact ⟨by omega, .inl ⟨hlarge, by omega⟩⟩
      · exact ⟨by omega, .inl ⟨hlarge, by omega⟩⟩
    · have hlen : readLen c = PROTO_IOBUF_LEN := if_neg hlarge
      refine ⟨by omega, .inr ⟨hlarge, ?_⟩⟩
      by_cases hstopped : c.paused = true ∨ c.blocked = true
      · rcases hbacklog hstopped with h | h
        · exact absurd h hlarge
        · omega
      · have hgo : c.paused = false ∧ c.blocked = false := by simpa using hstopped
        have := (hposition.mono (fun _ => hgo)).length_le hlarge
        omega
  have hrest : (rest.take n).drop m ++ rest.drop n = rest.drop m := by
    rw [List.drop_take]
    have : rest.drop n = (rest.drop m).drop (n - m) := by
      rw [List.drop_drop]
      congr 1
      omega
    rw [this, List.take_append_drop]
  obtain ⟨c', hrun, hpos', hdone⟩ := readQueryFromClient_spec processInlineBuffer pauses blocks
    (hposition.mono False.elim) herror hn hm hread.1 hread.2
  refine ⟨⟨c', rest.drop m⟩, ?_, hpos', hdone.protocolError.trans herror, hdone.freed.trans hfreed⟩
  rw [stepRequest]
  simp only
  rw [hrun, ok_bind, ← hrest]
  rfl

theorem stepRequest_inv (h : r.Inv reqs) (e : RequestEvent) (harrives : Arrives r e) (hidle : NoIdleRead r e) :
    ∃ r', stepRequest processInlineBuffer pauses blocks r e = .ok r' ∧ r'.Inv reqs := by
  obtain ⟨hposition, herror, hfreed⟩ := h
  cases e with
  | read n => exact read_inv processInlineBuffer pauses blocks ⟨hposition, herror, hfreed⟩ harrives hidle
  | pause =>
    refine ⟨_, rfl, ?_, herror, hfreed⟩
    exact (hposition.flags true r.client.blocked).mono (fun hs => by simp at hs)
  | unpause =>
    have hpos := (hposition.flags false r.client.blocked).mono (fun hs : False => hs.elim)
    obtain ⟨c, hrun, hpos', hdone⟩ := processUnblockedClient_spec processInlineBuffer pauses blocks hpos herror
    rw [stepRequest, hrun, ok_bind]
    exact ⟨_, rfl, hpos', hdone.protocolError.trans herror, hdone.freed.trans hfreed⟩
  | unblock =>
    have hpos := (hposition.flags r.client.paused false).mono (fun hs : False => hs.elim)
    obtain ⟨c, hrun, hpos', hdone⟩ := processUnblockedClient_spec processInlineBuffer pauses blocks hpos herror
    rw [stepRequest, hrun, ok_bind]
    exact ⟨_, rfl, hpos', hdone.protocolError.trans herror, hdone.freed.trans hfreed⟩

theorem requestReach_inv (hlimits : ∀ q ∈ reqs, WithinLimits q)
    (h : RequestReach processInlineBuffer pauses blocks (fun r e => Arrives r e ∧ NoIdleRead r e) reqs r) :
    r.Inv reqs := by
  induction h with
  | start => exact start_inv hlimits
  | step e h he hr ih =>
    obtain ⟨r', hr', hinv⟩ := stepRequest_inv processInlineBuffer pauses blocks ih e he.1 he.2
    obtain rfl := Except.ok.inj (hr.symm.trans hr')
    exact hinv

/-- A short request keeps to the limits. -/
theorem withinLimits_of_length {q : List Bytes} (h : (encodeRequest q).length < PROTO_INLINE_MAX_SIZE) :
    WithinLimits q := by
  have hmax : (65536 : Nat) = PROTO_INLINE_MAX_SIZE := rfl
  have hargs : ∀ q : List Bytes, q.length ≤ (q.flatMap bulkReply).length ∧
      ∀ a ∈ q, a.length ≤ (q.flatMap bulkReply).length := by
    intro q
    induction q with
    | nil => exact ⟨Nat.zero_le _, fun a ha => by cases ha⟩
    | cons b q ih =>
      have hb : b.length + 2 ≤ (bulkReply b).length := by
        simp only [bulkReply, List.length_append, List.length_cons, List.length_nil]
        omega
      rw [List.flatMap_cons, List.length_append, List.length_cons]
      refine ⟨by omega, fun a ha => ?_⟩
      rcases List.mem_cons.mp ha with rfl | ha
      · omega
      · have := ih.2 a ha
        omega
  rw [encodeRequest, List.length_append] at h
  refine ⟨?_, fun a ha => ?_⟩
  · have := (hargs q).1
    omega
  · have := (hargs q).2 a ha
    omega

/-- When everything has been read and the parser cannot go on, everything has been executed. -/
theorem Position.finished (h : Position c [] reqs True) :
    c.executed = nonempty reqs ∧ c.querybuf = [] := by
  cases h with
  | idle todo h1 h2 h3 h4 h5 h6 h7 h8 h9 =>
    rw [List.append_nil] at h5
    rcases h9 trivial with hnil | ⟨q, tail, rfl, hle⟩
    · refine ⟨?_, hnil⟩
      cases todo with
      | nil => simpa [nonempty] using h8
      | cons q tail =>
        rw [hnil, encodeRequests, List.flatMap_cons, encodeRequest] at h5
        simp [headerLine] at h5
    · -- the line that begins the request would be complete
      have := congrArg List.length h5
      rw [encodeRequests, List.flatMap_cons, encodeRequest, List.append_assoc, headerLine_eq, List.length_append,
        List.length_cons, List.length_cons] at this
      omega
  | inside args todo h1 h2 h3 h4 h5 h6 h7 =>
    exact absurd (h3.length_lt (h7 trivial)) (Nat.not_lt_zero _)

theorem Position.executed_prefix (h : Position c rest reqs starved) :
    c.executed <+: nonempty reqs := by
  cases h with
  | idle todo h1 h2 h3 h4 h5 h6 h7 h8 h9 => exact ⟨_, h8⟩
  | inside args todo h1 h2 h3 h4 h5 h6 h7 => exact ⟨_, h6⟩

end Runs

section Paused

variable (processInlineBuffer : RequestClient → Bool × RequestClient) (pauses blocks : Nat → Bool)

theorem processInputBuffer_paused {c : RequestClient} (hpaused : c.paused = true) (fuel : Nat) :
    processInputBuffer processInlineBuffer pauses blocks fuel c = .ok c := by
  rw [processInputBuffer.eq_def]
  simp only
  by_cases hempty : c.querybuf.length = 0
  · rw [if_pos hempty]
  · rw [if_neg hempty, if_pos hpaused]

/-- What is read while the client is paused is only appended. -/
theorem read_paused {c : RequestClient} (hpaused : c.paused = true) {x rest : Bytes} (hx : 0 < x.length)
    (hlen : (x.length : Int) ≤ readLen c) (hshort : c.querybuf.length + x.length ≤ PROTO_MAX_QUERYBUF_LEN) :
    stepRequest processInlineBuffer pauses blocks ⟨c, x ++ rest⟩ (.read x.length) =
      .ok ⟨{ c with querybuf := c.querybuf ++ x }, rest⟩ := by
  have hmin : min (readLen c).toNat x.length = x.length := by omega
  rw [stepRequest, List.take_left, List.drop_left, readQueryFromClient]
  simp only [hmin, List.take_length, List.drop_length]
  rw [if_neg (by omega), if_neg (by rw [List.length_append]; omega), processInputBuffer_paused _ _ _ (by exact hpaused)]
  rfl

end Paused

/-- The client that has read the lines before an argument of 32768 bytes, and this much of it. -/
def largeClient (querybuf : Bytes) : RequestClient :=
  { createRequestClient with reqtype := some .multibulk, multibulklen := 1, bulklen := 32768, paused := true, querybuf := querybuf }

theorem largeClient_readsLarge (querybuf : Bytes) : (largeClient querybuf).readsLarge := by
  refine ⟨rfl, by simp [largeClient], by simp [largeClient], ?_⟩
  show (32768 : Int) ≥ PROTO_MBULK_BIG_ARG
  decide

/-- A part of the argument is read. -/
theorem largeClient_reach {reqs : List (List Bytes)} {querybuf x rest : Bytes}
    (h : RequestReach (fun c => (false, c)) (fun _ => false) (fun _ => false) Arrives reqs ⟨largeClient querybuf, x ++ rest⟩)
    (hx : 0 < x.length) (hio : x.length ≤ 16384) (hfit : querybuf.length + x.length ≤ 32770) :
    RequestReach (fun c => (false, c)) (fun _ => false) (fun _ => false) Arrives reqs ⟨largeClient (querybuf ++ x), rest⟩ := by
  have hlarge := largeClient_readsLarge querybuf
  have hio' : (16384 : Nat) = PROTO_IOBUF_LEN := rfl
  have hquery : (1073741824 : Nat) = PROTO_MAX_QUERYBUF_LEN := rfl
  have hlen : (x.length : Int) ≤ readLen (largeClient querybuf) := by
    rw [readLen_of_large hlarge]
    show (x.length : Int) ≤ if (32768 : Int) + 2 - querybuf.length < PROTO_IOBUF_LEN then
      (32768 : Int) + 2 - querybuf.length else PROTO_IOBUF_LEN
    split <;> omega
  refine .step (.read x.length) h ⟨hx, by simp, fun _ => .inl hlarge⟩ ?_
  exact read_paused _ _ _ rfl hx hlen (by show querybuf.length + _ ≤ _; omega)

/-- Two requests: an argument of twice these bytes, and `PING`. -/
def largeRequests (half : Bytes) : List (List Bytes) := [[half ++ half], [[80, 73, 78, 71]]]

theorem encode_largeRequests {half : Bytes} (hhalf : half.length = 16384) :
    encodeRequests (largeRequests half) = [42, 49, 13, 10, 36, 51, 50, 55, 54, 56, 13, 10] ++
      (half ++ (half ++ ([13, 10] ++ encodeRequest [[80, 73, 78, 71]]))) := by
  have hone : formatLd (1 : Nat) = [49] := by simp [formatLd, decimal]
  have hlen : formatLd (32768 : Nat) = [51, 50, 55, 54, 56] := by simp [formatLd, decimal]
  have hlength : (half ++ half).length = 32768 := by
    rw [List.length_append, hhalf]
  rw [largeRequests, encodeRequests, List.flatMap_cons, List.flatMap_singleton]
  rw [encodeRequest, List.length_singleton, List.flatMap_singleton, bulkReply, hlength, headerLine, headerLine, hone, hlen]
  simp

/-- A paused client reads an argument of 32768 bytes, and is closed by the read after it. -/
theorem large_argument_closes {half : Bytes} (hlen : half.length = 16384) :
    ∃ r, RequestReach (fun c => (false, c)) (fun _ => false) (fun _ => false) Arrives (largeRequests half) r ∧
      r.client.freed = true := by
  obtain ⟨ping, hping⟩ : ∃ ping, ping = encodeRequest [[80, 73, 78, 71]] := ⟨_, rfl⟩
  have hpos : 0 < ping.length := by
    rw [hping]
    simp [encodeRequest, headerLine]
  have h0 : RequestReach (fun c => (false, c)) (fun _ => false) (fun _ => false) Arrives (largeRequests half)
      ⟨createRequestClient, encodeRequests (largeRequests half)⟩ := .start
  rw [encode_largeRequests hlen, ← hping] at h0
  -- the two lines, and then the pause
  have hlines : readQueryFromClient (fun c => (false, c)) (fun _ => false) (fun _ => false) createRequestClient
      [42, 49, 13, 10, 36, 51, 50, 55, 54, 56, 13, 10] = .ok ({ largeClient [] with paused := false }, []) := by
    rfl
  have h1 : RequestReach (fun c => (false, c)) (fun _ => false) (fun _ => false) Arrives (largeRequests half)
      ⟨{ largeClient [] with paused := false }, half ++ (half ++ ([13, 10] ++ ping))⟩ := by
    refine .step (.read 12) h0 ⟨by decide, by simp, by simp [createRequestClient]⟩ ?_
    generalize half ++ (half ++ ([13, 10] ++ ping)) = body
    rw [stepRequest]
    show (readQueryFromClient (fun c => (false, c)) (fun _ => false) (fun _ => false) createRequestClient
      [42, 49, 13, 10, 36, 51, 50, 55, 54, 56, 13, 10] >>= fun result => pure (⟨result.1, result.2 ++ body⟩ : RequestRun)) = _
    rw [hlines, ok_bind]
    rfl
  have h2 : RequestReach (fun c => (false, c)) (fun _ => false) (fun _ => false) Arrives (largeRequests half)
      ⟨largeClient [], half ++ (half ++ ([13, 10] ++ ping))⟩ := RequestReach.step .pause h1 trivial rfl
  -- the argument and the end of its line, as far as they are asked for
  have h3 := largeClient_reach h2 (by omega) (by omega) (by rw [List.length_nil]; omega)
  have h4 := largeClient_reach h3 (by omega) (by omega) (by rw [List.nil_append]; omega)
  have h5 := largeClient_reach h4 (by decide) (by decide)
    (by rw [List.nil_append, List.length_append, List.length_cons, List.length_cons, List.length_nil]; omega)
  obtain ⟨full, hfull⟩ : ∃ full, full = [] ++ half ++ half ++ [13, 10] := ⟨_, rfl⟩
  have hlength : full.length = 32770 := by
    rw [hfull]
    simp only [List.length_append, List.length_cons, List.length_nil, hlen]
  rw [← hfull] at h5
  -- nothing is missing, so nothing is asked for
  have hzero : readLen (largeClient full) = 0 := by
    rw [readLen_of_large (largeClient_readsLarge full)]
    show (if (32768 : Int) + 2 - full.length < PROTO_IOBUF_LEN then (32768 : Int) + 2 - full.length
      else PROTO_IOBUF_LEN) = 0
    rw [hlength]
    rfl
  refine ⟨⟨{ largeClient full with freed := true }, ping⟩,
    .step (.read ping.length) h5 ⟨hpos, le_refl _, fun _ => .inl (largeClient_readsLarge full)⟩ ?_, rfl⟩
  rw [stepRequest, List.take_length, List.drop_length, readQueryFromClient]
  simp only [hzero, Int.toNat_zero, Nat.zero_min, if_true, ok_bind, List.append_nil]
  rfl

theorem length_largeRequests {half : Bytes} (hhalf : half.length = 16384) :
    (encodeRequests (largeRequests half)).length < PROTO_INLINE_MAX_SIZE := by
  have hping : (encodeRequest [[80, 73, 78, 71]]).length = 14 := by
    simp [encodeRequest, bulkReply, headerLine, formatLd, decimal]
  have hmax : (65536 : Nat) = PROTO_INLINE_MAX_SIZE := rfl
  rw [encode_largeRequests hhalf]
  simp only [List.length_append, List.length_cons, List.length_nil, hhalf, hping]
  omega

end Redis.Networking
