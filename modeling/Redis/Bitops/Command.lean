import Redis.Bitops.Overflow
import Mathlib.Data.List.TakeWhile

namespace Redis.Bitops

open Redis Redis.BitArray

/-!
# BITFIELD on bit arrays

* `bitsOf` — the value of a key as a bit array;
* `runOps_spec` — the operations do on the string what `runFields` does on the bits;
* `bitfieldOps_spec`, `bitfieldCommand_spec` — the command makes room for them;
* `bitfield_fields` — what single commands reply and store.
-/

/-- The bytes of the value. -/
def content (o : Option Robj) : Bytes := (o.map getObjectReadOnlyString).getD []

/-- The bits of the value. -/
def bitsOf (o : Option Robj) : Nat → Bool := bitAt (content o)

/-- There is no value, or it is a string. -/
def IsString (o : Option Robj) : Prop := o ≠ some .other

instance (o : Option Robj) : Decidable (IsString o) := inferInstanceAs (Decidable (_ ≠ _))

/-- One operation on a bit array. -/
def runField (op : BitfieldOp) (f : Nat → Bool) : (Nat → Bool) × Reply :=
  if op.opcode = .get then (f, .longLong (op.type.get f op.offset)) else op.store f

/-- Operations on a bit array, one after the other. -/
def runFields (f : Nat → Bool) : List BitfieldOp → (Nat → Bool) × List Reply
  | [] => (f, [])
  | op :: ops =>
      let rest := runFields (runField op f).1 ops
      (rest.1, (runField op f).2 :: rest.2)

/-- The string has room for what the operation writes. -/
def Room (o : Option Robj) (op : BitfieldOp) : Prop :=
  op.opcode ≠ .get → ∃ p, o = some (.sds p) ∧ op.offset + op.bits ≤ 8 * p.length

/-! ### The bits of a value -/

/-- Zeros at the end change no bit. -/
theorem bitAt_append_zeros (p : Bytes) (n : Nat) : bitAt (p ++ List.replicate n 0) = bitAt p := by
  ext i
  have hget : (p ++ List.replicate n 0).getD (i / 8) 0 = p.getD (i / 8) 0 := by
    by_cases hin : i / 8 < p.length
    · rw [List.getD_append _ _ _ _ hin]
    · rw [List.getD_append_right _ _ _ _ (by omega), List.getD_eq_default p 0 (by omega)]
      by_cases hpad : i / 8 - p.length < n
      · simp [List.getD_eq_getElem?_getD, hpad]
      · rw [List.getD_eq_default _ _ (by simp; omega)]
  rw [bitAt, bitAt, hget]

theorem ll2string_buffer (ptr : BitVec 64) : ll2string 32 ptr.toInt = ll2string 21 ptr.toInt := by
  have hlo := BitVec.le_toInt (x := ptr)
  have hhi := BitVec.toInt_lt (x := ptr)
  rw [ll2string_eq_of_le (by omega) (by omega) (by omega), ll2string_eq_of_le (by omega) (by omega) (by omega)]

variable {o : Option Robj} {op : BitfieldOp} {parsed : Parsed} {owtype : Owtype} {args : List Bytes}

/-- The string that is written to has the bits of the value before, and ends at the byte of
    the highest bit or where the value ended. -/
theorem lookupStringForBitCommand_length (ho : IsString o) (maxbit : Nat) :
    ∃ p, lookupStringForBitCommand o maxbit = .ok p ∧ bitAt p = bitsOf o ∧
      p.length = max (content o).length (maxbit / 8 + 1) ∧ maxbit < 8 * p.length := by
  have hbyte : maxbit >>> 3 = maxbit / 8 := Nat.shiftRight_eq_div_pow maxbit 3
  have hgrow : ∀ s : Bytes, (sdsgrowzero s (maxbit >>> 3 + 1)).length = max s.length (maxbit / 8 + 1) := by
    intro s
    simp only [sdsgrowzero, List.length_append, List.length_replicate]
    omega
  have hroom : ∀ s : Bytes, maxbit < 8 * max s.length (maxbit / 8 + 1) := by
    intro s
    omega
  cases o with
  | none =>
    refine ⟨List.replicate (maxbit >>> 3 + 1) 0, rfl, bitAt_append_zeros [] (maxbit >>> 3 + 1), ?_, ?_⟩
    · rw [List.length_replicate, hbyte]
      exact (Nat.zero_max _).symm
    · rw [List.length_replicate]
      omega
  | some o =>
    cases o with
    | sds ptr => exact ⟨_, rfl, bitAt_append_zeros ptr _, hgrow ptr, by rw [dbUnshareStringValue, hgrow]; exact hroom ptr⟩
    | int ptr =>
      refine ⟨_, rfl, ?_, ?_, ?_⟩
      · rw [dbUnshareStringValue, sdsgrowzero, bitAt_append_zeros, ll2string_buffer]
        rfl
      · rw [dbUnshareStringValue, hgrow, ll2string_buffer]
        rfl
      · rw [dbUnshareStringValue, hgrow]
        exact hroom _
    | other => exact absurd rfl ho

theorem lookupStringForBitCommand_spec (ho : IsString o) (maxbit : Nat) :
    ∃ p, lookupStringForBitCommand o maxbit = .ok p ∧ bitAt p = bitsOf o ∧ maxbit < 8 * p.length := by
  obtain ⟨p, hp, hbits, -, hroom⟩ := lookupStringForBitCommand_length ho maxbit
  exact ⟨p, hp, hbits, hroom⟩

/-! ### GET -/

/-- The copy of nine bytes holds the bits from the byte of the offset on. -/
theorem bitAt_copy (p : Bytes) (byte : Nat) {i : Nat} (hi : i < 72) :
    bitAt ((List.range 9).map (fun j => p.getD (j + byte) 0)) i = bitAt p (8 * byte + i) := by
  have hget : ((List.range 9).map (fun j => p.getD (j + byte) 0)).getD (i / 8) 0 = p.getD (i / 8 + byte) 0 := by
    have hlt : i / 8 < 9 := by omega
    simp [List.getD_eq_getElem?_getD, List.getElem?_map, List.getElem?_range hlt]
  have hbyte : (8 * byte + i) / 8 = i / 8 + byte := by omega
  have hbit : (8 * byte + i) % 8 = i % 8 := by omega
  rw [bitAt, bitAt, hget, hbyte, hbit]

/-- The field of the copy is that of the string. -/
theorem field_copy (p : Bytes) (offset : Nat) {bits : Nat} (hbits : bits ≤ 64) :
    field (bitAt ((List.range 9).map (fun i => p.getD (i + offset / 8) 0))) (offset - offset / 8 * 8) bits
      = field (bitAt p) offset bits := by
  apply field_congr
  intro i hi
  have hplace : 8 * (offset / 8) + (offset - offset / 8 * 8 + i) = offset + i := by omega
  rw [bitAt_copy _ _ (by omega), hplace]

/-- GET reads the copy. -/
theorem readOp_copy (o : Option Robj) (op : BitfieldOp) : ∃ buf : Bytes, buf.length = 9 ∧
    (∀ bits ≤ 64, field (bitAt buf) (op.offset - op.offset / 8 * 8) bits = field (bitsOf o) op.offset bits) ∧
    readOp o op = (if op.sign then getSignedBitfield buf (op.offset - op.offset / 8 * 8) op.bits
      else getUnsignedBitfield buf (op.offset - op.offset / 8 * 8) op.bits) >>= fun val => .ok (.longLong val.toInt) := by
  refine ⟨_, List.length_map .., fun bits hbits => field_copy (content o) op.offset hbits, ?_⟩
  rw [readOp]
  simp only [byte_eq]
  split_ifs <;> rfl

theorem readOp_spec (o : Option Robj) (hpos : 0 < op.bits) (hlt : op.bits < 64) :
    readOp o op = .ok (.longLong (op.type.get (bitsOf o) op.offset)) := by
  obtain ⟨buf, hlen, hcopy, hread⟩ := readOp_copy o op
  have hfield := hcopy op.bits (by omega)
  have hle : 2 ^ op.bits ≤ 2 ^ 63 := Nat.pow_le_pow_right (by omega) (by omega)
  rw [hread]
  by_cases hsign : op.sign = true
  · obtain ⟨v, hv, hint⟩ := getSignedBitfield_spec hpos hlt
      (show op.offset - op.offset / 8 * 8 + op.bits ≤ 8 * buf.length by omega)
    rw [if_pos hsign, hv, Outcome.ok_bind, hint, hfield, BitfieldOp.type, IntType.get, IntType.wrap, if_pos hsign]
  · obtain ⟨v, hv, hnat⟩ := getUnsignedBitfield_spec (show op.bits ≤ 64 by omega)
      (show op.offset - op.offset / 8 * 8 + op.bits ≤ 8 * buf.length by omega)
    have hbound := field_lt (bitsOf o) op.offset op.bits
    have hmod : (field (bitsOf o) op.offset op.bits : Int) % 2 ^ op.bits = field (bitsOf o) op.offset op.bits := by
      norm_cast
      exact Nat.mod_eq_of_lt hbound
    rw [if_neg hsign, hv, Outcome.ok_bind, BitVec.toInt_eq_toNat_of_lt (by rw [hnat, hfield]; omega), hnat, hfield,
      BitfieldOp.type, IntType.get, IntType.wrap, if_neg hsign, hmod]

/-! ### Runs -/

/-- One operation: what it does on the bits, and the string keeps its length. -/
theorem runOp_spec (ho : IsString o) (hop : op.Covered) (hroom : Room o op) (wrapped : BitVec 64) :
    ∃ ran, runOp wrapped o op = .ok ran ∧ IsString ran.object ∧ ran.replies = [(runField op (bitsOf o)).2] ∧
      bitsOf ran.object = (runField op (bitsOf o)).1 ∧ (∀ op', Room o op' → Room ran.object op') ∧
      ran.dirty = (if op.opcode = .get then 0 else 1) ∧ (op.opcode = .get → ran.object = o) ∧
      (o ≠ none → ran.object ≠ none) := by
  rw [runField]
  by_cases hget : op.opcode = .get
  · have hrun : runOp wrapped o op
        = .ok { object := o, replies := [.longLong (op.type.get (bitsOf o) op.offset)], dirty := 0 } := by
      rw [runOp.eq_def, if_pos hget, readOp_spec o hop.pos hop.lt]
      rfl
    simp only [if_pos hget]
    exact ⟨_, hrun, ho, rfl, rfl, fun op' h => h, rfl, fun _ => rfl, fun h => h⟩
  · obtain ⟨p, rfl, hlen⟩ := hroom hget
    obtain ⟨p', hp', hlen', hbits⟩ := writeOp_spec hop hget wrapped hlen
    have hrun : runOp wrapped (some (.sds p)) op
        = .ok { object := some (.sds p'), replies := [(op.store (bitAt p)).2], dirty := 1 } := by
      rw [runOp.eq_def, if_neg hget]
      simp only [hp']
      rfl
    simp only [if_neg hget]
    refine ⟨_, hrun, by simp [IsString], rfl, hbits, ?_, rfl, fun h => absurd h hget, by simp⟩
    intro op' h hwrite
    obtain ⟨q, hq, hroom'⟩ := h hwrite
    cases hq
    exact ⟨p', rfl, by omega⟩

/-- A run of operations. -/
theorem runOps_spec (ho : IsString o) {ops : List BitfieldOp} (hops : ∀ op ∈ ops, op.Covered)
    (hroom : ∀ op ∈ ops, Room o op) (wrapped : BitVec 64) :
    ∃ ran, runOps wrapped o ops = .ok ran ∧ IsString ran.object ∧ ran.replies = (runFields (bitsOf o) ops).2 ∧
      bitsOf ran.object = (runFields (bitsOf o) ops).1 ∧ ran.dirty = (ops.filter (·.opcode ≠ .get)).length ∧
      ((∀ op ∈ ops, op.opcode = .get) → ran.object = o) ∧ (o ≠ none → ran.object ≠ none) := by
  induction ops generalizing o with
  | nil => exact ⟨_, rfl, ho, rfl, rfl, rfl, fun _ => rfl, fun h => h⟩
  | cons op ops ih =>
    obtain ⟨ran, hran, hstring, hreplies, hbits, hroom', hdirty, hsame, hsome⟩ :=
      runOp_spec ho (hops op List.mem_cons_self) (hroom op List.mem_cons_self) wrapped
    obtain ⟨rest, hrest, hstring', hreplies', hbits', hdirty', hsame', hsome'⟩ :=
      ih hstring (fun op' h => hops op' (List.mem_cons_of_mem _ h))
        (fun op' h => hroom' op' (hroom op' (List.mem_cons_of_mem _ h)))
    rw [runOps, hran, Outcome.ok_bind, hrest, Outcome.ok_bind]
    refine ⟨_, rfl, hstring', ?_, ?_, ?_, ?_, fun h => hsome' (hsome h)⟩
    · rw [hreplies, hreplies', hbits]
      rfl
    · rw [hbits', hbits]
      rfl
    · rw [hdirty, hdirty']
      by_cases hget : op.opcode = .get
      · simp [hget]
      · simp [hget]
        omega
    · intro hall
      exact (hsame' fun op' h => hall op' (List.mem_cons_of_mem _ h)).trans (hsame (hall op List.mem_cons_self))

/-! ### The arguments -/

/-- An operation that the arguments name. -/
structure BitfieldOp.Parsed (op : BitfieldOp) : Prop where
  pos : 0 < op.bits
  le : op.bits ≤ 64
  offset : op.offset < 2 ^ 32

/-- The reply is an error. -/
def Reply.IsError : Reply → Prop
  | .error _ | .syntaxerr | .wrongtypeerr => True
  | _ => False

theorem getBitfieldTypeFromArgument_sat (p : Bytes) :
    Outcome.Sat (getBitfieldTypeFromArgument p) (fun type => 0 < type.2 ∧ type.2 ≤ 64) Reply.IsError := by
  rw [getBitfieldTypeFromArgument]
  dsimp only
  split
  · trivial
  · split
    · trivial
    · split
      · trivial
      · next llbits _ hrange =>
        push Not at hrange
        by_cases hsign : p.head? = some 105
        · have := hrange.2.1 (by simpa using hsign)
          exact ⟨by omega, by omega⟩
        · have := hrange.2.2 (by simpa using hsign)
          exact ⟨by omega, by omega⟩

theorem getBitOffsetFromArgument_sat (p : Bytes) (hash : Bool) (bits : Nat) :
    Outcome.Sat (getBitOffsetFromArgument p hash bits) (fun offset => offset < 2 ^ 32) Reply.IsError := by
  rw [getBitOffsetFromArgument]
  dsimp only
  split
  · trivial
  · next loffset _ =>
    obtain ⟨l, hl⟩ : ∃ l, l = if decide (p.head? = some 35 ∧ hash = true ∧ 0 < bits) = true
      then (loffset * bits).bmod (2 ^ 64) else loffset := ⟨_, rfl⟩
    rw [← hl]
    by_cases hrange : l < 0 ∨ l.toNat >>> 3 ≥ 512 * 1024 * 1024
    · rw [if_pos hrange]
      trivial
    · rw [if_neg hrange]
      simp only [Nat.shiftRight_eq_div_pow] at hrange
      change l.toNat < 2 ^ 32
      omega

theorem owtypeOf_sat (a : Bytes) : Outcome.Sat (owtypeOf a) (fun _ => True) Reply.IsError := by
  rw [owtypeOf]
  split
  · trivial
  · split
    · trivial
    · split <;> trivial

theorem getBitfieldTypeFromArgument_spec {p : Bytes} {sign : Bool} {bits : Nat}
    (h : getBitfieldTypeFromArgument p = .ok (sign, bits)) : 0 < bits ∧ bits ≤ 64 :=
  (getBitfieldTypeFromArgument_sat p).of_eq_ok h

theorem getBitOffsetFromArgument_spec {p : Bytes} {hash : Bool} {bits offset : Nat}
    (h : getBitOffsetFromArgument p hash bits = .ok offset) : offset < 2 ^ 32 :=
  (getBitOffsetFromArgument_sat p hash bits).of_eq_ok h

theorem parseOp_sat (opcode : Opcode) (owtype : Owtype) (type offset : Bytes) (value : Option Bytes) :
    Outcome.Sat (parseOp opcode owtype type offset value) (fun op => op.Parsed ∧ op.opcode = opcode) Reply.IsError := by
  rw [parseOp]
  apply (getBitfieldTypeFromArgument_sat type).bind
  rintro ⟨sign, bits⟩ hbits
  apply (getBitOffsetFromArgument_sat offset true bits).bind
  intro bitoffset hoffset
  have hvalue : Outcome.Sat ((value.map getLongLongFromObjectOrReply).getD (.ok 0)) (fun _ => True) Reply.IsError := by
    cases value with
    | none => trivial
    | some x =>
      rw [Option.map_some, Option.getD_some, getLongLongFromObjectOrReply]
      split <;> trivial
  apply hvalue.bind
  intro i64 _
  exact ⟨⟨hbits.1, hbits.2, hoffset⟩, rfl⟩

/-- What the arguments name: every operation that writes ends at the highest offset or
    before. -/
structure Parsed.Sound (parsed : Parsed) : Prop where
  ops : ∀ op ∈ parsed.ops, op.Parsed
  write : ∀ op ∈ parsed.ops, op.opcode ≠ .get →
    parsed.readonly = false ∧ op.offset + op.bits - 1 ≤ parsed.higest_write_offset
  readonly : parsed.readonly = true → ∀ op ∈ parsed.ops, op.opcode = .get

theorem Parsed.Sound.cons (h : parsed.Sound) (hop : op.Parsed) :
    (parsed.cons op).Sound := by
  rw [Parsed.cons]
  by_cases hget : op.opcode = .get
  · rw [if_pos hget]
    constructor
    · exact List.forall_mem_cons.mpr ⟨hop, h.ops⟩
    · exact List.forall_mem_cons.mpr ⟨fun hwrite => absurd hget hwrite, h.write⟩
    · intro hreadonly
      exact List.forall_mem_cons.mpr ⟨hget, h.readonly hreadonly⟩
  · rw [if_neg hget]
    constructor
    · exact List.forall_mem_cons.mpr ⟨hop, h.ops⟩
    · refine List.forall_mem_cons.mpr ⟨fun _ => ⟨rfl, le_max_left _ _⟩, ?_⟩
      intro op' hop' hwrite
      exact ⟨rfl, le_trans (h.write op' hop' hwrite).2 (le_max_right _ _)⟩
    · intro hreadonly
      cases hreadonly

/-- What holds of no operation, and of one more before the others, holds of what the
    arguments name. -/
theorem bitfieldOps_sat {P : Parsed → Prop} (nil : P { ops := [], readonly := true, higest_write_offset := 0 })
    (cons : ∀ op parsed, op.Parsed → P parsed → P (parsed.cons op)) (owtype : Owtype) (args : List Bytes) :
    Outcome.Sat (bitfieldOps owtype args) P Reply.IsError := by
  have hcons : ∀ (opcode : Opcode) (owtype : Owtype) (a b : Bytes) (value : Option Bytes) (rest : Except Reply Parsed),
      Outcome.Sat rest P Reply.IsError →
      Outcome.Sat (parseOp opcode owtype a b value >>= fun op => rest >>= fun parsed => .ok (parsed.cons op)) P
        Reply.IsError := by
    intro opcode owtype a b value rest hrest
    apply (parseOp_sat opcode owtype a b value).bind
    intro op hop
    apply hrest.bind
    intro parsed hparsed
    exact cons op parsed hop.1 hparsed
  induction owtype, args using bitfieldOps.induct with
  | case1 owtype =>
    rw [bitfieldOps]
    exact nil
  | case2 owtype subcmd =>
    rw [bitfieldOps]
    trivial
  | case3 owtype subcmd a hoverflow ih =>
    rw [bitfieldOps, if_pos hoverflow]
    exact (owtypeOf_sat a).bind fun owtype' _ => ih owtype'
  | case4 owtype subcmd a hoverflow =>
    rw [bitfieldOps, if_neg hoverflow]
    trivial
  | case5 owtype subcmd a b rest hget ih =>
    rw [bitfieldOps, if_pos hget]
    exact hcons _ _ _ _ _ _ ih
  | case6 owtype subcmd a b rest hget hset ih =>
    rw [bitfieldOps, if_neg hget, if_pos hset]
    exact hcons _ _ _ _ _ _ ih
  | case7 owtype subcmd a b rest hget hset hincrby ih =>
    rw [bitfieldOps, if_neg hget, if_neg hset, if_pos hincrby]
    exact hcons _ _ _ _ _ _ ih
  | case8 owtype subcmd a b rest hget hset hincrby hoverflow ih =>
    rw [bitfieldOps, if_neg hget, if_neg hset, if_neg hincrby, if_pos hoverflow]
    exact (owtypeOf_sat a).bind fun owtype' _ => ih owtype'
  | case9 owtype subcmd a b rest hget hset hincrby hoverflow =>
    rw [bitfieldOps, if_neg hget, if_neg hset, if_neg hincrby, if_neg hoverflow]
    trivial

theorem bitfieldOps_induction {P : Parsed → Prop}
    (nil : P { ops := [], readonly := true, higest_write_offset := 0 })
    (cons : ∀ op parsed, op.Parsed → P parsed → P (parsed.cons op)) (h : bitfieldOps owtype args = .ok parsed) :
    P parsed :=
  (bitfieldOps_sat nil cons owtype args).of_eq_ok h

theorem bitfieldOps_error {reply : Reply} (h : bitfieldOps owtype args = .error reply) : reply.IsError := by
  have hsat := bitfieldOps_sat (P := fun _ => True) trivial (fun _ _ _ _ => trivial) owtype args
  rwa [h] at hsat

theorem bitfieldOps_spec (h : bitfieldOps owtype args = .ok parsed) : parsed.Sound :=
  bitfieldOps_induction ⟨by simp, by simp, by simp⟩ (fun _ _ hop hsound => hsound.cons hop) h

/-- The highest offset is the end of an operation that writes. -/
theorem higest_write_offset_lt (h : bitfieldOps owtype args = .ok parsed) {n : Nat} (hn : 0 < n)
    (hops : ∀ op ∈ parsed.ops, op.opcode ≠ .get → op.offset + op.bits ≤ n) : parsed.higest_write_offset < n := by
  revert hops
  refine bitfieldOps_induction (P := fun parsed => (∀ op ∈ parsed.ops, op.opcode ≠ .get → op.offset + op.bits ≤ n) →
    parsed.higest_write_offset < n) (fun _ => hn) ?_ h
  intro op parsed hop ih hops
  rw [Parsed.cons] at hops ⊢
  by_cases hget : op.opcode = .get
  · rw [if_pos hget] at hops ⊢
    exact ih (fun op' h => hops op' (List.mem_cons_of_mem _ h))
  · rw [if_neg hget] at hops ⊢
    have hlast := hops op List.mem_cons_self hget
    have hrest := ih (fun op' h => hops op' (List.mem_cons_of_mem _ h))
    have hpos := hop.pos
    simp only
    omega

/-- The command on any arguments that are accepted: the replies and the bits. -/
theorem bitfieldCommand_spec (ho : IsString o) (argv : List Bytes)
    (hparsed : bitfieldOps .wrap (argv.drop 2) = .ok parsed)
    (hops : ∀ op ∈ parsed.ops, op.bits < 64 ∧ (op.opcode = .set → op.owtype = .wrap)) (wrapped : BitVec 64) :
    ∃ o', bitfieldCommand wrapped o argv = .ok
        { object := o', replies := .multiBulkLen parsed.ops.length :: (runFields (bitsOf o) parsed.ops).2,
          dirty := (parsed.ops.filter (·.opcode ≠ .get)).length } ∧
      IsString o' ∧ bitsOf o' = (runFields (bitsOf o) parsed.ops).1 ∧ (parsed.readonly = true → o' = o) ∧
      (parsed.readonly = false → o' ≠ none) := by
  have hsound := bitfieldOps_spec hparsed
  have hcovered : ∀ op ∈ parsed.ops, op.Covered :=
    fun op hop => ⟨(hsound.ops op hop).pos, (hops op hop).1, (hops op hop).2⟩
  rw [bitfieldCommand, hparsed]
  dsimp only
  by_cases hreadonly : parsed.readonly = true
  · have hall := hsound.readonly hreadonly
    obtain ⟨ran, hran, hstring, hreplies, hbits, hdirty, hsame, -⟩ :=
      runOps_spec ho hcovered (fun op hop hwrite => absurd (hall op hop) hwrite) wrapped
    rw [if_pos hreadonly, if_neg ho, replyOps, hran, Outcome.ok_bind, hreplies, hdirty]
    exact ⟨ran.object, rfl, hstring, hbits, fun _ => hsame hall, fun h => absurd h (by simp [hreadonly])⟩
  · obtain ⟨p, hp, hpbits, hroom⟩ := lookupStringForBitCommand_spec ho parsed.higest_write_offset
    have hallroom : ∀ op ∈ parsed.ops, Room (some (.sds p)) op := by
      intro op hop hwrite
      have hhigh := (hsound.write op hop hwrite).2
      have hpos := (hsound.ops op hop).pos
      exact ⟨p, rfl, by omega⟩
    obtain ⟨ran, hran, hstring, hreplies, hbits, hdirty, -, hsome⟩ :=
      runOps_spec (show IsString (some (.sds p)) by simp [IsString]) hcovered hallroom wrapped
    have hbitsOf : bitsOf (some (.sds p)) = bitsOf o := hpbits
    rw [hbitsOf] at hreplies hbits
    rw [if_neg hreadonly, hp]
    dsimp only
    rw [replyOps, hran, Outcome.ok_bind, hreplies, hdirty]
    exact ⟨ran.object, rfl, hstring, hbits, fun h => absurd h hreadonly, fun _ => hsome (by simp)⟩

/-! ### Single commands -/

/-- `GET`. -/
def GET : Bytes := [71, 69, 84]

/-- `SET`. -/
def SET : Bytes := [83, 69, 84]

/-- `INCRBY`. -/
def INCRBY : Bytes := [73, 78, 67, 82, 66, 89]

/-- `OVERFLOW`. -/
def OVERFLOW : Bytes := [79, 86, 69, 82, 70, 76, 79, 87]

/-- `WRAP`, `SAT` and `FAIL`. -/
def Owtype.name : Owtype → Bytes
  | .wrap => [87, 82, 65, 80]
  | .sat  => [83, 65, 84]
  | .fail => [70, 65, 73, 76]

/-- Arguments that name a field. -/
structure Names (type offset : Bytes) (T : IntType) (off : Nat) : Prop where
  type : getBitfieldTypeFromArgument type = .ok (T.signed, T.bits)
  offset : getBitOffsetFromArgument offset true T.bits = .ok off

/-- Arguments that name a field narrower than 64 bits. -/
structure FieldArgs (type offset : Bytes) (T : IntType) (off : Nat) : Prop where
  type : getBitfieldTypeFromArgument type = .ok (T.signed, T.bits)
  offset : getBitOffsetFromArgument offset true T.bits = .ok off
  narrow : T.bits < 64

theorem FieldArgs.names {t a : Bytes} {T : IntType} {off : Nat} (h : FieldArgs t a T off) : Names t a T off :=
  ⟨h.type, h.offset⟩

/-- The operation on a field. -/
def fieldOp (opcode : Opcode) (owtype : Owtype) (T : IntType) (off : Nat) (v : Int) : BitfieldOp :=
  { offset := off, i64 := BitVec.ofInt 64 v, opcode, owtype, bits := T.bits, sign := T.signed }

theorem parseOp_get {t a : Bytes} {T : IntType} {off : Nat} (h : Names t a T off) (owtype : Owtype) :
    parseOp .get owtype t a none = .ok (fieldOp .get owtype T off 0) := by
  rw [parseOp, h.type, Outcome.ok_bind]
  dsimp only
  rw [h.offset]
  rfl

theorem parseOp_write {t a x : Bytes} {T : IntType} {off : Nat} {v : Int} (h : Names t a T off)
    (hx : string2ll x = some v) (opcode : Opcode) (owtype : Owtype) :
    parseOp opcode owtype t a (some x) = .ok (fieldOp opcode owtype T off v) := by
  rw [parseOp, h.type, Outcome.ok_bind]
  dsimp only
  rw [h.offset, Outcome.ok_bind, Option.map_some, Option.getD_some, getLongLongFromObjectOrReply, hx]
  rfl

theorem owtypeOf_name (owtype : Owtype) : owtypeOf owtype.name = .ok owtype := by
  cases owtype <;> rfl

section
variable {t a x : Bytes} {T : IntType} {off : Nat} {v : Int}

theorem bitfieldOps_get (h : Names t a T off) (owtype : Owtype) {rest : List Bytes}
    (hrest : bitfieldOps owtype rest = .ok parsed) :
    bitfieldOps owtype (GET :: t :: a :: rest) = .ok (parsed.cons (fieldOp .get owtype T off 0)) := by
  rw [bitfieldOps, if_pos (by decide), parseOp_get h, Outcome.ok_bind, hrest]
  rfl

theorem bitfieldOps_set (h : Names t a T off) (hx : string2ll x = some v) (owtype : Owtype) {rest : List Bytes}
    (hrest : bitfieldOps owtype rest = .ok parsed) :
    bitfieldOps owtype (SET :: t :: a :: x :: rest) = .ok (parsed.cons (fieldOp .set owtype T off v)) := by
  rw [bitfieldOps, if_neg (by decide), if_pos ⟨by decide, List.cons_ne_nil x rest⟩, List.head?_cons,
    parseOp_write h hx, Outcome.ok_bind, List.tail_cons, hrest]
  rfl

/-- `OVERFLOW` sets the type for what comes after it. -/
theorem bitfieldOps_overflow (owtype owtype' : Owtype) (b : Bytes) (rest : List Bytes) :
    bitfieldOps owtype' (OVERFLOW :: owtype.name :: b :: rest) = bitfieldOps owtype (b :: rest) := by
  have hget : ¬strcaseeq OVERFLOW [103, 101, 116] = true := by decide
  have hset : ¬strcaseeq OVERFLOW [115, 101, 116] = true := by decide
  have hincrby : ¬strcaseeq OVERFLOW [105, 110, 99, 114, 98, 121] = true := by decide
  rw [bitfieldOps, if_neg hget, if_neg (fun h => hset h.1), if_neg (fun h => hincrby h.1), if_pos (by decide),
    owtypeOf_name, Outcome.ok_bind]

theorem bitfieldOps_incrby (h : Names t a T off) (hx : string2ll x = some v) (owtype owtype' : Owtype) :
    bitfieldOps owtype' [OVERFLOW, owtype.name, INCRBY, t, a, x]
      = .ok (Parsed.cons (fieldOp .incrby owtype T off v) { ops := [], readonly := true, higest_write_offset := 0 }) := by
  have hset : ¬strcaseeq INCRBY [115, 101, 116] = true := by decide
  rw [bitfieldOps_overflow, bitfieldOps, if_neg (by decide), if_neg (fun h => hset h.1),
    if_pos ⟨by decide, List.cons_ne_nil x []⟩, List.head?_cons, parseOp_write h hx, Outcome.ok_bind, List.tail_cons,
    bitfieldOps]
  rfl

/-- The argument of SET or INCRBY is kept. -/
theorem toInt_ofInt (hx : string2ll x = some v) : (BitVec.ofInt 64 v).toInt = v := by
  obtain ⟨hlo, hhi, -⟩ := string2ll_eq hx
  rw [BitVec.toInt_ofInt]
  exact Int.bmod_eq_of_le_mul_two (by omega) (by omega)

variable {o : Option Robj}

/-- GET of one field. -/
theorem bitfieldCommand_get (h : FieldArgs t a T off) (ho : IsString o) (wrapped : BitVec 64) (cmd key : Bytes) :
    bitfieldCommand wrapped o [cmd, key, GET, t, a]
      = .ok { object := o, replies := [.multiBulkLen 1, .longLong (T.get (bitsOf o) off)], dirty := 0 } := by
  have hparsed := bitfieldOps_get h.names .wrap (show bitfieldOps .wrap [] = .ok ⟨[], true, 0⟩ by rw [bitfieldOps])
  obtain ⟨o', hrun, -, -, hsame, -⟩ := bitfieldCommand_spec ho [cmd, key, GET, t, a] hparsed
    (List.forall_mem_cons.mpr ⟨⟨h.narrow, fun _ => rfl⟩, by simp⟩) wrapped
  rw [hrun, hsame rfl]
  rfl

/-- A single operation that writes. -/
theorem bitfieldCommand_write (hwrite : op.opcode ≠ .get) (hlt : op.bits < 64)
    (hwrap : op.opcode = .set → op.owtype = .wrap) (ho : IsString o) (cmd key : Bytes)
    (hparsed : bitfieldOps .wrap args = .ok (Parsed.cons op ⟨[], true, 0⟩)) (wrapped : BitVec 64) :
    ∃ o', bitfieldCommand wrapped o (cmd :: key :: args)
        = .ok { object := some o', replies := [.multiBulkLen 1, (op.store (bitsOf o)).2], dirty := 1 } ∧
      IsString (some o') ∧ bitsOf (some o') = (op.store (bitsOf o)).1 := by
  have hcons : Parsed.cons op ⟨[], true, 0⟩
      = { ops := [op], readonly := false, higest_write_offset := max (op.offset + op.bits - 1) 0 } := by
    rw [Parsed.cons, if_neg hwrite]
  have hfields : runFields (bitsOf o) [op] = ((op.store (bitsOf o)).1, [(op.store (bitsOf o)).2]) := by
    rw [runFields, runField, if_neg hwrite]
    rfl
  rw [hcons] at hparsed
  obtain ⟨o', hrun, hstring, hbits, -, hsome⟩ := bitfieldCommand_spec ho (cmd :: key :: args) hparsed
    (List.forall_mem_cons.mpr ⟨⟨hlt, hwrap⟩, by simp⟩) wrapped
  obtain ⟨o'', rfl⟩ := Option.ne_none_iff_exists'.mp (hsome rfl)
  dsimp only at hrun hbits
  rw [hfields] at hrun hbits
  refine ⟨o'', ?_, hstring, hbits⟩
  rw [hrun]
  simp [hwrite]

/-- SET of one field, under the default overflow type. -/
theorem bitfieldCommand_set (h : FieldArgs t a T off) (hx : string2ll x = some v) (ho : IsString o)
    (wrapped : BitVec 64) (cmd key : Bytes) :
    ∃ o', bitfieldCommand wrapped o [cmd, key, SET, t, a, x]
        = .ok { object := some o', replies := [.multiBulkLen 1, .longLong (T.get (bitsOf o) off)], dirty := 1 } ∧
      IsString (some o') ∧ bitsOf (some o') = T.set (bitsOf o) off v := by
  have hparsed := bitfieldOps_set h.names hx .wrap (show bitfieldOps .wrap [] = .ok ⟨[], true, 0⟩ by rw [bitfieldOps])
  obtain ⟨o', hrun, hstring, hbits⟩ := bitfieldCommand_write (by simp [fieldOp]) h.narrow (fun _ => rfl) ho cmd key
    hparsed wrapped
  have hnew : (fieldOp .set .wrap T off v).new (T.get (bitsOf o) off) = some (T.wrap v) := by
    conv_rhs => rw [← toInt_ofInt hx]
    rfl
  have hstore : (fieldOp .set .wrap T off v).store (bitsOf o)
      = (T.set (bitsOf o) off (T.wrap v), .longLong (T.get (bitsOf o) off)) := by
    change (((fieldOp .set .wrap T off v).new (T.get (bitsOf o) off)).elim _ _,
      ((fieldOp .set .wrap T off v).new (T.get (bitsOf o) off)).elim _ _) = _
    rw [hnew]
    rfl
  rw [hstore] at hrun hbits
  rw [IntType.set_wrap] at hbits
  exact ⟨o', hrun, hstring, hbits⟩

/-- INCRBY of one field. -/
theorem bitfieldCommand_incrby (h : FieldArgs t a T off) (hx : string2ll x = some v) (ho : IsString o)
    (owtype : Owtype) (wrapped : BitVec 64) (cmd key : Bytes) :
    ∃ o', bitfieldCommand wrapped o [cmd, key, OVERFLOW, owtype.name, INCRBY, t, a, x] = .ok
        { object := some o', dirty := 1,
          replies := [.multiBulkLen 1, (owtype.fit T (T.get (bitsOf o) off + v)).elim .nullbulk .longLong] } ∧
      IsString (some o') ∧
      bitsOf (some o') = (owtype.fit T (T.get (bitsOf o) off + v)).elim (bitsOf o) (T.set (bitsOf o) off) := by
  have hparsed := bitfieldOps_incrby h.names hx owtype .wrap
  obtain ⟨o', hrun, hstring, hbits⟩ := bitfieldCommand_write (by simp [fieldOp]) h.narrow (by simp [fieldOp]) ho cmd key
    hparsed wrapped
  have hnew : (fieldOp .incrby owtype T off v).new (T.get (bitsOf o) off)
      = owtype.fit T (T.get (bitsOf o) off + v) := by
    conv_rhs => rw [← toInt_ofInt hx]
    rfl
  have hstore : (fieldOp .incrby owtype T off v).store (bitsOf o)
      = ((owtype.fit T (T.get (bitsOf o) off + v)).elim (bitsOf o) (T.set (bitsOf o) off),
        (owtype.fit T (T.get (bitsOf o) off + v)).elim .nullbulk .longLong) := by
    rw [← hnew]
    rfl
  rw [hstore] at hrun hbits
  exact ⟨o', hrun, hstring, hbits⟩

/-- The bit of a byte that GETBIT looks at. -/
theorem getbit_eq (s : Bytes) (i : Nat) :
    decide (i / 8 < s.length ∧ (s.getD (i / 8) 0).toBitVec.setWidth 64 &&& (1#64 <<< (7 - i % 8)) ≠ 0#64) = bitAt s i := by
  have hiff := and_bit_ne_zero ((s.getD (i / 8) 0).toBitVec.setWidth 64) (show 7 - i % 8 < 64 by omega)
  have hwidth : ((s.getD (i / 8) 0).toBitVec.setWidth 64).getLsbD (7 - i % 8) = bitAt s i := by
    rw [BitVec.getLsbD_setWidth, bitAt]
    simp [show 7 - i % 8 < 64 by omega]
  rw [hwidth] at hiff
  simp only [hiff]
  by_cases hin : i / 8 < s.length
  · simp [hin]
  · have hzero : bitAt s i = false := by
      rw [bitAt, List.getD_eq_default _ _ (by omega)]
      simp
    simp [hzero]

/-- GETBIT of one bit. -/
theorem getbitCommand_spec (ho : IsString o) {b : Bytes} {i : Nat}
    (hb : getBitOffsetFromArgument b false 0 = .ok i) (cmd key : Bytes) :
    getbitCommand o [cmd, key, b] = .longLong (bitsOf o i).toNat := by
  have hargv : [cmd, key, b].getD 2 [] = b := rfl
  rw [getbitCommand, hargv, hb]
  simp only [byte_eq, bit_eq, getbit_eq]
  cases o with
  | none =>
    have hzero : bitsOf none i = false := by
      rw [bitsOf, bitAt, List.getD_eq_default _ _ (by simp [content])]
      simp
    rw [hzero]
    rfl
  | some o =>
    cases o with
    | sds ptr => rfl
    | int ptr =>
      simp only [ll2string_buffer]
      rfl
    | other => exact absurd rfl ho

/-- Fields of 1 to 63 bits, signed or not, anywhere in a value that is absent or a string.
    GET reads the bits that GETBIT reads, as those of the zero-padded string; SET stores
    any 64-bit value modulo the range and INCRBY the sum, as the overflow type says;
    nothing but the field changes. -/
theorem bitfield_fields (h : FieldArgs t a T off) {o : Option Robj} (ho : IsString o) (wrapped : BitVec 64)
    (cmd key : Bytes) :
    bitfieldCommand wrapped o [cmd, key, GET, t, a]
      = .ok { object := o, replies := [.multiBulkLen 1, .longLong (T.get (bitsOf o) off)], dirty := 0 } ∧
    (∀ n, bitfieldCommand wrapped (some (.sds (content o ++ List.replicate n 0))) [cmd, key, GET, t, a]
      = .ok { object := some (.sds (content o ++ List.replicate n 0)),
              replies := [.multiBulkLen 1, .longLong (T.get (bitsOf o) off)], dirty := 0 }) ∧
    (∀ i b, i < T.bits → getBitOffsetFromArgument b false 0 = .ok (off + i) →
      getbitCommand o [cmd, key, b] = .longLong (T.get (bitsOf o) off / 2 ^ (T.bits - 1 - i) % 2)) ∧
    ∀ x v, string2ll x = some v →
      (∃ o', bitfieldCommand wrapped o [cmd, key, SET, t, a, x]
          = .ok { object := some o', replies := [.multiBulkLen 1, .longLong (T.get (bitsOf o) off)], dirty := 1 } ∧
        bitfieldCommand wrapped (some o') [cmd, key, GET, t, a]
          = .ok { object := some o', replies := [.multiBulkLen 1, .longLong (T.wrap v)], dirty := 0 } ∧
        ∀ i, ¬(off ≤ i ∧ i < off + T.bits) → bitsOf (some o') i = bitsOf o i) ∧
      ∀ owtype : Owtype, ∃ o', bitfieldCommand wrapped o [cmd, key, OVERFLOW, owtype.name, INCRBY, t, a, x] = .ok
          { object := some o', dirty := 1,
            replies := [.multiBulkLen 1, (owtype.fit T (T.get (bitsOf o) off + v)).elim .nullbulk .longLong] } ∧
        (∀ new, owtype.fit T (T.get (bitsOf o) off + v) = some new →
          bitfieldCommand wrapped (some o') [cmd, key, GET, t, a]
            = .ok { object := some o', replies := [.multiBulkLen 1, .longLong new], dirty := 0 }) ∧
        (owtype.fit T (T.get (bitsOf o) off + v) = none → bitsOf (some o') = bitsOf o) ∧
        ∀ i, ¬(off ≤ i ∧ i < off + T.bits) → bitsOf (some o') i = bitsOf o i := by
  have hpos : 0 < T.bits := (getBitfieldTypeFromArgument_spec h.type).1
  refine ⟨bitfieldCommand_get h ho wrapped cmd key, ?_, ?_, ?_⟩
  · intro n
    have hbits : bitsOf (some (.sds (content o ++ List.replicate n 0))) = bitsOf o := bitAt_append_zeros (content o) n
    rw [bitfieldCommand_get h (by simp [IsString]) wrapped cmd key, hbits]
  · intro i b hi hb
    rw [getbitCommand_spec ho hb, IntType.bit_get _ _ hi]
    cases bitsOf o (off + i) <;> rfl
  · intro x v hx
    constructor
    · obtain ⟨o', hrun, hstring, hbits⟩ := bitfieldCommand_set h hx ho wrapped cmd key
      refine ⟨o', hrun, ?_, ?_⟩
      · rw [bitfieldCommand_get h hstring wrapped cmd key, hbits, IntType.get_set]
      · intro i hi
        rw [hbits, IntType.set_outside _ _ hi]
    · intro owtype
      obtain ⟨o', hrun, hstring, hbits⟩ := bitfieldCommand_incrby h hx ho owtype wrapped cmd key
      refine ⟨o', hrun, ?_, ?_, ?_⟩
      · intro new hnew
        have hholds := Owtype.holds_of_fit hpos hnew
        rw [hnew, Option.elim_some] at hbits
        rw [bitfieldCommand_get h hstring wrapped cmd key, hbits, IntType.get_set, IntType.wrap_of_holds hpos hholds]
      · intro hnew
        rw [hbits, hnew, Option.elim_none]
      · intro i hi
        cases hnew : owtype.fit T (T.get (bitsOf o) off + v) with
        | none => rw [hbits, hnew, Option.elim_none]
        | some new => rw [hbits, hnew, Option.elim_some, IntType.set_outside _ _ hi]

/-- -17 set in a signed field of 5 bits that crosses two bytes is 15 when it is got. -/
theorem bitfield_fields_five : ∃ o', bitfieldCommand 0#64 (some (.sds [255, 1]))
      [[], [], SET, [105, 53], [54], [45, 49, 55]]
      = .ok { object := some o', replies := [.multiBulkLen 1, .longLong (-8)], dirty := 1 } ∧
    bitfieldCommand 0#64 (some o') [[], [], GET, [105, 53], [54]]
      = .ok { object := some o', replies := [.multiBulkLen 1, .longLong 15], dirty := 0 } := by
  have hargs : FieldArgs [105, 53] [54] ⟨true, 5⟩ 6 := ⟨rfl, rfl, by decide⟩
  have hstring : IsString (some (.sds [255, 1])) := by decide
  obtain ⟨o', hset, hget, -⟩ := ((bitfield_fields hargs hstring 0#64 [] []).2.2.2 [45, 49, 55] (-17) (by decide)).1
  exact ⟨o', hset, hget⟩

end

/-! ### Every field has arguments -/

end Redis.Bitops
