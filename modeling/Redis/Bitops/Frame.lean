import Redis.Bitops.Command

namespace Redis.Bitops

open Redis Redis.BitArray

/-!
# What BITFIELD leaves alone

Every operation that is parsed, of any width and any overflow type, can be executed, keeps
the length of the string and changes no bit outside of its field.

* `writeOp_frame`, `readOp_total` — one operation;
* `runOps_frame`, `runOps_reads` — the operations of a command;
* `bitfieldCommand_frame` — what a command leaves;
* `bitfieldCommand_one` — a command with one operation that writes.
-/

/-- The operation writes the bit. -/
def BitfieldOp.Writes (op : BitfieldOp) (i : Nat) : Prop :=
  op.opcode ≠ .get ∧ op.offset ≤ i ∧ i < op.offset + op.bits

/-! ### One operation -/

variable {p : Bytes} {op : BitfieldOp}

theorem getSignedBitfield_total {offset bits : Nat} (hbits : bits ≤ 64) (h : offset + bits ≤ 8 * p.length) :
    ∃ w, getSignedBitfield p offset bits = .ok w := by
  obtain ⟨v, hv, -⟩ := getUnsignedBitfield_spec hbits h
  exact ⟨_, by rw [getSignedBitfield, hv, Outcome.ok_bind]⟩

theorem storeOp_frame {get : Bytes → Nat → Nat → Except Fault (BitVec 64)}
    {check : BitVec 64 → BitVec 64 → Nat → Owtype → BitVec 64 → Int × BitVec 64}
    {set : Bytes → Nat → Nat → BitVec 64 → Except Fault Bytes} (wrapped : BitVec 64) (hwrite : op.opcode ≠ .get)
    (hget : ∃ oldval, get p op.offset op.bits = .ok oldval)
    (hset : Sets set p op.offset op.bits) :
    ∃ p' reply, storeOp get check set wrapped p op = .ok (p', reply) ∧ p'.length = p.length ∧
      ∀ i, ¬op.Writes i → bitAt p' i = bitAt p i := by
  obtain ⟨oldval, hold⟩ := hget
  obtain ⟨p', hrun, hlen, hbits⟩ := storeOp_run check wrapped hold hset _ rfl
  refine ⟨p', _, hrun, hlen, ?_⟩
  intro i hi
  have hout : ¬(op.offset ≤ i ∧ i < op.offset + op.bits) := fun hin => hi ⟨hwrite, hin⟩
  rw [hbits]
  cases stored (check (op.operands oldval).1 (op.operands oldval).2 op.bits op.owtype wrapped)
    ((op.operands oldval).1 + (op.operands oldval).2) op.owtype with
  | none => rfl
  | some x => exact write_outside (bitAt p) hout

/-- SET and INCRBY of any width. -/
theorem writeOp_frame (hop : op.Parsed) (hwrite : op.opcode ≠ .get) (h : op.offset + op.bits ≤ 8 * p.length)
    (wrapped : BitVec 64) :
    ∃ p' reply, writeOp wrapped p op = .ok (p', reply) ∧ p'.length = p.length ∧
      ∀ i, ¬op.Writes i → bitAt p' i = bitAt p i := by
  have hset := setUnsignedBitfield_spec hop.le h
  rw [writeOp]
  by_cases hsign : op.sign = true
  · rw [if_pos hsign]
    exact storeOp_frame wrapped hwrite (getSignedBitfield_total hop.le h) hset
  · rw [if_neg hsign]
    obtain ⟨v, hv, -⟩ := getUnsignedBitfield_spec hop.le h
    exact storeOp_frame wrapped hwrite ⟨v, hv⟩ hset

/-- GET of any width. -/
theorem readOp_total (o : Option Robj) (hop : op.Parsed) : ∃ reply, readOp o op = .ok reply := by
  obtain ⟨buf, hlen, -, hread⟩ := readOp_copy o op
  have hle := hop.le
  have hroom : op.offset - op.offset / 8 * 8 + op.bits ≤ 8 * buf.length := by omega
  rw [hread]
  by_cases hsign : op.sign = true
  · obtain ⟨v, hv⟩ := getSignedBitfield_total hle hroom
    rw [if_pos hsign, hv, Outcome.ok_bind]
    exact ⟨_, rfl⟩
  · obtain ⟨v, hv, -⟩ := getUnsignedBitfield_spec hle hroom
    rw [if_neg hsign, hv, Outcome.ok_bind]
    exact ⟨_, rfl⟩

/-! ### The operations of a command -/

theorem runOps_frame {ops : List BitfieldOp} (hops : ∀ op ∈ ops, op.Parsed)
    (hroom : ∀ op ∈ ops, op.opcode ≠ .get → op.offset + op.bits ≤ 8 * p.length) (wrapped : BitVec 64) :
    ∃ ran p', runOps wrapped (some (.sds p)) ops = .ok ran ∧ ran.object = some (.sds p') ∧ p'.length = p.length ∧
      ∀ i, (∀ op ∈ ops, ¬op.Writes i) → bitAt p' i = bitAt p i := by
  induction ops generalizing p with
  | nil => exact ⟨_, p, rfl, rfl, rfl, fun _ _ => rfl⟩
  | cons op ops ih =>
    have hop := hops op List.mem_cons_self
    obtain ⟨ran, q, hran, hq, hlen, hsame⟩ : ∃ ran q, runOp wrapped (some (.sds p)) op = .ok ran ∧
        ran.object = some (.sds q) ∧ q.length = p.length ∧ ∀ i, ¬op.Writes i → bitAt q i = bitAt p i := by
      rw [runOp.eq_def]
      by_cases hget : op.opcode = .get
      · obtain ⟨reply, hreply⟩ := readOp_total (some (.sds p)) hop
        rw [if_pos hget, hreply, Outcome.ok_bind]
        exact ⟨_, p, rfl, rfl, rfl, fun _ _ => rfl⟩
      · obtain ⟨q, reply, hstore, hlen, hsame⟩ := writeOp_frame hop hget (hroom op List.mem_cons_self hget) wrapped
        rw [if_neg hget]
        simp only [hstore]
        exact ⟨_, q, rfl, rfl, hlen, hsame⟩
    obtain ⟨rest, p', hrest, hp', hlen', hsame'⟩ := ih (p := q) (fun op' h => hops op' (List.mem_cons_of_mem _ h))
      (fun op' h hwrite => hlen ▸ hroom op' (List.mem_cons_of_mem _ h) hwrite)
    rw [runOps, hran, Outcome.ok_bind, hq, hrest, Outcome.ok_bind]
    refine ⟨_, p', rfl, hp', hlen'.trans hlen, ?_⟩
    intro i hi
    rw [hsame' i (fun op' h => hi op' (List.mem_cons_of_mem _ h)), hsame i (hi op List.mem_cons_self)]

/-- A command that only reads. -/
theorem runOps_reads (o : Option Robj) {ops : List BitfieldOp} (hops : ∀ op ∈ ops, op.Parsed ∧ op.opcode = .get)
    (wrapped : BitVec 64) : ∃ ran, runOps wrapped o ops = .ok ran ∧ ran.object = o := by
  induction ops with
  | nil => exact ⟨_, rfl, rfl⟩
  | cons op ops ih =>
    have hop := hops op List.mem_cons_self
    obtain ⟨rest, hrest, hobject⟩ := ih (fun op' h => hops op' (List.mem_cons_of_mem _ h))
    obtain ⟨reply, hreply⟩ := readOp_total o hop.1
    rw [runOps, runOp.eq_def, if_pos hop.2, hreply, Outcome.ok_bind, Outcome.ok_bind, hrest, Outcome.ok_bind]
    exact ⟨_, rfl, hobject⟩

/-- What a command on an absent key or a string leaves: what was there, unless it writes;
    then a string that ends at the byte of the highest bit that is written, or where it
    ended before. -/
theorem bitfieldCommand_frame {o : Option Robj} (ho : IsString o) (argv : List Bytes) (wrapped : BitVec 64) :
    (∃ reply, bitfieldOps .wrap (argv.drop 2) = .error reply ∧
      bitfieldCommand wrapped o argv = .ok { object := o, replies := [reply], dirty := 0 }) ∨
    (∃ parsed ran, bitfieldOps .wrap (argv.drop 2) = .ok parsed ∧ bitfieldCommand wrapped o argv = .ok ran ∧
      parsed.readonly = true ∧ ran.object = o) ∨
    ∃ parsed ran p', bitfieldOps .wrap (argv.drop 2) = .ok parsed ∧ bitfieldCommand wrapped o argv = .ok ran ∧
      parsed.readonly = false ∧ ran.object = some (.sds p') ∧
      p'.length = max (content o).length (parsed.higest_write_offset / 8 + 1) ∧
      ∀ i, (∀ op ∈ parsed.ops, ¬op.Writes i) → bitAt p' i = bitsOf o i := by
  rw [bitfieldCommand]
  cases hparsed : bitfieldOps .wrap (argv.drop 2) with
  | error reply => exact Or.inl ⟨reply, rfl, rfl⟩
  | ok parsed =>
    have hsound := bitfieldOps_spec hparsed
    right
    dsimp only
    cases hreadonly : parsed.readonly with
    | true =>
      left
      obtain ⟨ran, hran, hobject⟩ := runOps_reads o
        (fun op hop => ⟨hsound.ops op hop, hsound.readonly hreadonly op hop⟩) wrapped
      rw [if_pos rfl, if_neg ho, replyOps, hran, Outcome.ok_bind]
      exact ⟨parsed, _, rfl, rfl, hreadonly, hobject⟩
    | false =>
      right
      obtain ⟨p, hp, hbits, hlen, hroom⟩ := lookupStringForBitCommand_length ho parsed.higest_write_offset
      have hallroom : ∀ op ∈ parsed.ops, op.opcode ≠ .get → op.offset + op.bits ≤ 8 * p.length := by
        intro op hop hwrite
        have hhigh := (hsound.write op hop hwrite).2
        have hpos := (hsound.ops op hop).pos
        omega
      obtain ⟨ran, p', hran, hobject, hlen', hsame⟩ := runOps_frame hsound.ops hallroom wrapped
      rw [if_neg (by simp), hp]
      dsimp only
      rw [replyOps, hran, Outcome.ok_bind]
      refine ⟨parsed, _, p', rfl, rfl, hreadonly, hobject, hlen'.trans hlen, ?_⟩
      intro i hi
      rw [hsame i hi, hbits]

/-- A command with one operation that writes. -/
theorem bitfieldCommand_one {o : Option Robj} (ho : IsString o) (hwrite : op.opcode ≠ .get) {args : List Bytes}
    (hparsed : bitfieldOps .wrap args = .ok (Parsed.cons op ⟨[], true, 0⟩)) (cmd key : Bytes)
    (wrapped : BitVec 64) :
    ∃ p, bitAt p = bitsOf o ∧ op.offset + op.bits ≤ 8 * p.length ∧
      ∀ p' reply, writeOp wrapped p op = .ok (p', reply) →
        bitfieldCommand wrapped o (cmd :: key :: args)
          = .ok { object := some (.sds p'), replies := [.multiBulkLen 1, reply], dirty := 1 } := by
  have hcons : Parsed.cons op ⟨[], true, 0⟩
      = { ops := [op], readonly := false, higest_write_offset := op.offset + op.bits - 1 } := by
    rw [Parsed.cons, if_neg hwrite, Nat.max_zero]
  rw [hcons] at hparsed
  have hpos := ((bitfieldOps_spec hparsed).ops op List.mem_cons_self).pos
  obtain ⟨p, hp, hbits, hroom⟩ := lookupStringForBitCommand_spec ho (op.offset + op.bits - 1)
  refine ⟨p, hbits, by omega, ?_⟩
  intro p' reply hrun
  have hdrop : (cmd :: key :: args).drop 2 = args := rfl
  rw [bitfieldCommand, hdrop, hparsed]
  dsimp only
  rw [if_neg (by simp), hp]
  dsimp only
  rw [replyOps, runOps, runOp.eq_def, if_neg hwrite]
  simp only [hrun, Outcome.ok_bind, runOps]
  rfl

end Redis.Bitops
