import Redis.Bitops.Strings

namespace Redis.Bitops

open Redis Redis.BitArray

/-!
# The size limit of strings

The commands that write into a string check where the written region ends, each with its own
arithmetic.

* `SetrangeHolds`, `AppendHolds`, `SetbitHolds`, `BitfieldHolds` — a command is refused and
  leaves the string as it was, or it changes what it addresses and nothing else and the
  string is not too long;
* `OffsetHolds` — a bit offset is accepted if it is in the range;
* `string_limits` — when they hold.
-/

/-- SETRANGE. -/
def SetrangeHolds (o : Option Robj) (argv : List Bytes) : Prop :=
  Refused o (setrangeCommand o argv) ∨
  ∃ offset : Nat, string2ll (argv.getD 2 []) = some (offset : Int) ∧
    Overwritten o (setrangeCommand o argv).object offset (argv.getD 3 []) ∧
    (content (setrangeCommand o argv).object).length ≤ LIMIT

/-- APPEND. -/
def AppendHolds (o : Option Robj) (argv : List Bytes) : Prop :=
  Refused o (appendCommand o argv) ∨
  (Overwritten o (appendCommand o argv).object (content o).length (argv.getD 2 []) ∧
    (content (appendCommand o argv).object).length ≤ LIMIT)

/-- SETBIT. -/
def SetbitHolds (o : Option Robj) (argv : List Bytes) : Prop :=
  ∃ ran, setbitCommand o argv = .ok ran ∧
    (Refused o ran ∨
      ∃ (bitoffset : Nat) (v : Bool), getBitOffsetFromArgument (argv.getD 2 []) false 0 = .ok bitoffset ∧
        string2ll (argv.getD 3 []) = some (v.toNat : Int) ∧ IsString ran.object ∧
        (content ran.object).length ≤ LIMIT ∧ bitsOf ran.object = fun i => if i = bitoffset then v else bitsOf o i)

/-- BITFIELD. -/
def BitfieldHolds (wrapped : BitVec 64) (o : Option Robj) (argv : List Bytes) : Prop :=
  ∃ ran, bitfieldCommand wrapped o argv = .ok ran ∧
    (Refused o ran ∨
      ∃ parsed, bitfieldOps .wrap (argv.drop 2) = .ok parsed ∧ IsString ran.object ∧
        (content ran.object).length ≤ LIMIT ∧
        ∀ i, (∀ op ∈ parsed.ops, ¬op.Writes i) → bitsOf ran.object i = bitsOf o i)

/-- The number in an argument. -/
def offsetNumber (p : Bytes) (hash : Bool) (bits : Nat) : Option Int :=
  string2ll (p.drop (decide (p.head? = some 35 ∧ hash ∧ 0 < bits)).toNat)

/-- The bit offset that an argument means: its number, or that times the width. -/
def bitOffset (p : Bytes) (hash : Bool) (bits : Nat) : Option Int :=
  (offsetNumber p hash bits).map (fun n => if p.head? = some 35 ∧ hash ∧ 0 < bits then n * bits else n)

/-- An offset is accepted if and only if it is in the range. -/
def OffsetHolds (p : Bytes) (hash : Bool) (bits : Nat) : Prop :=
  (∃ offset, getBitOffsetFromArgument p hash bits = .ok offset) ↔
    ∃ m, bitOffset p hash bits = some m ∧ 0 ≤ m ∧ m < 2 ^ 32

/-! ### The commands -/

variable {o : Option Robj}

/-- SETRANGE holds unless the end of the bytes does not fit a `long long`. -/
theorem setrangeHolds_iff (ho : IsString o) (hlen : (content o).length ≤ LIMIT) {argv : List Bytes}
    (hargs : (argv.getD 3 []).length ≤ LIMIT) :
    SetrangeHolds o argv ↔ ∀ offset, string2ll (argv.getD 2 []) = some offset →
      argv.getD 3 [] = [] ∨ offset + (argv.getD 3 []).length < 2 ^ 63 := by
  have hlimit : LIMIT = 536870912 := rfl
  obtain hrefused | ⟨offset, hoffset, hrun, hnil⟩ := setrangeCommand_cases ho argv
  · -- the offset is no number, or negative
    refine ⟨fun _ offset hoffset => Or.inr ?_, fun _ => Or.inl hrefused⟩
    rw [setrangeCommand, getLongFromObjectOrReply, hoffset] at hrefused
    dsimp only at hrefused
    obtain ⟨hlo, hhi, -⟩ := string2ll_eq hoffset
    by_cases hneg : offset < 0
    · omega
    · rw [if_neg hneg] at hrefused
      by_contra hlarge
      have hvalue : argv.getD 3 [] ≠ [] := by
        intro h
        rw [h, List.length_nil] at hlarge
        omega
      obtain ⟨-, hwrite⟩ := setrangeLookup_spec ho offset.toNat hvalue (by omega)
      have hlong := toLongLong_eq (show offset.toNat + (argv.getD 3 []).length < 2 ^ 64 by omega)
      rw [if_neg (by omega)] at hlong
      have hcheck : checkStringLength (toLongLong (offset.toNat + (argv.getD 3 []).length)) = true := by
        rw [hlong, checkStringLength]
        simp only [decide_eq_true_eq]
        omega
      obtain ⟨o', reply, hset, -⟩ := hwrite hcheck
      obtain ⟨reply', hreply, hsame⟩ := hrefused
      rw [hset] at hsame
      simp [untouched] at hsame
  · obtain ⟨hlo, hhi, -⟩ := string2ll_eq hoffset
    by_cases hvalue : argv.getD 3 [] = []
    · obtain ⟨reply, hreply⟩ := hnil hvalue
      refine ⟨fun _ offset' hoffset' => Or.inl hvalue, fun _ => Or.inr ⟨offset, hoffset, ?_⟩⟩
      rw [hrun, hreply, hvalue]
      exact ⟨overwritten_nil ho offset, hlen⟩
    · obtain ⟨hrefuse, hwrite⟩ := setrangeLookup_spec ho offset hvalue (by omega)
      have hlong := toLongLong_eq (show offset + (argv.getD 3 []).length < 2 ^ 64 by omega)
      have hiff : (∀ offset', string2ll (argv.getD 2 []) = some offset' →
          argv.getD 3 [] = [] ∨ offset' + (argv.getD 3 []).length < 2 ^ 63)
          ↔ offset + (argv.getD 3 []).length < 2 ^ 63 := by
        constructor
        · intro h
          have := (h offset hoffset).resolve_left hvalue
          omega
        · intro h offset' hoffset'
          rw [hoffset] at hoffset'
          cases hoffset'
          right
          omega
      rw [hiff, SetrangeHolds, hrun]
      by_cases hfits : offset + (argv.getD 3 []).length < 2 ^ 63
      · refine ⟨fun _ => hfits, fun _ => ?_⟩
        rw [if_pos hfits] at hlong
        by_cases hlarge : LIMIT < offset + (argv.getD 3 []).length
        · left
          have hcheck : checkStringLength (toLongLong (offset + (argv.getD 3 []).length)) = false := by
            rw [hlong, checkStringLength]
            simp only [decide_eq_false_iff_not]
            omega
          rw [hrefuse hcheck]
          exact refused_untouched _ _
        · right
          have hcheck : checkStringLength (toLongLong (offset + (argv.getD 3 []).length)) = true := by
            rw [hlong, checkStringLength]
            simp only [decide_eq_true_eq]
            omega
          obtain ⟨o', reply, hset, hover⟩ := hwrite hcheck
          rw [hset]
          refine ⟨offset, hoffset, hover, ?_⟩
          rw [hover.length, if_neg hvalue]
          omega
      · -- the length is negative, and the string grows to 2 ^ 63 bytes or more
        rw [if_neg (by omega)] at hlong
        have hcheck : checkStringLength (toLongLong (offset + (argv.getD 3 []).length)) = true := by
          rw [hlong, checkStringLength]
          simp only [decide_eq_true_eq]
          omega
        obtain ⟨o', reply, hset, hover⟩ := hwrite hcheck
        have hgrown := hover.length
        rw [if_neg hvalue] at hgrown
        refine ⟨?_, fun h => absurd h hfits⟩
        rintro (⟨reply', -, hsame⟩ | ⟨offset', -, -, hshort⟩)
        · rw [hset] at hsame
          simp [untouched] at hsame
        · rw [hset] at hshort
          simp only at hshort
          omega

/-- SETBIT holds. -/
theorem setbitHolds (ho : IsString o) (hlen : (content o).length ≤ LIMIT) (argv : List Bytes) :
    SetbitHolds o argv := by
  have hlimit : LIMIT = 536870912 := rfl
  obtain ⟨ran, hrun, hrefused⟩ | ⟨bitoffset, v, p, reply, hoffset, hon, hrun, hplen, hbits⟩ := setbitCommand_cases ho argv
  · exact ⟨ran, hrun, Or.inl hrefused⟩
  · have hrange := getBitOffsetFromArgument_spec hoffset
    refine ⟨_, hrun, Or.inr ⟨bitoffset, v, hoffset, hon, by simp [IsString], ?_, hbits⟩⟩
    change p.length ≤ LIMIT
    omega

/-- BITFIELD holds unless an operation writes beyond the last bit of the longest string. -/
theorem bitfieldHolds_iff (ho : IsString o) (hlen : (content o).length ≤ LIMIT) (argv : List Bytes)
    (wrapped : BitVec 64) :
    BitfieldHolds wrapped o argv ↔ ∀ parsed, bitfieldOps .wrap (argv.drop 2) = .ok parsed →
      ∀ op ∈ parsed.ops, op.opcode ≠ .get → op.offset + op.bits ≤ 2 ^ 32 := by
  have hlimit : LIMIT = 536870912 := rfl
  obtain ⟨reply, hparsed, hrun⟩ | ⟨parsed, ran, hparsed, hrun, hreadonly, hobject⟩
    | ⟨parsed, ran, p', hparsed, hrun, hreadonly, hobject, hplen, hsame⟩ := bitfieldCommand_frame ho argv wrapped
  · refine ⟨fun _ parsed' hparsed' => ?_, fun _ => ⟨_, hrun, Or.inl ⟨reply, bitfieldOps_error hparsed, rfl⟩⟩⟩
    rw [hparsed] at hparsed'
    cases hparsed'
  · have hsound := bitfieldOps_spec hparsed
    refine ⟨fun _ parsed' hparsed' op hop hwrite => ?_, fun _ => ⟨ran, hrun, Or.inr ⟨parsed, hparsed, ?_⟩⟩⟩
    · rw [hparsed] at hparsed'
      cases hparsed'
      exact absurd (hsound.readonly hreadonly op hop) hwrite
    · rw [hobject]
      exact ⟨ho, hlen, fun _ _ => rfl⟩
  · have hsound := bitfieldOps_spec hparsed
    constructor
    · -- a string that is not too long has no such operation
      rintro ⟨ran', hrun', hholds⟩ parsed' hparsed' op hop hwrite
      rw [hparsed] at hparsed'
      cases hparsed'
      rw [hrun] at hrun'
      cases hrun'
      have hcontent : content ran.object = p' := by rw [hobject]; rfl
      have hshort : p'.length ≤ LIMIT := by
        obtain ⟨reply, -, hleft⟩ | ⟨-, -, -, hshort, -⟩ := hholds
        · rw [hleft] at hcontent
          rw [← hcontent]
          exact hlen
        · rwa [hcontent] at hshort
      have hhigh := (hsound.write op hop hwrite).2
      omega
    · intro hops
      have hhigh := higest_write_offset_lt hparsed (by norm_num) (hops parsed hparsed)
      refine ⟨ran, hrun, Or.inr ⟨parsed, hparsed, ?_, ?_, ?_⟩⟩
      · rw [hobject]
        simp [IsString]
      · rw [hobject]
        change p'.length ≤ LIMIT
        omega
      · rw [hobject]
        exact hsame

/-- Offsets are accepted as they should be unless the product with the width is in the range
    only because it wraps. -/
theorem offsetHolds_iff (p : Bytes) (hash : Bool) (bits : Nat) :
    OffsetHolds p hash bits ↔ ∀ m, bitOffset p hash bits = some m →
      0 ≤ m.bmod (2 ^ 64) ∧ m.bmod (2 ^ 64) < 2 ^ 32 → 0 ≤ m ∧ m < 2 ^ 32 := by
  have haccept : (∃ offset, getBitOffsetFromArgument p hash bits = .ok offset) ↔
      ∃ m, bitOffset p hash bits = some m ∧ 0 ≤ m.bmod (2 ^ 64) ∧ m.bmod (2 ^ 64) < 2 ^ 32 := by
    rw [getBitOffsetFromArgument, bitOffset, offsetNumber]
    dsimp only
    cases hnumber : string2ll (p.drop (decide (p.head? = some 35 ∧ hash = true ∧ 0 < bits)).toNat) with
    | none => simp
    | some n =>
      obtain ⟨hlo, hhi, -⟩ := string2ll_eq hnumber
      have hsame : n.bmod (2 ^ 64) = n := Int.bmod_eq_of_le_mul_two (by omega) (by omega)
      -- what is tested is the product as it wraps
      have hloffset : (if decide (p.head? = some 35 ∧ hash = true ∧ 0 < bits) = true then (n * bits).bmod (2 ^ 64) else n)
          = (if p.head? = some 35 ∧ hash = true ∧ 0 < bits then n * bits else n).bmod (2 ^ 64) := by
        by_cases hhash : p.head? = some 35 ∧ hash = true ∧ 0 < bits
        · rw [if_pos (by simpa using hhash), if_pos hhash]
        · rw [if_neg (by simpa using hhash), if_neg hhash, hsame]
      dsimp only
      rw [hloffset]
      simp only [Option.map_some, Option.some.injEq, exists_eq_left']
      generalize (if p.head? = some 35 ∧ hash = true ∧ 0 < bits then n * bits else n).bmod (2 ^ 64) = l
      by_cases hrange : l < 0 ∨ l.toNat >>> 3 ≥ 512 * 1024 * 1024
      · rw [if_pos hrange]
        simp only [Nat.shiftRight_eq_div_pow] at hrange
        simp
        omega
      · rw [if_neg hrange]
        simp only [Nat.shiftRight_eq_div_pow] at hrange
        simp
        omega
  rw [OffsetHolds, haccept]
  constructor
  · rintro h m hm hwrapped
    obtain ⟨m', hm', hin⟩ := h.mp ⟨m, hm, hwrapped⟩
    rw [hm] at hm'
    cases hm'
    exact hin
  · intro h
    constructor
    · rintro ⟨m, hm, hwrapped⟩
      exact ⟨m, hm, h m hm hwrapped⟩
    · rintro ⟨m, hm, hlo, hhi⟩
      have hsame : m.bmod (2 ^ 64) = m := Int.bmod_eq_of_le_mul_two (by omega) (by omega)
      exact ⟨m, hm, by rw [hsame]; exact ⟨hlo, hhi⟩⟩

/-! ### The limit -/

/-- The commands and the offsets on an absent key or a string of at most 512 MB, with
    arguments that are no longer than the requests allow.  APPEND and SETBIT always hold;
    SETRANGE unless the end of the bytes is 2 ^ 63 or beyond, BITFIELD unless an operation
    writes beyond bit 2 ^ 32, and an offset unless the product with the width wraps into
    the range. -/
theorem string_limits {o : Option Robj} (ho : IsString o) (hlen : (content o).length ≤ LIMIT) {argv : List Bytes}
    (hargs : ∀ arg ∈ argv, arg.length ≤ LIMIT) (wrapped : BitVec 64) (p : Bytes) (hash : Bool) (bits : Nat) :
    (SetrangeHolds o argv ↔ ∀ offset, string2ll (argv.getD 2 []) = some offset →
      argv.getD 3 [] = [] ∨ offset + (argv.getD 3 []).length < 2 ^ 63) ∧
    AppendHolds o argv ∧ SetbitHolds o argv ∧
    (BitfieldHolds wrapped o argv ↔ ∀ parsed, bitfieldOps .wrap (argv.drop 2) = .ok parsed →
      ∀ op ∈ parsed.ops, op.opcode ≠ .get → op.offset + op.bits ≤ 2 ^ 32) ∧
    (OffsetHolds p hash bits ↔ ∀ m, bitOffset p hash bits = some m →
      0 ≤ m.bmod (2 ^ 64) ∧ m.bmod (2 ^ 64) < 2 ^ 32 → 0 ≤ m ∧ m < 2 ^ 32) := by
  have hget : ∀ i, (argv.getD i []).length ≤ LIMIT := by
    intro i
    by_cases hi : i < argv.length
    · rw [List.getD_eq_getElem _ _ hi]
      exact hargs _ (List.getElem_mem hi)
    · rw [List.getD_eq_default _ _ (by omega)]
      exact Nat.zero_le _
  exact ⟨setrangeHolds_iff ho hlen (hget 3), appendCommand_spec ho hlen (hget 2), setbitHolds ho hlen argv,
    bitfieldHolds_iff ho hlen argv wrapped, offsetHolds_iff p hash bits⟩

/-- One byte is set behind the end of a string, and the offset `#2` of fields of 8 bits is
    accepted. -/
theorem string_limits_byte : SetrangeHolds (some (.sds [1])) [[], [], [53], [65]] ∧ OffsetHolds [35, 50] true 8 := by
  obtain ⟨hsetrange, -, -, -, hoffset⟩ := string_limits (show IsString (some (.sds [1])) by decide) (by decide)
    (show ∀ arg ∈ [[], [], [53], [65]], arg.length ≤ LIMIT by decide) 0#64 [35, 50] true 8
  constructor
  · apply hsetrange.mpr
    intro offset h
    have hfive : string2ll ([[], [], [53], [65]].getD 2 []) = some 5 := by decide
    rw [hfive] at h
    cases h
    right
    decide
  · apply hoffset.mpr
    intro m h _
    have hsixteen : bitOffset [35, 50] true 8 = some 16 := by decide
    rw [hsixteen] at h
    cases h
    decide

/-- The offset `#288230376151711744` of a field of 64 bits is 2 ^ 64, and is accepted as
    zero. -/
theorem offset_wraps : ¬∀ (o : Option Robj) (argv : List Bytes) (wrapped : BitVec 64) (p : Bytes) (hash : Bool)
    (bits : Nat), IsString o → o ≠ none → (content o).length ≤ LIMIT → (∀ arg ∈ argv, arg.length ≤ LIMIT) →
    SetrangeHolds o argv ∧ AppendHolds o argv ∧ SetbitHolds o argv ∧ BitfieldHolds wrapped o argv ∧
    OffsetHolds p hash bits := by
  intro hall
  obtain ⟨p, hp⟩ : ∃ p : Bytes,
      p = [35, 50, 56, 56, 50, 51, 48, 51, 55, 54, 49, 53, 49, 55, 49, 49, 55, 52, 52] := ⟨_, rfl⟩
  have hoffset := (hall (some (.sds [])) [] 0#64 p true 64 (by decide) (by decide) (by decide) (by decide)).2.2.2.2
  have hnumber : bitOffset p true 64 = some 18446744073709551616 := by
    rw [hp]
    decide
  have hin := (offsetHolds_iff p true 64).mp hoffset _ hnumber (by decide)
  omega

end Redis.Bitops
