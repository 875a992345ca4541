import Redis.Bitops.Frame
import Redis.Lib.Words

namespace Redis.Bitops

open Redis Redis.BitArray

/-!
# SETRANGE, APPEND and SETBIT

The other commands that write into the string of a key.  A `size_t` has 64 bits and is
`long long` when the length of a string is checked; memory is not exhausted.

* `setrangeCommand`, `appendCommand`, `setbitCommand`;
* `setrangeCommand_spec`, `appendCommand_spec`, `setbitCommand_spec` — the string that each
  leaves.
-/

/-- `getLongFromObjectOrReply` of an argument; `long` has 64 bits too. -/
def getLongFromObjectOrReply (p : Bytes) (msg : Option String) : Except Reply Int :=
  match string2ll p with
  | none       => .error (.error (msg.getD "value is not an integer or out of range"))
  | some value => .ok value

/-- `checkStringLength`: `C_OK`, or the reply below. -/
def checkStringLength (size : Int) : Bool := ¬size > 512 * 1024 * 1024

/-- What `checkStringLength` replies. -/
def stringExceeds : Reply := .error "string exceeds maximum allowed size (512MB)"

/-- A `size_t` passed for a `long long`. -/
def toLongLong (n : Nat) : Int := (n : Int).bmod 18446744073709551616

/-- `sdigits10`. -/
def sdigits10 (v : Int) : Nat :=
  if v < 0 then digits10 (if v ≠ LLONG_MIN then (-v).toNat else LLONG_MAX + 1) + 1 else digits10 v.toNat

/-- `stringObjectLen`. -/
def stringObjectLen : Robj → Nat
  | .sds ptr => ptr.length
  | .int ptr => sdigits10 ptr.toInt
  | .other   => 0

/-- `tryObjectEncoding` of an argument. -/
def tryObjectEncoding (s : Bytes) : Robj :=
  if s.length ≤ 20 then
    match string2ll s with
    | some value => .int (BitVec.ofInt 64 value)
    | none       => .sds s
  else .sds s

/-- `memcpy((char*)p+offset,value,sdslen(value))`. -/
def overwrite (p : Bytes) (offset : Nat) (value : Bytes) : Bytes := Words.splice p offset value

/-- A command that replies and leaves the value alone. -/
def untouched (o : Option Robj) (reply : Reply) : Ran := { object := o, replies := [reply], dirty := 0 }

/-- `offset+sdslen(value)`, which is a `size_t`. -/
def rangeEnd (offset : Nat) (value : Bytes) : Nat := (offset + value.length) % 18446744073709551616

/-- The part of `setrangeCommand` from the check of the length on, for the string `p`. -/
def setRange (o : Option Robj) (p : Bytes) (offset : Nat) (value : Bytes) : Ran :=
  if checkStringLength (toLongLong (rangeEnd offset value)) then
    let p := overwrite (sdsgrowzero p (rangeEnd offset value)) offset value
    { object := some (.sds p), replies := [.longLong p.length], dirty := 1 }
  else untouched o stringExceeds

/-- `setrangeCommand` from the lookup of the key on. -/
def setrangeLookup (o : Option Robj) (offset : Nat) (value : Bytes) : Ran :=
  match o with
  | none =>
      -- return 0 when setting nothing on a non-existing string
      if value.length = 0 then untouched none (.longLong 0)
      else setRange none (List.replicate (rangeEnd offset value) 0) offset value
  | some .other => untouched o .wrongtypeerr
  | some s =>
      -- return existing string length when setting nothing
      if value.length = 0 then untouched o (.longLong (stringObjectLen s))
      else setRange o (dbUnshareStringValue s) offset value

/-- `setrangeCommand`. -/
def setrangeCommand (o : Option Robj) (argv : List Bytes) : Ran :=
  match getLongFromObjectOrReply (argv.getD 2 []) none with
  | .error reply => untouched o reply
  | .ok offset =>
      if offset < 0 then untouched o (.error "offset is out of range")
      else setrangeLookup o offset.toNat (argv.getD 3 [])

/-- The part of `appendCommand` for a key that exists. -/
def appendString (s : Robj) (append : Bytes) : Ran :=
  if checkStringLength (toLongLong ((stringObjectLen s + append.length) % 18446744073709551616)) then
    let p := dbUnshareStringValue s ++ append
    { object := some (.sds p), replies := [.longLong p.length], dirty := 1 }
  else untouched (some s) stringExceeds

/-- `appendCommand`. -/
def appendCommand (o : Option Robj) (argv : List Bytes) : Ran :=
  match o with
  | none =>
      -- create the key
      let o := tryObjectEncoding (argv.getD 2 [])
      { object := some o, replies := [.longLong (stringObjectLen o)], dirty := 1 }
  | some .other => untouched o .wrongtypeerr
  | some s => appendString s (argv.getD 2 [])

/-- `setbitCommand` from the lookup of the key on: update the byte with the new bit value and
    return the original value. -/
def setbitLookup (o : Option Robj) (bitoffset : Nat) (on : BitVec 64) : Except Fault Ran :=
  match lookupStringForBitCommand o bitoffset with
  | .error reply => .ok (untouched o reply)
  | .ok p =>
      let byte := bitoffset >>> 3
      match p[byte]? with
      | none => .error .outOfBounds
      | some b =>
          let byteval := b.toBitVec.setWidth 64
          let bit := 7 - (bitoffset &&& 7)
          let bitval := byteval &&& (1#64 <<< bit)
          let byteval := byteval &&& ~~~(1#64 <<< bit)
          let byteval := byteval ||| ((on &&& 1#64) <<< bit)
          .ok { object := some (.sds (p.set byte ⟨(byteval &&& 0xff).setWidth 8⟩)), dirty := 1,
                replies := [.longLong (if bitval ≠ 0#64 then 1 else 0)] }

/-- `setbitCommand`. -/
def setbitCommand (o : Option Robj) (argv : List Bytes) : Except Fault Ran :=
  let err := "bit is not an integer or out of range"
  match getBitOffsetFromArgument (argv.getD 2 []) false 0 with
  | .error reply => .ok (untouched o reply)
  | .ok bitoffset =>
      match getLongFromObjectOrReply (argv.getD 3 []) (some err) with
      | .error reply => .ok (untouched o reply)
      | .ok on =>
          -- bits can only be set or cleared
          if BitVec.ofInt 64 on &&& ~~~1#64 ≠ 0#64 then .ok (untouched o (.error err))
          else setbitLookup o bitoffset (BitVec.ofInt 64 on)

/-! ### Lengths -/

/-- `stringObjectLen` counts the bytes. -/
theorem stringObjectLen_eq {o : Robj} (ho : IsString (some o)) : stringObjectLen o = (content (some o)).length := by
  cases o with
  | sds ptr => rfl
  | int ptr =>
    have hlo := BitVec.le_toInt (x := ptr)
    have hhi := BitVec.toInt_lt (x := ptr)
    change sdigits10 ptr.toInt = (ll2string 21 ptr.toInt).length
    rw [ll2string_eq_of_le (by omega) (by omega) (by omega), sdigits10]
    by_cases hneg : ptr.toInt < 0
    · have habs : (if ptr.toInt ≠ LLONG_MIN then (-ptr.toInt).toNat else LLONG_MAX + 1) = ptr.toInt.natAbs := by
        rw [LLONG_MIN, LLONG_MAX]
        split <;> omega
      rw [if_pos hneg, if_pos hneg, habs, digits10_eq_length (by omega), List.length_append]
      simp [Nat.add_comm]
    · have habs : ptr.toInt.toNat = ptr.toInt.natAbs := by omega
      rw [if_neg hneg, if_neg hneg, habs, digits10_eq_length (by omega), List.nil_append]
  | other => exact absurd rfl ho

/-- An argument that is encoded keeps its bytes. -/
theorem content_tryObjectEncoding (s : Bytes) :
    IsString (some (tryObjectEncoding s)) ∧ content (some (tryObjectEncoding s)) = s := by
  rw [tryObjectEncoding]
  by_cases hlen : s.length ≤ 20
  · rw [if_pos hlen]
    cases hs : string2ll s with
    | none => exact ⟨by simp [IsString], rfl⟩
    | some value =>
      refine ⟨by simp [IsString], ?_⟩
      change ll2string 21 (BitVec.ofInt 64 value).toInt = s
      rw [toInt_ofInt hs]
      obtain ⟨hlo, hhi, -⟩ := string2ll_eq hs
      rw [ll2string_eq_of_le (by omega) (by omega) (by omega), ← ll2string_eq (by omega) (by omega),
        ll2string_string2ll hs]
  · rw [if_neg hlen]
    exact ⟨by simp [IsString], rfl⟩

/-- The bytes that are written out are those that are read. -/
theorem dbUnshareStringValue_eq {o : Robj} (ho : IsString (some o)) : dbUnshareStringValue o = content (some o) := by
  cases o with
  | sds ptr => rfl
  | int ptr => exact ll2string_buffer ptr
  | other   => exact absurd rfl ho

theorem toLongLong_eq {n : Nat} (h : n < 2 ^ 64) : toLongLong n = if n < 2 ^ 63 then (n : Int) else (n : Int) - 2 ^ 64 := by
  unfold toLongLong
  rw [Int.bmod_def]
  push_cast
  split_ifs <;> omega

/-! ### SETRANGE and APPEND -/

/-- The greatest length of a string. -/
def LIMIT : Nat := 512 * 1024 * 1024

/-- The command replied with an error and left the value as it was. -/
def Refused (o : Option Robj) (ran : Ran) : Prop :=
  ∃ reply : Reply, reply.IsError ∧ ran = untouched o reply

theorem refused_untouched (o : Option Robj) (err : String) : Refused o (untouched o (.error err)) :=
  ⟨.error err, trivial, rfl⟩

/-- The bytes from `offset` on are those of `value`, the others are as they were, with zeros
    where the string had ended, and the string is not longer than it has to be. -/
structure Overwritten (o o' : Option Robj) (offset : Nat) (value : Bytes) : Prop where
  string : IsString o'
  length : (content o').length
    = if value = [] then (content o).length else max (content o).length (offset + value.length)
  byte : ∀ i, (content o').getD i 0
    = if offset ≤ i ∧ i < offset + value.length then value.getD (i - offset) 0 else (content o).getD i 0

theorem length_sdsgrowzero (p : Bytes) (len : Nat) : (sdsgrowzero p len).length = max p.length len := by
  rw [sdsgrowzero, List.length_append, List.length_replicate]
  omega

theorem getD_sdsgrowzero (p : Bytes) (len i : Nat) : (sdsgrowzero p len).getD i 0 = p.getD i 0 := by
  rw [sdsgrowzero]
  by_cases hin : i < p.length
  · rw [List.getD_append _ _ _ _ hin]
  · rw [List.getD_append_right _ _ _ _ (by omega), List.getD_eq_default p 0 (by omega)]
    by_cases hpad : i - p.length < len - p.length
    · simp [List.getD_eq_getElem?_getD, hpad]
    · rw [List.getD_eq_default _ _ (by simp; omega)]

theorem length_overwrite {p value : Bytes} {offset : Nat} (h : offset + value.length ≤ p.length) :
    (overwrite p offset value).length = p.length :=
  Words.length_splice h

theorem getD_overwrite {p value : Bytes} {offset : Nat} (h : offset + value.length ≤ p.length) (i : Nat) :
    (overwrite p offset value).getD i 0
      = if offset ≤ i ∧ i < offset + value.length then value.getD (i - offset) 0 else p.getD i 0 :=
  Words.getD_splice h i 0

variable {o : Option Robj}

/-- Zeros as far as the end of the copy, and the copy. -/
theorem overwritten_grow {p : Bytes} (hp : ∀ i, p.getD i 0 = (content o).getD i 0) {offset : Nat}
    {value : Bytes} (hvalue : value ≠ [])
    (hlen : max p.length (offset + value.length) = max (content o).length (offset + value.length)) :
    Overwritten o (some (.sds (overwrite (sdsgrowzero p (offset + value.length)) offset value))) offset value := by
  have hroom : offset + value.length ≤ (sdsgrowzero p (offset + value.length)).length := by
    rw [length_sdsgrowzero]
    exact le_max_right _ _
  constructor
  · simp [IsString]
  · change (overwrite _ _ _).length = _
    rw [length_overwrite hroom, length_sdsgrowzero, if_neg hvalue, hlen]
  · intro i
    change (overwrite _ _ _).getD i 0 = _
    rw [getD_overwrite hroom, getD_sdsgrowzero, hp]

/-- Nothing is written. -/
theorem overwritten_nil (ho : IsString o) (offset : Nat) : Overwritten o o offset [] := by
  refine ⟨ho, by rw [if_pos rfl], ?_⟩
  intro i
  rw [if_neg (by simp)]

theorem setrangeLookup_some {s : Robj} (hs : IsString (some s)) (offset : Nat) (value : Bytes) :
    setrangeLookup (some s) offset value
      = if value.length = 0 then untouched (some s) (.longLong (stringObjectLen s))
        else setRange (some s) (dbUnshareStringValue s) offset value := by
  cases s with
  | sds ptr | int ptr => rfl
  | other   => exact absurd rfl hs

/-- The bytes are written, unless their end is refused as a `long long`. -/
theorem setrangeLookup_spec (ho : IsString o) (offset : Nat) {value : Bytes} (hvalue : value ≠ [])
    (hsize : offset + value.length < 2 ^ 64) :
    (checkStringLength (toLongLong (offset + value.length)) = false →
      setrangeLookup o offset value = untouched o stringExceeds) ∧
    (checkStringLength (toLongLong (offset + value.length)) = true →
      ∃ o' reply, setrangeLookup o offset value = { object := o', replies := [.longLong reply], dirty := 1 } ∧
        Overwritten o o' offset value) := by
  have hend : rangeEnd offset value = offset + value.length := by
    unfold rangeEnd
    exact Nat.mod_eq_of_lt hsize
  have hlen0 : value.length ≠ 0 := by simpa using hvalue
  -- in every case `p` has the bytes of the value
  obtain ⟨p, hp, hlen, hlookup⟩ : ∃ p : Bytes, (∀ i, p.getD i 0 = (content o).getD i 0) ∧
      max p.length (offset + value.length) = max (content o).length (offset + value.length) ∧
      setrangeLookup o offset value = setRange o p offset value := by
    cases o with
    | none =>
      refine ⟨List.replicate (rangeEnd offset value) 0, ?_, ?_, ?_⟩
      · intro i
        simp [content]
      · simp [content, hend]
      · rw [setrangeLookup, if_neg hlen0]
    | some s =>
      have hunshare := dbUnshareStringValue_eq ho
      exact ⟨_, fun _ => rfl, rfl, by rw [setrangeLookup_some ho, if_neg hlen0, hunshare]⟩
  rw [hlookup, setRange, hend]
  constructor
  · intro hcheck
    rw [if_neg (by simp [hcheck])]
  · intro hcheck
    rw [if_pos hcheck]
    exact ⟨_, _, rfl, overwritten_grow hp hvalue hlen⟩

/-- SETRANGE: an error, no change, or the bytes. -/
theorem setrangeCommand_cases (ho : IsString o) (argv : List Bytes) :
    Refused o (setrangeCommand o argv) ∨
    ∃ offset : Nat, string2ll (argv.getD 2 []) = some (offset : Int) ∧
      setrangeCommand o argv = setrangeLookup o offset (argv.getD 3 []) ∧
      (argv.getD 3 [] = [] → ∃ reply, setrangeLookup o offset (argv.getD 3 []) = untouched o (.longLong reply)) := by
  rw [setrangeCommand, getLongFromObjectOrReply]
  cases hoffset : string2ll (argv.getD 2 []) with
  | none => exact Or.inl (refused_untouched o _)
  | some offset =>
    dsimp only
    by_cases hneg : offset < 0
    · rw [if_pos hneg]
      exact Or.inl (refused_untouched o _)
    · rw [if_neg hneg]
      refine Or.inr ⟨offset.toNat, by rw [Int.toNat_of_nonneg (by omega)], rfl, ?_⟩
      intro hnil
      rw [hnil]
      cases o with
      | none => exact ⟨_, rfl⟩
      | some s =>
        rw [setrangeLookup_some ho, if_pos (List.length_nil)]
        exact ⟨_, rfl⟩

theorem appendCommand_some {s : Robj} (hs : IsString (some s)) (argv : List Bytes) :
    appendCommand (some s) argv = appendString s (argv.getD 2 []) := by
  cases s with
  | sds ptr | int ptr => rfl
  | other   => exact absurd rfl hs

/-- What is appended begins where the string ends. -/
theorem overwritten_append {o o' : Option Robj} {append : Bytes} (hstring : IsString o')
    (hcontent : content o' = content o ++ append) : Overwritten o o' (content o).length append := by
  refine ⟨hstring, ?_, ?_⟩
  · rw [hcontent, List.length_append]
    by_cases hnil : append = []
    · simp [hnil]
    · rw [if_neg hnil]
      omega
  · intro i
    rw [hcontent]
    by_cases hin : i < (content o).length
    · rw [List.getD_append _ _ _ _ hin, if_neg (by omega)]
    · rw [List.getD_append_right _ _ _ _ (by omega)]
      by_cases hin' : i < (content o).length + append.length
      · rw [if_pos (by omega)]
      · rw [if_neg (by omega), List.getD_eq_default _ _ (by omega), List.getD_eq_default _ _ (by omega)]

/-- The length is checked before the bytes are appended. -/
theorem appendString_spec {s : Robj} (hs : IsString (some s)) {append : Bytes}
    (hlen : (content (some s)).length + append.length < 2 ^ 63) :
    (LIMIT < (content (some s)).length + append.length → appendString s append = untouched (some s) stringExceeds) ∧
    ((content (some s)).length + append.length ≤ LIMIT → ∃ reply, appendString s append
      = { object := some (.sds (content (some s) ++ append)), replies := [reply], dirty := 1 }) := by
  have hunshare := dbUnshareStringValue_eq hs
  have hobjlen := stringObjectLen_eq hs
  have hlimit : LIMIT = 536870912 := rfl
  have hmod : (stringObjectLen s + append.length) % 18446744073709551616 = (content (some s)).length + append.length := by
    rw [hobjlen]
    omega
  have hlong := toLongLong_eq (show (content (some s)).length + append.length < 2 ^ 64 by omega)
  rw [if_pos hlen] at hlong
  have hcheck : checkStringLength (toLongLong ((content (some s)).length + append.length))
      = decide ((content (some s)).length + append.length ≤ LIMIT) := by
    rw [hlong, checkStringLength, hlimit, decide_eq_decide]
    omega
  rw [appendString, hmod, hcheck, hunshare]
  constructor
  · intro hlong
    rw [if_neg (by simp; omega)]
  · intro hshort
    rw [if_pos (by simpa using hshort)]
    exact ⟨_, rfl⟩

/-- APPEND of a value that is no longer than a string may be. -/
theorem appendCommand_spec (ho : IsString o) (hlen : (content o).length ≤ LIMIT) {argv : List Bytes}
    (happend : (argv.getD 2 []).length ≤ LIMIT) :
    Refused o (appendCommand o argv) ∨
    (Overwritten o (appendCommand o argv).object (content o).length (argv.getD 2 []) ∧
      (content (appendCommand o argv).object).length ≤ LIMIT) := by
  have hlimit : LIMIT = 536870912 := rfl
  cases o with
  | none =>
    obtain ⟨hstring, hcontent⟩ := content_tryObjectEncoding (argv.getD 2 [])
    right
    change Overwritten none (some (tryObjectEncoding (argv.getD 2 []))) _ _ ∧
      (content (some (tryObjectEncoding (argv.getD 2 [])))).length ≤ LIMIT
    exact ⟨overwritten_append hstring (by rw [hcontent]; rfl), by rw [hcontent]; exact happend⟩
  | some s =>
    obtain ⟨hlarge, hsmall⟩ := appendString_spec ho
      (show (content (some s)).length + (argv.getD 2 []).length < 2 ^ 63 by omega)
    rw [appendCommand_some ho]
    by_cases hfits : (content (some s)).length + (argv.getD 2 []).length ≤ LIMIT
    · obtain ⟨reply, hrun⟩ := hsmall hfits
      right
      rw [hrun]
      refine ⟨overwritten_append (by simp [IsString]) rfl, ?_⟩
      change (content (some s) ++ argv.getD 2 []).length ≤ LIMIT
      rw [List.length_append]
      exact hfits
    · left
      rw [hlarge (by omega)]
      exact refused_untouched _ _

/-! ### SETBIT -/

/-- One bit is set, in a string that is long enough for it. -/
theorem setbitLookup_spec (ho : IsString o) (bitoffset : Nat) (v : Bool) :
    ∃ p reply, setbitLookup o bitoffset (BitVec.ofNat 64 v.toNat)
        = .ok { object := some (.sds p), replies := [reply], dirty := 1 } ∧
      p.length = max (content o).length (bitoffset / 8 + 1) ∧
      bitAt p = fun i => if i = bitoffset then v else bitsOf o i := by
  obtain ⟨p, hp, hbits, hlen, hroom⟩ := lookupStringForBitCommand_length ho bitoffset
  have hbyte := getElem?_byte hroom
  have hset := bitAt_set hroom v
  have hone : BitVec.ofNat 64 v.toNat &&& 1#64 = BitVec.ofNat 64 v.toNat := by cases v <;> rfl
  rw [setbitLookup, hp]
  simp only [byte_eq, bit_eq, hbyte, hone]
  refine ⟨_, _, rfl, ?_, ?_⟩
  · rw [List.length_set]
    exact hlen
  · rw [hset, hbits]

/-- A word without other bits than the first one. -/
theorem bit_of_and_not_one {x : BitVec 64} (h : x &&& ~~~1#64 = 0#64) : x = 0#64 ∨ x = 1#64 := by
  have hsplit : x = x &&& 1#64 := by
    have hor : x = (x &&& ~~~1#64) ||| (x &&& 1#64) := by
      rw [← BitVec.and_or_distrib_left, BitVec.or_comm, BitVec.or_not_self, BitVec.and_allOnes]
    rw [h, BitVec.zero_or] at hor
    exact hor
  rw [BitVec.and_one_eq_setWidth_ofBool_getLsbD] at hsplit
  cases hbit : x.getLsbD 0 with
  | true =>
    rw [hbit] at hsplit
    exact Or.inr hsplit
  | false =>
    rw [hbit] at hsplit
    exact Or.inl hsplit

/-- SETBIT: an error, or the bit. -/
theorem setbitCommand_cases (ho : IsString o) (argv : List Bytes) :
    (∃ ran, setbitCommand o argv = .ok ran ∧ Refused o ran) ∨
    ∃ bitoffset v p reply, getBitOffsetFromArgument (argv.getD 2 []) false 0 = .ok bitoffset ∧
      string2ll (argv.getD 3 []) = some ((Bool.toNat v : Nat) : Int) ∧
      setbitCommand o argv = .ok { object := some (.sds p), replies := [reply], dirty := 1 } ∧
      p.length = max (content o).length (bitoffset / 8 + 1) ∧
      bitAt p = fun i => if i = bitoffset then v else bitsOf o i := by
  rw [setbitCommand]
  cases hoffset : getBitOffsetFromArgument (argv.getD 2 []) false 0 with
  | error reply =>
    have hsat := getBitOffsetFromArgument_sat (argv.getD 2 []) false 0
    rw [hoffset] at hsat
    exact Or.inl ⟨_, rfl, reply, hsat, rfl⟩
  | ok bitoffset =>
    dsimp only
    rw [getLongFromObjectOrReply]
    cases hon : string2ll (argv.getD 3 []) with
    | none => exact Or.inl ⟨_, rfl, refused_untouched o _⟩
    | some on =>
      dsimp only
      obtain ⟨hlo, hhi, -⟩ := string2ll_eq hon
      by_cases hbit : on = 0 ∨ on = 1
      · obtain ⟨v, rfl⟩ : ∃ v : Bool, on = ((Bool.toNat v : Nat) : Int) := by
          obtain rfl | rfl := hbit
          · exact ⟨false, rfl⟩
          · exact ⟨true, rfl⟩
        have hclear : ¬BitVec.ofNat 64 v.toNat &&& ~~~1#64 ≠ 0#64 := by cases v <;> decide
        rw [BitVec.ofInt_natCast, if_neg hclear]
        obtain ⟨p, reply, hrun, hlen, hbits⟩ := setbitLookup_spec ho bitoffset v
        exact Or.inr ⟨bitoffset, v, p, reply, rfl, rfl, hrun, hlen, hbits⟩
      · have hother : BitVec.ofInt 64 on &&& ~~~1#64 ≠ 0#64 := by
          intro hzero
          have hint := toInt_ofInt hon
          obtain h | h := bit_of_and_not_one hzero
          · rw [h] at hint
            exact hbit (Or.inl hint.symm)
          · rw [h] at hint
            exact hbit (Or.inr hint.symm)
        rw [if_pos hother]
        exact Or.inl ⟨_, rfl, refused_untouched o _⟩

end Redis.Bitops
