import Redis.Ziplist.Basic
import Mathlib.Tactic.IntervalCases

namespace Redis

open Buffer

/-!
# The encoding of one entry

An entry is its `prevlen` field, its head (encoding and length) and its data.  The head
and the data depend on the stored string alone; decoding them gives back their sizes and
the string.

* `zipHead`, `zipData` — the bytes written for a string;
* `zipDecodeLength_zipHead` — decoding the head;
* `zipLoadInteger_zipData` — integers survive storage;
* `prevField`, `zipDecodePrevlen_prevField` — the field that links an entry to the one
  before it.
-/

/-! ### Reading a block taken apart -/

@[simp] theorem readByte_append_right (A B : Bytes) (i : Nat) :
    readByte (A ++ B) (A.length + i) = readByte B i := by
  rw [readByte, readByte, List.getElem?_append_right (by omega), Nat.add_sub_cancel_left]

@[simp] theorem readByte_append_self (A B : Bytes) : readByte (A ++ B) A.length = readByte B 0 := by
  have h := readByte_append_right A B 0
  rwa [Nat.add_zero] at h

@[simp] theorem readByte_cons_zero (b : UInt8) (B : Bytes) : readByte (b :: B) 0 = .ok b := rfl

@[simp] theorem readByte_cons_succ (b : UInt8) (B : Bytes) (i : Nat) :
    readByte (b :: B) (i + 1) = readByte B i := rfl

theorem zipCheck_slice?_append {A B C : Bytes} {p n : Nat} (hp : p = A.length)
    (hn : n = B.length) : zipCheck (slice? (A ++ (B ++ C)) p n) = .ok B := by
  rw [slice?_append hp hn]
  rfl

theorem readLE_append {A B C : Bytes} {p n : Nat} (hp : p = A.length) (hn : n = B.length) :
    readLE (A ++ (B ++ C)) p n = .ok (leNat B) := by
  rw [readLE, zipCheck_slice?_append hp hn]
  rfl

theorem writeBytes_append {A B C D : Bytes} {p : Nat} (hp : p = A.length)
    (hlen : D.length = B.length) :
    writeBytes (A ++ (B ++ C)) p D = .ok (A ++ (D ++ C)) := by
  rw [writeBytes, overwrite?_append hp hlen]
  rfl

/-! ### Integers -/

/-- The 24-bit form: an `int32_t` without its low byte, which is zero. -/
theorem cons_drop_intBytes (v : Int) : 0 :: (intBytes 4 (v * 256)).drop 1 = intBytes 4 (v * 256) := by
  have hzero : UInt8.ofNat (v * 256 % 256 ^ 4).toNat = 0 := by
    apply UInt8.toNat_inj.mp
    rw [UInt8.toNat_ofNat']
    show (v * 256 % 256 ^ 4).toNat % 256 = 0
    omega
  rw [intBytes, leBytes, hzero]
  rfl

/-! ### The head and the data of an entry -/

/-- The encoding and length bytes written for a string. -/
def zipHead (s : Bytes) : Bytes :=
  zipEncodeLength (insertEncoding s) s.length

/-- The data bytes written for a string: the string, or the integer it is. -/
def zipData (s : Bytes) : Bytes :=
  match zipTryEncoding s with
  | some (value, encoding) => (zipSaveInteger value encoding).toOption.getD []
  | none => s

/-- Everything of an entry but its `prevlen` field. -/
def zipBody (s : Bytes) : Bytes := zipHead s ++ zipData s

/-- An integer encoding stores its value in as many bytes as `zipIntSize` says, and
    `zipLoadInteger` reads it back. -/
structure IntEncodes (value : Int) (encoding : UInt8) (bs : Bytes) : Prop where
  not_str : zipIsStr encoding = false
  ge_mask : ¬ encoding < ZIP_STR_MASK
  save : zipSaveInteger value encoding = .ok bs
  length_eq : bs.length = zipIntSize encoding
  load : ∀ A C : Bytes, zipLoadInteger (A ++ (bs ++ C)) A.length encoding = .ok value

variable {value : Int}

/-- The encodings with a fixed number of bytes. -/
theorem intEncodes_intBytes {encoding : UInt8} {w : Nat}
    (hmem : (encoding, w) ∈ [(ZIP_INT_8B, 1), (ZIP_INT_16B, 2), (ZIP_INT_32B, 4), (ZIP_INT_64B, 8)])
    (hlo : -256 ^ w ≤ 2 * value) (hhi : 2 * value < 256 ^ w) :
    IntEncodes value encoding (intBytes w value) := by
  have hload : ∀ A C : Bytes,
      zipCheck (slice? (A ++ (intBytes w value ++ C)) A.length w) = .ok (intBytes w value) :=
    fun A C => zipCheck_slice?_append rfl (length_intBytes w value).symm
  simp only [List.mem_cons, Prod.mk.injEq, List.not_mem_nil, or_false] at hmem
  rcases hmem with ⟨rfl, rfl⟩ | ⟨rfl, rfl⟩ | ⟨rfl, rfl⟩ | ⟨rfl, rfl⟩
  all_goals
    refine ⟨by decide, by decide, rfl, length_intBytes _ _, fun A C => ?_⟩
    rw [zipLoadInteger]
    simp only [show ZIP_INT_16B ≠ ZIP_INT_8B by decide, show ZIP_INT_32B ≠ ZIP_INT_8B by decide,
      show ZIP_INT_32B ≠ ZIP_INT_16B by decide, show ZIP_INT_64B ≠ ZIP_INT_8B by decide,
      show ZIP_INT_64B ≠ ZIP_INT_16B by decide, show ZIP_INT_64B ≠ ZIP_INT_32B by decide,
      show ZIP_INT_64B ≠ ZIP_INT_24B by decide, if_true, if_false, hload, bind, Except.bind, pure,
      Except.pure, bytesInt_intBytes hlo hhi]

theorem intEncodes_24 (hlo : -0x800000 ≤ value) (hhi : value ≤ 0x7fffff) :
    IntEncodes value ZIP_INT_24B ((intBytes 4 (value * 256)).drop 1) := by
  have hlen : ((intBytes 4 (value * 256)).drop 1).length = 3 := by simp
  refine ⟨by decide, by decide, rfl, hlen, fun A C => ?_⟩
  have hload := zipCheck_slice?_append (A := A) (C := C) rfl hlen.symm
  rw [zipLoadInteger]
  simp only [show ZIP_INT_24B ≠ ZIP_INT_8B by decide, show ZIP_INT_24B ≠ ZIP_INT_16B by decide,
    show ZIP_INT_24B ≠ ZIP_INT_32B by decide, if_true, if_false, hload, bind, Except.bind, pure,
    Except.pure]
  rw [cons_drop_intBytes, bytesInt_intBytes (by norm_num; omega) (by norm_num; omega),
    Int.mul_ediv_cancel _ (by norm_num)]

theorem intEncodes_imm (hlo : 0 ≤ value) (hhi : value ≤ 12) :
    IntEncodes value (ZIP_INT_IMM_MIN + UInt8.ofNat value.toNat) [] := by
  obtain ⟨n, rfl⟩ := Int.eq_ofNat_of_zero_le hlo
  have hn : n < 13 := by omega
  have hrest : ∀ n < 13, zipIsStr (ZIP_INT_IMM_MIN + UInt8.ofNat n) = false ∧
      ¬ ZIP_INT_IMM_MIN + UInt8.ofNat n < ZIP_STR_MASK ∧
      zipIntSize (ZIP_INT_IMM_MIN + UInt8.ofNat n) = 0 := by decide
  have hsave : ∀ n : Nat, n < 13 →
      zipSaveInteger (n : Int) (ZIP_INT_IMM_MIN + UInt8.ofNat n) = .ok [] := by
    intro n hn
    interval_cases n <;> rfl
  obtain ⟨h1, h2, h3⟩ := hrest n hn
  refine ⟨h1, h2, hsave n hn, h3.symm, fun A C => ?_⟩
  have himm : ∀ n : Nat, n < 13 → ∀ zl p, zipLoadInteger zl p (ZIP_INT_IMM_MIN + UInt8.ofNat n)
      = .ok (n : Int) := by
    intro n hn zl p
    interval_cases n <;> rfl
  exact himm n hn _ _

/-- Whatever `zipTryEncoding` chooses can hold the value. -/
theorem zipTryEncoding_spec {s : Bytes} {encoding : UInt8} (h : zipTryEncoding s = some (value, encoding)) :
    string2ll s = some value ∧ IntEncodes value encoding (zipData s) := by
  have hdata : ∀ bs, zipSaveInteger value encoding = .ok bs → zipData s = bs := by
    intro bs hbs
    rw [zipData, h]
    simp only
    rw [hbs]
    rfl
  suffices hex : string2ll s = some value ∧ ∃ bs, IntEncodes value encoding bs by
    obtain ⟨hs, bs, hbs⟩ := hex
    exact ⟨hs, hdata bs hbs.save ▸ hbs⟩
  rw [zipTryEncoding] at h
  split at h
  · simp at h
  split at h
  · simp at h
  rename_i v hv
  obtain ⟨hlo, hhi, -⟩ := string2ll_eq hv
  split_ifs at h with h1 h2 h3 h4 h5
  all_goals
    obtain ⟨rfl, rfl⟩ := Prod.mk.inj (Option.some.inj h)
    refine ⟨hv, ?_⟩
  · exact ⟨_, intEncodes_imm h1.1 h1.2⟩
  · exact ⟨_, intEncodes_intBytes (w := 1) (by simp) (by norm_num; omega) (by norm_num; omega)⟩
  · exact ⟨_, intEncodes_intBytes (w := 2) (by simp) (by norm_num; omega) (by norm_num; omega)⟩
  · exact ⟨_, intEncodes_24 (by omega) (by omega)⟩
  · exact ⟨_, intEncodes_intBytes (w := 4) (by simp) (by norm_num; omega) (by norm_num; omega)⟩
  · exact ⟨_, intEncodes_intBytes (w := 8) (by simp) (by norm_num; omega) (by norm_num; omega)⟩

/-- The length of a string survives its encoding, in each of the three forms. -/
theorem zipDecodeLength_str {n : Nat} (hn : n < 2 ^ 32) (A C : Bytes) :
    ∃ encoding, zipIsStr encoding = true ∧
      zipDecodeLength (A ++ (zipEncodeLength 0 n ++ C)) A.length
        = .ok (encoding, (zipEncodeLength 0 n).length, n) := by
  have hstr : zipIsStr 0 = true := by decide
  by_cases h6 : n ≤ 0x3f
  · -- six bits, in the encoding byte
    have hb : ∀ n ≤ 0x3f, (ZIP_STR_06B ||| UInt8.ofNat n) < ZIP_STR_MASK ∧
        (ZIP_STR_06B ||| UInt8.ofNat n) &&& ZIP_STR_MASK = ZIP_STR_06B ∧
        (ZIP_STR_06B ||| UInt8.ofNat n).toNat &&& 0x3f = n := by decide
    obtain ⟨h1, h2, h3⟩ := hb n h6
    have henc : zipEncodeLength 0 n = [ZIP_STR_06B ||| UInt8.ofNat n] := by
      rw [zipEncodeLength, if_pos hstr, if_pos h6]
    refine ⟨ZIP_STR_06B, by decide, ?_⟩
    rw [henc, zipDecodeLength]
    simp only [List.cons_append, List.nil_append, readByte_append_self, readByte_cons_zero, bind,
      Except.bind, h1, h2, h3, if_true, show ZIP_STR_06B < ZIP_STR_MASK by decide]
    rfl
  by_cases h14 : n ≤ 0x3fff
  · -- fourteen bits, the high ones in the encoding byte
    have hb : ∀ h ≤ 0x3f, (ZIP_STR_14B ||| UInt8.ofNat h) < ZIP_STR_MASK ∧
        (ZIP_STR_14B ||| UInt8.ofNat h) &&& ZIP_STR_MASK = ZIP_STR_14B ∧
        (ZIP_STR_14B ||| UInt8.ofNat h).toNat &&& 0x3f = h := by decide
    have hhigh : (n >>> 8) &&& 0x3f = n / 256 := by
      rw [Nat.shiftRight_eq_div_pow, show 0x3f = 2 ^ 6 - 1 from rfl,
        Nat.and_two_pow_sub_one_eq_mod, Nat.mod_eq_of_lt (by norm_num; omega)]
    have hlow : n &&& 0xff = n % 256 := by
      rw [show 0xff = 2 ^ 8 - 1 from rfl, Nat.and_two_pow_sub_one_eq_mod]
    obtain ⟨h1, h2, h3⟩ := hb (n / 256) (by omega)
    have henc : zipEncodeLength 0 n
        = [ZIP_STR_14B ||| UInt8.ofNat (n / 256), UInt8.ofNat (n % 256)] := by
      rw [zipEncodeLength, if_pos hstr, if_neg h6, if_pos h14, hhigh, hlow]
    have hval : ((n / 256) <<< 8) ||| (UInt8.ofNat (n % 256)).toNat = n := by
      rw [UInt8.toNat_ofNat', Nat.mod_mod, ← Nat.shiftLeft_add_eq_or_of_lt (by omega),
        Nat.shiftLeft_eq]
      omega
    refine ⟨ZIP_STR_14B, by decide, ?_⟩
    rw [henc, zipDecodeLength]
    simp only [List.cons_append, List.nil_append, readByte_append_self, readByte_append_right,
      readByte_cons_zero, readByte_cons_succ, bind, Except.bind, h1, h2, h3, if_true, if_false,
      show ZIP_STR_14B < ZIP_STR_MASK by decide, show ZIP_STR_14B ≠ ZIP_STR_06B by decide, hval]
    rfl
  · -- thirty-two bits, big-endian, after the encoding byte
    have hbyte : ∀ k, (UInt8.ofNat ((n >>> k) &&& 0xff)).toNat = n / 2 ^ k % 256 := by
      intro k
      rw [UInt8.toNat_ofNat', Nat.shiftRight_eq_div_pow, show 0xff = 2 ^ 8 - 1 from rfl,
        Nat.and_two_pow_sub_one_eq_mod, Nat.mod_mod]
    have hlow : (UInt8.ofNat (n &&& 0xff)).toNat = n % 256 := by
      have h := hbyte 0
      rwa [Nat.shiftRight_zero, pow_zero, Nat.div_one] at h
    have henc : zipEncodeLength 0 n = [ZIP_STR_32B, UInt8.ofNat ((n >>> 24) &&& 0xff),
        UInt8.ofNat ((n >>> 16) &&& 0xff), UInt8.ofNat ((n >>> 8) &&& 0xff),
        UInt8.ofNat (n &&& 0xff)] := by
      rw [zipEncodeLength, if_pos hstr, if_neg h6, if_neg h14]
    -- byte by byte the disjunctions are sums
    have hor : ∀ a b k, b < 2 ^ k → (a <<< k) ||| b = a * 2 ^ k + b := by
      intro a b k hb
      rw [← Nat.shiftLeft_add_eq_or_of_lt hb, Nat.shiftLeft_eq]
    have hval : ((n / 2 ^ 24 % 256) <<< 24) ||| ((n / 2 ^ 16 % 256) <<< 16)
        ||| ((n / 2 ^ 8 % 256) <<< 8) ||| (n % 256) = n := by
      have h1 : ((n / 2 ^ 24 % 256) <<< 24) ||| ((n / 2 ^ 16 % 256) <<< 16)
          = (n / 2 ^ 16) <<< 16 := by
        rw [hor _ _ 24 (by rw [Nat.shiftLeft_eq]; omega), Nat.shiftLeft_eq, Nat.shiftLeft_eq]
        omega
      have h2 : ((n / 2 ^ 16) <<< 16) ||| ((n / 2 ^ 8 % 256) <<< 8) = (n / 2 ^ 8) <<< 8 := by
        rw [hor _ _ 16 (by rw [Nat.shiftLeft_eq]; omega), Nat.shiftLeft_eq, Nat.shiftLeft_eq]
        omega
      rw [h1, h2, hor _ _ 8 (by omega)]
      omega
    refine ⟨ZIP_STR_32B, by decide, ?_⟩
    rw [henc, zipDecodeLength]
    simp only [List.cons_append, List.nil_append, readByte_append_self, readByte_append_right,
      readByte_cons_zero, readByte_cons_succ, bind, Except.bind, if_true, if_false,
      show ZIP_STR_32B < ZIP_STR_MASK by decide, show ZIP_STR_32B ≠ ZIP_STR_06B by decide,
      show ZIP_STR_32B ≠ ZIP_STR_14B by decide,
      show ZIP_STR_32B &&& ZIP_STR_MASK = ZIP_STR_32B by decide, hbyte, hlow, hval]
    rfl

/-- **Decoding the head** of an entry gives the sizes of its head and data, and tells a
    string from an integer. -/
theorem zipDecodeLength_zipHead {s : Bytes} (hs : s.length < 2 ^ 32) (A C : Bytes) :
    ∃ encoding, zipDecodeLength (A ++ (zipHead s ++ C)) A.length
        = .ok (encoding, (zipHead s).length, (zipData s).length) ∧
      match zipTryEncoding s with
      | some (_, enc) => encoding = enc ∧ zipIsStr encoding = false
      | none => zipIsStr encoding = true := by
  cases htry : zipTryEncoding s with
  | none =>
    obtain ⟨encoding, hstr, hdec⟩ := zipDecodeLength_str hs A C
    have hhead : zipHead s = zipEncodeLength 0 s.length := by rw [zipHead, insertEncoding, htry]; rfl
    have hdata : zipData s = s := by rw [zipData, htry]
    exact ⟨encoding, by rw [hhead, hdata]; exact hdec, hstr⟩
  | some ve =>
    obtain ⟨value, encoding⟩ := ve
    obtain ⟨-, henc⟩ := zipTryEncoding_spec htry
    have hhead : zipHead s = [encoding] := by
      rw [zipHead, insertEncoding, htry]
      show zipEncodeLength encoding s.length = [encoding]
      rw [zipEncodeLength, if_neg (by rw [henc.not_str]; simp)]
    refine ⟨encoding, ?_, rfl, henc.not_str⟩
    rw [hhead, henc.length_eq, zipDecodeLength]
    simp only [List.cons_append, List.nil_append, readByte_append_self, readByte_cons_zero, bind,
      Except.bind, henc.ge_mask, if_false]
    rfl

theorem length_zipHead_pos (s : Bytes) : 0 < (zipHead s).length := by
  rw [zipHead, zipEncodeLength]
  split_ifs <;> simp

/-! ### The `prevlen` field -/

/-- The `prevlen` field of one or five bytes. -/
def prevField (big : Bool) (prevlen : Nat) : Bytes :=
  if big then zipPrevEncodeLengthForceLarge prevlen else [UInt8.ofNat prevlen]

/-- The size of the field. -/
def prevSize (big : Bool) : Nat := if big then 5 else 1

@[simp] theorem length_prevField (big : Bool) (n : Nat) :
    (prevField big n).length = prevSize big := by
  cases big <;> simp [prevField, prevSize, zipPrevEncodeLengthForceLarge]

/-- The smallest field for a length. -/
theorem zipPrevEncodeLength_eq (n : Nat) :
    zipPrevEncodeLength n = prevField (decide (ZIP_BIGLEN ≤ n)) n := by
  rw [zipPrevEncodeLength, prevField]
  by_cases h : n < ZIP_BIGLEN
  · rw [if_pos h, if_neg (by simpa using h)]
  · rw [if_neg h, if_pos (by simpa using h)]
    rfl

theorem length_zipPrevEncodeLength (n : Nat) :
    (zipPrevEncodeLength n).length = prevSize (decide (ZIP_BIGLEN ≤ n)) := by
  rw [zipPrevEncodeLength_eq, length_prevField]

/-- The field is never mistaken for the end of the list. -/
theorem readByte_prevField {big : Bool} {n : Nat} (hfit : big = false → n < ZIP_BIGLEN)
    (A C : Bytes) : ∃ b, readByte (A ++ (prevField big n ++ C)) A.length = .ok b ∧ b ≠ ZIP_END ∧
      (b.toNat < ZIP_BIGLEN ↔ big = false) ∧ (big = false → b.toNat = n) := by
  cases big with
  | false =>
    have hn : n < 254 := hfit rfl
    have hto : (UInt8.ofNat n).toNat = n := by
      rw [UInt8.toNat_ofNat', Nat.mod_eq_of_lt (by omega)]
    refine ⟨UInt8.ofNat n, by simp [prevField], ?_, ?_, fun _ => hto⟩
    · intro hcon
      have h := congrArg UInt8.toNat hcon
      rw [hto, show ZIP_END.toNat = 255 from rfl] at h
      omega
    · rw [hto]
      exact ⟨fun _ => rfl, fun _ => hn⟩
  | true =>
    refine ⟨UInt8.ofNat ZIP_BIGLEN, by simp [prevField, zipPrevEncodeLengthForceLarge],
      by decide, ?_, by simp⟩
    constructor
    · intro hcon
      exact absurd hcon (by decide)
    · simp

theorem zipDecodePrevlensize_prevField {big : Bool} {n : Nat} (hfit : big = false → n < ZIP_BIGLEN)
    (A C : Bytes) :
    zipDecodePrevlensize (A ++ (prevField big n ++ C)) A.length = .ok (prevSize big) := by
  obtain ⟨b, hb, -, hlt, -⟩ := readByte_prevField hfit A C
  rw [zipDecodePrevlensize, hb]
  show Except.ok _ = _
  cases big with
  | false => rw [if_pos (hlt.mpr rfl)]; rfl
  | true => rw [if_neg (by rw [hlt]; simp)]; rfl

/-- **Decoding the `prevlen` field**, whatever its size. -/
theorem zipDecodePrevlen_prevField {big : Bool} {n : Nat} (hn : n < 2 ^ 32)
    (hfit : big = false → n < ZIP_BIGLEN) (A C : Bytes) :
    zipDecodePrevlen (A ++ (prevField big n ++ C)) A.length = .ok (prevSize big, n) := by
  obtain ⟨b, hb, -, -, hval⟩ := readByte_prevField hfit A C
  rw [zipDecodePrevlen, zipDecodePrevlensize_prevField hfit]
  cases big with
  | false =>
    simp only [bind, Except.bind, prevSize, Bool.false_eq_true, if_false, if_true, hb, hval rfl]
    rfl
  | true =>
    have hread : readLE (A ++ (prevField true n ++ C)) (A.length + 1) 4 = .ok n := by
      have hsplit : A ++ (prevField true n ++ C)
          = (A ++ [UInt8.ofNat ZIP_BIGLEN]) ++ (leBytes 4 n ++ C) := by
        simp [prevField, zipPrevEncodeLengthForceLarge]
      rw [hsplit, readLE_append (by simp) (by simp), leNat_leBytes_of_lt (by norm_num; omega)]
    simp only [bind, Except.bind, prevSize, if_true, show ¬ (5 = 1) by omega, if_false, hread]
    rfl

end Redis
