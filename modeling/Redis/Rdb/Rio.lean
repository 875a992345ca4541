import Redis.Util
import Redis.Lib.Buffer

namespace Redis.Rdb

open Buffer

/-!
# RDB — the stream

The stream that an RDB file is read from (`rio.h`), and the smallest items in it (`rdb.c`).

* `crc64` — the checksum of `crc64.c`;
* `Rio`, `rioRead` — what is left of the file, with the checksum of what was read;
* `rdbLoadType`, `rdbLoadMillisecondTime`, `rdbLoadLen` — one item, beside its writer;
* `rdbLoadLen_save`, `rdbLoadMillisecondTime_save` — each reads what its writer wrote.

A writer is the bytes that it writes, and no write fails.  `rioWrite` updates the checksum chunk by
chunk, which is the checksum of the whole (`crc64_append`).
-/

/-! ## The checksum -/

/-- One bit of the reflected polynomial. -/
def crc64Bit (crc : UInt64) : UInt64 :=
  if crc &&& 1 = 1 then (crc >>> 1) ^^^ 0x95ac9329ac4bc9b5 else crc >>> 1

/-- `crc64_tab`. -/
def crc64_tab (i : UInt8) : UInt64 := Nat.repeat crc64Bit 8 i.toUInt64

/-- `crc64`. -/
def crc64 (crc : UInt64) (s : Bytes) : UInt64 :=
  s.foldl (fun crc byte => crc64_tab (crc.toUInt8 ^^^ byte) ^^^ (crc >>> 8)) crc

example : crc64 0 [49, 50, 51, 52, 53, 54, 55, 56, 57] = 0xe9c6d914c4b8d9ca := by decide +kernel

theorem crc64_append (crc : UInt64) (s t : Bytes) : crc64 crc (s ++ t) = crc64 (crc64 crc s) t :=
  List.foldl_append

@[simp] theorem crc64_nil (crc : UInt64) : crc64 crc [] = crc := rfl

/-! ## The stream -/

/-- `rio` with its update of the checksum. -/
structure Rio where
  /-- What is left to read. -/
  data : Bytes
  cksum : UInt64
  deriving DecidableEq, Repr

/-- The next `len` bytes are passed; `checksum` is `server.rdb_checksum`. -/
def Rio.advance (checksum : Bool) (r : Rio) (len : Nat) : Rio where
  data := r.data.drop len
  cksum := if checksum then crc64 r.cksum (r.data.take len) else r.cksum

/-- `rioRead`. -/
def rioRead (checksum : Bool) (r : Rio) (len : Nat) : Option (Bytes × Rio) :=
  if r.data.length < len then none else some (r.data.take len, r.advance checksum len)

/-- The stream of a file of which `done` was read. -/
def Rio.after (checksum : Bool) (done rest : Bytes) : Rio := ⟨rest, if checksum then crc64 0 done else 0⟩

theorem Rio.after_nil (checksum : Bool) (data : Bytes) : Rio.after checksum [] data = ⟨data, 0⟩ := by
  simp [after]

theorem Rio.advance_after (checksum : Bool) (done bytes rest : Bytes) :
    (Rio.after checksum done (bytes ++ rest)).advance checksum bytes.length
      = Rio.after checksum (done ++ bytes) rest := by
  cases checksum <;> simp [advance, after, crc64_append]

theorem rioRead_after (checksum : Bool) (done bytes rest : Bytes) :
    rioRead checksum (Rio.after checksum done (bytes ++ rest)) bytes.length
      = some (bytes, Rio.after checksum (done ++ bytes) rest) := by
  rw [rioRead, Rio.advance_after]
  simp [Rio.after]

/-! ## The items -/

/-- `rdbSaveType`. -/
def rdbSaveType (type : UInt8) : Bytes := [type]

/-- `rdbLoadType`: `none` is `-1`. -/
def rdbLoadType (checksum : Bool) (r : Rio) : Option (UInt8 × Rio) :=
  (rioRead checksum r 1).map fun x => (x.1.head?.getD 0, x.2)

/-- `rdbSaveMillisecondTime`, on a little-endian machine. -/
def rdbSaveMillisecondTime (t : Int) : Bytes := intBytes 8 t

/-- `rdbLoadMillisecondTime`: the end of the file reads as `-1`. -/
def rdbLoadMillisecondTime (checksum : Bool) (r : Rio) : Int × Rio :=
  ((rioRead checksum r 8).map fun x => (bytesInt x.1, x.2)).getD (-1, r)

/-- `rdbLoadTime`. -/
def rdbLoadTime (checksum : Bool) (r : Rio) : Int × Rio :=
  ((rioRead checksum r 4).map fun x => (bytesInt x.1, x.2)).getD (-1, r)

def RDB_6BITLEN : Nat := 0
def RDB_14BITLEN : Nat := 1
def RDB_32BITLEN : Nat := 2
def RDB_ENCVAL : Nat := 3
def RDB_LENERR : Nat := 4294967295

/-- `htonl`. -/
def htonl (len : Nat) : Bytes := (leBytes 4 len).reverse

/-- `ntohl`. -/
def ntohl (bytes : Bytes) : Nat := leNat bytes.reverse

/-- `rdbSaveLen`, whose `len` is an `uint32_t`. -/
def rdbSaveLen (len : Nat) : Bytes :=
  let len := len % 2 ^ 32
  if len < 2 ^ 6 then [UInt8.ofNat (len ||| RDB_6BITLEN <<< 6)]
  else if len < 2 ^ 14 then [UInt8.ofNat ((len >>> 8) ||| RDB_14BITLEN <<< 6), UInt8.ofNat len]
  else UInt8.ofNat (RDB_32BITLEN <<< 6) :: htonl len

/-- `rdbLoadLen`: the length, and the flag that it sets.  The end of the file reads as `RDB_LENERR`. -/
def rdbLoadLen (checksum : Bool) (r : Rio) : Nat × Bool × Rio :=
  match rioRead checksum r 1 with
  | none => (RDB_LENERR, false, r)
  | some (buf, r) =>
    let b := (buf.head?.getD 0).toNat
    let type := (b &&& 0xC0) >>> 6
    if type = RDB_ENCVAL then (b &&& 0x3F, true, r)
    else if type = RDB_6BITLEN then (b &&& 0x3F, false, r)
    else if type = RDB_14BITLEN then
      match rioRead checksum r 1 with
      | none => (RDB_LENERR, false, r)
      | some (buf, r) => ((b &&& 0x3F) <<< 8 ||| (buf.head?.getD 0).toNat, false, r)
    else
      match rioRead checksum r 4 with
      | none => (RDB_LENERR, false, r)
      | some (buf, r) => (ntohl buf, false, r)

/-! ## Reading back -/

variable {checksum : Bool} {done rest : Bytes}

/-- A read of one byte. -/
theorem rioRead_one (b : UInt8) :
    rioRead checksum (Rio.after checksum done (b :: rest)) 1
      = some ([b], Rio.after checksum (done ++ [b]) rest) :=
  rioRead_after checksum done [b] rest

theorem rdbLoadType_save (type : UInt8) :
    rdbLoadType checksum (Rio.after checksum done (rdbSaveType type ++ rest))
      = some (type, Rio.after checksum (done ++ rdbSaveType type) rest) := by
  simp [rdbLoadType, rioRead_one, rdbSaveType]

/-- A time comes back, `-1` among them. -/
theorem rdbLoadMillisecondTime_save {t : Int} (hlo : -2 ^ 63 ≤ t) (hhi : t < 2 ^ 63) :
    rdbLoadMillisecondTime checksum (Rio.after checksum done (rdbSaveMillisecondTime t ++ rest))
      = (t, Rio.after checksum (done ++ rdbSaveMillisecondTime t) rest) := by
  have hread := rioRead_after checksum done (rdbSaveMillisecondTime t) rest
  rw [show (rdbSaveMillisecondTime t).length = 8 from length_intBytes 8 t] at hread
  have hval : bytesInt (rdbSaveMillisecondTime t) = t := bytesInt_intBytes (by omega) (by omega)
  simp [rdbLoadMillisecondTime, hread, hval]

theorem ntohl_htonl {len : Nat} (h : len < 2 ^ 32) : ntohl (htonl len) = len := by
  rw [ntohl, htonl, List.reverse_reverse]
  exact leNat_leBytes_of_lt (by omega)

theorem length_htonl (len : Nat) : (htonl len).length = 4 := by
  simp [htonl]

/-- The first byte of a length says which of the encodings it is. -/
theorem rdbSaveLen_first :
    (∀ n < 64, ((UInt8.ofNat (n ||| RDB_6BITLEN <<< 6)).toNat &&& 0xC0) >>> 6 = RDB_6BITLEN
        ∧ (UInt8.ofNat (n ||| RDB_6BITLEN <<< 6)).toNat &&& 0x3F = n)
      ∧ (∀ n < 64, ((UInt8.ofNat (n ||| RDB_14BITLEN <<< 6)).toNat &&& 0xC0) >>> 6 = RDB_14BITLEN
        ∧ (UInt8.ofNat (n ||| RDB_14BITLEN <<< 6)).toNat &&& 0x3F = n)
      ∧ ((UInt8.ofNat (RDB_32BITLEN <<< 6)).toNat &&& 0xC0) >>> 6 = RDB_32BITLEN := by
  decide

/-- The lengths of one byte. -/
theorem rdbLoadLen_short {b : UInt8} {n : Nat} (htype : (b.toNat &&& 0xC0) >>> 6 = RDB_6BITLEN)
    (hval : b.toNat &&& 0x3F = n) :
    rdbLoadLen checksum (Rio.after checksum done (b :: rest))
      = (n, false, Rio.after checksum (done ++ [b]) rest) := by
  simp [rdbLoadLen, rioRead_one, htype, hval, RDB_6BITLEN, RDB_ENCVAL]

/-- The lengths of two bytes. -/
theorem rdbLoadLen_mid {b c : UInt8} {n : Nat} (htype : (b.toNat &&& 0xC0) >>> 6 = RDB_14BITLEN)
    (hval : b.toNat &&& 0x3F = n) :
    rdbLoadLen checksum (Rio.after checksum done (b :: c :: rest))
      = (n <<< 8 ||| c.toNat, false, Rio.after checksum (done ++ [b, c]) rest) := by
  simp [rdbLoadLen, rioRead_one, htype, hval, RDB_6BITLEN, RDB_14BITLEN, RDB_ENCVAL]

/-- The lengths of five bytes. -/
theorem rdbLoadLen_long {b : UInt8} {buf : Bytes} (htype : (b.toNat &&& 0xC0) >>> 6 = RDB_32BITLEN)
    (hbuf : buf.length = 4) :
    rdbLoadLen checksum (Rio.after checksum done (b :: (buf ++ rest)))
      = (ntohl buf, false, Rio.after checksum (done ++ b :: buf) rest) := by
  have hsecond := rioRead_after checksum (done ++ [b]) buf rest
  rw [hbuf] at hsecond
  simp [rdbLoadLen, rioRead_one, htype, hsecond, RDB_6BITLEN, RDB_14BITLEN, RDB_32BITLEN, RDB_ENCVAL]

/-- A length comes back, by each of the three encodings. -/
theorem rdbLoadLen_save {len : Nat} (h : len < 2 ^ 32) :
    rdbLoadLen checksum (Rio.after checksum done (rdbSaveLen len ++ rest))
      = (len, false, Rio.after checksum (done ++ rdbSaveLen len) rest) := by
  obtain ⟨h6, h14, h32⟩ := rdbSaveLen_first
  simp only [rdbSaveLen, Nat.mod_eq_of_lt h]
  by_cases hshort : len < 2 ^ 6
  · obtain ⟨htype, hval⟩ := h6 len (by omega)
    rw [if_pos hshort]
    exact rdbLoadLen_short htype hval
  · by_cases hmid : len < 2 ^ 14
    · have hhigh : len >>> 8 < 64 := by
        rw [Nat.shiftRight_eq_div_pow]
        omega
      obtain ⟨htype, hval⟩ := h14 (len >>> 8) hhigh
      -- the low byte is put back under the six high bits
      have hjoin : (len >>> 8) <<< 8 ||| (UInt8.ofNat len).toNat = len := by
        rw [UInt8.toNat_ofNat', ← Nat.shiftLeft_add_eq_or_of_lt (by omega), Nat.shiftRight_eq_div_pow,
          Nat.shiftLeft_eq]
        omega
      rw [if_neg hshort, if_pos hmid]
      refine Eq.trans (rdbLoadLen_mid htype hval) ?_
      rw [hjoin]
      rfl
    · rw [if_neg hshort, if_neg hmid]
      refine Eq.trans (rdbLoadLen_long h32 (length_htonl len)) ?_
      rw [ntohl_htonl h]

end Redis.Rdb
