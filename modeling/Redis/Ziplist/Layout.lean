import Redis.Ziplist.Encoding

namespace Redis

open Buffer Outcome

/-!
# The layout of a ziplist

The abstract contents are a list of `ZipCell`s: the string an entry holds, and the size
and value of its `prevlen` field.  `cellsBytes` lays them out one after the other and
`zipFrame` puts the header and `ZIP_END` around them.

* `zipEntry_cell`, `zipRawEntryLength_cell` — decoding a cell in place;
* `zipFrame_*` — the effect of each access to the block on the framed bytes;
* `Linked` — every `prevlen` is the raw length of the cell before;
* `Represents` — a block holds a list of cells.
-/

/-! ### Cells -/

/-- An entry: the size and value of its `prevlen` field, and the string it holds. -/
structure ZipCell where
  big : Bool
  prev : Nat
  val : Bytes
  deriving DecidableEq, Repr

namespace ZipCell

/-- The bytes of an entry. -/
def bytes (e : ZipCell) : Bytes := prevField e.big e.prev ++ zipBody e.val

/-- The raw length of an entry. -/
def rawLen (e : ZipCell) : Nat := prevSize e.big + (zipBody e.val).length

/-- The fields can hold their values. -/
structure Fits (e : ZipCell) : Prop where
  small : e.big = false → e.prev < ZIP_BIGLEN
  prev_lt : e.prev < 2 ^ 32
  val_lt : e.val.length < 2 ^ 32

@[simp] theorem length_bytes (e : ZipCell) : e.bytes.length = e.rawLen := by
  rw [bytes, List.length_append, length_prevField, rawLen]

theorem rawLen_pos (e : ZipCell) : 1 < e.rawLen := by
  have h := length_zipHead_pos e.val
  rw [rawLen, zipBody, List.length_append, prevSize]
  split <;> omega

end ZipCell

theorem prevSize_le (big : Bool) : 1 ≤ prevSize big ∧ prevSize big ≤ 5 := by
  cases big <;> decide

section Cell

variable {e : ZipCell} (hf : e.Fits) (A C : Bytes)
include hf

/-- No entry starts with `ZIP_END`. -/
theorem readByte_cell : ∃ b, readByte (A ++ (e.bytes ++ C)) A.length = .ok b ∧ b ≠ ZIP_END := by
  obtain ⟨b, hb, hne, -⟩ := readByte_prevField hf.small A (zipBody e.val ++ C)
  refine ⟨b, ?_, hne⟩
  rwa [ZipCell.bytes, List.append_assoc]

theorem zipDecodePrevlen_cell :
    zipDecodePrevlen (A ++ (e.bytes ++ C)) A.length = .ok (prevSize e.big, e.prev) := by
  rw [ZipCell.bytes, List.append_assoc]
  exact zipDecodePrevlen_prevField hf.prev_lt hf.small A _

theorem zipDecodePrevlensize_cell :
    zipDecodePrevlensize (A ++ (e.bytes ++ C)) A.length = .ok (prevSize e.big) := by
  rw [ZipCell.bytes, List.append_assoc]
  exact zipDecodePrevlensize_prevField hf.small A _

/-- The head of a cell, where its `prevlen` field ends. -/
theorem zipDecodeLength_cell :
    ∃ encoding, zipDecodeLength (A ++ (e.bytes ++ C)) (A.length + prevSize e.big)
        = .ok (encoding, (zipHead e.val).length, (zipData e.val).length) ∧
      match zipTryEncoding e.val with
      | some (_, enc) => encoding = enc ∧ zipIsStr encoding = false
      | none => zipIsStr encoding = true := by
  obtain ⟨encoding, hdec, henc⟩ := zipDecodeLength_zipHead hf.val_lt (A ++ prevField e.big e.prev)
    (zipData e.val ++ C)
  refine ⟨encoding, ?_, henc⟩
  rw [List.length_append, length_prevField] at hdec
  rw [← hdec, ZipCell.bytes, zipBody]
  simp only [List.append_assoc]

/-- **Decoding a cell in place.** -/
theorem zipEntry_cell : ∃ z, zipEntry (A ++ (e.bytes ++ C)) A.length = .ok z ∧
    z.prevrawlensize = prevSize e.big ∧ z.prevrawlen = e.prev ∧
    z.headersize = prevSize e.big + (zipHead e.val).length ∧ z.len = (zipData e.val).length ∧
    z.p = A.length ∧
    match zipTryEncoding e.val with
    | some (_, enc) => z.encoding = enc ∧ zipIsStr z.encoding = false
    | none => zipIsStr z.encoding = true := by
  obtain ⟨encoding, hdec, henc⟩ := zipDecodeLength_cell hf A C
  rw [zipEntry, zipDecodePrevlen_cell hf]
  simp only [bind, Except.bind, hdec]
  exact ⟨_, rfl, rfl, rfl, rfl, rfl, rfl, henc⟩

theorem zipRawEntryLength_cell :
    zipRawEntryLength (A ++ (e.bytes ++ C)) A.length = .ok e.rawLen := by
  obtain ⟨encoding, hdec, -⟩ := zipDecodeLength_cell hf A C
  rw [zipRawEntryLength, zipDecodePrevlensize_cell hf]
  simp only [bind, Except.bind, hdec]
  rw [ZipCell.rawLen, zipBody, List.length_append, ← Nat.add_assoc]
  rfl

/-- Reading a cell gives the string it holds. -/
theorem ziplistGet_cell : ∃ v, ziplistGet (A ++ (e.bytes ++ C)) A.length = .ok (some v) ∧
    zipValueString v = e.val := by
  obtain ⟨b, hb, hne⟩ := readByte_cell hf A C
  obtain ⟨z, hz, -, -, hh, hl, -, henc⟩ := zipEntry_cell hf A C
  have hsplit : A ++ (e.bytes ++ C)
      = (A ++ (prevField e.big e.prev ++ zipHead e.val)) ++ (zipData e.val ++ C) := by
    rw [ZipCell.bytes, zipBody]
    simp only [List.append_assoc]
  have hoff : A.length + z.headersize
      = (A ++ (prevField e.big e.prev ++ zipHead e.val)).length := by
    rw [hh, List.length_append, List.length_append, length_prevField]
  rw [ziplistGet, hb]
  simp only [bind, Except.bind, hne, if_false, hz]
  cases htry : zipTryEncoding e.val with
  | none =>
    rw [htry] at henc
    replace henc : zipIsStr z.encoding = true := henc
    rw [if_pos henc, hsplit, zipCheck_slice?_append hoff hl]
    refine ⟨_, rfl, ?_⟩
    show zipData e.val = e.val
    rw [zipData, htry]
  | some ve =>
    obtain ⟨value, enc⟩ := ve
    rw [htry] at henc
    obtain ⟨rfl, hstr⟩ := henc
    obtain ⟨hs, hint⟩ := zipTryEncoding_spec htry
    rw [if_neg (by rw [hstr]; simp), hsplit, hoff, hint.load]
    exact ⟨_, rfl, ll2string_string2ll hs⟩

end Cell

/-- The cells one after the other. -/
def cellsBytes (es : List ZipCell) : Bytes := es.flatMap ZipCell.bytes

@[simp] theorem cellsBytes_nil : cellsBytes [] = [] := rfl

@[simp] theorem cellsBytes_cons (e : ZipCell) (es : List ZipCell) :
    cellsBytes (e :: es) = e.bytes ++ cellsBytes es := rfl

@[simp] theorem cellsBytes_append (es fs : List ZipCell) :
    cellsBytes (es ++ fs) = cellsBytes es ++ cellsBytes fs := List.flatMap_append

/-! ### The frame -/

/-- `zlbytes`, `zltail` and `zllen`. -/
def zipHeader (bytes o L : Nat) : Bytes := leBytes 4 bytes ++ (leBytes 4 o ++ leBytes 2 L)

@[simp] theorem length_zipHeader (bytes o L : Nat) : (zipHeader bytes o L).length = 10 := by
  simp [zipHeader]

/-- The block with the header, the bytes of the entries and `ZIP_END`. -/
def zipFrame (o L : Nat) (X : Bytes) : Bytes :=
  zipHeader (X.length + 11) o L ++ (X ++ [ZIP_END])

@[simp] theorem length_zipFrame (o L : Nat) (X : Bytes) :
    (zipFrame o L X).length = X.length + 11 := by
  simp [zipFrame]
  omega

theorem ziplistNew_eq : ziplistNew = zipFrame 10 0 [] := by decide

/-- The block taken apart inside the entries. -/
theorem zipFrame_split (o L : Nat) (P R : Bytes) :
    zipFrame o L (P ++ R)
      = (zipHeader ((P ++ R).length + 11) o L ++ P) ++ (R ++ [ZIP_END]) := by
  simp [zipFrame]

theorem length_zipHeader_append (bytes o L : Nat) (P : Bytes) :
    (zipHeader bytes o L ++ P).length = 10 + P.length := by simp

section Frame

variable {o L : Nat} {X : Bytes}

theorem ziplistBytes_zipFrame (h : X.length + 11 < 2 ^ 32) :
    ziplistBytes (zipFrame o L X) = .ok (X.length + 11) := by
  have hr := readLE_append (A := []) (B := leBytes 4 (X.length + 11))
    (C := (leBytes 4 o ++ leBytes 2 L) ++ (X ++ [ZIP_END])) (p := 0) (n := 4) rfl (by simp)
  rw [leNat_leBytes_of_lt (by norm_num; omega)] at hr
  rw [ziplistBytes, ← hr, zipFrame, zipHeader]
  simp only [List.nil_append, List.append_assoc]

theorem ziplistTailOffset_zipFrame (h : o < 2 ^ 32) :
    ziplistTailOffset (zipFrame o L X) = .ok o := by
  have hr := readLE_append (A := leBytes 4 (X.length + 11)) (B := leBytes 4 o)
    (C := leBytes 2 L ++ (X ++ [ZIP_END])) (p := 4) (n := 4) (by simp) (by simp)
  rw [leNat_leBytes_of_lt (by norm_num; omega)] at hr
  rw [ziplistTailOffset, ← hr, zipFrame, zipHeader]
  simp only [List.append_assoc]

theorem setTailOffset_zipFrame (n : Int) :
    setTailOffset (zipFrame o L X) n = .ok (zipFrame (uint32 n) L X) := by
  have hw := writeBytes_append (A := leBytes 4 (X.length + 11)) (B := leBytes 4 o)
    (D := leBytes 4 (uint32 n)) (C := leBytes 2 L ++ (X ++ [ZIP_END])) (p := 4) (by simp) (by simp)
  rw [setTailOffset, zipFrame, zipFrame, zipHeader, zipHeader]
  simp only [List.append_assoc] at hw ⊢
  exact hw

theorem uint32_eq {n : Int} {m : Nat} (h : n = m) (hm : m < 2 ^ 32) : uint32 n = m := by
  rw [uint32, h]
  omega

/-- The block taken apart around the counter. -/
theorem zipFrame_count (o L : Nat) (X : Bytes) :
    zipFrame o L X
      = (leBytes 4 (X.length + 11) ++ leBytes 4 o) ++ (leBytes 2 L ++ (X ++ [ZIP_END])) := by
  simp only [zipFrame, zipHeader, List.append_assoc]

theorem ziplistLength_zipFrame : ziplistLength (zipFrame o L X) = .ok (L % 2 ^ 16) := by
  rw [ziplistLength, zipFrame_count, readLE_append (by simp) (by simp), leNat_leBytes]
  rfl

/-- The counter after `ZIPLIST_INCR_LENGTH`. -/
def incrCount (L : Nat) (incr : Int) : Nat :=
  if L % 2 ^ 16 < UINT16_MAX then ((((L % 2 ^ 16 : Nat) : Int) + incr) % 2 ^ 16).toNat else L

/-- Only the counter changes. -/
theorem incrLength_zipFrame (incr : Int) :
    incrLength (zipFrame o L X) incr = .ok (zipFrame o (incrCount L incr) X) := by
  rw [incrLength, ziplistLength_zipFrame, incrCount]
  simp only [bind, Except.bind]
  split
  · rw [zipFrame_count, writeBytes_append (by simp) (by simp), zipFrame_count]
  · rfl

/-- `zllen` is the number of entries, or the maximum that says nothing. -/
def Counts (zl : Bytes) (n : Nat) : Prop :=
  ∃ L, ziplistLength zl = .ok L ∧ (L = n ∨ L = UINT16_MAX)

theorem counts_zipFrame {n : Nat} :
    Counts (zipFrame o L X) n ↔ L % 2 ^ 16 = n ∨ L % 2 ^ 16 = UINT16_MAX := by
  constructor
  · rintro ⟨L', hL', h⟩
    rw [ziplistLength_zipFrame] at hL'
    rwa [Except.ok.inj hL']
  · intro h
    exact ⟨_, ziplistLength_zipFrame, h⟩

/-- One entry more, or some fewer. -/
theorem Counts.incr {n m o' : Nat} {incr : Int} {Y : Bytes} (h : Counts (zipFrame o L X) n)
    (hm : (n : Int) + incr = m) (hle : incr ≤ 1) : Counts (zipFrame o' (incrCount L incr) Y) m := by
  rw [counts_zipFrame] at h ⊢
  rw [incrCount, UINT16_MAX] at *
  split
  · left
    omega
  · right
    omega

/-- Writing inside the entries. -/
theorem writeBytes_zipFrame {P B D Q : Bytes} {p : Nat} (hp : p = 10 + P.length)
    (hlen : D.length = B.length) :
    writeBytes (zipFrame o L (P ++ (B ++ Q))) p D
      = .ok (zipFrame o L (P ++ (D ++ Q))) := by
  have hw := writeBytes_append (A := zipHeader ((P ++ (B ++ Q)).length + 11) o L ++ P) (B := B)
    (D := D) (C := Q ++ [ZIP_END]) (p := p) (by simpa using hp) hlen
  have hl : (P ++ (D ++ Q)).length = (P ++ (B ++ Q)).length := by simp [hlen]
  rw [zipFrame_split, zipFrame_split, hl]
  simpa only [List.append_assoc] using hw

/-- Reading inside the entries. -/
theorem slice?_zipFrame {P B Q : Bytes} {p n : Nat} (hp : p = 10 + P.length) (hn : n = B.length) :
    slice? (zipFrame o L (P ++ (B ++ Q))) p n = some B := by
  have hs := slice?_append (A := zipHeader ((P ++ (B ++ Q)).length + 11) o L ++ P) (B := B)
    (C := Q ++ [ZIP_END]) (p := p) (n := n) (by simpa using hp) hn
  rw [zipFrame_split]
  simpa only [List.append_assoc] using hs

/-- Moving bytes to a place inside the entries. -/
theorem moveBytes_zipFrame {P B M Q : Bytes} {d src n : Nat}
    (hsrc : slice? (zipFrame o L (P ++ (B ++ Q))) src n = some M)
    (hdst : d = 10 + P.length) (hlen : M.length = B.length) :
    moveBytes (zipFrame o L (P ++ (B ++ Q))) d src n
      = .ok (zipFrame o L (P ++ (M ++ Q))) := by
  have hw := writeBytes_zipFrame (o := o) (L := L) (P := P) (B := B) (D := M) (Q := Q)
    hdst hlen
  rw [moveBytes, memmove?, hsrc]
  exact hw

/-- Reading the end marker. -/
theorem readByte_zipFrame_end {p : Nat} (hp : p = 10 + X.length) :
    readByte (zipFrame o L X) p = .ok ZIP_END := by
  have hsplit := zipFrame_split o L X []
  rw [List.append_nil] at hsplit
  rw [hsplit, hp, ← length_zipHeader_append (X.length + 11) o L X, readByte_append_self]
  rfl

end Frame

/-! ### Resizing -/

section Resize

variable {o L : Nat} {X : Bytes} (junk : Nat → UInt8)

/-- The two writes of `ziplistResize`, on a block of the right size. -/
theorem resize_writes {W : Bytes} {c : UInt8} :
    (do
      let zl ← writeBytes (zipHeader (X.length + 11) o L ++ (W ++ [c])) 0
        (leBytes 4 (W.length + 11))
      let last ← pointerAdd (W.length + 11) (-1)
      writeBytes zl last [ZIP_END]) = .ok (zipFrame o L W) := by
  have h1 := writeBytes_append (A := []) (B := leBytes 4 (X.length + 11))
    (D := leBytes 4 (W.length + 11)) (C := (leBytes 4 o ++ leBytes 2 L) ++ (W ++ [c]))
    (p := 0) rfl (by simp)
  have h2 := writeBytes_append (A := zipHeader (W.length + 11) o L ++ W) (B := [c])
    (D := [ZIP_END]) (C := []) (p := W.length + 10) (by simp; omega) rfl
  have hp : pointerAdd (W.length + 11) (-1) = .ok (W.length + 10) := by
    rw [pointerAdd, if_pos (by omega)]
    congr 1
    omega
  simp only [zipHeader, zipFrame, List.nil_append, List.append_nil, List.append_assoc] at h1 h2 ⊢
  rw [h1]
  simp only [bind, Except.bind, hp]
  exact h2

/-- Growing: the old bytes, the old end marker and fresh memory. -/
theorem ziplistResize_grow (k : Nat) :
    Sat (ziplistResize junk (zipFrame o L X) (X.length + 11 + k))
      (fun zl => X.length + 11 + k < 2 ^ 32 ∧ ∃ J : Bytes, J.length = k ∧
        (0 < k → J.head? = some ZIP_END) ∧ zl = zipFrame o L (X ++ J))
      ZipFault.Overflows := by
  rw [ziplistResize]
  refine Sat.ite (fun hge => ⟨_, rfl, hge⟩) (fun hlt => ?_)
  set pad := (List.range (X.length + 11 + k - (zipFrame o L X).length)).map
    (fun i => junk ((zipFrame o L X).length + i)) with hpad
  have hpadlen : pad.length = k := by simp [hpad]
  have hne : ZIP_END :: pad ≠ [] := by simp
  have hre : zrealloc junk (zipFrame o L X) (X.length + 11 + k)
      = zipHeader (X.length + 11) o L
        ++ ((X ++ (ZIP_END :: pad).dropLast) ++ [(ZIP_END :: pad).getLast hne]) := by
    rw [zrealloc, List.take_of_length_le (by simp), ← hpad, List.append_assoc X,
      List.dropLast_concat_getLast, zipFrame]
    simp
  have hlen : (X ++ (ZIP_END :: pad).dropLast).length + 11 = X.length + 11 + k := by
    simp [hpadlen]
    omega
  have hw := resize_writes (X := X) (o := o) (L := L)
    (W := X ++ (ZIP_END :: pad).dropLast) (c := (ZIP_END :: pad).getLast hne)
  rw [hlen, ← hre] at hw
  simp only
  rw [hw]
  refine ⟨by omega, (ZIP_END :: pad).dropLast, by simp [hpadlen], fun hk => ?_, rfl⟩
  cases hp : pad with
  | nil => rw [hp] at hpadlen; simp at hpadlen; omega
  | cons a l => rfl

/-- Shrinking: the first bytes are kept. -/
theorem ziplistResize_shrink (Y : Bytes) (hlt : X.length + 11 < 2 ^ 32) :
    ziplistResize junk (zipFrame o L (X ++ Y)) (X.length + 11) = .ok (zipFrame o L X) := by
  obtain ⟨c, Z, hc⟩ : ∃ c Z, Y ++ [ZIP_END] = c :: Z := by
    cases Y with
    | nil => exact ⟨ZIP_END, [], rfl⟩
    | cons a Y => exact ⟨a, Y ++ [ZIP_END], rfl⟩
  have hre : zrealloc junk (zipFrame o L (X ++ Y)) (X.length + 11)
      = zipHeader ((X ++ Y).length + 11) o L ++ (X ++ [c]) := by
    have hframe : zipFrame o L (X ++ Y)
        = (zipHeader ((X ++ Y).length + 11) o L ++ (X ++ [c])) ++ Z := by
      rw [zipFrame, List.append_assoc X, hc]
      simp
    rw [zrealloc, show X.length + 11 - (zipFrame o L (X ++ Y)).length = 0 by simp,
      List.range_zero, List.map_nil, List.append_nil, hframe]
    exact List.take_left' (by simp; omega)
  rw [ziplistResize, if_neg (by omega)]
  simp only
  rw [hre]
  exact resize_writes

end Resize

/-! ### Linked cells -/

/-- Every `prevlen` is the raw length of the cell before; `pl` stands before the list. -/
def Linked : Nat → List ZipCell → Prop
  | _, [] => True
  | pl, e :: es => e.prev = pl ∧ Linked e.rawLen es

/-- The raw length of the last cell, `pl` for the empty list. -/
def lastRaw (pl : Nat) (es : List ZipCell) : Nat := (es.getLast?.map ZipCell.rawLen).getD pl

@[simp] theorem lastRaw_nil (pl : Nat) : lastRaw pl [] = pl := rfl

theorem lastRaw_cons (pl : Nat) (e : ZipCell) (es : List ZipCell) :
    lastRaw pl (e :: es) = lastRaw e.rawLen es := by
  cases es with
  | nil => rfl
  | cons f es => rw [lastRaw, lastRaw, List.getLast?_cons_cons]; rfl

theorem linked_append (pl : Nat) (es fs : List ZipCell) :
    Linked pl (es ++ fs) ↔ Linked pl es ∧ Linked (lastRaw pl es) fs := by
  induction es generalizing pl with
  | nil => simp [Linked]
  | cons e es ih =>
    rw [List.cons_append, Linked, Linked, ih, lastRaw_cons, and_assoc]

/-- The offset of the last cell, or of `ZIP_END`. -/
def tailOf (P : Bytes) (es : List ZipCell) : Nat := 10 + P.length + (cellsBytes es.dropLast).length

/-- **Representation.**  The block frames cells that are linked, fit their fields, and
    whose total size fits `zlbytes`. -/
structure Represents (zl : Bytes) (es : List ZipCell) : Prop where
  frame : ∃ L, zl = zipFrame (tailOf [] es) L (cellsBytes es)
  linked : Linked 0 es
  fits : ∀ e ∈ es, e.Fits
  size_lt : (cellsBytes es).length + 11 < 2 ^ 32

theorem ziplistNew_represents : Represents ziplistNew [] :=
  ⟨⟨0, ziplistNew_eq⟩, trivial, by simp, by norm_num⟩

/-- A cell inside a frame. -/
theorem zipFrame_cell (o L : Nat) (P Q : Bytes) (e : ZipCell) :
    ∃ A C, zipFrame o L (P ++ (e.bytes ++ Q)) = A ++ (e.bytes ++ C) ∧ A.length = 10 + P.length :=
  ⟨zipHeader ((P ++ (e.bytes ++ Q)).length + 11) o L ++ P, Q ++ [ZIP_END],
    by rw [zipFrame_split, List.append_assoc e.bytes], length_zipHeader_append _ _ _ _⟩

/-- The byte after the cells is `ZIP_END` exactly when no cell is left. -/
theorem readByte_zipFrame_cells {es : List ZipCell} (hf : ∀ e ∈ es, e.Fits) (o L : Nat)
    (P : Bytes) {p : Nat} (hp : p = 10 + P.length) :
    ∃ b, readByte (zipFrame o L (P ++ cellsBytes es)) p = .ok b ∧
      (b = ZIP_END ↔ es = []) := by
  cases es with
  | nil =>
    refine ⟨ZIP_END, ?_, by simp⟩
    rw [cellsBytes_nil, List.append_nil]
    exact readByte_zipFrame_end hp
  | cons e es =>
    obtain ⟨A, C, hframe, hA⟩ := zipFrame_cell o L P (cellsBytes es) e
    obtain ⟨b, hb, hne⟩ := readByte_cell (hf e (by simp)) A C
    refine ⟨b, ?_, by simp [hne]⟩
    rw [cellsBytes_cons, hframe, hp, ← hA]
    exact hb

end Redis
