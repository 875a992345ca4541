import Redis.Ziplist.Cascade

namespace Redis

open Buffer Outcome

/-!
# Insertion and deletion

Both updates change the raw length of one entry at most: the one behind the place of the
update, whose `prevlen` field may take another size (`nextdiff`).  They write it, correct
the tail, and leave the rest to the cascade.

* `tailNextdiff_spec`, `cascadeIf_spec` — the corrections the two updates share;
* `ziplistInsertAt_spec` — one more cell in front of `post`;
* `ziplistDeleteAt_spec` — the first `num` cells of the rest are gone.
-/

/-! ### Shared corrections -/

theorem pointerAdd_eq {p q : Nat} {d : Int} (h : (p : Int) + d = q) : pointerAdd p d = .ok q := by
  rw [pointerAdd, h, if_pos (by omega)]
  rfl

/-- The tail moves by the change of the first cell, unless it is the tail itself. -/
theorem tailOf_resize (P : Bytes) (f f' : ZipCell) (fs : List ZipCell) :
    (tailOf P (f' :: fs) : Int)
      = tailOf P (f :: fs) + if fs = [] then 0 else (f'.rawLen : Int) - f.rawLen := by
  cases fs with
  | nil => simp [tailOf]
  | cons g gs =>
    simp only [tailOf, List.dropLast_cons_cons, cellsBytes_cons, List.length_append,
      ZipCell.length_bytes, reduceCtorEq, if_false]
    push_cast
    omega

theorem tailOf_append (pre : List ZipCell) (f : ZipCell) (fs : List ZipCell) (P : Bytes) :
    tailOf P (pre ++ f :: fs) = tailOf (P ++ cellsBytes pre) (f :: fs) := by
  rw [tailOf, tailOf, List.dropLast_append_of_ne_nil (by simp), cellsBytes_append]
  simp only [List.length_append]
  omega

theorem tailOf_shift (P Q : Bytes) (es : List ZipCell) :
    tailOf (P ++ Q) es = tailOf P es + Q.length := by
  simp only [tailOf, List.length_append]
  omega

theorem uint32_lt (n : Int) : uint32 n < 2 ^ 32 := by
  rw [uint32]
  omega

theorem uint32_add (n d : Int) : uint32 (uint32 n + d) = uint32 (n + d) := by
  rw [uint32, uint32, uint32]
  omega

theorem addTailOffset_zipFrame {o L : Nat} {X : Bytes} (d : Int) (htail : o < 2 ^ 32) :
    addTailOffset (zipFrame o L X) d = .ok (zipFrame (uint32 (o + d)) L X) := by
  rw [addTailOffset, ziplistTailOffset_zipFrame htail]
  simp only [bind, Except.bind]
  rw [setTailOffset_zipFrame]

variable {f f' : ZipCell} {fs : List ZipCell} {zl : Bytes} {pre : List ZipCell} {p : Nat}

/-- The correction of the tail when the cell `f` has become `f'`.  A first correction `d`
    may have wrapped around; the sum of the two is what counts. -/
theorem tailNextdiff_spec {L p t : Nat} {P Q : Bytes} {nextdiff d : Int} (hf' : f'.Fits)
    (hfs : ∀ g ∈ fs, g.Fits) (hdiff : nextdiff = (f'.rawLen : Int) - f.rawLen) (hp : p = 10 + Q.length)
    (ht : (tailOf P (f' :: fs) : Int) + d = t) (hlt : t < 2 ^ 32) :
    tailNextdiff (zipFrame (uint32 (tailOf P (f :: fs) + d)) L (Q ++ cellsBytes (f' :: fs))) p nextdiff
      = .ok (zipFrame t L (Q ++ cellsBytes (f' :: fs))) := by
  set o := uint32 (tailOf P (f :: fs) + d) with htail
  obtain ⟨A, C, hframe, hA⟩ := zipFrame_cell o L Q (cellsBytes fs) f'
  obtain ⟨z, hz, -, -, hzh, hzl, -⟩ := zipEntry_cell hf' A C
  rw [← hframe, hA, ← hp, ← cellsBytes_cons] at hz
  have hraw : z.headersize + z.len = f'.rawLen := by
    rw [hzh, hzl, ZipCell.rawLen, zipBody, List.length_append, Nat.add_assoc]
  obtain ⟨b, hb, hbe⟩ := readByte_zipFrame_cells hfs o L (Q ++ f'.bytes)
    (p := p + f'.rawLen) (by simp [hp]; omega)
  rw [List.append_assoc, ← cellsBytes_cons] at hb
  have hresize := tailOf_resize P f f' fs
  rw [tailNextdiff, hz]
  simp only [bind, Except.bind, hraw, hb]
  by_cases hnil : fs = []
  · rw [if_neg (not_not.mpr (hbe.mpr hnil))]
    rw [if_pos hnil, add_zero] at hresize
    rw [htail, uint32_eq (by rw [← hresize, ht]) hlt]
    rfl
  · rw [if_pos (fun hcon => hnil (hbe.mp hcon))]
    rw [if_neg hnil, ← hdiff] at hresize
    rw [addTailOffset_zipFrame _ (uint32_lt _), uint32_add, uint32_eq (by omega) hlt]

variable (junk : Nat → UInt8)

/-- The cascade behind `f'`, which has taken the place of `f`. -/
theorem cascadeIf_spec {L p : Nat} {P : Bytes} {nextdiff : Int} (hf' : f'.Fits) (hfs : ∀ g ∈ fs, g.Fits)
    (hlinked : Linked f.rawLen fs) (hdiff : nextdiff = (f'.rawLen : Int) - f.rawLen)
    (hsize : (P ++ cellsBytes (f' :: fs)).length + 11 < 2 ^ 32) (hp : p = 10 + P.length) :
    Sat (cascadeIf junk (zipFrame (tailOf P (f' :: fs)) L (P ++ cellsBytes (f' :: fs))) p nextdiff)
      (Cascaded L P f' fs) ZipFault.Overflows := by
  rw [cascadeIf]
  refine Sat.ite (fun _ => ?_) (fun hzero => ?_)
  · exact ziplistCascadeUpdate_spec junk hf' hfs hlinked.tail hsize hp
  · -- the raw length is the old one, so the next field is right already
    have hraw : f'.rawLen = f.rawLen := by omega
    exact ⟨fs, rfl, by rwa [hraw], hfs, rfl, hsize⟩

/-! ### Insertion -/

/-- The cell `__ziplistInsert` writes. -/
def newCell (prevlen : Nat) (s : Bytes) : ZipCell :=
  { big := decide (ZIP_BIGLEN ≤ prevlen), prev := prevlen, val := s }

theorem newCell_fits {prevlen : Nat} {s : Bytes} (hp : prevlen < 2 ^ 32) (hs : s.length < 2 ^ 32) :
    (newCell prevlen s).Fits := by
  refine ⟨fun hb => ?_, hp, hs⟩
  simpa [newCell] using hb

/-- The data of a string in either form. -/
theorem length_zipData (s : Bytes) : (zipData s).length
    = match zipTryEncoding s with
      | some (_, encoding) => zipIntSize encoding
      | none => s.length := by
  cases htry : zipTryEncoding s with
  | none => rw [zipData, htry]
  | some ve =>
    obtain ⟨value, encoding⟩ := ve
    exact (zipTryEncoding_spec htry).2.length_eq

/-- `reqlen` is the raw length of the new entry. -/
theorem insertReqlen_eq (s : Bytes) (prevlen : Nat) :
    insertReqlen s prevlen = (newCell prevlen s).rawLen := by
  rw [insertReqlen, length_zipPrevEncodeLength, ZipCell.rawLen, newCell, zipBody, List.length_append,
    zipHead, length_zipData]
  cases zipTryEncoding s <;> (simp only; omega)

theorem length_lt_of_insertReqlen {s : Bytes} {prevlen : Nat} (h : insertReqlen s prevlen < 2 ^ 32) :
    s.length < 2 ^ 32 := by
  rw [insertReqlen] at h
  cases htry : zipTryEncoding s with
  | none =>
    rw [htry] at h
    simp only at h
    omega
  | some ve =>
    have hlt : s.length < 32 := by
      by_contra hcon
      rw [zipTryEncoding, if_pos (Or.inl (by omega))] at htry
      simp at htry
    omega

/-- The three writes fill the room with the new entry. -/
theorem insertWrite_spec (prevlen : Nat) {o L p : Nat} {P U Q s : Bytes} (hp : p = 10 + P.length)
    (hU : U.length = (newCell prevlen s).rawLen) :
    insertWrite (zipFrame o L (P ++ (U ++ Q))) p prevlen s
      = .ok (zipFrame o L (P ++ ((newCell prevlen s).bytes ++ Q))) := by
  set F := prevField (decide (ZIP_BIGLEN ≤ prevlen)) prevlen with hF
  have hF' : zipPrevEncodeLength prevlen = F := zipPrevEncodeLength_eq prevlen
  have hbytes : (newCell prevlen s).bytes = F ++ (zipHead s ++ zipData s) := rfl
  -- the room, cut as the three writes see it
  obtain ⟨U₁, U₂, U₃, rfl, h1, h2, h3⟩ : ∃ U₁ U₂ U₃ : Bytes, U = U₁ ++ (U₂ ++ U₃) ∧
      U₁.length = F.length ∧ U₂.length = (zipHead s).length ∧ U₃.length = (zipData s).length := by
    have hlen : U.length = F.length + ((zipHead s).length + (zipData s).length) := by
      rw [hU, ← ZipCell.length_bytes, hbytes, List.length_append, List.length_append]
    refine ⟨U.take F.length, (U.drop F.length).take (zipHead s).length,
      (U.drop F.length).drop (zipHead s).length, ?_, ?_, ?_, ?_⟩
    · rw [List.take_append_drop, List.take_append_drop]
    · rw [List.length_take]
      omega
    · rw [List.length_take, List.length_drop]
      omega
    · rw [List.length_drop, List.length_drop]
      omega
  have hw1 := writeBytes_zipFrame (o := o) (L := L) (P := P) (B := U₁) (D := F)
    (Q := U₂ ++ (U₃ ++ Q)) hp h1.symm
  have hw2 := writeBytes_zipFrame (o := o) (L := L) (P := P ++ F) (B := U₂)
    (D := zipHead s) (Q := U₃ ++ Q) (p := p + F.length) (by simp [hp]; omega) h2.symm
  have hw3 := writeBytes_zipFrame (o := o) (L := L) (P := P ++ (F ++ zipHead s)) (B := U₃)
    (D := zipData s) (Q := Q) (p := p + F.length + (zipHead s).length) (by simp [hp]; omega) h3.symm
  simp only [List.append_assoc] at hw1 hw2 hw3 ⊢
  have hsave : ∀ value encoding, zipTryEncoding s = some (value, encoding) →
      zipSaveInteger value encoding = .ok (zipData s) :=
    fun value encoding h => (zipTryEncoding_spec h).2.save
  rw [insertWrite, hF', hw1]
  simp only [bind, Except.bind]
  rw [show zipEncodeLength (insertEncoding s) s.length = zipHead s from rfl, hw2]
  simp only
  cases htry : zipTryEncoding s with
  | none =>
    rw [show zipData s = s by rw [zipData, htry]] at hw3
    simp only
    rw [hw3, hbytes, show zipData s = s by rw [zipData, htry]]
    simp only [List.append_assoc]
  | some ve =>
    obtain ⟨value, encoding⟩ := ve
    simp only [hsave value encoding htry]
    rw [hw3, hbytes]
    simp only [List.append_assoc]

section Entries

variable {o L p : Nat} {P : Bytes} {f : ZipCell} {fs : List ZipCell}

/-- The entry at the start of the rest. -/
theorem readByte_zipFrame_cons (hf : f.Fits) (R : Bytes) (hp : p = 10 + P.length) :
    ∃ b, readByte (zipFrame o L (P ++ (f.bytes ++ R))) p = .ok b ∧ b ≠ ZIP_END := by
  obtain ⟨A, C, hframe, hA⟩ := zipFrame_cell o L P R f
  obtain ⟨b, hb, hne⟩ := readByte_cell hf A C
  exact ⟨b, by rw [hframe, hp, ← hA, hb], hne⟩

theorem zipDecodePrevlen_zipFrame (hf : f.Fits) (R : Bytes) (hp : p = 10 + P.length) :
    zipDecodePrevlen (zipFrame o L (P ++ (f.bytes ++ R))) p = .ok (prevSize f.big, f.prev) := by
  obtain ⟨A, C, hframe, hA⟩ := zipFrame_cell o L P R f
  rw [hframe, hp, ← hA, zipDecodePrevlen_cell hf]

theorem zipRawEntryLength_zipFrame (hf : f.Fits) (R : Bytes) (hp : p = 10 + P.length) :
    zipRawEntryLength (zipFrame o L (P ++ (f.bytes ++ R))) p = .ok f.rawLen := by
  obtain ⟨A, C, hframe, hA⟩ := zipFrame_cell o L P R f
  rw [hframe, hp, ← hA, zipRawEntryLength_cell hf]

theorem zipPrevLenByteDiff_zipFrame (hf : f.Fits) (R : Bytes) (hp : p = 10 + P.length) (n : Nat) :
    zipPrevLenByteDiff (zipFrame o L (P ++ (f.bytes ++ R))) p n
      = .ok ((prevSize (decide (ZIP_BIGLEN ≤ n)) : Int) - prevSize f.big) := by
  obtain ⟨A, C, hframe, hA⟩ := zipFrame_cell o L P R f
  rw [zipPrevLenByteDiff, hframe, hp, ← hA, zipDecodePrevlensize_cell hf, length_zipPrevEncodeLength]
  rfl

end Entries

/-- The last cell of a list that has one. -/
theorem lastRaw_concat (pl : Nat) (es : List ZipCell) (e : ZipCell) :
    lastRaw pl (es ++ [e]) = e.rawLen := by
  simp [lastRaw]

theorem tailOf_concat (P : Bytes) (es : List ZipCell) (e : ZipCell) :
    tailOf P (es ++ [e]) = 10 + P.length + (cellsBytes es).length := by
  simp [tailOf]

/-- `prevlen` is the raw length of the entry in front of the place of the insertion. -/
theorem insertPrevlen_spec (pre post : List ZipCell) (h : Represents zl (pre ++ post)) :
    insertPrevlen zl (10 + (cellsBytes pre).length) = .ok (lastRaw 0 pre) := by
  obtain ⟨L, rfl⟩ := h.frame
  obtain ⟨hpre, hpost⟩ := (linked_append _ _ _).mp h.linked
  have htail := tailOf_lt [] (pre ++ post)
  have hsize := h.size_lt
  rw [insertPrevlen, cellsBytes_append]
  cases post with
  | cons f fs =>
    have hf : f.Fits := h.fits f (by simp)
    obtain ⟨b, hb, hne⟩ := readByte_zipFrame_cons (o := tailOf [] (pre ++ f :: fs)) (L := L)
      (P := cellsBytes pre) hf (cellsBytes fs) rfl
    rw [← cellsBytes_cons] at hb
    simp only [hb, bind, Except.bind]
    rw [if_pos hne, cellsBytes_cons, zipDecodePrevlen_zipFrame hf _ rfl, hpost.1]
    rfl
  | nil =>
    rw [cellsBytes_nil, List.append_nil, List.append_nil, readByte_zipFrame_end rfl]
    simp only [bind, Except.bind, ne_eq, not_true, if_false]
    rw [List.append_nil] at htail hsize
    rw [List.nil_append] at htail
    rw [ziplistTailOffset_zipFrame (by omega)]
    simp only
    rcases List.eq_nil_or_concat pre with rfl | ⟨es, e, rfl⟩
    · rfl
    · have he : e.Fits := h.fits e (by simp)
      rw [List.concat_eq_append, lastRaw_concat, tailOf_concat, cellsBytes_append, cellsBytes_cons,
        cellsBytes_nil]
      obtain ⟨b, hb, hne⟩ := readByte_zipFrame_cons (p := 10 + (cellsBytes es).length)
        (o := 10 + (cellsBytes es).length) (L := L) (P := cellsBytes es) he [] rfl
      simp only [List.length_nil, Nat.add_zero, hb, hne, not_false_eq_true, if_true]
      exact zipRawEntryLength_zipFrame he _ rfl

/-- What the entry behind an insertion becomes. -/
def pushedCell (f : ZipCell) (reqlen : Nat) (forcelarge : Bool) : ZipCell :=
  { f with big := forcelarge || decide (ZIP_BIGLEN ≤ reqlen), prev := reqlen }

/-- The bytes read by a move that starts up to ten bytes before `B`. -/
theorem slice?_zipFrame_back {o L t p n : Nat} {P B Q : Bytes}
    (hp : p + t = 10 + P.length) (hn : n = t + B.length) :
    ∃ T : Bytes, T.length = t ∧
      slice? (zipFrame o L (P ++ (B ++ Q))) p n = some (T ++ B) := by
  set H := zipHeader ((P ++ (B ++ Q)).length + 11) o L ++ P with hH
  have hHlen : H.length = 10 + P.length := length_zipHeader_append _ _ _ _
  refine ⟨H.drop p, by rw [List.length_drop]; omega, ?_⟩
  have hsplit : zipFrame o L (P ++ (B ++ Q))
      = H.take p ++ ((H.drop p ++ B) ++ (Q ++ [ZIP_END])) := by
    rw [zipFrame_split, ← hH]
    simp only [← List.append_assoc, List.take_append_drop]
  rw [hsplit]
  refine slice?_append ?_ ?_
  · rw [List.length_take]
    omega
  · rw [List.length_append, List.length_drop]
    omega

/-- Room for `reqlen` bytes in front of `f`, which takes the size of its new field. -/
theorem insertOpen_spec {o L reqlen curlen p k : Nat} {P J : Bytes} {nextdiff : Int} {forcelarge : Bool}
    (hf : f.Fits) (hpush : f' = pushedCell f reqlen forcelarge) (hf' : f'.Fits) (hfs : ∀ g ∈ fs, g.Fits)
    (hdiff : nextdiff = (f'.rawLen : Int) - f.rawLen) (hk : (k : Int) = reqlen + nextdiff) (hJ : J.length = k)
    (hcur : curlen = (P ++ cellsBytes (f :: fs)).length + 11) (hsize : curlen + k < 2 ^ 32)
    (hp : p = 10 + P.length) (htail : o = tailOf P (f :: fs)) :
    ∃ U : Bytes, U.length = reqlen ∧
      insertOpen (zipFrame o L ((P ++ cellsBytes (f :: fs)) ++ J)) curlen p reqlen nextdiff
          forcelarge
        = .ok (zipFrame (tailOf (P ++ U) (f' :: fs)) L ((P ++ U) ++ cellsBytes (f' :: fs))) := by
  subst hp hcur htail
  set B := zipBody f.val ++ cellsBytes fs with hB
  have hX : (P ++ cellsBytes (f :: fs)) ++ J = (P ++ prevField f.big f.prev) ++ (B ++ J) := by
    rw [hB]
    simp only [cellsBytes_cons, ZipCell.bytes, List.append_assoc]
  have hval : f'.val = f.val := by rw [hpush]; rfl
  have hraw : (f'.rawLen : Int) - f.rawLen = (prevSize f'.big : Int) - prevSize f.big := by
    rw [ZipCell.rawLen, ZipCell.rawLen, hval]
    push_cast
    omega
  have hs := prevSize_le f.big
  have hs' := prevSize_le f'.big
  have hlen : (P ++ cellsBytes (f :: fs)).length = P.length + prevSize f.big + B.length := by
    rw [hB]
    simp only [cellsBytes_cons, ZipCell.length_bytes, ZipCell.rawLen, List.length_append]
    omega
  -- the moved bytes: the place of the new field and everything behind the old one
  obtain ⟨T, hT, hslice⟩ := slice?_zipFrame_back (o := tailOf P (f :: fs)) (L := L)
    (t := prevSize f'.big) (p := 10 + P.length + prevSize f.big - prevSize f'.big)
    (n := prevSize f'.big + B.length) (P := P ++ prevField f.big f.prev) (B := B) (Q := J)
    (by simp; omega) rfl
  rw [← hX] at hslice
  obtain ⟨U, V, hUV, hU, hV⟩ : ∃ U V : Bytes, cellsBytes (f :: fs) ++ J = U ++ V ∧
      U.length = reqlen ∧ V.length = prevSize f'.big + B.length := by
    have htotal : (cellsBytes (f :: fs) ++ J).length = reqlen + (prevSize f'.big + B.length) := by
      rw [List.length_append] at hlen ⊢
      omega
    refine ⟨_, _, (List.take_append_drop reqlen _).symm, ?_, ?_⟩
    · rw [List.length_take]
      omega
    · rw [List.length_drop]
      omega
  refine ⟨U, hU, ?_⟩
  obtain ⟨b, hb, hne⟩ := readByte_zipFrame_cons (o := tailOf P (f :: fs)) (L := L) (P := P)
    hf (cellsBytes fs ++ J) rfl
  rw [← List.append_assoc f.bytes, ← cellsBytes_cons, ← List.append_assoc P] at hb
  have hsrc : pointerAdd (10 + P.length) (-nextdiff)
      = .ok (10 + P.length + prevSize f.big - prevSize f'.big) := pointerAdd_eq (by omega)
  have hcount : pointerAdd ((P ++ cellsBytes (f :: fs)).length + 11 - (10 + P.length) - 1) nextdiff
      = .ok (prevSize f'.big + B.length) := pointerAdd_eq (by omega)
  have hmove : moveBytes (zipFrame (tailOf P (f :: fs)) L ((P ++ cellsBytes (f :: fs)) ++ J))
      (10 + P.length + reqlen) (10 + P.length + prevSize f.big - prevSize f'.big)
      (prevSize f'.big + B.length)
      = .ok (zipFrame (tailOf P (f :: fs)) L ((P ++ U) ++ (T ++ B))) := by
    have hform : (P ++ cellsBytes (f :: fs)) ++ J = (P ++ U) ++ (V ++ []) := by
      rw [List.append_assoc, hUV, List.append_nil, List.append_assoc]
    rw [hform] at hslice ⊢
    rw [moveBytes_zipFrame hslice (by simp [hU]; omega) (by simp [hT, hV]), List.append_nil]
  have hfield : (if forcelarge then zipPrevEncodeLengthForceLarge reqlen
      else zipPrevEncodeLength reqlen) = prevField f'.big reqlen := by
    rw [hpush, pushedCell, zipPrevEncodeLength_eq]
    cases forcelarge <;> rfl
  have hwrite := writeBytes_zipFrame (o := tailOf P (f :: fs)) (L := L) (P := P ++ U)
    (B := T) (D := prevField f'.big reqlen) (Q := B) (p := 10 + P.length + reqlen)
    (by simp [hU]; omega) (by simp [hT])
  have hcells : prevField f'.big reqlen ++ B = cellsBytes (f' :: fs) := by
    rw [hB, cellsBytes_cons, ZipCell.bytes, hval, show f'.prev = reqlen by rw [hpush]; rfl,
      List.append_assoc]
  rw [hcells] at hwrite
  -- the two corrections of the tail
  have ht0 := tailOf_lt P (f :: fs)
  have ht1 := tailOf_lt P (f' :: fs)
  have htotal' : (P ++ cellsBytes (f' :: fs)).length + reqlen
      = (P ++ cellsBytes (f :: fs)).length + k := by
    simp only [cellsBytes_cons, List.length_append, ZipCell.length_bytes]
    omega
  have hadd := addTailOffset_zipFrame (o := tailOf P (f :: fs)) (L := L)
    (X := (P ++ U) ++ cellsBytes (f' :: fs)) (reqlen : Int) (by omega)
  have hnd := tailNextdiff_spec (L := L) (p := 10 + P.length + reqlen) (P := P) (Q := P ++ U)
    (d := (reqlen : Int)) (t := tailOf (P ++ U) (f' :: fs)) hf' hfs hdiff (by simp [hU]; omega)
    (by rw [tailOf_shift, hU]; push_cast; rfl) (by rw [tailOf_shift]; omega)
  rw [insertOpen, hb]
  simp only [bind, Except.bind]
  rw [if_pos hne, hsrc]
  simp only [hcount, hmove, hfield, hwrite, hadd, hnd]

/-- The raw lengths are below the size of the block. -/
theorem lastRaw_lt {es : List ZipCell} : lastRaw 0 es ≤ (cellsBytes es).length := by
  rcases List.eq_nil_or_concat es with rfl | ⟨fs, f, rfl⟩
  · simp
  · rw [List.concat_eq_append, lastRaw_concat]
    simp

/-- The new entry becomes the tail. -/
theorem ziplistInsertAt_end (h : Represents zl pre) (s : Bytes) (hp : p = 10 + (cellsBytes pre).length) :
    Sat (ziplistInsertAt junk zl p s)
      (fun zl' => Represents zl' (pre ++ [newCell (lastRaw 0 pre) s]) ∧
        (Counts zl pre.length → Counts zl' (pre.length + 1)))
      ZipFault.Overflows := by
  subst hp
  have hprev := insertPrevlen_spec pre [] (by rwa [List.append_nil])
  obtain ⟨L, rfl⟩ := h.frame
  set c := newCell (lastRaw 0 pre) s with hc
  have hreq : insertReqlen s (lastRaw 0 pre) = c.rawLen := insertReqlen_eq _ _
  have hpos := c.rawLen_pos
  have hsz := h.size_lt
  have hnd : insertNextdiff (zipFrame (tailOf [] pre) L (cellsBytes pre))
      (10 + (cellsBytes pre).length) c.rawLen = .ok 0 := by
    rw [insertNextdiff, readByte_zipFrame_end rfl]
    rfl
  rw [ziplistInsertAt, ziplistBytes_zipFrame h.size_lt]
  simp only [bind, Except.bind, hprev, hreq, hnd]
  rw [if_neg (by simp), pointerAdd_eq (q := (cellsBytes pre).length + 11 + c.rawLen) (by simp)]
  refine Sat.bind (ziplistResize_grow junk c.rawLen) ?_
  rintro _ ⟨hlt, U, hU, hhead, rfl⟩
  -- the first fresh byte is the old end marker
  have hend : readByte (zipFrame (tailOf [] pre) L (cellsBytes pre ++ U))
      (10 + (cellsBytes pre).length) = .ok ZIP_END := by
    obtain ⟨U', rfl⟩ : ∃ U', U = ZIP_END :: U' := by
      cases U with
      | nil => simp at hU; omega
      | cons a U' => exact ⟨U', by rw [Option.some.inj (hhead (by omega))]⟩
    rw [zipFrame_split, ← length_zipHeader_append ((cellsBytes pre ++ ZIP_END :: U').length + 11)
      (tailOf [] pre) L, readByte_append_self]
    rfl
  have hopen : insertOpen (zipFrame (tailOf [] pre) L (cellsBytes pre ++ U))
      ((cellsBytes pre).length + 11) (10 + (cellsBytes pre).length) c.rawLen 0 false
      = .ok (zipFrame (tailOf [] (pre ++ [c])) L (cellsBytes pre ++ (U ++ []))) := by
    rw [insertOpen, hend, List.append_nil]
    simp only [bind, Except.bind, ne_eq, not_true, if_false]
    rw [setTailOffset_zipFrame, tailOf_concat, uint32_eq (m := 10 + (cellsBytes pre).length) rfl
      (by omega)]
    rfl
  have hwrite := insertWrite_spec (lastRaw 0 pre) (o := tailOf [] (pre ++ [c])) (L := L) (s := s)
    (P := cellsBytes pre) (U := U) (Q := []) rfl hU
  rw [decide_eq_false (p := (0 : Int) = -4 ∧ c.rawLen < 4) (by simp), hopen]
  simp only [cascadeIf, ne_eq, not_true, if_false, pure, Except.pure, hwrite, ← hc,
    incrLength_zipFrame]
  have hlast : lastRaw 0 pre ≤ (cellsBytes pre).length := lastRaw_lt
  have hslen : s.length < 2 ^ 32 := length_lt_of_insertReqlen (by rw [hreq]; omega)
  refine ⟨⟨⟨incrCount L 1, ?_⟩, ?_, ?_, ?_⟩, fun hcount => hcount.incr rfl le_rfl⟩
  · simp
  · exact (linked_append _ _ _).mpr ⟨h.linked, rfl, trivial⟩
  · intro e he
    rcases List.mem_append.mp he with he | he
    · exact h.fits e he
    · rw [List.mem_singleton.mp he]
      exact newCell_fits (by omega) hslen
  · rw [cellsBytes_append, cellsBytes_cons, cellsBytes_nil, List.append_nil, List.length_append,
      ZipCell.length_bytes]
    omega

/-- The difference that is used, after the correction of `forcelarge`, is the change of
    the raw length of the next entry, and the block never gets smaller. -/
theorem pushedCell_nextdiff (f : ZipCell) (reqlen : Nat) {diff : Int} {forcelarge : Bool}
    (hdiff : diff = (prevSize (decide (ZIP_BIGLEN ≤ reqlen)) : Int) - prevSize f.big)
    (hforce : forcelarge = decide (diff = -4 ∧ reqlen < 4)) :
    (if forcelarge then 0 else diff) = ((pushedCell f reqlen forcelarge).rawLen : Int) - f.rawLen ∧
      0 ≤ (reqlen : Int) + if forcelarge then 0 else diff := by
  have hraw : ((pushedCell f reqlen forcelarge).rawLen : Int) - f.rawLen
      = (prevSize (forcelarge || decide (ZIP_BIGLEN ≤ reqlen)) : Int) - prevSize f.big := by
    simp only [ZipCell.rawLen, pushedCell]
    push_cast
    omega
  have hs : ∀ b, prevSize b = 1 ∨ prevSize b = 5 := by decide
  have hs₁ := hs f.big
  have hs₂ := hs (decide (ZIP_BIGLEN ≤ reqlen))
  rw [hraw]
  cases hfl : forcelarge with
  | true =>
    rw [hfl, eq_comm, decide_eq_true_iff] at hforce
    simp only [if_true, Bool.true_or, show prevSize true = 5 from rfl]
    omega
  | false =>
    rw [hfl, eq_comm, decide_eq_false_iff_not] at hforce
    simp only [Bool.false_eq_true, if_false, Bool.false_or]
    omega

/-- The new entry pushes `f` and everything behind it to the back. -/
theorem ziplistInsertAt_before (h : Represents zl (pre ++ f :: fs)) (s : Bytes)
    (hp : p = 10 + (cellsBytes pre).length) :
    Sat (ziplistInsertAt junk zl p s)
      (fun zl' => (∃ es', Represents zl' (pre ++ newCell (lastRaw 0 pre) s :: es') ∧
        es'.map ZipCell.val = (f :: fs).map ZipCell.val) ∧
        ∀ n, Counts zl n → Counts zl' (n + 1))
      ZipFault.Overflows := by
  subst hp
  have hprev := insertPrevlen_spec _ _ h
  obtain ⟨L, rfl⟩ := h.frame
  obtain ⟨hpre, -, hpost⟩ := (linked_append _ _ _).mp h.linked
  have hf : f.Fits := h.fits f (by simp)
  have hfs : ∀ g ∈ fs, g.Fits := fun g hg => h.fits g (by simp [hg])
  have hsz := h.size_lt
  set P := cellsBytes pre with hP
  set c := newCell (lastRaw 0 pre) s with hc
  have hX : cellsBytes (pre ++ f :: fs) = P ++ cellsBytes (f :: fs) := cellsBytes_append _ _
  have htail : tailOf [] (pre ++ f :: fs) = tailOf P (f :: fs) := by
    rw [tailOf_append, List.nil_append]
  rw [hX] at hsz hprev ⊢
  rw [htail] at hprev ⊢
  have hreq : insertReqlen s (lastRaw 0 pre) = c.rawLen := insertReqlen_eq _ _
  set diff : Int := (prevSize (decide (ZIP_BIGLEN ≤ c.rawLen)) : Int) - prevSize f.big with hdiff
  set forcelarge : Bool := decide (diff = -4 ∧ c.rawLen < 4) with hforce
  set nextdiff : Int := if forcelarge then 0 else diff with hnextdiff
  set f' := pushedCell f c.rawLen forcelarge with hf'
  obtain ⟨hnd, hnonneg⟩ := pushedCell_nextdiff f c.rawLen hdiff hforce
  rw [← hnextdiff, ← hf'] at hnd
  rw [← hnextdiff] at hnonneg
  obtain ⟨k, hk⟩ := Int.eq_ofNat_of_zero_le hnonneg
  have hinsdiff : insertNextdiff (zipFrame (tailOf P (f :: fs)) L (P ++ cellsBytes (f :: fs)))
      (10 + P.length) c.rawLen = .ok diff := by
    obtain ⟨b, hb, hne⟩ := readByte_zipFrame_cons (o := tailOf P (f :: fs)) (L := L) (P := P)
      hf (cellsBytes fs) rfl
    rw [insertNextdiff, cellsBytes_cons, hb]
    simp only [bind, Except.bind]
    rw [if_pos hne]
    exact zipPrevLenByteDiff_zipFrame hf _ rfl _
  rw [ziplistInsertAt, ziplistBytes_zipFrame hsz]
  simp only [bind, Except.bind, hprev, hreq, hinsdiff]
  rw [← hforce, ← hnextdiff, pointerAdd_eq (q := (P ++ cellsBytes (f :: fs)).length + 11 + k)
    (by push_cast at hk ⊢; omega)]
  refine Sat.bind (ziplistResize_grow junk k) ?_
  rintro _ ⟨hlt, J, hJ, -, rfl⟩
  have hdiffle : -4 ≤ nextdiff := by
    have hs := prevSize_le f.big
    have hs' := prevSize_le f'.big
    have hval : f'.val = f.val := rfl
    rw [hnd, ZipCell.rawLen, ZipCell.rawLen, hval]
    push_cast
    omega
  have hclt : c.rawLen < 2 ^ 32 := by omega
  have hf'fits : f'.Fits := by
    refine ⟨fun hb => ?_, hclt, hf.val_lt⟩
    rw [hf', pushedCell] at hb ⊢
    simp only [Bool.or_eq_false_iff, decide_eq_false_iff_not, not_le] at hb
    exact hb.2
  obtain ⟨U, hU, hopen⟩ := insertOpen_spec (L := L) (P := P) (J := J) (k := k) hf hf' hf'fits hfs
    hnd hk.symm hJ rfl hlt rfl rfl
  have hgrown : ((P ++ U) ++ cellsBytes (f' :: fs)).length + 11 < 2 ^ 32 := by
    simp only [cellsBytes_cons, List.length_append, ZipCell.length_bytes] at hlt ⊢
    omega
  refine Sat.bind_ok hopen ?_
  refine Sat.bind (cascadeIf_spec junk (f := f) hf'fits hfs hpost hnd hgrown (by simp [hU]; omega)) ?_
  rintro _ ⟨fs', rfl, hl, hfs', hval, hsize'⟩
  have hwrite := insertWrite_spec (lastRaw 0 pre) (o := tailOf (P ++ U) (f' :: fs')) (L := L) (s := s)
    (P := P) (U := U) (Q := cellsBytes (f' :: fs')) rfl hU
  rw [← List.append_assoc, ← List.append_assoc] at hwrite
  refine Sat.bind_ok hwrite ?_
  rw [← hc, incrLength_zipFrame]
  have hbytes : cellsBytes (pre ++ c :: f' :: fs') = (P ++ c.bytes) ++ cellsBytes (f' :: fs') := by
    rw [cellsBytes_append, cellsBytes_cons, List.append_assoc]
  refine ⟨⟨f' :: fs', ⟨⟨incrCount L 1, ?_⟩, ?_, ?_, ?_⟩, ?_⟩, fun n hcount => hcount.incr rfl le_rfl⟩
  · rw [hbytes, tailOf_append, tailOf_cons, List.nil_append, tailOf_shift, tailOf_shift, hU,
      ZipCell.length_bytes]
  · exact (linked_append _ _ _).mpr ⟨hpre, rfl, rfl, hl⟩
  · have hslen : s.length < 2 ^ 32 := length_lt_of_insertReqlen (by rw [hreq]; exact hclt)
    have hlast : lastRaw 0 pre ≤ P.length := lastRaw_lt
    rw [List.length_append] at hsz
    intro e he
    rcases List.mem_append.mp he with he | he
    · exact h.fits e (by simp [he])
    rcases List.mem_cons.mp he with rfl | he
    · exact newCell_fits (by omega) hslen
    rcases List.mem_cons.mp he with rfl | he
    · exact hf'fits
    · exact hfs' e he
  · rw [hbytes]
    simp only [List.length_append, hU, ZipCell.length_bytes] at hsize' ⊢
    exact hsize'
  · simp [hval, hf', pushedCell]

/-- **Insertion.**  One more string in front of the cells `post`. -/
theorem ziplistInsertAt_spec {pre post : List ZipCell} (h : Represents zl (pre ++ post)) (s : Bytes)
    (hp : p = 10 + (cellsBytes pre).length) :
    Sat (ziplistInsertAt junk zl p s)
      (fun zl' => (∃ es, Represents zl' es ∧
        es.map ZipCell.val = pre.map ZipCell.val ++ s :: post.map ZipCell.val) ∧
        (Counts zl (pre ++ post).length → Counts zl' ((pre ++ post).length + 1)))
      ZipFault.Overflows := by
  cases post with
  | nil =>
    rw [List.append_nil] at h ⊢
    refine (ziplistInsertAt_end junk h s hp).weaken ?_
    rintro zl' ⟨h', hcount⟩
    refine ⟨⟨_, h', ?_⟩, hcount⟩
    simp [newCell]
  | cons f fs =>
    refine (ziplistInsertAt_before junk h s hp).weaken ?_
    rintro zl' ⟨⟨es', h', hval⟩, hcount⟩
    refine ⟨⟨_, h', ?_⟩, hcount _⟩
    simp [newCell, hval]

/-! ### Deletion -/

/-- The loop stops behind `num` cells, or behind the last one. -/
theorem ziplistSkip_spec {o L : Nat} {P : Bytes} {es : List ZipCell} (hes : ∀ e ∈ es, e.Fits) (num : Nat)
    (hp : p = 10 + P.length) (deleted : Nat) :
    ziplistSkip (zipFrame o L (P ++ cellsBytes es)) num p deleted
      = .ok (p + (cellsBytes (es.take num)).length, deleted + (es.take num).length) := by
  induction num generalizing P es p deleted with
  | zero =>
    obtain ⟨b, hb, -⟩ := readByte_zipFrame_cells hes o L P hp
    rw [ziplistSkip, hb]
    simp [bind, Except.bind, pure, Except.pure]
  | succ num ih =>
    cases es with
    | nil =>
      rw [ziplistSkip, cellsBytes_nil, List.append_nil, readByte_zipFrame_end hp]
      simp [bind, Except.bind, pure, Except.pure]
    | cons e es =>
      have he := hes e (by simp)
      obtain ⟨b, hb, hne⟩ := readByte_zipFrame_cons (o := o) (L := L) (P := P) he
        (cellsBytes es) hp
      have hnext := ih (P := P ++ e.bytes) (fun g hg => hes g (List.mem_cons_of_mem e hg))
        (p := p + e.rawLen) (by simp [hp]; omega) (deleted + 1)
      rw [List.append_assoc] at hnext
      rw [ziplistSkip, cellsBytes_cons, hb]
      simp only [bind, Except.bind]
      rw [if_neg hne, zipRawEntryLength_zipFrame he _ hp]
      simp only [hnext, List.take_succ_cons, cellsBytes_cons, List.length_append,
        ZipCell.length_bytes, List.length_cons]
      congr 2 <;> omega

/-- What the entry behind a deletion becomes. -/
def pulledCell (f : ZipCell) (prevlen : Nat) : ZipCell :=
  { f with big := decide (ZIP_BIGLEN ≤ prevlen), prev := prevlen }

/-- The entry before the deleted ones becomes the tail. -/
theorem deleteClose_end (totlen : Nat) {o L p : Nat} {X : Bytes} {first : ZlEntry} (hp : p = 10 + X.length)
    (hfirst : first.p = 10 + (cellsBytes pre).length) (hprev : first.prevrawlen = lastRaw 0 pre)
    (hlt : (cellsBytes pre).length + 10 < 2 ^ 32) :
    deleteClose (zipFrame o L X) first p totlen = .ok (zipFrame (tailOf [] pre) L X, 0) := by
  have htail : (first.p : Int) - first.prevrawlen = tailOf [] pre := by
    rw [hfirst, hprev]
    rcases List.eq_nil_or_concat pre with rfl | ⟨es, e, rfl⟩
    · rfl
    · rw [List.concat_eq_append, lastRaw_concat, tailOf_concat]
      simp
      omega
  have hle := tailOf_lt [] pre
  rw [List.nil_append] at hle
  rw [deleteClose, readByte_zipFrame_end hp]
  simp only [bind, Except.bind, ne_eq, not_true, if_false]
  rw [htail, setTailOffset_zipFrame, uint32_eq rfl (by omega)]
  rfl

/-- The cells `D` disappear; `f` takes the size of its new field, for which there is room
    when it grows. -/
theorem deleteClose_before {L p : Nat} {P : Bytes} {D : List ZipCell} (fs : List ZipCell) {first : ZlEntry}
    (hf : f.Fits) (hpush : f' = pulledCell f first.prevrawlen) (hf' : f'.Fits) (hfs : ∀ g ∈ fs, g.Fits)
    (hroom : prevSize f'.big ≤ (cellsBytes D).length + prevSize f.big) (hfirst : first.p = 10 + P.length)
    (hp : p = 10 + P.length + (cellsBytes D).length)
    (hsize : ((P ++ cellsBytes D) ++ cellsBytes (f :: fs)).length + 11 < 2 ^ 32) :
    ∃ Y : Bytes, (Y.length : Int) = (cellsBytes D).length + f.rawLen - f'.rawLen ∧
      deleteClose (zipFrame (tailOf (P ++ cellsBytes D) (f :: fs)) L
          ((P ++ cellsBytes D) ++ cellsBytes (f :: fs))) first p (cellsBytes D).length
        = .ok (zipFrame (tailOf P (f' :: fs)) L ((P ++ cellsBytes (f' :: fs)) ++ Y),
            (f'.rawLen : Int) - f.rawLen) := by
  set DB := cellsBytes D with hDB
  set B := zipBody f.val ++ cellsBytes fs with hB
  set o := tailOf (P ++ DB) (f :: fs) with htail
  have hval : f'.val = f.val := by rw [hpush]; rfl
  have hraw : (f'.rawLen : Int) - f.rawLen = (prevSize f'.big : Int) - prevSize f.big := by
    rw [ZipCell.rawLen, ZipCell.rawLen, hval]
    push_cast
    omega
  have hlenP : (P ++ DB).length = P.length + DB.length := List.length_append
  have hlenC : (cellsBytes (f :: fs)).length = prevSize f.big + B.length := by
    rw [hB]
    simp only [cellsBytes_cons, ZipCell.length_bytes, ZipCell.rawLen, List.length_append]
    omega
  rw [List.length_append, hlenP, hlenC] at hsize
  obtain ⟨b, hb, hne⟩ := readByte_zipFrame_cons (o := o) (L := L) (P := P ++ DB) hf
    (cellsBytes fs) (p := p) (by omega)
  have hnd := zipPrevLenByteDiff_zipFrame (o := o) (L := L) (P := P ++ DB) hf
    (cellsBytes fs) (p := p) (by omega) first.prevrawlen
  rw [← cellsBytes_cons] at hb hnd
  have hbig : decide (ZIP_BIGLEN ≤ first.prevrawlen) = f'.big := by rw [hpush]; rfl
  rw [hbig, ← hraw] at hnd
  -- the room of the deleted entries and of the old field, cut where the new field starts
  set q := 10 + P.length + DB.length + prevSize f.big - prevSize f'.big with hq
  have hback : pointerAdd p (-((f'.rawLen : Int) - f.rawLen)) = .ok q := pointerAdd_eq (by omega)
  obtain ⟨E, T, hET, hE, hT⟩ : ∃ E T : Bytes, DB ++ prevField f.big f.prev = E ++ T ∧
      E.length = DB.length + prevSize f.big - prevSize f'.big ∧ T.length = prevSize f'.big := by
    refine ⟨_, _, (List.take_append_drop (DB.length + prevSize f.big - prevSize f'.big) _).symm,
      ?_, ?_⟩
    · rw [List.length_take, List.length_append, length_prevField]
      omega
    · rw [List.length_drop, List.length_append, length_prevField]
      omega
  have hX : (P ++ DB) ++ cellsBytes (f :: fs) = (P ++ E) ++ (T ++ B) := by
    have hform : (P ++ DB) ++ cellsBytes (f :: fs) = P ++ ((DB ++ prevField f.big f.prev) ++ B) := by
      rw [hB]
      simp only [cellsBytes_cons, ZipCell.bytes, List.append_assoc]
    rw [hform, hET]
    simp only [List.append_assoc]
  have hcells : prevField f'.big first.prevrawlen ++ B = cellsBytes (f' :: fs) := by
    rw [hB, cellsBytes_cons, ZipCell.bytes, hval,
      show f'.prev = first.prevrawlen by rw [hpush]; rfl, List.append_assoc]
  have hwrite := writeBytes_zipFrame (o := o) (L := L) (P := P ++ E) (B := T)
    (D := prevField f'.big first.prevrawlen) (Q := B) (p := q) (by simp [hE]; omega) (by simp [hT])
  rw [hcells, ← hX] at hwrite
  have hlenC' : (cellsBytes (f' :: fs)).length = prevSize f'.big + B.length := by
    rw [← hcells, List.length_append, length_prevField]
  -- the two corrections of the tail
  have ht : o = tailOf P (f :: fs) + DB.length := by rw [htail, tailOf_shift]
  have hle := tailOf_lt P (f :: fs)
  have hle' := tailOf_lt P (f' :: fs)
  rw [List.length_append] at hle hle'
  have hadd := addTailOffset_zipFrame (o := o) (L := L)
    (X := (P ++ E) ++ cellsBytes (f' :: fs)) (-(DB.length : Int)) (by omega)
  have hnext := tailNextdiff_spec (L := L) (p := q) (P := P ++ DB) (Q := P ++ E)
    (d := -(DB.length : Int)) (t := tailOf P (f' :: fs)) hf' hfs (f := f) rfl (by simp [hE]; omega)
    (by rw [tailOf_shift]; push_cast; omega) (by omega)
  rw [← htail] at hnext
  -- the move to the front
  have hbytes := ziplistBytes_zipFrame (o := tailOf P (f' :: fs)) (L := L)
    (X := (P ++ E) ++ cellsBytes (f' :: fs)) (by simp [hE] at hlenC' ⊢; omega)
  have hslice : slice? (zipFrame (tailOf P (f' :: fs)) L ((P ++ E) ++ (cellsBytes (f' :: fs) ++ [])))
      q (((P ++ E) ++ cellsBytes (f' :: fs)).length + 11 - q - 1) = some (cellsBytes (f' :: fs)) :=
    slice?_zipFrame (by simp [hE]; omega) (by rw [List.length_append, List.length_append, hE]; omega)
  obtain ⟨V, Y, hVY, hV, hY⟩ : ∃ V Y : Bytes, E ++ cellsBytes (f' :: fs) = V ++ Y ∧
      (cellsBytes (f' :: fs)).length = V.length ∧ Y.length = E.length := by
    refine ⟨_, _, (List.take_append_drop (cellsBytes (f' :: fs)).length _).symm, ?_, ?_⟩
    · rw [List.length_take, List.length_append]
      omega
    · rw [List.length_drop, List.length_append]
      omega
  have hform : (P ++ E) ++ cellsBytes (f' :: fs) = P ++ (V ++ Y) := by
    rw [List.append_assoc, hVY]
  rw [List.append_nil, hform] at hslice
  have hmove := moveBytes_zipFrame hslice (d := first.p) hfirst hV
  rw [← hform] at hmove
  refine ⟨Y, by omega, ?_⟩
  rw [deleteClose, hb]
  simp only [bind, Except.bind]
  rw [if_pos hne, hnd]
  simp only [hback, zipPrevEncodeLength_eq, hbig, hwrite, hadd, hnext, hbytes, hmove]
  rw [List.append_assoc]
  rfl

/-- What is left of a run of cells is linked, once the field of the first one is right. -/
theorem linked_drop {pl : Nat} {D : List ZipCell} (h : Linked pl (D ++ f :: fs)) : Linked f.rawLen fs :=
  ((linked_append _ _ _).mp h).2.2

/-- **Deletion.**  The first `num` cells from `d` on are gone. -/
theorem ziplistDeleteAt_spec {pre ds : List ZipCell} {d : ZipCell} (h : Represents zl (pre ++ d :: ds))
    (num : Nat) (hp : p = 10 + (cellsBytes pre).length) :
    Sat (ziplistDeleteAt junk zl p num)
      (fun zl' => (∃ es, Represents zl' es ∧
        es.map ZipCell.val = pre.map ZipCell.val ++ ((d :: ds).drop num).map ZipCell.val) ∧
        (Counts zl (pre ++ d :: ds).length →
          Counts zl' (pre.length + ((d :: ds).drop num).length)))
      ZipFault.Overflows := by
  subst hp
  obtain ⟨L, hzl⟩ := h.frame
  obtain ⟨hpre, hprev, -⟩ := (linked_append _ _ _).mp h.linked
  have hfits : ∀ e ∈ d :: ds, e.Fits := fun e he => h.fits e (List.mem_append_right _ he)
  have hsz := h.size_lt
  set P := cellsBytes pre with hP
  rw [cellsBytes_append, ← hP] at hzl hsz
  -- the first entry and the end of the deleted ones
  obtain ⟨A, C, hframe, hA⟩ := zipFrame_cell (tailOf [] (pre ++ d :: ds)) L P (cellsBytes ds) d
  obtain ⟨first, hfirst, -, hfp, -, -, hfa, -⟩ := zipEntry_cell (hfits d (by simp)) A C
  rw [← hframe, ← cellsBytes_cons, ← hzl, hA] at hfirst
  rw [hA] at hfa
  rw [hprev] at hfp
  have hskip := ziplistSkip_spec (o := tailOf [] (pre ++ d :: ds)) (L := L) (P := P) hfits num
    rfl 0
  rw [← hzl] at hskip
  set D := (d :: ds).take num with hD
  have hcut : (d :: ds) = D ++ (d :: ds).drop num := (List.take_append_drop num _).symm
  rw [ziplistDeleteAt, hfirst]
  simp only [bind, Except.bind, hskip, hfa]
  rw [show 10 + P.length + (cellsBytes D).length - (10 + P.length) = (cellsBytes D).length by omega]
  cases num with
  | zero =>
    rw [if_neg (by simp [hD])]
    exact ⟨⟨_, h, by simp⟩, fun hcount => by simpa using hcount⟩
  | succ num =>
    have hDd : D = d :: ds.take num := rfl
    have hDpos : 0 < (cellsBytes D).length := by
      have hd := d.rawLen_pos
      rw [hDd, cellsBytes_cons, List.length_append, ZipCell.length_bytes]
      omega
    rw [if_pos hDpos]
    cases hrest : (d :: ds).drop (num + 1) with
    | nil =>
      rw [hrest, List.append_nil] at hcut
      rw [hcut] at hzl hsz
      rw [List.length_append] at hsz
      have hclose := deleteClose_end (cellsBytes D).length (o := tailOf [] (pre ++ D)) (L := L)
        (p := 10 + P.length + (cellsBytes D).length)
        (X := P ++ cellsBytes D) (by simp; omega) hfa hfp (by rw [← hP]; omega)
      have hbytes := ziplistBytes_zipFrame (o := tailOf [] pre) (L := L)
        (X := P ++ cellsBytes D) (by rw [List.length_append]; omega)
      rw [hzl, hclose]
      simp only [hbytes]
      rw [pointerAdd_eq (q := P.length + 11) (by rw [List.length_append]; push_cast; omega)]
      simp only [ziplistResize_shrink junk (cellsBytes D) (show P.length + 11 < 2 ^ 32 by omega)]
      rw [incrLength_zipFrame]
      refine ⟨⟨pre, ⟨⟨_, rfl⟩, hpre, fun e he => h.fits e (by simp [he]), ?_⟩, by simp⟩, ?_⟩
      · rw [← hP]
        omega
      · intro hcount
        rw [hcut] at hcount
        refine hcount.incr ?_ (by omega)
        rw [List.length_append, List.length_nil]
        push_cast
        omega
    | cons f fs =>
      rw [hrest] at hcut
      rw [hcut] at hzl hsz
      rw [cellsBytes_append, ← List.append_assoc P] at hzl hsz
      have hf : f.Fits := hfits f (by rw [hcut]; simp)
      have hfs : ∀ g ∈ fs, g.Fits := fun g hg => hfits g (by rw [hcut]; simp [hg])
      have hlast : lastRaw 0 pre ≤ P.length := lastRaw_lt
      have hlinked : Linked f.rawLen fs := by
        have hl := ((linked_append _ _ _).mp h.linked).2
        rw [hcut] at hl
        exact linked_drop hl
      set f' := pulledCell f first.prevrawlen with hf'
      have hf'fits : f'.Fits := by
        refine ⟨fun hb => ?_, ?_, hf.val_lt⟩
        · simpa [hf', pulledCell] using hb
        · show first.prevrawlen < 2 ^ 32
          simp only [List.length_append] at hsz
          omega
      -- a large field is needed only where the first deleted entry had one
      have hroom : prevSize f'.big ≤ (cellsBytes D).length + prevSize f.big := by
        have hs := prevSize_le f.big
        cases hb : f'.big with
        | false =>
          rw [show prevSize false = 1 from rfl]
          omega
        | true =>
          have hd : d.big = true := by
            by_contra hcon
            have hsmall := (hfits d (by simp)).small (by simpa using hcon)
            rw [hf', pulledCell] at hb
            simp only [decide_eq_true_eq] at hb
            omega
          rw [hDd, cellsBytes_cons, List.length_append, ZipCell.length_bytes, ZipCell.rawLen, hd]
          omega
      have htail : tailOf [] (pre ++ (D ++ f :: fs)) = tailOf (P ++ cellsBytes D) (f :: fs) := by
        rw [← List.append_assoc, tailOf_append, cellsBytes_append, List.nil_append]
      rw [htail] at hzl
      obtain ⟨Y, hY, hclose⟩ := deleteClose_before fs (L := L) (P := P) (D := D)
        (p := 10 + P.length + (cellsBytes D).length) hf hf' hf'fits hfs hroom hfa rfl hsz
      have hcells : ((cellsBytes (f' :: fs)).length : Int)
          = (cellsBytes (f :: fs)).length + f'.rawLen - f.rawLen := by
        simp only [cellsBytes_cons, List.length_append, ZipCell.length_bytes]
        push_cast
        omega
      have hlen : ((P ++ cellsBytes (f' :: fs)) ++ Y).length
          = ((P ++ cellsBytes D) ++ cellsBytes (f :: fs)).length := by
        simp only [List.length_append]
        omega
      have hgrown : (P ++ cellsBytes (f' :: fs)).length + 11 < 2 ^ 32 := by
        rw [List.length_append] at hlen
        omega
      have hbytes := ziplistBytes_zipFrame (o := tailOf P (f' :: fs)) (L := L)
        (X := (P ++ cellsBytes (f' :: fs)) ++ Y) (by omega)
      rw [hzl, hclose]
      simp only [hbytes]
      rw [pointerAdd_eq (q := (P ++ cellsBytes (f' :: fs)).length + 11)
        (by rw [List.length_append] at hlen ⊢; push_cast; omega)]
      simp only [ziplistResize_shrink junk Y hgrown, incrLength_zipFrame]
      refine (cascadeIf_spec junk (f := f) hf'fits hfs hlinked rfl hgrown rfl).weaken ?_
      rintro _ ⟨fs', rfl, hl, hfs', hval, hsize'⟩
      have hcb : cellsBytes (pre ++ f' :: fs') = P ++ cellsBytes (f' :: fs') := cellsBytes_append _ _
      refine ⟨⟨pre ++ f' :: fs', ⟨⟨incrCount L (-((0 + D.length : Nat) : Int)), ?_⟩, ?_, ?_, ?_⟩,
        ?_⟩, ?_⟩
      · rw [hcb, tailOf_append, List.nil_append]
      · exact (linked_append _ _ _).mpr ⟨hpre, hfp, hl⟩
      · intro e he
        rcases List.mem_append.mp he with he | he
        · exact h.fits e (by simp [he])
        rcases List.mem_cons.mp he with rfl | he
        · exact hf'fits
        · exact hfs' e he
      · rw [hcb]
        exact hsize'
      · simp [hval, hf', pulledCell]
      · intro hcount
        rw [hcut] at hcount
        refine hcount.incr ?_ (by omega)
        rw [List.length_append, List.length_append]
        push_cast
        omega

end Redis
