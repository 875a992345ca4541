import Redis.Ziplist.Layout

namespace Redis

open Buffer Outcome

/-!
# Cascading updates

When an entry changes its raw length, the `prevlen` of the next one has to follow; if the
field has to grow from one byte to five, the next entry changes its raw length too, and
so on.  The loop is proved on the list of cells: it rewrites `prevlen` fields from the
left until one is already right, and never touches the strings.

* `relink`, `relinkTail` — the cells behind the current one, and the tail offset, after the
  loop;
* `ziplistCascadeLoop_relink` — by induction on the cells behind the current one;
* `ziplistCascadeUpdate_spec` — the function, on cells that are linked behind the first.
-/

/-- Behind its first cell the list is linked. -/
def LinkedTail : List ZipCell → Prop
  | [] => True
  | f :: fs => Linked f.rawLen fs

variable {es : List ZipCell} {o L : Nat} {P : Bytes} {e : ZipCell}

theorem Linked.tail {pl : Nat} (h : Linked pl es) : LinkedTail es := by
  cases es with
  | nil => trivial
  | cons f fs => exact h.2

theorem length_le_cellsBytes (es : List ZipCell) : es.length ≤ (cellsBytes es).length := by
  induction es with
  | nil => simp
  | cons e es ih =>
    have he := e.rawLen_pos
    simp only [cellsBytes_cons, List.length_append, ZipCell.length_bytes, List.length_cons]
    omega

theorem tailOf_cons (P : Bytes) (e f : ZipCell) (fs : List ZipCell) :
    tailOf P (e :: f :: fs) = tailOf (P ++ e.bytes) (f :: fs) := by
  simp only [tailOf, List.dropLast_cons_cons, cellsBytes_cons, List.length_append,
    ZipCell.length_bytes]
  omega

theorem tailOf_lt (P : Bytes) (es : List ZipCell) :
    tailOf P es ≤ (P ++ cellsBytes es).length + 10 := by
  have hsub : (cellsBytes es.dropLast).length ≤ (cellsBytes es).length := by
    rcases List.eq_nil_or_concat es with rfl | ⟨fs, f, rfl⟩
    · simp
    · simp
  simp only [tailOf, List.length_append]
  omega

/-- Storing a length in a field that keeps its size. -/
theorem writeBytes_prevField {P Q : Bytes} {f : ZipCell} {n p : Nat} (hp : p = 10 + P.length) :
    writeBytes (zipFrame o L (P ++ (f.bytes ++ Q))) p (prevField f.big n)
      = .ok (zipFrame o L (P ++ (({ f with prev := n } : ZipCell).bytes ++ Q))) := by
  have hw := writeBytes_zipFrame (o := o) (L := L) (P := P)
    (B := prevField f.big f.prev) (D := prevField f.big n) (Q := zipBody f.val ++ Q) hp (by simp)
  simpa only [ZipCell.bytes, List.append_assoc] using hw

/-- Whether a field is the last thing that moves the tail: the tail is the next entry
    exactly when no other follows. -/
theorem tailOf_eq_iff (P : Bytes) (e f : ZipCell) (fs : List ZipCell) :
    tailOf P (e :: f :: fs) = 10 + P.length + e.rawLen ↔ fs = [] := by
  rw [tailOf_cons, tailOf]
  cases fs with
  | nil => simp; omega
  | cons g gs =>
    have hf := f.rawLen_pos
    simp only [List.dropLast_cons_cons, cellsBytes_cons, List.length_append, ZipCell.length_bytes,
      reduceCtorEq, iff_false]
    omega

/-- Changing the size of the first cell moves the tail by the difference, unless it is
    the tail itself. -/
theorem tailOf_grow (P : Bytes) {f f' : ZipCell} (fs : List ZipCell) {k : Nat}
    (hk : f'.rawLen = f.rawLen + k) :
    tailOf P (f' :: fs) = if fs = [] then tailOf P (f :: fs) else tailOf P (f :: fs) + k := by
  cases fs with
  | nil => simp [tailOf]
  | cons g gs =>
    simp only [tailOf, List.dropLast_cons_cons, cellsBytes_cons, List.length_append,
      ZipCell.length_bytes, hk, reduceCtorEq, if_false]
    omega

/-- The tail offset after the field at `np` has grown by four bytes. -/
def grownTail (o np : Nat) : Nat := if o ≠ np then uint32 ((o : Int) + (4 : Nat)) else o

theorem grownTail_lt (ho : o < 2 ^ 32) (np : Nat) : grownTail o np < 2 ^ 32 := by
  rw [grownTail, uint32]
  split <;> omega

theorem grownTail_of_ne {o np : Nat} (hne : o ≠ np) (hlt : o + 4 < 2 ^ 32) :
    grownTail o np = o + 4 := by
  rw [grownTail, if_pos hne, uint32_eq (m := o + 4) (by push_cast; rfl) hlt]

/-- The conditional update of the tail offset, when the field at `np` grows. -/
theorem cascadeTail_spec {o L np : Nat} {X : Bytes} (ho : o < 2 ^ 32) :
    cascadeTail (zipFrame o L X) np 4 = .ok (zipFrame (grownTail o np) L X) := by
  rw [cascadeTail, ziplistTailOffset_zipFrame ho, grownTail]
  simp only [bind, Except.bind]
  split
  · rw [setTailOffset_zipFrame]
  · rfl

variable (junk : Nat → UInt8)

/-- The field of the next entry grows from one byte to five: make room, move the rest and
    write the length. -/
theorem cascadeGrow_spec {e f : ZipCell} {fs : List ZipCell} (ho : o < 2 ^ 32) (hbig : f.big = false)
    (hn : ZIP_BIGLEN ≤ e.rawLen) {X : Bytes} (hX : X = P ++ cellsBytes (e :: f :: fs)) :
    Sat (cascadeGrow junk (zipFrame o L X) (X.length + 11)
        (10 + P.length + e.rawLen) e.rawLen (prevSize f.big))
      (fun zl => X.length + 11 + 4 < 2 ^ 32 ∧
        zl = zipFrame (grownTail o (10 + P.length + e.rawLen)) L
          ((P ++ e.bytes) ++ cellsBytes ({ f with big := true, prev := e.rawLen } :: fs)))
      ZipFault.Overflows := by
  set f' : ZipCell := { f with big := true, prev := e.rawLen } with hf'
  set o' := grownTail o (10 + P.length + e.rawLen) with ho'
  have henc : zipPrevEncodeLength e.rawLen = prevField true e.rawLen := by
    rw [zipPrevEncodeLength_eq, decide_eq_true hn]
  rw [cascadeGrow, henc, length_prevField, hbig]
  refine Sat.bind (ziplistResize_grow junk 4) ?_
  rintro zl ⟨hlt, J, hJ, -, rfl⟩
  refine Sat.bind_ok (cascadeTail_spec ho) ?_
  rw [← ho']
  -- the block behind the current entry: field, rest and fresh memory
  set M : Bytes := zipBody f.val ++ cellsBytes fs with hM
  have hsplit : X ++ J = (P ++ e.bytes) ++ (prevField false f.prev ++ (M ++ J)) := by
    rw [hX, hM]
    simp only [cellsBytes_cons, ZipCell.bytes, hbig, List.append_assoc]
  have hMlen : X.length = P.length + e.rawLen + 1 + M.length := by
    have h := congrArg List.length hsplit
    simp only [List.length_append, ZipCell.length_bytes, length_prevField,
      show prevSize false = 1 from rfl] at h
    omega
  obtain ⟨U₁, U₂, hU, hU₁, hU₂⟩ : ∃ U₁ U₂ : Bytes, prevField false f.prev ++ (M ++ J) = U₁ ++ U₂ ∧
      U₁.length = 5 ∧ U₂.length = M.length := by
    refine ⟨_, _, (List.take_append_drop 5 _).symm, ?_, ?_⟩
    · simp [prevSize, hJ]
      omega
    · simp [prevSize, hJ]
      omega
  have hsrc : slice? (zipFrame o' L
      (((P ++ e.bytes) ++ U₁) ++ (U₂ ++ []))) (10 + P.length + e.rawLen + prevSize false)
      (X.length + 11 - (10 + P.length + e.rawLen) - prevSize false - 1) = some M := by
    have hform : ((P ++ e.bytes) ++ U₁) ++ (U₂ ++ [])
        = ((P ++ e.bytes) ++ prevField false f.prev) ++ (M ++ J) := by
      rw [List.append_nil, List.append_assoc, ← hU]
      simp only [List.append_assoc]
    rw [hform]
    exact slice?_zipFrame (by simp; omega) (by rw [show prevSize false = 1 from rfl]; omega)
  have hmove := moveBytes_zipFrame (d := 10 + P.length + e.rawLen + prevSize true) hsrc
    (by simp [hU₁, prevSize]; omega) hU₂.symm
  have hwrite := writeBytes_zipFrame (o := o') (L := L) (P := P ++ e.bytes) (B := U₁)
    (D := prevField true e.rawLen) (Q := M) (p := 10 + P.length + e.rawLen) (by simp; omega) (by simp [prevSize, hU₁])
  rw [hsplit, hU, ← List.append_assoc, ← List.append_nil U₂, hmove]
  simp only [bind, Except.bind, List.append_nil, List.append_assoc] at hwrite ⊢
  rw [hwrite]
  refine ⟨hlt, ?_⟩
  simp only [hM, cellsBytes_cons, hf', ZipCell.bytes, List.append_assoc]

/-! ### The cells the loop leaves -/

/-- The cells behind `e` after the loop: fields are rewritten until one is already right, or
    keeps its size. -/
def relink : ZipCell → List ZipCell → List ZipCell
  | _, [] => []
  | e, f :: fs =>
      if f.prev = e.rawLen then f :: fs
      else if prevSize f.big < prevSize (decide (ZIP_BIGLEN ≤ e.rawLen)) then
        { f with big := true, prev := e.rawLen }
          :: relink { f with big := true, prev := e.rawLen } fs
      else { f with prev := e.rawLen } :: fs

/-- The tail offset after the loop, which starts with `e` at `p`. -/
def relinkTail : Nat → Nat → ZipCell → List ZipCell → Nat
  | _, o, _, [] => o
  | p, o, e, f :: fs =>
      if f.prev = e.rawLen then o
      else if prevSize f.big < prevSize (decide (ZIP_BIGLEN ≤ e.rawLen)) then
        relinkTail (p + e.rawLen) (grownTail o (p + e.rawLen))
          { f with big := true, prev := e.rawLen } fs
      else o

@[simp] theorem relink_nil (e : ZipCell) : relink e [] = [] := rfl

theorem relink_val (e : ZipCell) (es : List ZipCell) :
    (relink e es).map ZipCell.val = es.map ZipCell.val := by
  induction es generalizing e with
  | nil => rfl
  | cons f fs ih =>
    rw [relink]
    split_ifs with hsame hgrow
    · rfl
    · rw [List.map_cons, ih, List.map_cons]
    · rfl

/-- A field of one byte grows only for a length that needs five. -/
theorem prevSize_grows {big : Bool} {n : Nat}
    (h : prevSize big < prevSize (decide (ZIP_BIGLEN ≤ n))) : big = false ∧ ZIP_BIGLEN ≤ n := by
  cases big <;> by_cases hn : ZIP_BIGLEN ≤ n <;> simp [hn, prevSize] at h ⊢

/-- A field that does not have to grow can hold the length. -/
theorem ZipCell.Fits.relinked {f : ZipCell} (hf : f.Fits) {n : Nat} (hn : n < 2 ^ 32)
    (hgrow : ¬ prevSize f.big < prevSize (decide (ZIP_BIGLEN ≤ n))) :
    ({ f with prev := n } : ZipCell).Fits := by
  refine ⟨fun hb => ?_, hn, hf.val_lt⟩
  replace hb : f.big = false := hb
  by_contra hcon
  rw [hb, decide_eq_true (not_lt.mp hcon)] at hgrow
  exact hgrow (by decide)

theorem relink_fits (hes : ∀ f ∈ es, f.Fits) {n : Nat}
    (hsize : n + (cellsBytes (e :: relink e es)).length + 11 < 2 ^ 32) :
    ∀ f ∈ relink e es, f.Fits := by
  induction es generalizing e n with
  | nil => simp
  | cons f fs ih =>
    have hf := hes f (by simp)
    have hfs : ∀ g ∈ fs, g.Fits := fun g hg => hes g (by simp [hg])
    have hraw : e.rawLen < 2 ^ 32 := by
      rw [cellsBytes_cons, List.length_append, ZipCell.length_bytes] at hsize
      omega
    rw [relink] at hsize ⊢
    split_ifs at hsize ⊢ with hsame hgrow
    · exact hes
    · rw [List.forall_mem_cons]
      refine ⟨⟨by simp, hraw, hf.val_lt⟩, ih (n := n + e.rawLen) hfs ?_⟩
      rw [cellsBytes_cons, List.length_append, ZipCell.length_bytes] at hsize
      omega
    · rw [List.forall_mem_cons]
      exact ⟨hf.relinked hraw hgrow, hfs⟩

/-- Where only the first field may be wrong, everything is linked in the end. -/
theorem relink_linked (e : ZipCell) (h : LinkedTail es) :
    Linked e.rawLen (relink e es) := by
  induction es generalizing e with
  | nil => trivial
  | cons f fs ih =>
    rw [relink]
    split_ifs with hsame hgrow
    · exact ⟨hsame, h⟩
    · exact ⟨rfl, ih _ (Linked.tail h)⟩
    · exact ⟨rfl, h⟩

theorem rawLen_grown {f : ZipCell} (hbig : f.big = false) (n : Nat) :
    ({ f with big := true, prev := n } : ZipCell).rawLen = f.rawLen + 4 := by
  rw [ZipCell.rawLen, ZipCell.rawLen, hbig]
  show 5 + (zipBody f.val).length = 1 + (zipBody f.val).length + 4
  omega

/-- The cells only grow. -/
theorem length_relink (e : ZipCell) (es : List ZipCell) :
    (cellsBytes es).length ≤ (cellsBytes (relink e es)).length := by
  induction es generalizing e with
  | nil => simp
  | cons f fs ih =>
    rw [relink]
    split_ifs with hsame hgrow
    · rfl
    · have hraw := rawLen_grown (prevSize_grows hgrow).1 e.rawLen
      have hle := ih { f with big := true, prev := e.rawLen }
      simp only [cellsBytes_cons, List.length_append, ZipCell.length_bytes, hraw]
      omega
    · simp [ZipCell.rawLen]

/-- A tail offset that is right stays right. -/
theorem relinkTail_tailOf (hsize : (P ++ cellsBytes (e :: relink e es)).length + 11 < 2 ^ 32) :
    relinkTail (10 + P.length) (tailOf P (e :: es)) e es = tailOf P (e :: relink e es) := by
  induction es generalizing P e with
  | nil => rfl
  | cons f fs ih =>
    rw [relink] at hsize ⊢
    rw [relinkTail]
    split_ifs at hsize ⊢ with hsame hgrow
    · rfl
    · set f' : ZipCell := { f with big := true, prev := e.rawLen } with hf'
      have hraw : f'.rawLen = f.rawLen + 4 := rawLen_grown (prevSize_grows hgrow).1 e.rawLen
      have hsize' : ((P ++ e.bytes) ++ cellsBytes (f' :: relink f' fs)).length + 11 < 2 ^ 32 := by
        rwa [cellsBytes_cons, ← List.append_assoc] at hsize
      have hlen := length_relink f' fs
      have hmove := tailOf_grow (P ++ e.bytes) fs hraw
      have htail := tailOf_lt (P ++ e.bytes) (f' :: fs)
      have hgrown : grownTail (tailOf P (e :: f :: fs)) (10 + P.length + e.rawLen)
          = tailOf (P ++ e.bytes) (f' :: fs) := by
        rw [← tailOf_cons P e f] at hmove
        by_cases hfs : fs = []
        · rw [hmove, if_pos hfs, grownTail, if_neg (by rw [not_not, tailOf_eq_iff]; exact hfs)]
        · rw [if_neg hfs] at hmove
          rw [hmove]
          apply grownTail_of_ne
          · rw [Ne, tailOf_eq_iff]
            exact hfs
          · simp only [cellsBytes_cons, List.length_append, ZipCell.length_bytes] at hsize' htail hlen
            omega
      have hnext := ih hsize'
      rw [← hgrown, List.length_append, ZipCell.length_bytes, ← Nat.add_assoc] at hnext
      rw [hnext, ← tailOf_cons]
    · have hsame : ({ f with prev := e.rawLen } : ZipCell).rawLen = f.rawLen + 0 := rfl
      rw [tailOf_cons, tailOf_cons, tailOf_grow (P ++ e.bytes) fs hsame]
      simp

/-- A tail offset at the end of the cells stays there. -/
theorem relinkTail_end (hsize : (P ++ cellsBytes (e :: relink e es)).length + 11 < 2 ^ 32) :
    relinkTail (10 + P.length) (10 + (P ++ cellsBytes (e :: es)).length) e es
      = 10 + (P ++ cellsBytes (e :: relink e es)).length := by
  induction es generalizing P e with
  | nil => rfl
  | cons f fs ih =>
    rw [relink] at hsize ⊢
    rw [relinkTail]
    split_ifs at hsize ⊢ with hsame hgrow
    · rfl
    · set f' : ZipCell := { f with big := true, prev := e.rawLen } with hf'
      have hraw : f'.rawLen = f.rawLen + 4 := rawLen_grown (prevSize_grows hgrow).1 e.rawLen
      rw [cellsBytes_cons, ← List.append_assoc] at hsize
      have hlen := length_relink f' fs
      have hpos := f.rawLen_pos
      have hgrown : grownTail (10 + (P ++ cellsBytes (e :: f :: fs)).length)
          (10 + P.length + e.rawLen) = 10 + ((P ++ e.bytes) ++ cellsBytes (f' :: fs)).length := by
        simp only [cellsBytes_cons, List.length_append, ZipCell.length_bytes] at hsize hlen ⊢
        rw [grownTail_of_ne (by omega) (by omega)]
        omega
      have hnext := ih hsize
      rw [← hgrown, List.length_append, ZipCell.length_bytes, ← Nat.add_assoc] at hnext
      rw [hnext, cellsBytes_cons e, ← List.append_assoc]
    · simp [ZipCell.rawLen]

/-! ### The loop -/

/-- **The loop.**  The induction is on the cells behind the current one; each round either
    stops, or moves on to a cell whose own length has just changed. -/
theorem ziplistCascadeLoop_relink (fuel : Nat) (ho : o < 2 ^ 32) (he : e.Fits) (hes : ∀ f ∈ es, f.Fits)
    (hsize : (P ++ cellsBytes (e :: es)).length + 11 < 2 ^ 32) (hfuel : es.length < fuel) {p curlen : Nat}
    (hp : p = 10 + P.length) (hcur : curlen = (P ++ cellsBytes (e :: es)).length + 11) :
    Sat (ziplistCascadeLoop junk fuel (zipFrame o L (P ++ cellsBytes (e :: es))) curlen p)
      (fun zl => zl = zipFrame (relinkTail p o e es) L (P ++ cellsBytes (e :: relink e es)) ∧
        (P ++ cellsBytes (e :: relink e es)).length + 11 < 2 ^ 32)
      ZipFault.Overflows := by
  induction fuel generalizing o P e es p curlen with
  | zero => omega
  | succ fuel ih =>
    subst hp hcur
    have hfits : ∀ g ∈ e :: es, g.Fits := List.forall_mem_cons.mpr ⟨he, hes⟩
    -- the current entry
    obtain ⟨b, hb, hbe⟩ := readByte_zipFrame_cells hfits o L P rfl
    have hbe' : b ≠ ZIP_END := by rw [Ne, hbe]; simp
    obtain ⟨A, C, hframe, hA⟩ := zipFrame_cell o L P (cellsBytes es) e
    obtain ⟨cur, hcur, -, -, hch, hcl, -⟩ := zipEntry_cell he A C
    rw [← hframe, hA, ← cellsBytes_cons] at hcur
    have hrawlen : cur.headersize + cur.len = e.rawLen := by
      rw [hch, hcl, ZipCell.rawLen, zipBody, List.length_append, Nat.add_assoc]
    -- the byte behind it
    have hX : P ++ cellsBytes (e :: es) = (P ++ e.bytes) ++ cellsBytes es := by
      rw [cellsBytes_cons, List.append_assoc]
    obtain ⟨b', hb', hbe₂⟩ := readByte_zipFrame_cells hes o L (P ++ e.bytes)
      (p := 10 + P.length + e.rawLen) (by simp; omega)
    rw [← hX] at hb'
    rw [ziplistCascadeLoop]
    simp only [hb, bind, Except.bind, hbe', if_false, hcur, hrawlen, hb']
    cases es with
    | nil =>
      rw [if_pos (hbe₂.mpr rfl)]
      exact ⟨rfl, hsize⟩
    | cons f fs =>
      rw [if_neg (by rw [hbe₂]; simp)]
      have hff := hes f (by simp)
      obtain ⟨A', C', hframe', hA'⟩ := zipFrame_cell o L (P ++ e.bytes) (cellsBytes fs) f
      obtain ⟨next, hnext, hnps, hnp, -⟩ := zipEntry_cell hff A' C'
      rw [← hframe', hA', ← cellsBytes_cons, ← hX, List.length_append, ZipCell.length_bytes,
        ← Nat.add_assoc] at hnext
      simp only [hnext, hnp, hnps, length_zipPrevEncodeLength, relink, relinkTail]
      by_cases hsame : f.prev = e.rawLen
      · -- "prevlen" has not changed
        simp only [if_pos hsame]
        exact ⟨rfl, hsize⟩
      simp only [if_neg hsame]
      by_cases hgrow : prevSize f.big < prevSize (decide (ZIP_BIGLEN ≤ e.rawLen))
      · simp only [if_pos hgrow]
        obtain ⟨hbig, hn⟩ := prevSize_grows hgrow
        have hrawlt : e.rawLen < 2 ^ 32 := by
          simp only [cellsBytes_cons, List.length_append, ZipCell.length_bytes] at hsize
          omega
        refine Sat.bind (cascadeGrow_spec junk ho hbig hn rfl) ?_
        rintro _ ⟨hlt, rfl⟩
        set f' : ZipCell := { f with big := true, prev := e.rawLen } with hf'
        have hfits' : f'.Fits := ⟨by simp [hf'], hrawlt, hff.val_lt⟩
        have hraw : f'.rawLen = f.rawLen + 4 := rawLen_grown hbig e.rawLen
        have hlen' : (P ++ cellsBytes (e :: f :: fs)).length + 11
            + (prevSize (decide (ZIP_BIGLEN ≤ e.rawLen)) - prevSize f.big)
            = ((P ++ e.bytes) ++ cellsBytes (f' :: fs)).length + 11 := by
          rw [decide_eq_true hn, hbig, show prevSize true - prevSize false = 4 from rfl]
          simp only [cellsBytes_cons, List.length_append, ZipCell.length_bytes, hraw]
          omega
        refine (ih (grownTail_lt ho _) hfits' (fun g hg => hes g (by simp [hg])) ?_
          (by simpa using hfuel) (by simp; omega) hlen').weaken ?_
        · rw [← hlen', decide_eq_true hn, hbig]
          exact hlt
        · rintro zl ⟨rfl, hsz⟩
          rw [List.append_assoc, ← cellsBytes_cons] at hsz ⊢
          exact ⟨rfl, hsz⟩
      · simp only [if_neg hgrow]
        -- the field keeps its size, and so does the next entry: stop here
        have hwrite := writeBytes_prevField (o := o) (L := L)
          (P := P ++ e.bytes) (Q := cellsBytes fs) (f := f) (n := e.rawLen)
          (p := 10 + P.length + e.rawLen) (by simp; omega)
        rw [← cellsBytes_cons, ← hX, ← cellsBytes_cons, List.append_assoc, ← cellsBytes_cons]
          at hwrite
        have hsz : (P ++ cellsBytes (e :: { f with prev := e.rawLen } :: fs)).length + 11
            < 2 ^ 32 := by
          simpa [ZipCell.rawLen] using hsize
        by_cases hforce : prevSize f.big > prevSize (decide (ZIP_BIGLEN ≤ e.rawLen))
        · rw [if_pos hforce]
          have hbig : f.big = true := by
            cases hb : f.big with
            | true => rfl
            | false =>
              have hle := (prevSize_le (decide (ZIP_BIGLEN ≤ e.rawLen))).1
              rw [hb, show prevSize false = 1 from rfl] at hforce
              omega
          have henc : zipPrevEncodeLengthForceLarge e.rawLen = prevField f.big e.rawLen := by
            rw [hbig]
            rfl
          rw [henc, hwrite]
          exact ⟨rfl, hsz⟩
        · rw [if_neg hforce]
          have hbig : decide (ZIP_BIGLEN ≤ e.rawLen) = f.big := by
            cases hb : f.big <;> by_cases hn : ZIP_BIGLEN ≤ e.rawLen <;>
              simp [hb, hn, prevSize] at hgrow hforce ⊢
          rw [zipPrevEncodeLength_eq, hbig, hwrite]
          exact ⟨rfl, hsz⟩

/-- The function, from the cell `e` on. -/
theorem ziplistCascadeUpdate_relink (ho : o < 2 ^ 32) (he : e.Fits) (hes : ∀ f ∈ es, f.Fits)
    (hsize : (P ++ cellsBytes (e :: es)).length + 11 < 2 ^ 32) {p : Nat} (hp : p = 10 + P.length) :
    Sat (ziplistCascadeUpdate junk (zipFrame o L (P ++ cellsBytes (e :: es))) p)
      (fun zl => zl = zipFrame (relinkTail p o e es) L (P ++ cellsBytes (e :: relink e es)) ∧
        (P ++ cellsBytes (e :: relink e es)).length + 11 < 2 ^ 32)
      ZipFault.Overflows := by
  rw [ziplistCascadeUpdate, ziplistBytes_zipFrame hsize]
  apply ziplistCascadeLoop_relink junk _ ho he hes hsize ?_ hp rfl
  have hle := length_le_cellsBytes es
  simp only [length_zipFrame, cellsBytes_cons, List.length_append]
  omega

/-- At the end marker there is nothing to do. -/
theorem ziplistCascadeUpdate_end {o L p : Nat} {X : Bytes} (hsize : X.length + 11 < 2 ^ 32)
    (hp : p = 10 + X.length) :
    ziplistCascadeUpdate junk (zipFrame o L X) p = .ok (zipFrame o L X) := by
  rw [ziplistCascadeUpdate, ziplistBytes_zipFrame hsize]
  simp only [bind, Except.bind, ziplistCascadeLoop, readByte_zipFrame_end hp, if_true]
  rfl

/-- What a cascade leaves behind the current cell `e`. -/
def Cascaded (L : Nat) (P : Bytes) (e : ZipCell) (es : List ZipCell) (zl : Bytes) : Prop :=
  ∃ es', zl = zipFrame (tailOf P (e :: es')) L (P ++ cellsBytes (e :: es')) ∧
    Linked e.rawLen es' ∧ (∀ f ∈ es', f.Fits) ∧ es'.map ZipCell.val = es.map ZipCell.val ∧
    (P ++ cellsBytes (e :: es')).length + 11 < 2 ^ 32

/-- **The cascade** links everything behind the current cell and keeps the strings. -/
theorem ziplistCascadeUpdate_spec (he : e.Fits) (hes : ∀ f ∈ es, f.Fits) (hlinked : LinkedTail es)
    (hsize : (P ++ cellsBytes (e :: es)).length + 11 < 2 ^ 32) {p : Nat} (hp : p = 10 + P.length) :
    Sat (ziplistCascadeUpdate junk
        (zipFrame (tailOf P (e :: es)) L (P ++ cellsBytes (e :: es))) p)
      (Cascaded L P e es) ZipFault.Overflows := by
  have htail := tailOf_lt P (e :: es)
  refine (ziplistCascadeUpdate_relink junk (by omega) he hes hsize hp).weaken ?_
  rintro _ ⟨rfl, hsz⟩
  refine ⟨relink e es, ?_, relink_linked e hlinked, relink_fits (n := P.length) hes ?_,
    relink_val e es, hsz⟩
  · rw [hp, relinkTail_tailOf hsz]
  · rwa [List.length_append] at hsz

end Redis
