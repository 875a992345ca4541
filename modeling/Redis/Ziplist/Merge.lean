import Redis.Ziplist.Refinement

namespace Redis

open Buffer Outcome

/-!
# Merging two ziplists

`ziplistMerge` reuses the buffer of the longer list: the other one is appended to it, or
copied in front after its entries have been moved back.  Both ways give the same bytes;
then the three header fields are computed from the old ones, and a cascade started at the
old tail of the first list repairs the `prevlen` over the seam.

* `mergeCopy_append`, `mergeCopy_prepend` — the bytes before the header is updated;
* `Seamed` — what the cascade leaves, for a tail that is right or at the end marker;
* `Loose` — a block that reads right from the front at least;
* `mergeBlocks_spec` — the merged list, in order when the second one has an entry or the
  first one has none;
* `ziplistMerge_iff` — in the remaining case the tail offset is lost.
-/

def ZIPLIST_END_SIZE : Nat := 1

/-! ### The function -/

/-- The result of a merge: the reallocated block, and whether it is the buffer of `*first`
    (the other argument is freed and set to `NULL`). -/
structure ZipMerged where
  target : Bytes
  append : Bool
  deriving DecidableEq, Repr

/-- `*first` after the call. -/
def ZipMerged.first (m : ZipMerged) : Option Bytes := if m.append then some m.target else none

/-- `*second` after the call. -/
def ZipMerged.second (m : ZipMerged) : Option Bytes := if m.append then none else some m.target

/-- "Extend target to new zlbytes then append or prepend source." -/
def mergeCopy (junk : Nat → UInt8) (target source : Bytes) (targetBytes sourceBytes zlbytes : Nat)
    (append : Bool) : Except ZipFault Bytes := do
  let zl := zrealloc junk target zlbytes
  if append then
    -- copy source after target, over the original end marker
    let entries ← zipCheck
      (slice? source ZIPLIST_HEADER_SIZE (sourceBytes - ZIPLIST_HEADER_SIZE))
    writeBytes zl (targetBytes - ZIPLIST_END_SIZE) entries
  else
    -- move the contents of target, then copy source into the vacated space
    let zl ← moveBytes zl (sourceBytes - ZIPLIST_END_SIZE) ZIPLIST_HEADER_SIZE
      (targetBytes - ZIPLIST_HEADER_SIZE)
    let front ← zipCheck (slice? source 0 (sourceBytes - ZIPLIST_END_SIZE))
    writeBytes zl 0 front

/-- `ziplistMerge` of two blocks.  As in `ziplistResize`, a size that does not fit
    `zlbytes` is refused. -/
def mergeBlocks (junk : Nat → UInt8) (first second : Bytes) : Except ZipFault ZipMerged := do
  let firstBytes ← ziplistBytes first
  let firstLen ← ziplistLength first
  let secondBytes ← ziplistBytes second
  let secondLen ← ziplistLength second
  -- pick the largest ziplist
  let append := decide (secondLen ≤ firstLen)
  let target := if append then first else second
  let targetBytes := if append then firstBytes else secondBytes
  let source := if append then second else first
  let sourceBytes := if append then secondBytes else firstBytes
  let zlbytes := firstBytes + secondBytes - ZIPLIST_HEADER_SIZE - ZIPLIST_END_SIZE
  let zllength := min (firstLen + secondLen) UINT16_MAX
  let firstOffset ← ziplistTailOffset first
  let secondOffset ← ziplistTailOffset second
  if 2 ^ 32 ≤ zlbytes then
    .error (.overflow zlbytes)
  else
    let zl ← mergeCopy junk target source targetBytes sourceBytes zlbytes append
    -- update header metadata
    let zl ← writeBytes zl 0 (leBytes 4 zlbytes)
    let zl ← writeBytes zl 8 (leBytes 2 zllength)
    let zl ← setTailOffset zl
      (((firstBytes : Int) - ZIPLIST_END_SIZE) + ((secondOffset : Int) - ZIPLIST_HEADER_SIZE))
    let zl ← ziplistCascadeUpdate junk zl firstOffset
    return { target := zl, append := append }

/-- `ziplistMerge`.  `none` is `NULL`; `same` says that the two arguments point to one list. -/
def ziplistMerge (junk : Nat → UInt8) (first second : Option Bytes) (same : Bool) :
    Except ZipFault (Option ZipMerged) :=
  match first, second with
  | some first, some second =>
      if same then return none
      else do
        let m ← mergeBlocks junk first second
        return some m
  | _, _ => return none

/-! ### The bytes -/

section Copy

variable {o₁ L₁ o₂ L₂ : Nat} {X Y : Bytes} (junk : Nat → UInt8)

/-- The entries of a block and its end marker. -/
theorem slice?_zipFrame_entries (n : Nat) (hn : n = Y.length + 1) :
    zipCheck (slice? (zipFrame o₂ L₂ Y) ZIPLIST_HEADER_SIZE n) = .ok (Y ++ [ZIP_END]) := by
  have hs := zipCheck_slice?_append (A := zipHeader (Y.length + 11) o₂ L₂) (B := Y ++ [ZIP_END])
    (C := []) (p := ZIPLIST_HEADER_SIZE) (n := n) (by simp [ZIPLIST_HEADER_SIZE]) (by simp [hn])
  rwa [List.append_nil] at hs

theorem mergeCopy_append {total : Nat} (htotal : total = X.length + Y.length + 11) :
    mergeCopy junk (zipFrame o₁ L₁ X) (zipFrame o₂ L₂ Y) (X.length + 11) (Y.length + 11) total true
      = .ok (zipHeader (X.length + 11) o₁ L₁ ++ ((X ++ Y) ++ [ZIP_END])) := by
  obtain ⟨J, hgrow, hlen⟩ := zrealloc_grow junk (zipFrame o₁ L₁ X)
    (show _ ≤ total by rw [length_zipFrame]; omega)
  have hJ : J.length = Y.length := by
    rw [length_zipFrame] at hlen
    omega
  have hw := writeBytes_append (A := zipHeader (X.length + 11) o₁ L₁ ++ X) (B := [ZIP_END] ++ J)
    (D := Y ++ [ZIP_END]) (C := []) (p := X.length + 11 - ZIPLIST_END_SIZE)
    (by simp [ZIPLIST_END_SIZE]; omega) (by simp [hJ])
  have hframe : zipFrame o₁ L₁ X ++ J
      = (zipHeader (X.length + 11) o₁ L₁ ++ X) ++ (([ZIP_END] ++ J) ++ []) := by
    simp [zipFrame]
  rw [mergeCopy, hgrow, hframe]
  simp only [bind, Except.bind, if_true]
  rw [slice?_zipFrame_entries _ (by simp [ZIPLIST_HEADER_SIZE])]
  simp only [hw]
  simp

theorem mergeCopy_prepend {total : Nat} (htotal : total = X.length + Y.length + 11) :
    mergeCopy junk (zipFrame o₂ L₂ Y) (zipFrame o₁ L₁ X) (Y.length + 11) (X.length + 11) total false
      = .ok (zipHeader (X.length + 11) o₁ L₁ ++ ((X ++ Y) ++ [ZIP_END])) := by
  obtain ⟨J, hgrow, hlen⟩ := zrealloc_grow junk (zipFrame o₂ L₂ Y)
    (show _ ≤ total by rw [length_zipFrame]; omega)
  have hJ : J.length = X.length := by
    rw [length_zipFrame] at hlen
    omega
  -- the block taken apart where the moved entries go
  obtain ⟨W, V, hWV, hW, hV⟩ : ∃ W V : Bytes, zipFrame o₂ L₂ Y ++ J = W ++ V ∧
      W.length = X.length + 10 ∧ V.length = Y.length + 1 := by
    refine ⟨_, _, (List.take_append_drop (X.length + 10) _).symm, ?_, ?_⟩
    · simp [hJ]
      omega
    · simp [hJ]
      omega
  have hsrc : slice? (W ++ (V ++ [])) ZIPLIST_HEADER_SIZE (Y.length + 11 - ZIPLIST_HEADER_SIZE)
      = some (Y ++ [ZIP_END]) := by
    rw [List.append_nil, ← hWV, zipFrame, List.append_assoc]
    exact slice?_append (by simp [ZIPLIST_HEADER_SIZE]) (by simp [ZIPLIST_HEADER_SIZE])
  have hmove : moveBytes (zipFrame o₂ L₂ Y ++ J) (X.length + 11 - ZIPLIST_END_SIZE)
      ZIPLIST_HEADER_SIZE (Y.length + 11 - ZIPLIST_HEADER_SIZE) = .ok (W ++ (Y ++ [ZIP_END])) := by
    have hm := memmove?_append hsrc
      (show X.length + 11 - ZIPLIST_END_SIZE = W.length by simp [ZIPLIST_END_SIZE, hW]) (by simp [hV])
    rw [List.append_nil, ← hWV, List.append_nil] at hm
    rw [moveBytes, hm]
    rfl
  have hfront : zipCheck (slice? (zipFrame o₁ L₁ X) 0 (X.length + 11 - ZIPLIST_END_SIZE))
      = .ok (zipHeader (X.length + 11) o₁ L₁ ++ X) := by
    have hs := zipCheck_slice?_append (A := []) (B := zipHeader (X.length + 11) o₁ L₁ ++ X)
      (C := [ZIP_END]) (p := 0) (n := X.length + 11 - ZIPLIST_END_SIZE) rfl
      (by simp [ZIPLIST_END_SIZE]; omega)
    simpa [zipFrame] using hs
  have hw := writeBytes_append (A := []) (B := W) (D := zipHeader (X.length + 11) o₁ L₁ ++ X)
    (C := Y ++ [ZIP_END]) (p := 0) rfl (by simp [hW]; omega)
  rw [mergeCopy, hgrow]
  simp only [bind, Except.bind, Bool.false_eq_true, if_false, hmove, hfront]
  simpa using hw

end Copy

/-- The counter of the merged list. -/
def mergeCount (L₁ L₂ : Nat) : Nat := min (L₁ % 2 ^ 16 + L₂ % 2 ^ 16) UINT16_MAX

variable (junk : Nat → UInt8)

/-- **The merge up to the cascade**, whichever buffer is the target. -/
theorem mergeBlocks_frame {o₁ L₁ o₂ L₂ : Nat} {X Y : Bytes} (hX : X.length + 11 < 2 ^ 32)
    (hY : Y.length + 11 < 2 ^ 32) (ho₁ : o₁ < 2 ^ 32) (ho₂ : o₂ < 2 ^ 32) {Q : Bytes → Prop}
    {E : ZipFault → Prop} (hE : 2 ^ 32 ≤ (X ++ Y).length + 11 → E (.overflow ((X ++ Y).length + 11)))
    (hQ : (X ++ Y).length + 11 < 2 ^ 32 →
      Sat (ziplistCascadeUpdate junk
        (zipFrame (uint32 ((X.length : Int) + o₂)) (mergeCount L₁ L₂) (X ++ Y)) o₁) Q E) :
    Sat (mergeBlocks junk (zipFrame o₁ L₁ X) (zipFrame o₂ L₂ Y))
      (fun m => Q m.target ∧ m.append = decide (L₂ % 2 ^ 16 ≤ L₁ % 2 ^ 16)) E := by
  have htotal : X.length + 11 + (Y.length + 11) - ZIPLIST_HEADER_SIZE - ZIPLIST_END_SIZE
      = X.length + Y.length + 11 := by
    rw [ZIPLIST_HEADER_SIZE, ZIPLIST_END_SIZE]
    omega
  rw [mergeBlocks, ziplistBytes_zipFrame hX, ziplistLength_zipFrame, ziplistBytes_zipFrame hY,
    ziplistLength_zipFrame, ziplistTailOffset_zipFrame ho₁, ziplistTailOffset_zipFrame ho₂]
  simp only [ok_bind, htotal]
  rw [List.length_append] at hE
  refine Sat.ite (fun hge => hE hge) (fun hlt => ?_)
  set append := decide (L₂ % 2 ^ 16 ≤ L₁ % 2 ^ 16) with happend
  have hcopy : mergeCopy junk (if append = true then zipFrame o₁ L₁ X else zipFrame o₂ L₂ Y)
      (if append = true then zipFrame o₂ L₂ Y else zipFrame o₁ L₁ X)
      (if append = true then X.length + 11 else Y.length + 11)
      (if append = true then Y.length + 11 else X.length + 11) (X.length + Y.length + 11) append
      = .ok (zipHeader (X.length + 11) o₁ L₁ ++ ((X ++ Y) ++ [ZIP_END])) := by
    cases append with
    | true => exact mergeCopy_append junk rfl
    | false => exact mergeCopy_prepend junk rfl
  -- the three fields
  have hbytes := writeBytes_append (A := []) (B := leBytes 4 (X.length + 11))
    (D := leBytes 4 (X.length + Y.length + 11))
    (C := (leBytes 4 o₁ ++ leBytes 2 L₁) ++ ((X ++ Y) ++ [ZIP_END])) (p := 0) rfl (by simp)
  have hcount := writeBytes_append (A := leBytes 4 (X.length + Y.length + 11) ++ leBytes 4 o₁)
    (B := leBytes 2 L₁) (D := leBytes 2 (mergeCount L₁ L₂)) (C := (X ++ Y) ++ [ZIP_END]) (p := 8)
    (by simp) (by simp)
  have hframe : (leBytes 4 (X.length + Y.length + 11) ++ leBytes 4 o₁)
      ++ (leBytes 2 (mergeCount L₁ L₂) ++ ((X ++ Y) ++ [ZIP_END]))
      = zipFrame o₁ (mergeCount L₁ L₂) (X ++ Y) := by
    rw [zipFrame_count, List.length_append]
  have htail : ((X.length + 11 : Nat) : Int) - ZIPLIST_END_SIZE + ((o₂ : Int) - ZIPLIST_HEADER_SIZE)
      = (X.length : Int) + o₂ := by
    rw [ZIPLIST_END_SIZE, ZIPLIST_HEADER_SIZE]
    push_cast
    ring
  simp only [List.nil_append, List.append_assoc] at hbytes hcount hframe
  rw [hcopy, ok_bind, zipHeader]
  simp only [List.append_assoc]
  rw [hbytes, ok_bind, ← mergeCount, hcount, ok_bind, hframe, htail, setTailOffset_zipFrame, ok_bind]
  refine Sat.bind (hQ (by rw [List.length_append]; omega)) ?_
  intro zl hzl
  exact ⟨hzl, rfl⟩

/-! ### The cascade over the seam -/

/-- A tail offset that is right, or that of the end marker. -/
def TailNear (o : Nat) (es : List ZipCell) : Prop :=
  o = tailOf [] es ∨ o = 10 + (cellsBytes es).length

variable {es : List ZipCell} {zl : Bytes}

theorem TailNear.lt {o : Nat} (h : TailNear o es) (hsize : (cellsBytes es).length + 11 < 2 ^ 32) : o < 2 ^ 32 := by
  have htail := tailOf_lt [] es
  rw [List.nil_append] at htail
  rcases h with rfl | rfl <;> omega

/-- The tail of the second list, behind the first. -/
theorem tailOf_merged (es : List ZipCell) (f : ZipCell) (fs : List ZipCell) :
    (cellsBytes es).length + tailOf [] (f :: fs) = tailOf [] (es ++ f :: fs) := by
  rw [tailOf_append, List.nil_append, ← List.nil_append (cellsBytes es), tailOf_shift,
    List.nil_append, Nat.add_comm]

/-- The tail offset computed from both headers. -/
theorem TailNear.merged {o₂ : Nat} (es : List ZipCell) {fs : List ZipCell} (h : TailNear o₂ fs) :
    TailNear ((cellsBytes es).length + o₂) (es ++ fs) := by
  rcases h with rfl | rfl
  · cases fs with
    | nil =>
      right
      simp [tailOf]
      omega
    | cons f fs => exact Or.inl (tailOf_merged es f fs)
  · right
    rw [cellsBytes_append, List.length_append]
    omega

/-- Cells that are linked stay as they are. -/
theorem relink_of_linked {e : ZipCell} (h : Linked e.rawLen es) :
    relink e es = es := by
  cases es with
  | nil => rfl
  | cons f fs => rw [relink, if_pos h.1]

section Seam

variable (junk : Nat → UInt8) {o L : Nat}

/-- The cascade from the cell `e` on. -/
theorem cascade_from {A B : List ZipCell} {e : ZipCell} (hfits : ∀ f ∈ A ++ e :: B, f.Fits)
    (ho : TailNear o (A ++ e :: B)) (hsize : (cellsBytes (A ++ e :: B)).length + 11 < 2 ^ 32) :
    Sat (ziplistCascadeUpdate junk (zipFrame o L (cellsBytes (A ++ e :: B)))
        (10 + (cellsBytes A).length))
      (fun zl => ∃ o', zl = zipFrame o' L (cellsBytes (A ++ e :: relink e B)) ∧
        TailNear o' (A ++ e :: relink e B) ∧
        (o = tailOf [] (A ++ e :: B) → o' = tailOf [] (A ++ e :: relink e B)) ∧
        (∀ f ∈ A ++ e :: relink e B, f.Fits) ∧
        (cellsBytes (A ++ e :: relink e B)).length + 11 < 2 ^ 32)
      ZipFault.Overflows := by
  have holt := ho.lt hsize
  have he : e.Fits := hfits e (by simp)
  have hB : ∀ f ∈ B, f.Fits := fun f hf => hfits f (by simp [hf])
  rw [cellsBytes_append] at hsize ⊢
  refine (ziplistCascadeUpdate_relink junk holt he hB hsize rfl).weaken ?_
  rintro _ ⟨rfl, hsz⟩
  have htail : o = tailOf [] (A ++ e :: B) →
      relinkTail (10 + (cellsBytes A).length) o e B = tailOf [] (A ++ e :: relink e B) := by
    intro h
    rw [h, tailOf_append, tailOf_append, List.nil_append, relinkTail_tailOf hsz]
  refine ⟨_, by rw [cellsBytes_append], ?_, htail, ?_, by rwa [cellsBytes_append]⟩
  · refine ho.imp htail fun h => ?_
    rw [h, cellsBytes_append, relinkTail_end hsz, cellsBytes_append]
  · have hrest := relink_fits (n := (cellsBytes A).length) hB (by rwa [List.length_append] at hsz)
    intro f hf
    rcases List.mem_append.mp hf with hf | hf
    · exact hfits f (by simp [hf])
    rcases List.mem_cons.mp hf with rfl | hf
    · exact he
    · exact hrest f hf

/-- What the cascade leaves when it started at `o₁` and the tail offset was `o`: if `o₁` was
    the tail of linked cells, and `o` is right for both lists, everything is in order. -/
structure Seamed (L o₁ o : Nat) (es fs : List ZipCell) (zl : Bytes) : Prop where
  framed : ∃ o' gs, zl = zipFrame o' L (cellsBytes gs) ∧ TailNear o' gs ∧
    gs.map ZipCell.val = es.map ZipCell.val ++ fs.map ZipCell.val ∧ (∀ g ∈ gs, g.Fits) ∧
    (cellsBytes gs).length + 11 < 2 ^ 32
  represents : o₁ = tailOf [] es → Linked 0 es → Linked 0 fs → o = tailOf [] (es ++ fs) →
    ∃ gs, Represents zl gs ∧ gs.map ZipCell.val = es.map ZipCell.val ++ fs.map ZipCell.val

/-- Only an empty list has its tail at the end marker. -/
theorem tailOf_eq_end (h : tailOf [] es = 10 + (cellsBytes es).length) :
    es = [] := by
  rcases List.eq_nil_or_concat es with rfl | ⟨pre, e, rfl⟩
  · rfl
  · have hpos := e.rawLen_pos
    rw [List.concat_eq_append, tailOf_concat] at h
    simp at h
    omega

/-- **The seam.**  The cascade starts at the old tail of the first list, which is its last
    cell or, if that was lost, its end marker. -/
theorem seam_spec {o₁ : Nat} {es fs : List ZipCell} (hfits : ∀ f ∈ es ++ fs, f.Fits)
    (ho₁ : TailNear o₁ es) (ho : TailNear o (es ++ fs))
    (hsize : (cellsBytes (es ++ fs)).length + 11 < 2 ^ 32) :
    Sat (ziplistCascadeUpdate junk (zipFrame o L (cellsBytes (es ++ fs))) o₁)
      (Seamed L o₁ o es fs) ZipFault.Overflows := by
  by_cases hend : o₁ = 10 + (cellsBytes es).length
  · rw [hend]
    cases fs with
    | nil =>
      -- nothing behind the marker
      rw [List.append_nil] at *
      rw [ziplistCascadeUpdate_end junk hsize rfl]
      refine ⟨⟨o, es, rfl, ho, by simp, hfits, hsize⟩, fun htail hl _ ho => ⟨es, ?_, by simp⟩⟩
      rw [List.append_nil] at ho
      rw [ho]
      exact ⟨⟨L, rfl⟩, hl, hfits, hsize⟩
    | cons f fs =>
      refine (cascade_from junk hfits ho hsize).weaken ?_
      rintro _ ⟨o', rfl, hnear, htail', hall, hsz⟩
      refine ⟨⟨o', _, rfl, hnear, by simp [relink_val], hall, hsz⟩, fun htail _ hfs ho => ?_⟩
      have hnil := tailOf_eq_end htail.symm
      subst hnil
      rw [htail' ho]
      rw [relink_of_linked hfs.2] at hall hsz ⊢
      exact ⟨_, ⟨⟨L, rfl⟩, hfs, hall, hsz⟩, rfl⟩
  · have htail₁ := ho₁.resolve_right hend
    obtain ⟨pre, e, rfl⟩ := (List.eq_nil_or_concat es).resolve_left (fun hnil => by
      rw [hnil] at htail₁ hend
      exact hend htail₁)
    rw [List.concat_eq_append] at *
    have hassoc : pre ++ [e] ++ fs = pre ++ e :: fs := by simp
    rw [hassoc] at hfits ho hsize ⊢
    rw [htail₁, tailOf_concat, List.length_nil, Nat.add_zero]
    refine (cascade_from junk hfits ho hsize).weaken ?_
    rintro _ ⟨o', rfl, hnear, htail', hall, hsz⟩
    refine ⟨⟨o', _, rfl, hnear, by simp [relink_val], hall, hsz⟩, fun _ hes hfs ho => ?_⟩
    rw [hassoc] at ho
    rw [htail' ho]
    refine ⟨_, ⟨⟨L, rfl⟩, ?_, hall, hsz⟩, by simp [relink_val]⟩
    obtain ⟨hpre, hprev, -⟩ := (linked_append _ _ _).mp hes
    exact (linked_append _ _ _).mpr ⟨hpre, hprev, relink_linked e (Linked.tail hfs)⟩

end Seam

/-! ### The merged list -/

/-- A block that reads right from the front: only its tail offset may be that of the end
    marker, and `prevlen` fields may be wrong. -/
structure Loose (zl : Bytes) (es : List ZipCell) : Prop where
  frame : ∃ o L, zl = zipFrame o L (cellsBytes es) ∧ TailNear o es
  fits : ∀ e ∈ es, e.Fits
  size_lt : (cellsBytes es).length + 11 < 2 ^ 32

theorem Represents.loose (h : Represents zl es) : Loose zl es := by
  obtain ⟨L, hzl⟩ := h.frame
  exact ⟨⟨_, L, hzl, Or.inl rfl⟩, h.fits, h.size_lt⟩

theorem Loose.forward (h : Loose zl es) :
    ziplistForward zl = .ok (es.map ZipCell.val) := by
  obtain ⟨o, L, rfl, -⟩ := h.frame
  exact ziplistForward_zipFrame h.fits

/-- The tail offset in the header. -/
theorem Represents.tail_eq {o L : Nat} (h : Represents (zipFrame o L (cellsBytes es)) es) (ho : TailNear o es) :
    o = tailOf [] es := by
  obtain ⟨L', hframe⟩ := h.frame
  have hread := congrArg ziplistTailOffset hframe
  rw [ziplistTailOffset_zipFrame (ho.lt h.size_lt),
    ziplistTailOffset_zipFrame (TailNear.lt (Or.inl rfl) h.size_lt)] at hread
  exact Except.ok.inj hread

/-- What the merge of `es` and `fs` leaves. -/
structure MergedFrom (first second : Bytes) (es fs : List ZipCell) (m : ZipMerged) : Prop where
  loose : ∃ gs, Loose m.target gs ∧ gs.map ZipCell.val = es.map ZipCell.val ++ fs.map ZipCell.val
  represents : Represents first es → Represents second fs → (fs ≠ [] ∨ es = []) →
    ∃ gs, Represents m.target gs ∧ gs.map ZipCell.val = es.map ZipCell.val ++ fs.map ZipCell.val
  counts : Counts first es.length → Counts second fs.length →
    Counts m.target (es.length + fs.length)

/-- **The merge** of two lists that read right from the front. -/
theorem mergeBlocks_spec {first second : Bytes} {es fs : List ZipCell} (hfirst : Loose first es)
    (hsecond : Loose second fs) :
    Sat (mergeBlocks junk first second) (MergedFrom first second es fs) ZipFault.Overflows := by
  obtain ⟨o₁, L₁, rfl, ho₁⟩ := hfirst.frame
  obtain ⟨o₂, L₂, rfl, ho₂⟩ := hsecond.frame
  have hX := hfirst.size_lt
  have hY := hsecond.size_lt
  refine (mergeBlocks_frame (Q := Seamed (mergeCount L₁ L₂) o₁ ((cellsBytes es).length + o₂) es fs)
    junk hX hY (ho₁.lt hX) (ho₂.lt hY) (fun hge => ⟨_, rfl, hge⟩) (fun hsize => ?_)).weaken ?_
  · rw [← cellsBytes_append] at hsize ⊢
    have hnear := ho₂.merged es
    rw [uint32_eq (m := (cellsBytes es).length + o₂) (by push_cast; rfl) (hnear.lt hsize)]
    refine seam_spec junk ?_ ho₁ hnear hsize
    intro f hf
    rcases List.mem_append.mp hf with hf | hf
    · exact hfirst.fits f hf
    · exact hsecond.fits f hf
  · rintro m ⟨hseam, -⟩
    obtain ⟨o', gs, hzl, hnear, hval, hfits, hsize⟩ := hseam.framed
    refine ⟨⟨gs, ⟨⟨o', _, hzl, hnear⟩, hfits, hsize⟩, hval⟩, fun hrep hrep' hne => ?_,
      fun h₁ h₂ => ?_⟩
    · refine hseam.represents (hrep.tail_eq ho₁) hrep.linked hrep'.linked ?_
      rw [hrep'.tail_eq ho₂]
      rcases hne with hne | rfl
      · obtain ⟨f, fs', rfl⟩ := List.exists_cons_of_ne_nil hne
        exact tailOf_merged es f fs'
      · simp
    · rw [counts_zipFrame] at h₁ h₂
      rw [hzl, counts_zipFrame, mergeCount, UINT16_MAX] at *
      omega

/-! ### Exactness -/

/-- A well-formed block that reads as `l` in both directions, and counts its entries. -/
structure ZipHolds (zl : Bytes) (l : List Bytes) : Prop where
  wellFormed : ZipWellFormed zl
  forward : ziplistForward zl = .ok l
  backward : ziplistBackward zl = .ok l.reverse
  counts : Counts zl l.length

/-- Where an entry starts there is no end marker. -/
theorem ZipTiles.entry_ne {p prev : Nat} {offsets : List Nat} (h : ZipTiles zl p prev offsets) :
    ∀ q ∈ offsets, ∃ b, readByte zl q = .ok b ∧ b ≠ ZIP_END := by
  induction h with
  | done => simp
  | entry hb hne hz hrest ih =>
    rw [List.forall_mem_cons]
    exact ⟨⟨_, hb, hne⟩, ih⟩

theorem ZipTiles.ne_nil {p prev : Nat} {offsets : List Nat} {b : UInt8} (h : ZipTiles zl p prev offsets)
    (hb : readByte zl p = .ok b) (hne : b ≠ ZIP_END) :
    offsets ≠ [] := by
  cases h with
  | done hend hlast =>
    rw [hend] at hb
    exact (hne (Except.ok.inj hb).symm).elim
  | entry hb' hne' hz hrest => exact List.cons_ne_nil _ _

/-- Behind the last cell the cascade stops at once. -/
theorem ziplistCascadeUpdate_last {o L : Nat} {P : Bytes} {e : ZipCell} (he : e.Fits)
    (hsize : (P ++ cellsBytes [e]).length + 11 < 2 ^ 32) {p : Nat} (hp : p = 10 + P.length) :
    ziplistCascadeUpdate junk (zipFrame o L (P ++ cellsBytes [e])) p
      = .ok (zipFrame o L (P ++ cellsBytes [e])) := by
  subst hp
  obtain ⟨b, hb, hne⟩ := readByte_zipFrame_cons (o := o) (L := L) (P := P) he [] rfl
  obtain ⟨A, C, hframe, hA⟩ := zipFrame_cell o L P [] e
  obtain ⟨cur, hcur, -, -, hch, hcl, -⟩ := zipEntry_cell he A C
  rw [← hframe, hA] at hcur
  have hrawlen : cur.headersize + cur.len = e.rawLen := by
    rw [hch, hcl, ZipCell.rawLen, zipBody, List.length_append, Nat.add_assoc]
  have hend := readByte_zipFrame_end (o := o) (L := L) (X := P ++ (e.bytes ++ []))
    (p := 10 + P.length + e.rawLen) (by simp; omega)
  rw [ziplistCascadeUpdate, ziplistBytes_zipFrame hsize, ok_bind, ziplistCascadeLoop]
  simp only [cellsBytes_cons, cellsBytes_nil, hb, ok_bind, if_neg hne, hcur, hrawlen, hend, if_true]
  rfl

/-- Without entries in the second list, the tail offset of the first one is lost. -/
theorem mergeBlocks_lost {first second : Bytes} (hfirst : Represents first es) (hsecond : Represents second [])
    (hne : es ≠ []) :
    ∃ m L, mergeBlocks junk first second = .ok m ∧
      m.target = zipFrame (10 + (cellsBytes es).length) L (cellsBytes es) := by
  obtain ⟨L₁, rfl⟩ := hfirst.frame
  obtain ⟨L₂, rfl⟩ := hsecond.frame
  have hX := hfirst.size_lt
  obtain ⟨pre, e, rfl⟩ := (List.eq_nil_or_concat es).resolve_left hne
  rw [List.concat_eq_append] at *
  have htail := tailOf_lt [] (pre ++ [e])
  rw [List.nil_append] at htail
  have hrun := @mergeBlocks_frame junk (tailOf [] (pre ++ [e])) L₁ (tailOf [] []) L₂
    (cellsBytes (pre ++ [e])) (cellsBytes []) hX (by simp) (by omega) (by simp [tailOf])
    (· = zipFrame (10 + (cellsBytes (pre ++ [e])).length) (mergeCount L₁ L₂) (cellsBytes (pre ++ [e])))
    (fun _ => False) (fun hge => by rw [cellsBytes_nil, List.append_nil] at hge; omega) ?_
  · obtain ⟨m, hm, htarget, -⟩ := hrun.exists_ok
    exact ⟨m, _, hm, htarget⟩
  · intro _
    have htail' : uint32 (((cellsBytes (pre ++ [e])).length : Int) + tailOf [] [])
        = 10 + (cellsBytes (pre ++ [e])).length :=
      uint32_eq (by simp [tailOf]; omega) (by omega)
    have hlast := ziplistCascadeUpdate_last junk (o := 10 + (cellsBytes (pre ++ [e])).length)
      (L := mergeCount L₁ L₂) (P := cellsBytes pre) (hfirst.fits e (by simp))
      (by rwa [← cellsBytes_append]) rfl
    rw [← cellsBytes_append] at hlast
    rw [htail', cellsBytes_nil, List.append_nil, tailOf_concat, List.length_nil, Nat.add_zero, hlast]
    exact rfl

end Redis
