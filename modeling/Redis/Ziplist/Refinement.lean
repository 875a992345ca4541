import Redis.Ziplist.Tiles

namespace Redis

open Buffer Outcome

/-!
# The ziplist is a list of strings

Runs of pushes, insertions and deletions from `ziplistNew` are compared with the same
operations on a plain list of byte strings.

* `Represents.tiled` — what represents cells has the format;
* `ziplistForward`, `ziplistBackward` — the two walks;
* `ziplistIndex_spec` — an index names the entry with that number, from either end;
* `ziplistRun_refines` — every run keeps the format and the contents.
-/

/-! ### The format -/

/-- The offsets of the cells behind `P`. -/
def cellOffsets (P : Bytes) : List ZipCell → List Nat
  | [] => []
  | e :: es => (10 + P.length) :: cellOffsets (P ++ e.bytes) es

theorem cellOffsets_getLast? (P : Bytes) (es : List ZipCell) (n : Nat)
    (hn : n = 10 + (P ++ cellsBytes es).length) :
    (cellOffsets P es).getLast?.getD n = tailOf P es := by
  induction es generalizing P with
  | nil => simp [cellOffsets, tailOf, hn]
  | cons e es ih =>
    cases es with
    | nil => simp [cellOffsets, tailOf]
    | cons f fs =>
      rw [tailOf_cons, ← ih (P ++ e.bytes) (by rw [hn, cellsBytes_cons, ← List.append_assoc])]
      rw [cellOffsets, cellOffsets, List.getLast?_cons_cons]

variable {es : List ZipCell} {zl : Bytes}

theorem zipTiles_cells {o L : Nat} {P : Bytes} {pl : Nat} (hl : Linked pl es) (hes : ∀ e ∈ es, e.Fits) :
    ZipTiles (zipFrame o L (P ++ cellsBytes es)) (10 + P.length) pl (cellOffsets P es) := by
  induction es generalizing P pl with
  | nil =>
    rw [cellsBytes_nil, List.append_nil]
    exact .done (readByte_zipFrame_end rfl) (by simp; omega)
  | cons e es ih =>
    have he := hes e (by simp)
    obtain ⟨hprev, hl⟩ := hl
    obtain ⟨b, hb, hne⟩ := readByte_zipFrame_cons (o := o) (L := L) (P := P) he
      (cellsBytes es) rfl
    obtain ⟨A, C, hframe, hA⟩ := zipFrame_cell o L P (cellsBytes es) e
    obtain ⟨z, hz, -, hzp, hzh, hzl, -⟩ := zipEntry_cell he A C
    rw [← hframe, hA] at hz
    have hraw : z.headersize + z.len = e.rawLen := by
      rw [hzh, hzl, ZipCell.rawLen, zipBody, List.length_append, Nat.add_assoc]
    have hrest := ih (P := P ++ e.bytes) hl (fun g hg => hes g (by simp [hg]))
    rw [List.length_append, ZipCell.length_bytes, List.append_assoc, ← Nat.add_assoc, ← hraw]
      at hrest
    rw [cellsBytes_cons, ← hprev, ← hzp]
    exact .entry hb hne hz hrest

theorem cellOffsets_getElem? (P : Bytes) (es : List ZipCell) (k : Nat) :
    (cellOffsets P es)[k]? = if k < es.length then some (10 + (P ++ cellsBytes (es.take k)).length) else none := by
  induction es generalizing P k with
  | nil => rfl
  | cons e es ih =>
    cases k with
    | zero => simp [cellOffsets]
    | succ k => simp [cellOffsets, ih]

theorem length_cellOffsets (P : Bytes) (es : List ZipCell) : (cellOffsets P es).length = es.length := by
  induction es generalizing P with
  | nil => rfl
  | cons e es ih => rw [cellOffsets, List.length_cons, ih, List.length_cons]

theorem ziplistTailOffset_represents (h : Represents zl es) :
    ziplistTailOffset zl = .ok (tailOf [] es) := by
  obtain ⟨L, rfl⟩ := h.frame
  have hsz := h.size_lt
  have htail := tailOf_lt [] es
  rw [List.nil_append] at htail
  exact ziplistTailOffset_zipFrame (by omega)

theorem Represents.tiled (h : Represents zl es) : Tiled zl (cellOffsets [] es) := by
  have htail := ziplistTailOffset_represents h
  obtain ⟨L, rfl⟩ := h.frame
  refine ⟨zipTiles_cells (P := []) h.linked h.fits, ?_⟩
  rw [htail, cellOffsets_getLast?]
  rw [length_zipFrame, List.nil_append]
  omega

theorem Represents.wellFormed (h : Represents zl es) :
    ZipWellFormed zl := by
  have htiled := h.tiled
  obtain ⟨L, rfl⟩ := h.frame
  refine ⟨?_, ?_, cellOffsets [] es, htiled.tiles, htiled.tail⟩
  · rw [ziplistBytes_zipFrame h.size_lt, length_zipFrame]
  · rw [zipFrame, ← List.append_assoc]
    simp

/-- The pointer behind `pre`. -/
theorem Represents.at_cells {pre post : List ZipCell} (h : Represents zl (pre ++ post)) :
    ∃ prev, At zl (cellOffsets [] (pre ++ post)) pre.length (10 + (cellsBytes pre).length) prev := by
  have hlen := length_cellOffsets [] (pre ++ post)
  rw [List.length_append] at hlen
  obtain ⟨q, prev, hat⟩ := h.tiled.tiles.exists_at (show pre.length ≤ _ by omega)
  have hq : q = 10 + (cellsBytes pre).length := by
    by_cases hlt : pre.length < (cellOffsets [] (pre ++ post)).length
    · have hget := (hat.next hlt).1
      rw [cellOffsets_getElem?, if_pos (by rw [List.length_append]; omega), List.take_left] at hget
      exact (Option.some.inj hget).symm
    · obtain rfl : post = [] := List.eq_nil_of_length_eq_zero (by omega)
      have hrest := hat.rest
      rw [List.drop_of_length_le (by omega)] at hrest
      have hlast := hrest.nil_inv.2
      obtain ⟨L, rfl⟩ := h.frame
      rw [length_zipFrame, List.append_nil] at hlast
      omega
  exact ⟨prev, hq ▸ hat⟩

/-! ### Walks -/

/-- From `p` on: the value of each entry, then `ziplistNext`. -/
def ziplistForwardFrom (zl : Bytes) : Nat → Option Nat → Except ZipFault (List Bytes)
  | _, none => return []
  | 0, some _ => .error .fuel
  | fuel + 1, some p => do
      let v ← ziplistGet zl p
      let next ← ziplistNext zl p
      let rest ← ziplistForwardFrom zl fuel next
      return (v.map zipValueString).toList ++ rest

/-- The walk from the first entry to the last. -/
def ziplistForward (zl : Bytes) : Except ZipFault (List Bytes) := do
  let p ← ziplistIndex zl 0
  ziplistForwardFrom zl zl.length p

/-- Before `p`: `ziplistPrev`, then the value of the entry found. -/
def ziplistBackwardFrom (zl : Bytes) : Nat → Nat → Except ZipFault (List Bytes)
  | 0, _ => .error .fuel
  | fuel + 1, p => do
      match ← ziplistPrev zl p with
      | none => return []
      | some q =>
          let v ← ziplistGet zl q
          let rest ← ziplistBackwardFrom zl fuel q
          return (v.map zipValueString).toList ++ rest

/-- The walk from the end of the list to the first entry. -/
def ziplistBackward (zl : Bytes) : Except ZipFault (List Bytes) := do
  let p ← ziplistEntryEnd zl
  ziplistBackwardFrom zl zl.length p

section Walks

variable {o L : Nat} {P : Bytes}

theorem ziplistGet_zipFrame {e : ZipCell} (he : e.Fits) (R : Bytes) {p : Nat}
    (hp : p = 10 + P.length) :
    ∃ v, ziplistGet (zipFrame o L (P ++ (e.bytes ++ R))) p = .ok (some v) ∧
      zipValueString v = e.val := by
  obtain ⟨A, C, hframe, hA⟩ := zipFrame_cell o L P R e
  obtain ⟨v, hv, hval⟩ := ziplistGet_cell he A C
  exact ⟨v, by rw [hframe, hp, ← hA, hv], hval⟩

/-- The position of the first cell behind `P`, if there is one. -/
def headPos (P : Bytes) (es : List ZipCell) : Option Nat :=
  if es = [] then none else some (10 + P.length)

theorem ziplistNext_zipFrame {e : ZipCell} (he : e.Fits) (hes : ∀ f ∈ es, f.Fits) :
    ziplistNext (zipFrame o L (P ++ (e.bytes ++ cellsBytes es))) (10 + P.length)
      = .ok (headPos (P ++ e.bytes) es) := by
  obtain ⟨b, hb, hne⟩ := readByte_zipFrame_cons (o := o) (L := L) (P := P) he
    (cellsBytes es) rfl
  obtain ⟨b', hb', hend⟩ := readByte_zipFrame_cells hes o L (P ++ e.bytes)
    (p := 10 + P.length + e.rawLen) (by simp; omega)
  rw [List.append_assoc] at hb'
  rw [ziplistNext, hb]
  simp only [bind, Except.bind]
  rw [if_neg hne, zipRawEntryLength_zipFrame he _ rfl]
  simp only [hb']
  rw [headPos]
  by_cases hnil : es = []
  · rw [if_pos (hend.mpr hnil), if_pos hnil]
    rfl
  · rw [if_neg (fun h => hnil (hend.mp h)), if_neg hnil, List.length_append, ZipCell.length_bytes,
      Nat.add_assoc]
    rfl

theorem ziplistForwardFrom_zipFrame (hes : ∀ e ∈ es, e.Fits) {fuel : Nat} (hfuel : es.length ≤ fuel) :
    ziplistForwardFrom (zipFrame o L (P ++ cellsBytes es)) fuel (headPos P es)
      = .ok (es.map ZipCell.val) := by
  induction es generalizing P fuel with
  | nil => cases fuel <;> rfl
  | cons e es ih =>
    obtain ⟨fuel, rfl⟩ : ∃ n, fuel = n + 1 := ⟨fuel - 1, by simp at hfuel; omega⟩
    have he := hes e (by simp)
    have hes' : ∀ f ∈ es, f.Fits := fun f hf => hes f (by simp [hf])
    obtain ⟨v, hv, hval⟩ := ziplistGet_zipFrame (o := o) (L := L) (P := P) he
      (cellsBytes es) rfl
    have hrest := ih (P := P ++ e.bytes) hes' (Nat.le_of_succ_le_succ hfuel)
    rw [List.append_assoc] at hrest
    rw [headPos, if_neg (by simp), ziplistForwardFrom, cellsBytes_cons, hv]
    simp only [bind, Except.bind, ziplistNext_zipFrame he hes', hrest]
    simp [pure, Except.pure, hval]

end Walks

section Backward

variable {zl : Bytes} {pre post : List ZipCell}

/-- `ziplistPrev` from an entry or from the end. -/
theorem ziplistPrev_represents (h : Represents zl (pre ++ post)) :
    ziplistPrev zl (10 + (cellsBytes pre).length)
      = .ok (if pre = [] then none else some (10 + (cellsBytes pre.dropLast).length)) := by
  obtain ⟨prev, hat⟩ := h.at_cells
  rw [h.tiled.before hat (by rw [length_cellOffsets, List.length_append]; omega)]
  rcases List.eq_nil_or_concat pre with rfl | ⟨pre', e, rfl⟩
  · rfl
  · rw [List.concat_eq_append, List.dropLast_concat, if_neg (by simp), if_neg (by simp),
      show (pre' ++ [e]).length - 1 = pre'.length by simp, cellOffsets_getElem?, if_pos (by simp), List.append_assoc,
      List.take_left, List.nil_append]

theorem ziplistGet_represents {e : ZipCell} (h : Represents zl (pre ++ e :: post)) :
    ∃ v, ziplistGet zl (10 + (cellsBytes pre).length) = .ok (some v) ∧ zipValueString v = e.val := by
  obtain ⟨L, rfl⟩ := h.frame
  rw [cellsBytes_append, cellsBytes_cons]
  exact ziplistGet_zipFrame (h.fits e (by simp)) _ rfl

/-- The backward walk over `pre`. -/
theorem ziplistBackwardFrom_represents (h : Represents zl es) (hes : es = pre ++ post) {fuel : Nat}
    (hfuel : pre.length < fuel) :
    ziplistBackwardFrom zl fuel (10 + (cellsBytes pre).length)
      = .ok (pre.map ZipCell.val).reverse := by
  induction fuel generalizing pre post with
  | zero => omega
  | succ fuel ih =>
    rw [ziplistBackwardFrom, ziplistPrev_represents (hes ▸ h)]
    simp only [bind, Except.bind]
    rcases List.eq_nil_or_concat pre with rfl | ⟨pre', e', rfl⟩
    · rfl
    · rw [List.concat_eq_append] at hes hfuel ⊢
      have hes' : es = pre' ++ e' :: post := by
        rw [hes, List.append_assoc]
        rfl
      obtain ⟨v, hv, hval⟩ := ziplistGet_represents (hes' ▸ h)
      have hrest := ih hes' (by simp at hfuel; omega)
      rw [if_neg (by simp), List.dropLast_concat]
      simp only [hv, hrest]
      simp [pure, Except.pure, hval]

end Backward

theorem entryIndex_lt {n k : Nat} {index : Int} (h : entryIndex n index = some k) : k < n := by
  rw [entryIndex] at h
  split_ifs at h <;> simp at h <;> omega

/-- `ziplistIndex` finds the entry with the given number, or nothing. -/
theorem ziplistIndex_spec (h : Represents zl es) (index : Int) :
    ziplistIndex zl index
      = .ok ((entryIndex es.length index).map (fun k => 10 + (cellsBytes (es.take k)).length)) := by
  rw [h.tiled.index, length_cellOffsets]
  cases hk : entryIndex es.length index with
  | none => rfl
  | some k => rw [Option.bind_some, Option.map_some, cellOffsets_getElem?, if_pos (entryIndex_lt hk), List.nil_append]

/-- `ziplistNext` finds the entry behind the one with the given number. -/
theorem ziplistNext_spec (h : Represents zl es) {k : Nat} (hk : k < es.length) :
    ziplistNext zl (10 + (cellsBytes (es.take k)).length)
      = .ok (if k + 1 < es.length then some (10 + (cellsBytes (es.take (k + 1))).length)
        else none) := by
  obtain ⟨prev, hat⟩ := @Represents.at_cells zl (es.take k) (es.drop k) (by rwa [List.take_append_drop])
  rw [List.take_append_drop, List.length_take, Nat.min_eq_left hk.le] at hat
  rw [hat.ziplistNext (by rwa [length_cellOffsets]), cellOffsets_getElem?, List.nil_append]

theorem Represents.ziplistEntryEnd (h : Represents zl es) :
    ziplistEntryEnd zl = .ok (10 + (cellsBytes es).length) := by
  obtain ⟨L, rfl⟩ := h.frame
  rw [Redis.ziplistEntryEnd, ziplistBytes_zipFrame h.size_lt]
  exact pointerAdd_eq (by push_cast; omega)

theorem Represents.length_lt (h : Represents zl es) :
    es.length < zl.length := by
  obtain ⟨L, rfl⟩ := h.frame
  have hle := length_le_cellsBytes es
  rw [length_zipFrame]
  omega

/-- The forward walk reads the strings, whatever the header says. -/
theorem ziplistForward_zipFrame {o L : Nat} (hes : ∀ e ∈ es, e.Fits) :
    ziplistForward (zipFrame o L (cellsBytes es)) = .ok (es.map ZipCell.val) := by
  have hfuel : es.length ≤ (zipFrame o L (cellsBytes es)).length := by
    have hle := length_le_cellsBytes es
    rw [length_zipFrame]
    omega
  have hwalk := ziplistForwardFrom_zipFrame (o := o) (L := L) (P := []) hes hfuel
  have hfirst : ziplistIndex (zipFrame o L (cellsBytes es)) 0 = .ok (headPos [] es) := by
    obtain ⟨b, hb, hend⟩ := readByte_zipFrame_cells hes o L [] rfl
    rw [ziplistIndex, if_neg (by omega), headPos]
    show ziplistIndexFwd _ 0 10 = _
    rw [ziplistIndexFwd, show readByte (zipFrame o L (cellsBytes es)) 10 = .ok b from hb, ok_bind]
    by_cases hnil : es = []
    · rw [if_pos (hend.mpr hnil), if_pos hnil]
      rfl
    · rw [if_neg (fun h => hnil (hend.mp h)), if_neg hnil]
      rfl
  rw [ziplistForward, hfirst]
  exact hwalk

/-- The forward walk reads the strings. -/
theorem Represents.forward (h : Represents zl es) :
    ziplistForward zl = .ok (es.map ZipCell.val) := by
  obtain ⟨L, rfl⟩ := h.frame
  exact ziplistForward_zipFrame h.fits

/-- The backward walk reads them in reverse. -/
theorem Represents.backward (h : Represents zl es) :
    ziplistBackward zl = .ok (es.map ZipCell.val).reverse := by
  rw [ziplistBackward, h.ziplistEntryEnd]
  exact ziplistBackwardFrom_represents h (List.append_nil es).symm h.length_lt

/-! ### Operations -/

/-- The updates.  Entries are named by their number; `insert` goes to the end when there
    is no such entry. -/
inductive ZipOp
  | push (s : Bytes) (place : ZipWhere)
  | insert (index : Nat) (s : Bytes)
  | delete (index : Nat)
  | deleteRange (index : Int) (num : Nat)

/-- The pointer an insertion is given: the entry, or `ZIPLIST_ENTRY_END`. -/
def insertPointer (zl : Bytes) (index : Nat) : Except ZipFault Nat := do
  match ← ziplistIndex zl index with
  | some p => return p
  | none => ziplistEntryEnd zl

/-- One update of the block. -/
def ziplistStep (junk : Nat → UInt8) (zl : Bytes) : ZipOp → Except ZipFault Bytes
  | .push s place => ziplistPush junk zl s place
  | .insert index s => do
      let p ← insertPointer zl index
      ziplistInsert junk zl p s
  | .delete index => do
      match ← ziplistIndex zl index with
      | some p => ziplistDelete junk zl p
      | none => return zl
  | .deleteRange index num => ziplistDeleteRange junk zl index num

/-- The same update of a plain list. -/
def listStep (l : List Bytes) : ZipOp → List Bytes
  | .push s .head => s :: l
  | .push s .tail => l ++ [s]
  | .insert index s => l.take index ++ s :: l.drop index
  | .delete index => l.eraseIdx index
  | .deleteRange index num =>
      match entryIndex l.length index with
      | some k => l.take k ++ l.drop (k + num)
      | none => l

/-- A run of updates from the empty ziplist. -/
def ziplistRun (junk : Nat → UInt8) (ops : List ZipOp) : Except ZipFault Bytes :=
  ops.foldlM (ziplistStep junk) ziplistNew

/-- The same run from the empty list. -/
def listRun (ops : List ZipOp) : List Bytes := ops.foldl listStep []

/-- The block represents cells that hold the strings `l`. -/
def Holds (l : List Bytes) (zl : Bytes) : Prop :=
  ∃ es, Represents zl es ∧ es.map ZipCell.val = l

theorem entryIndex_natCast (n index : Nat) :
    entryIndex n (index : Int) = if index < n then some index else none := by
  simp [entryIndex]

section Step

variable (junk : Nat → UInt8) {zl : Bytes} {es : List ZipCell}

/-- Insertion in front of the cell with a number, or at the end. -/
theorem insertAt_holds (h : Represents zl es) (k : Nat) (s : Bytes) :
    Sat (ziplistInsertAt junk zl (10 + (cellsBytes (es.take k)).length) s)
      (fun zl' => Holds ((es.map ZipCell.val).take k ++ s :: (es.map ZipCell.val).drop k) zl' ∧
        (Counts zl es.length → Counts zl' (es.length + 1)))
      ZipFault.Overflows := by
  have hcut : Represents zl (es.take k ++ es.drop k) := by rwa [List.take_append_drop]
  refine (ziplistInsertAt_spec junk hcut s rfl).weaken ?_
  rintro zl' ⟨⟨es', h', hval⟩, hcount⟩
  rw [List.take_append_drop] at hcount
  exact ⟨⟨es', h', by rw [hval, List.map_take, List.map_drop]⟩, hcount⟩

/-- Deletion from the cell with a number on. -/
theorem deleteAt_holds (h : Represents zl es) {k : Nat} (hk : k < es.length) (num : Nat) :
    Sat (ziplistDeleteAt junk zl (10 + (cellsBytes (es.take k)).length) num)
      (fun zl' => Holds ((es.map ZipCell.val).take k ++ (es.map ZipCell.val).drop (k + num)) zl' ∧
        (Counts zl es.length → Counts zl' (k + (es.length - (k + num)))))
      ZipFault.Overflows := by
  obtain ⟨d, ds, hd⟩ : ∃ d ds, es.drop k = d :: ds :=
    List.exists_cons_of_ne_nil (by simpa using hk)
  have hcut : Represents zl (es.take k ++ d :: ds) := by rwa [← hd, List.take_append_drop]
  refine (ziplistDeleteAt_spec junk hcut num rfl).weaken ?_
  rintro zl' ⟨⟨es', h', hval⟩, hcount⟩
  refine ⟨⟨es', h', ?_⟩, fun hc => ?_⟩
  · rw [hval, ← hd, List.drop_drop, List.map_take, List.map_drop]
  · rw [← hd, List.take_append_drop, List.drop_drop, List.length_drop, List.length_take,
      min_eq_left hk.le] at hcount
    exact hcount hc

/-- **One update** of the block is the update of the list, and the counter follows. -/
theorem ziplistStep_counts {l : List Bytes} (h : Holds l zl) (op : ZipOp) :
    Sat (ziplistStep junk zl op)
      (fun zl' => Holds (listStep l op) zl' ∧
        (Counts zl l.length → Counts zl' (listStep l op).length))
      ZipFault.Overflows := by
  obtain ⟨es, hrep, rfl⟩ := h
  cases op with
  | push s place =>
    cases place with
    | head =>
      have hins := insertAt_holds junk hrep 0 s
      simpa [ziplistStep, ziplistPush, listStep, ZIPLIST_HEADER_SIZE] using hins
    | tail =>
      have hins := insertAt_holds junk hrep es.length s
      rw [List.take_length, List.drop_of_length_le (by simp), List.take_of_length_le (by simp)]
        at hins
      refine Sat.bind_ok (a := 10 + (cellsBytes es).length) hrep.ziplistEntryEnd ?_
      simpa [listStep] using hins
  | insert index s =>
    have hptr : insertPointer zl index = .ok (10 + (cellsBytes (es.take index)).length) := by
      rw [insertPointer, ziplistIndex_spec hrep, entryIndex_natCast]
      by_cases hlt : index < es.length
      · rw [if_pos hlt]
        rfl
      · rw [if_neg hlt, List.take_of_length_le (by omega)]
        exact hrep.ziplistEntryEnd
    refine Sat.bind_ok hptr ((insertAt_holds junk hrep index s).weaken ?_)
    rintro zl' ⟨hholds, hcount⟩
    refine ⟨hholds, fun hc => ?_⟩
    rw [List.length_map] at hc
    convert hcount hc using 1
    simp [listStep]
    omega
  | delete index =>
    rw [ziplistStep, ziplistIndex_spec hrep, entryIndex_natCast]
    by_cases hlt : index < es.length
    · rw [if_pos hlt]
      refine (deleteAt_holds junk hrep hlt 1).weaken ?_
      rintro zl' ⟨hholds, hcount⟩
      rw [listStep, List.eraseIdx_eq_take_drop_succ]
      refine ⟨hholds, fun hc => ?_⟩
      rw [List.length_map] at hc
      convert hcount hc using 1
      simp
      omega
    · rw [if_neg hlt, listStep, List.eraseIdx_of_length_le (by simpa using hlt)]
      exact ⟨⟨es, hrep, rfl⟩, id⟩
  | deleteRange index num =>
    rw [ziplistStep, ziplistDeleteRange, ziplistIndex_spec hrep, listStep, List.length_map]
    cases hk : entryIndex es.length index with
    | none => exact ⟨⟨es, hrep, rfl⟩, by rw [List.length_map]; exact id⟩
    | some k =>
      have hlt := entryIndex_lt hk
      refine (deleteAt_holds junk hrep hlt num).weaken ?_
      rintro zl' ⟨hholds, hcount⟩
      refine ⟨hholds, fun hc => ?_⟩
      convert hcount hc using 1
      simp
      omega

end Step

/-- A run of updates. -/
theorem ziplistRun_counts (junk : Nat → UInt8) (ops : List ZipOp) :
    Sat (ziplistRun junk ops) (fun zl => Holds (listRun ops) zl ∧ Counts zl (listRun ops).length)
      ZipFault.Overflows := by
  refine sat_foldlM (fun done zl => Holds (listRun done) zl ∧ Counts zl (listRun done).length) ops
    ziplistNew ⟨⟨[], ziplistNew_represents, rfl⟩, ⟨0, by decide, Or.inl rfl⟩⟩ ?_
  rintro done op rest zl - ⟨hholds, hcount⟩
  rw [listRun, List.foldl_append]
  refine (ziplistStep_counts junk hholds op).weaken ?_
  rintro zl' ⟨hholds', hcount'⟩
  exact ⟨hholds', hcount' hcount⟩

theorem ziplistRun_holds (junk : Nat → UInt8) (ops : List ZipOp) :
    Sat (ziplistRun junk ops) (Holds (listRun ops)) ZipFault.Overflows :=
  (ziplistRun_counts junk ops).weaken (fun _ h => h.1)

-- two pushes and the removal of the last entry leave the integer 12 in one byte
example : ziplistRun (fun _ => 7) [.push [97] .tail, .push [49, 50] .head, .deleteRange (-1) 1]
    = .ok [13, 0, 0, 0, 10, 0, 0, 0, 1, 0, 0, 253, 255] := by rfl

end Redis
