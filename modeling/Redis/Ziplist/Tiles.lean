import Redis.Ziplist.Update

namespace Redis

open Buffer Outcome

/-!
# Walking over a well-formed ziplist

The format, read with `zipEntry` alone, and the functions that find an entry in a block of that
format, whatever the encodings of its entries.

* `ZipTiles`, `ZipWellFormed` — the format;
* `At` — a pointer to an entry, with what is around it;
* `Tiled.index`, `Tiled.before`, `At.ziplistNext` — the entry with a number, from either end, and the neighbours.
-/

/-! ### The format -/

/-- The entries at `offsets` tile the block from `p` up to the final `ZIP_END`, and every
    `prevlen` is the raw length of the entry before, `prev` for the first one. -/
inductive ZipTiles (zl : Bytes) : Nat → Nat → List Nat → Prop
  | done {p prev : Nat} (hend : readByte zl p = .ok ZIP_END) (hlast : p + 1 = zl.length) :
      ZipTiles zl p prev []
  | entry {p : Nat} {b : UInt8} {z : ZlEntry} {offsets : List Nat} (hb : readByte zl p = .ok b)
      (hne : b ≠ ZIP_END) (hz : zipEntry zl p = .ok z)
      (hrest : ZipTiles zl (p + (z.headersize + z.len)) (z.headersize + z.len) offsets) :
      ZipTiles zl p z.prevrawlen (p :: offsets)

/-- A well-formed block. -/
structure ZipWellFormed (zl : Bytes) : Prop where
  bytes : ziplistBytes zl = .ok zl.length
  last : zl.getLast? = some ZIP_END
  tiles : ∃ offsets, ZipTiles zl ZIPLIST_HEADER_SIZE 0 offsets ∧
    ziplistTailOffset zl = .ok (offsets.getLast?.getD (zl.length - 1))

section Tiles

variable {zl : Bytes} {p q prev : Nat} {z : ZlEntry} {offsets : List Nat}

/-- What `zipEntry` has read. -/
theorem zipEntry_parts (h : zipEntry zl p = .ok z) :
    zipDecodePrevlen zl p = .ok (z.prevrawlensize, z.prevrawlen) ∧
    zipDecodePrevlensize zl p = .ok z.prevrawlensize ∧
    zipDecodeLength zl (p + z.prevrawlensize) = .ok (z.encoding, z.lensize, z.len) ∧
    z.headersize = z.prevrawlensize + z.lensize ∧ 0 < z.prevrawlensize := by
  obtain ⟨⟨size, prevlen⟩, hprev, h⟩ := bind_eq_ok.mp h
  obtain ⟨⟨encoding, lensize, len⟩, hlen, h⟩ := bind_eq_ok.mp h
  obtain rfl := Except.ok.inj h
  have hsize : zipDecodePrevlensize zl p = .ok size := by
    obtain ⟨n, hn, h'⟩ := bind_eq_ok.mp hprev
    split at h'
    · obtain ⟨b, -, h'⟩ := bind_eq_ok.mp h'
      rw [hn, (Prod.mk.inj (Except.ok.inj h')).1]
    · obtain ⟨b, -, h'⟩ := bind_eq_ok.mp h'
      rw [hn, (Prod.mk.inj (Except.ok.inj h')).1]
  refine ⟨hprev, hsize, hlen, rfl, ?_⟩
  obtain ⟨b, -, hb⟩ := bind_eq_ok.mp hsize
  have hval := Except.ok.inj hb
  show 0 < size
  split at hval <;> omega

theorem zipRawEntryLength_eq (h : zipEntry zl p = .ok z) :
    zipRawEntryLength zl p = .ok (z.headersize + z.len) := by
  obtain ⟨-, hsize, hlen, hheader, -⟩ := zipEntry_parts h
  rw [zipRawEntryLength, hsize, ok_bind, hlen, ok_bind, hheader]
  rfl

theorem ZipTiles.nil_inv (h : ZipTiles zl q prev []) : readByte zl q = .ok ZIP_END ∧ q + 1 = zl.length := by
  cases h with
  | done hend hlast => exact ⟨hend, hlast⟩

theorem ZipTiles.cons_inv {rest : List Nat} (h : ZipTiles zl q prev (p :: rest)) :
    p = q ∧ ∃ b z, readByte zl q = .ok b ∧ b ≠ ZIP_END ∧ zipEntry zl q = .ok z ∧ z.prevrawlen = prev ∧
      ZipTiles zl (q + (z.headersize + z.len)) (z.headersize + z.len) rest := by
  cases h with
  | entry hb hne hz hrest => exact ⟨rfl, _, _, hb, hne, hz, rfl, hrest⟩

theorem ZipTiles.lt (h : ZipTiles zl q prev offsets) : q + offsets.length < zl.length := by
  induction h with
  | done _ hlast =>
    rw [List.length_nil]
    omega
  | entry _ _ hz _ ih =>
    obtain ⟨-, -, -, hheader, hpos⟩ := zipEntry_parts hz
    rw [List.length_cons]
    omega

/-- The pointer `q` is at the entry with the number `k`, or at the end behind the last one; the
    entry before it has `prev` bytes. -/
structure At (zl : Bytes) (offsets : List Nat) (k q prev : Nat) : Prop where
  rest : ZipTiles zl q prev (offsets.drop k)
  first : k = 0 → q = ZIPLIST_HEADER_SIZE ∧ prev = 0
  back : ∀ j, k = j + 1 → 0 < prev ∧ ZIPLIST_HEADER_SIZE + prev ≤ q ∧ offsets[j]? = some (q - prev)

variable {k : Nat}

theorem At.next (h : At zl offsets k q prev) (hk : k < offsets.length) :
    offsets[k]? = some q ∧ ∃ b z, readByte zl q = .ok b ∧ b ≠ ZIP_END ∧ zipEntry zl q = .ok z ∧
      z.prevrawlen = prev ∧ At zl offsets (k + 1) (q + (z.headersize + z.len)) (z.headersize + z.len) := by
  have hrest := h.rest
  rw [List.drop_eq_getElem_cons hk] at hrest
  obtain ⟨hp, b, z, hb, hne, hz, hprev, hnext⟩ := hrest.cons_inv
  obtain ⟨-, -, -, hheader, hpos⟩ := zipEntry_parts hz
  have hget : offsets[k]? = some q := by rw [List.getElem?_eq_getElem hk, hp]
  have hle : ZIPLIST_HEADER_SIZE ≤ q := by
    cases k with
    | zero => exact (h.first rfl).1.ge
    | succ j => exact (Nat.le_add_right _ _).trans (h.back j rfl).2.1
  refine ⟨hget, b, z, hb, hne, hz, hprev, hnext, fun h0 => ?_, fun j hj => ?_⟩
  · omega
  · obtain rfl : k = j := by omega
    refine ⟨by omega, by omega, ?_⟩
    rw [Nat.add_sub_cancel]
    exact hget

theorem ZipTiles.exists_at (h : ZipTiles zl ZIPLIST_HEADER_SIZE 0 offsets) (hk : k ≤ offsets.length) :
    ∃ q prev, At zl offsets k q prev := by
  induction k with
  | zero => exact ⟨_, _, h, fun _ => ⟨rfl, rfl⟩, fun j hj => absurd hj (by omega)⟩
  | succ k ih =>
    obtain ⟨q, prev, hat⟩ := ih (by omega)
    obtain ⟨-, b, z, -, -, -, -, hnext⟩ := hat.next hk
    exact ⟨_, _, hnext⟩

/-- The byte at the pointer tells whether an entry is there. -/
theorem At.readByte (h : At zl offsets k q prev) :
    ∃ b, readByte zl q = .ok b ∧ (b = ZIP_END ↔ offsets.length ≤ k) := by
  by_cases hk : k < offsets.length
  · obtain ⟨-, b, z, hb, hne, -⟩ := h.next hk
    exact ⟨b, hb, iff_of_false hne (by omega)⟩
  · have hrest := h.rest
    rw [List.drop_of_length_le (by omega)] at hrest
    exact ⟨ZIP_END, hrest.nil_inv.1, iff_of_true rfl (by omega)⟩

/-! ### Finding an entry -/

theorem At.indexFwd (h : At zl offsets k q prev) (i : Nat) :
    ziplistIndexFwd zl i q = .ok offsets[k + i]? := by
  induction i generalizing k q prev with
  | zero =>
    obtain ⟨b, hb, hend⟩ := h.readByte
    rw [ziplistIndexFwd, hb, ok_bind]
    by_cases hk : k < offsets.length
    · rw [if_neg (by rw [hend]; omega), Nat.add_zero, (h.next hk).1]
      rfl
    · rw [if_pos (by rw [hend]; omega), List.getElem?_eq_none (by omega)]
      rfl
  | succ i ih =>
    obtain ⟨b, hb, hend⟩ := h.readByte
    rw [ziplistIndexFwd, hb, ok_bind]
    by_cases hk : k < offsets.length
    · obtain ⟨-, b', z, -, -, hz, -, hnext⟩ := h.next hk
      rw [if_neg (by rw [hend]; omega), zipRawEntryLength_eq hz, ok_bind, ih hnext, Nat.add_assoc,
        Nat.add_comm 1 i]
    · rw [if_pos (by rw [hend]; omega), List.getElem?_eq_none (by omega)]
      rfl

theorem At.pointerAdd_prev (h : At zl offsets (k + 1) q prev) :
    pointerAdd q (-(prev : Int)) = .ok (q - prev) := by
  obtain ⟨-, hle, -⟩ := h.back k rfl
  rw [pointerAdd, if_pos (by omega)]
  congr 1
  omega

theorem ZipTiles.indexBack (hz : ZipTiles zl ZIPLIST_HEADER_SIZE 0 offsets) (index : Nat)
    (h : At zl offsets k q prev) (hk : k < offsets.length) :
    ziplistIndexBack zl index q prev = .ok (if index ≤ k then offsets[k - index]? else none) := by
  induction index generalizing k q prev with
  | zero =>
    rw [ziplistIndexBack, if_pos (Nat.zero_le k), Nat.sub_zero, (h.next hk).1]
    rfl
  | succ index ih =>
    rw [ziplistIndexBack]
    cases k with
    | zero =>
      rw [if_neg (by rw [(h.first rfl).2]; omega), if_neg (by omega)]
      rfl
    | succ k =>
      obtain ⟨hpos, -, hget⟩ := h.back k rfl
      obtain ⟨q', prev', hat⟩ := hz.exists_at (show k ≤ offsets.length by omega)
      obtain ⟨hget', -, z, -, -, hentry, hprev, -⟩ := hat.next (by omega)
      obtain rfl : q' = q - prev := Option.some.inj (hget'.symm.trans hget)
      rw [if_pos hpos, h.pointerAdd_prev, ok_bind, (zipEntry_parts hentry).1, ok_bind]
      simp only [hprev, ih hat (by omega), Nat.add_le_add_iff_right, Nat.add_sub_add_right]

theorem At.ziplistNext (h : At zl offsets k q prev) (hk : k < offsets.length) :
    ziplistNext zl q = .ok offsets[k + 1]? := by
  obtain ⟨-, b, z, hb, hne, hz, -, hnext⟩ := h.next hk
  obtain ⟨b', hb', hend⟩ := hnext.readByte
  rw [Redis.ziplistNext, hb, ok_bind, if_neg hne, zipRawEntryLength_eq hz, ok_bind, hb', ok_bind]
  by_cases hlast : k + 1 < offsets.length
  · rw [if_neg (by rw [hend]; omega), (hnext.next hlast).1]
    rfl
  · rw [if_pos (by rw [hend]; omega), List.getElem?_eq_none (by omega)]
    rfl

/-- The entries tile the block, and the header leads to the last one. -/
structure Tiled (zl : Bytes) (offsets : List Nat) : Prop where
  tiles : ZipTiles zl ZIPLIST_HEADER_SIZE 0 offsets
  tail : ziplistTailOffset zl = .ok (offsets.getLast?.getD (zl.length - 1))

/-- The pointer at the end of the block, or at its last entry. -/
theorem Tiled.tailAt (h : Tiled zl offsets) :
    ∃ prev, At zl offsets (offsets.length - 1) (offsets.getLast?.getD (zl.length - 1)) prev := by
  obtain ⟨q, prev, hat⟩ := h.tiles.exists_at (show offsets.length - 1 ≤ offsets.length by omega)
  have hq : offsets.getLast?.getD (zl.length - 1) = q := by
    rw [List.getLast?_eq_getElem?]
    by_cases hne : offsets.length - 1 < offsets.length
    · rw [(hat.next hne).1]
      rfl
    · have hrest := hat.rest
      rw [List.drop_of_length_le (by omega)] at hrest
      rw [List.getElem?_eq_none (by omega), ← hrest.nil_inv.2]
      rfl
  exact ⟨prev, hq ▸ hat⟩

/-- The entry an index names: from the front, or from the back when it is negative. -/
def entryIndex (n : Nat) (index : Int) : Option Nat :=
  if 0 ≤ index then if index < n then some index.toNat else none
  else if 0 ≤ (n : Int) + index then some ((n : Int) + index).toNat else none

/-- `ziplistIndex` finds the entry with the given number, or nothing. -/
theorem Tiled.index (h : Tiled zl offsets) (index : Int) :
    ziplistIndex zl index = .ok ((entryIndex offsets.length index).bind fun k => offsets[k]?) := by
  rw [ziplistIndex, entryIndex]
  by_cases hneg : index < 0
  · obtain ⟨prev, hat⟩ := h.tailAt
    obtain ⟨b, hb, hend⟩ := hat.readByte
    rw [if_pos hneg, if_neg (by omega), h.tail, ok_bind, hb, ok_bind]
    by_cases hnil : offsets.length = 0
    · rw [if_pos (by rw [hend]; omega), if_neg (by omega)]
      rfl
    · obtain ⟨-, -, z, -, -, hz, hprev, -⟩ := hat.next (by omega)
      rw [if_neg (by rw [hend]; omega), (zipEntry_parts hz).1, ok_bind, hprev]
      simp only [h.tiles.indexBack _ hat (by omega)]
      by_cases hin : 0 ≤ (offsets.length : Int) + index
      · rw [if_pos (by omega), if_pos hin, Option.bind_some,
          show offsets.length - 1 - (-index - 1).toNat = ((offsets.length : Int) + index).toNat by omega]
      · rw [if_neg (by omega), if_neg hin]
        rfl
  · obtain ⟨q, prev, hat⟩ := h.tiles.exists_at (Nat.zero_le offsets.length)
    have hfirst := hat.indexFwd index.toNat
    rw [(hat.first rfl).1, Nat.zero_add] at hfirst
    rw [if_neg hneg, if_pos (by omega), hfirst]
    by_cases hin : index < offsets.length
    · rw [if_pos hin]
      rfl
    · rw [if_neg hin, List.getElem?_eq_none (by omega)]
      rfl

/-- `ziplistPrev` from an entry, or from the end of the block. -/
theorem Tiled.before (h : Tiled zl offsets) (hat : At zl offsets k q prev) (hk : k ≤ offsets.length) :
    ziplistPrev zl q = .ok (if k = 0 then none else offsets[k - 1]?) := by
  obtain ⟨b, hb, hend⟩ := hat.readByte
  rw [ziplistPrev, hb, ok_bind]
  by_cases hlt : k < offsets.length
  · obtain ⟨-, b', z, -, -, hz, hprev, -⟩ := hat.next hlt
    rw [if_neg (by rw [hend]; omega)]
    cases k with
    | zero =>
      rw [if_pos (hat.first rfl).1, if_pos rfl]
      rfl
    | succ k =>
      obtain ⟨hpos, hle, hget⟩ := hat.back k rfl
      rw [if_neg (by omega), (zipEntry_parts hz).1, ok_bind, hprev, if_neg (by omega)]
      simp only [if_pos hpos, hat.pointerAdd_prev, Nat.add_sub_cancel, hget]
      rfl
  · obtain ⟨prev', htail⟩ := h.tailAt
    obtain ⟨b', hb', hend'⟩ := htail.readByte
    rw [if_pos (by rw [hend]; omega), h.tail, ok_bind, hb', ok_bind]
    obtain rfl : k = offsets.length := by omega
    by_cases hnil : offsets.length = 0
    · rw [if_pos (by rw [hend']; omega), if_pos hnil]
      rfl
    · rw [if_neg (by rw [hend']; omega), if_neg hnil, (htail.next (by omega)).1]
      rfl

end Tiles

end Redis
