import Redis.Ziplist.Merge

namespace Redis

open Buffer Outcome

/-!
# The number of entries

`ziplistLen` reads the counter of the header, or walks through the entries when the counter
says nothing, and then stores the number again if it is small enough.

* `ziplistLen_zipFrame` — the number, and the block it leaves.
-/

/-- The loop of `ziplistLen`. -/
def ziplistCount (zl : Bytes) : Nat → Nat → Nat → Except ZipFault Nat
  | 0, _, _ => .error .fuel
  | fuel + 1, p, len => do
      if (← readByte zl p) = ZIP_END then
        return len
      let rawlen ← zipRawEntryLength zl p
      ziplistCount zl fuel (p + rawlen) (len + 1)

/-- `ziplistLen`: the number, and the block. -/
def ziplistLen (zl : Bytes) : Except ZipFault (Nat × Bytes) := do
  let len ← ziplistLength zl
  if len < UINT16_MAX then
    return (len, zl)
  else
    let len ← ziplistCount zl zl.length ZIPLIST_HEADER_SIZE 0
    if len < UINT16_MAX then
      -- re-store length if small enough
      let zl ← writeBytes zl 8 (leBytes 2 len)
      return (len, zl)
    else
      return (len, zl)

section Length

variable {o L : Nat}

theorem ziplistCount_zipFrame {P : Bytes} {es : List ZipCell} (hes : ∀ e ∈ es, e.Fits)
    {fuel p : Nat} (len : Nat) (hfuel : es.length < fuel) (hp : p = 10 + P.length) :
    ziplistCount (zipFrame o L (P ++ cellsBytes es)) fuel p len = .ok (len + es.length) := by
  induction es generalizing P fuel p len with
  | nil =>
    obtain ⟨fuel, rfl⟩ : ∃ n, fuel = n + 1 := ⟨fuel - 1, by simp at hfuel; omega⟩
    rw [cellsBytes_nil, List.append_nil, ziplistCount, readByte_zipFrame_end hp, ok_bind, if_pos rfl]
    rfl
  | cons e es ih =>
    obtain ⟨fuel, rfl⟩ : ∃ n, fuel = n + 1 := ⟨fuel - 1, by simp at hfuel; omega⟩
    have he := hes e (by simp)
    obtain ⟨b, hb, hne⟩ := readByte_zipFrame_cons (o := o) (L := L) (P := P) he (cellsBytes es) hp
    have hnext := ih (fun f hf => hes f (by simp [hf])) (len + 1)
      (show es.length < fuel by simpa using hfuel)
      (show p + e.rawLen = 10 + (P ++ e.bytes).length by simp [hp]; omega)
    rw [List.append_assoc] at hnext
    rw [cellsBytes_cons, ziplistCount, hb, ok_bind, if_neg hne, zipRawEntryLength_zipFrame he _ hp,
      ok_bind, hnext, List.length_cons]
    congr 1
    omega

/-- The number of entries is right, and only the counter may change. -/
theorem ziplistLen_zipFrame {es : List ZipCell} (hes : ∀ e ∈ es, e.Fits)
    (hcount : Counts (zipFrame o L (cellsBytes es)) es.length) :
    ∃ L', ziplistLen (zipFrame o L (cellsBytes es))
        = .ok (es.length, zipFrame o L' (cellsBytes es)) ∧
      Counts (zipFrame o L' (cellsBytes es)) es.length := by
  have hle := length_le_cellsBytes es
  have hwalk := ziplistCount_zipFrame (o := o) (L := L) (P := []) hes 0
    (show es.length < (zipFrame o L (cellsBytes es)).length by rw [length_zipFrame]; omega) rfl
  rw [List.nil_append, Nat.zero_add, show 10 + ([] : Bytes).length = ZIPLIST_HEADER_SIZE from rfl]
    at hwalk
  rw [ziplistLen, ziplistLength_zipFrame, ok_bind]
  by_cases hsmall : L % 2 ^ 16 < UINT16_MAX
  · rw [if_pos hsmall]
    have hval : L % 2 ^ 16 = es.length := (counts_zipFrame.mp hcount).resolve_right hsmall.ne
    exact ⟨L, by rw [hval]; rfl, hcount⟩
  · rw [if_neg hsmall, hwalk, ok_bind]
    by_cases hfew : es.length < UINT16_MAX
    · rw [if_pos hfew, zipFrame_count, writeBytes_append (by simp) (by simp), ok_bind,
        ← zipFrame_count]
      refine ⟨es.length, rfl, counts_zipFrame.mpr (Or.inl (Nat.mod_eq_of_lt ?_))⟩
      rw [UINT16_MAX] at hfew
      omega
    · rw [if_neg hfew]
      exact ⟨L, rfl, hcount⟩

end Length

end Redis
