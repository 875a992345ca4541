import Redis.Bitops.Count

namespace Redis.Bitops

open Redis Redis.Buffer

/-!
# BITPOS

`redisBitpos` skips bytes up to an aligned address, then words, and looks at the bits of the
word that is left, in which the first byte is the highest and missing bytes are zeros.

* `redisBitpos`, `bitposCommand`;
* `Skipped`, `redisBitpos_spec` — what is skipped, and the position that is found;
* `PosReplies`, `bitpos_bitcount` — the replies of `BITPOS` and `BITCOUNT`.
-/

/-! ### The source -/

/-- Bytes until the address is a multiple of eight; the position, and what is left. -/
def bitposHead (skipval : UInt8) (addr : Nat) : Bytes → Int → Int × Bytes
  | [], pos => (pos, [])
  | c :: p, pos => if addr % 8 ≠ 0 ∧ c = skipval then bitposHead skipval (addr + 1) p (pos + 8) else (pos, c :: p)

/-- `while (count >= sizeof(*l))`. -/
def bitposWords (skipval : Nat) : Nat → Bytes → Int → Int × Bytes
  | 0, p, pos => (pos, p)
  | fuel + 1, p, pos =>
      if 8 ≤ p.length ∧ leNat (p.take 8) = skipval then bitposWords skipval fuel (p.drop 8) (pos + 64) else (pos, p)

/-- The bytes that are left, `j` of them, behind those of `word`. -/
def loadWord : Nat → Bytes → BitVec 64 → BitVec 64
  | 0, _, word => word
  | j + 1, [], word => loadWord j [] (word <<< 8)
  | j + 1, c :: p, word => loadWord j p ((word <<< 8) ||| c.toBitVec.setWidth 64)

/-- `while(one)`; behind it is `serverPanic`. -/
def scanWord (word : BitVec 64) (bit : Bool) : Nat → BitVec 64 → Int → Option Int
  | 0, _, _ => none
  | fuel + 1, one, pos =>
      if one = 0#64 then none
      else if decide (one &&& word ≠ 0#64) = bit then some pos
      else scanWord word bit fuel (one >>> 1) (pos + 1)

/-- `redisBitpos` of the bytes at an address. -/
def redisBitpos (addr : Nat) (p : Bytes) (bit : Bool) : Option Int :=
  let head := bitposHead (if bit then 0 else 255) addr p 0
  let words := bitposWords (if bit then 0 else 18446744073709551615) head.2.length head.2 head.1
  let word := loadWord 8 words.2 0#64
  if bit = true ∧ word = 0#64 then some (-1)
  else scanWord word bit 65 (~~~(BitVec.allOnes 64 >>> 1)) words.1

/-- The end of `bitposCommand`. -/
def bitposRange (addr : Nat) (p : Bytes) (bit endGiven : Bool) (start fin : Int) : Option Reply :=
  if start > fin then some (.longLong (-1))
  else
    (redisBitpos (addr + start.toNat) (slice p start fin) bit).map fun pos =>
      if endGiven = true ∧ bit = false ∧ pos = (fin - start + 1) * 8 then .longLong (-1)
      else .longLong (if pos ≠ -1 then pos + start * 8 else pos)

/-- `bitposCommand` of a string, once the bit is read: the range. -/
def bitposArgs (addr : Nat) (p : Bytes) (bit : Bool) (argv : List Bytes) : Option Reply :=
  let found (endGiven : Bool) (start fin : Int) : Option Reply :=
    bitposRange addr p bit endGiven (clip p.length start fin).1 (clip p.length start fin).2
  if argv.length = 4 ∨ argv.length = 5 then
    match getLongFromObjectOrReply (argv.getD 3 []) none with
    | .error reply => some reply
    | .ok start =>
        if argv.length = 5 then
          match getLongFromObjectOrReply (argv.getD 4 []) none with
          | .error reply => some reply
          | .ok fin => found true start fin
        else found false start (p.length - 1)
  else if argv.length = 3 then bitposRange addr p bit false 0 (p.length - 1)
  else some .syntaxerr

/-- `bitposCommand`; the string of the value is at `addr`. -/
def bitposCommand (addr : Nat) (o : Option Robj) (argv : List Bytes) : Option Reply :=
  match getLongFromObjectOrReply (argv.getD 2 []) none with
  | .error reply => some reply
  | .ok bit =>
      if bit ≠ 0 ∧ bit ≠ 1 then some (.error "The bit argument must be 1 or 0.")
      else match o with
        | none => some (.longLong (if bit = 1 then -1 else 0))
        | some .other => some .wrongtypeerr
        | some o => bitposArgs addr (getObjectReadOnlyString o) (bit = 1) argv

/-! ### Skipping -/

section Skip

variable {bit : Bool} {p q : Bytes} {pos : Int}

theorem bitAt_drop (p : Bytes) (k i : Nat) : bitAt (p.drop k) i = bitAt p (8 * k + i) := by
  unfold bitAt
  rw [show (8 * k + i) / 8 = k + i / 8 by omega, show (8 * k + i) % 8 = i % 8 by omega]
  simp only [List.getD_eq_getElem?_getD, List.getElem?_drop]

/-- The byte whose bits are all the others. -/
def skipByte (bit : Bool) : UInt8 := if bit then 0 else 255

theorem bitAt_skip {i : Nat} (h : p[i / 8]? = some (skipByte bit)) : bitAt p i ≠ bit := by
  have hbits : ∀ k : Fin 8, (skipByte bit).toBitVec.getLsbD k.val ≠ bit := by
    cases bit <;> decide
  unfold bitAt
  rw [List.getD_eq_getElem?_getD, h]
  exact hbits ⟨7 - i % 8, by omega⟩

/-- The bytes of `p` before those of `q` are skipped, and `pos` bits with them. -/
def Skipped (bit : Bool) (p : Bytes) (pos : Int) (q : Bytes) : Prop :=
  ∃ k : Nat, pos = 8 * k ∧ q = p.drop k ∧ ∀ i < 8 * k, bitAt p i ≠ bit

/-- Some more bytes are skipped. -/
theorem Skipped.drop (h : Skipped bit p pos q) {n : Nat} (hn : q.take n = List.replicate n (skipByte bit)) :
    Skipped bit p (pos + 8 * n) (q.drop n) := by
  obtain ⟨k, rfl, rfl, hbits⟩ := h
  refine ⟨k + n, by push_cast; ring, by rw [List.drop_drop], fun i hi => ?_⟩
  by_cases hk : i < 8 * k
  · exact hbits i hk
  · have hget : (p.drop k)[(i - 8 * k) / 8]? = some (skipByte bit) := by
      have hlt : (i - 8 * k) / 8 < n := by omega
      have htake := congrArg (fun l => l[(i - 8 * k) / 8]?) hn
      simpa only [List.getElem?_take, hlt, if_true, List.getElem?_replicate] using htake
    have hskip := bitAt_skip hget
    rwa [bitAt_drop, show 8 * k + (i - 8 * k) = i by omega] at hskip

theorem bitposHead_spec (addr : Nat) (h : Skipped bit p pos q) :
    Skipped bit p (bitposHead (skipByte bit) addr q pos).1 (bitposHead (skipByte bit) addr q pos).2 := by
  induction q generalizing addr pos with
  | nil => exact h
  | cons c q ih =>
    unfold bitposHead
    split
    · next hc =>
      have hone := h.drop (n := 1) (by rw [List.take_succ_cons, List.take_zero, hc.2]; rfl)
      exact ih (addr + 1) (by simpa using hone)
    · exact h

theorem leNat_injective {a b : Bytes} (hlen : a.length = b.length) (h : leNat a = leNat b) : a = b := by
  induction a generalizing b with
  | nil => exact (List.length_eq_zero_iff.mp hlen.symm).symm
  | cons x a ih =>
    obtain ⟨y, b, rfl⟩ := List.exists_cons_of_length_pos (show 0 < b.length by rw [← hlen]; exact Nat.succ_pos _)
    have hx := x.toNat_lt
    have hy := y.toNat_lt
    simp only [leNat] at h
    rw [ih (by simpa using hlen) (show leNat a = leNat b by omega),
      UInt8.toNat_inj.mp (show x.toNat = y.toNat by omega)]

/-- The word of bytes that are skipped. -/
def skipWord (bit : Bool) : Nat := if bit then 0 else 18446744073709551615

theorem skipWord_iff (hq : 8 ≤ q.length) :
    leNat (q.take 8) = skipWord bit ↔ q.take 8 = List.replicate 8 (skipByte bit) := by
  have hword : skipWord bit = leNat (List.replicate 8 (skipByte bit)) := by cases bit <;> decide
  rw [hword]
  exact ⟨leNat_injective (by rw [List.length_take, List.length_replicate]; omega), fun h => by rw [h]⟩

theorem bitposWords_spec (fuel : Nat) (hfuel : q.length ≤ fuel) (h : Skipped bit p pos q) :
    Skipped bit p (bitposWords (skipWord bit) fuel q pos).1 (bitposWords (skipWord bit) fuel q pos).2 ∧
      ¬ (8 ≤ (bitposWords (skipWord bit) fuel q pos).2.length ∧
        (bitposWords (skipWord bit) fuel q pos).2.take 8 = List.replicate 8 (skipByte bit)) := by
  induction fuel generalizing q pos with
  | zero => exact ⟨h, fun hq => by have := hq.1; simp only [bitposWords] at this; omega⟩
  | succ fuel ih =>
    unfold bitposWords
    by_cases hq : 8 ≤ q.length ∧ leNat (q.take 8) = skipWord bit
    · rw [if_pos hq]
      exact ih (by rw [List.length_drop]; omega) (h.drop ((skipWord_iff hq.1).mp hq.2))
    · rw [if_neg hq]
      exact ⟨h, fun hq' => hq ⟨hq'.1, (skipWord_iff hq'.1).mpr hq'.2⟩⟩

end Skip

/-! ### The last word -/

section Word

variable {bit : Bool} {p q : Bytes} {word : BitVec 64}

/-- The first byte is the highest, and zeros follow. -/
theorem getLsbD_loadWord (j : Nat) (q : Bytes) (word : BitVec 64) {i : Nat} (hi : i < 64) :
    (loadWord j q word).getLsbD i = if i < 8 * j then bitAt q (8 * j - 1 - i) else word.getLsbD (i - 8 * j) := by
  induction j generalizing q word with
  | zero => rw [loadWord, if_neg (by omega), Nat.mul_zero, Nat.sub_zero]
  | succ j ih =>
    cases q with
    | nil =>
      have hnil : ∀ k, bitAt [] k = false := fun k => by simp [bitAt]
      rw [loadWord, ih, hnil, hnil, BitVec.getLsbD_shiftLeft]
      by_cases h₁ : i < 8 * j
      · rw [if_pos h₁, if_pos (by omega)]
      · by_cases h₂ : i < 8 * (j + 1)
        · simp [h₁, h₂, show i - 8 * j < 8 by omega]
        · rw [if_neg h₁, if_neg h₂, show i - 8 * j - 8 = i - 8 * (j + 1) by omega]
          simp [show i - 8 * j < 64 by omega, show ¬ i - 8 * j < 8 by omega]
    | cons c q =>
      rw [loadWord, ih, BitVec.getLsbD_or, BitVec.getLsbD_shiftLeft, BitVec.getLsbD_setWidth]
      by_cases h₁ : i < 8 * j
      · rw [if_pos h₁, if_pos (by omega), bitAt_cons, if_neg (by omega)]
        congr 1
        omega
      · by_cases h₂ : i < 8 * (j + 1)
        · rw [if_neg h₁, if_pos h₂, bitAt_cons, if_pos (by omega), show 7 - (8 * (j + 1) - 1 - i) = i - 8 * j by omega]
          simp [show i - 8 * j < 64 by omega, show i - 8 * j < 8 by omega]
        · rw [if_neg h₁, if_neg h₂, show i - 8 * j - 8 = i - 8 * (j + 1) by omega,
            BitVec.getLsbD_of_ge c.toBitVec _ (by omega)]
          simp [show i - 8 * j < 64 by omega, show ¬ i - 8 * j < 8 by omega]

theorem twoPow_shift {k : Nat} (hk : k < 64) (hpos : 0 < k) : BitVec.twoPow 64 k >>> 1 = BitVec.twoPow 64 (k - 1) := by
  ext i hi
  simp only [BitVec.getElem_ushiftRight, BitVec.getLsbD_twoPow, BitVec.getElem_twoPow]
  rw [Bool.eq_iff_iff]
  simp
  omega

/-- The scan stops at the first bit, from the highest one down. -/
theorem scanWord_spec {t₀ : Nat} (ht₀ : t₀ < 64) (hbit : word.getLsbD (63 - t₀) = bit) {t fuel : Nat} (hle : t ≤ t₀)
    (hfuel : t₀ - t < fuel) (hbefore : ∀ u, t ≤ u → u < t₀ → word.getLsbD (63 - u) ≠ bit) (pos : Int) :
    scanWord word bit fuel (BitVec.twoPow 64 (63 - t)) (pos + t) = some (pos + t₀) := by
  induction fuel generalizing t with
  | zero => omega
  | succ fuel ih =>
    have hone : BitVec.twoPow 64 (63 - t) ≠ 0#64 := by
      intro h
      have hget := congrArg (fun x => x.getLsbD (63 - t)) h
      simp [show 63 - t < 64 by omega] at hget
    have htest : decide (BitVec.twoPow 64 (63 - t) &&& word ≠ 0#64) = word.getLsbD (63 - t) := by
      rw [BitVec.twoPow_and]
      cases hget : word.getLsbD (63 - t) with
      | true => simpa using hone
      | false => simp
    unfold scanWord
    rw [if_neg hone, htest]
    rcases Nat.eq_or_lt_of_le hle with rfl | hlt
    · rw [if_pos hbit]
    · rw [if_neg (hbefore t le_rfl hlt), twoPow_shift (by omega) (by omega), show 63 - t - 1 = 63 - (t + 1) by omega]
      have hnext := ih (t := t + 1) (by omega) (by omega) (fun u hu => hbefore u (by omega))
      rw [← hnext]
      congr 1
      push_cast
      ring

/-- A word of the other bits is eight bytes that are skipped. -/
theorem take_skip (hq : 8 ≤ q.length) (h : ∀ i < 64, bitAt q i ≠ bit) : q.take 8 = List.replicate 8 (skipByte bit) := by
  refine List.eq_replicate_iff.mpr ⟨by rw [List.length_take]; omega, fun b hb => ?_⟩
  obtain ⟨j, hj, rfl⟩ := List.getElem_of_mem hb
  rw [List.length_take] at hj
  rw [List.getElem_take]
  have hskip : ∀ k : Fin 8, (skipByte bit).toBitVec.getLsbD k.val ≠ bit := by cases bit <;> decide
  apply UInt8.toBitVec_inj.mp
  apply BitVec.eq_of_getLsbD_eq
  intro k hk
  have hbit := h (8 * j + (7 - k)) (by omega)
  unfold bitAt at hbit
  rw [show (8 * j + (7 - k)) / 8 = j by omega, show 7 - (8 * j + (7 - k)) % 8 = k by omega,
    List.getD_eq_getElem _ _ (by omega)] at hbit
  rw [Bool.eq_not.mpr hbit, Bool.eq_not.mpr (hskip ⟨k, hk⟩)]

theorem bitAt_beyond {i : Nat} (h : 8 * p.length ≤ i) : bitAt p i = false := by
  unfold bitAt
  rw [List.getD_eq_default _ _ (by omega)]
  simp

/-- **`redisBitpos`** finds the first bit of its kind in the string with zeros behind it, wherever the string is. -/
theorem redisBitpos_spec (addr : Nat) (p : Bytes) (bit : Bool) :
    ∃ r, redisBitpos addr p bit = some r ∧
      ((∃ i : Nat, r = i ∧ bitAt p i = bit ∧ ∀ j < i, bitAt p j ≠ bit) ∨ (r = -1 ∧ bit = true ∧ ∀ i, bitAt p i ≠ bit)) := by
  have hhead := bitposHead_spec addr (⟨0, rfl, rfl, fun i hi => by omega⟩ : Skipped bit p 0 p)
  obtain ⟨hskip, hstop⟩ := bitposWords_spec _ le_rfl hhead
  set head := bitposHead (skipByte bit) addr p 0
  set words := bitposWords (skipWord bit) head.2.length head.2 head.1
  obtain ⟨k, hpos, hdrop, hbits⟩ := hskip
  have hword : ∀ t < 64, (loadWord 8 words.2 0#64).getLsbD (63 - t) = bitAt p (8 * k + t) := by
    intro t ht
    rw [getLsbD_loadWord 8 words.2 0#64 (by omega), if_pos (by omega), hdrop, bitAt_drop, show 8 * 8 - 1 - (63 - t) = t by omega]
  have hrun : redisBitpos addr p bit = if bit = true ∧ loadWord 8 words.2 0#64 = 0#64 then some (-1)
      else scanWord (loadWord 8 words.2 0#64) bit 65 (BitVec.twoPow 64 63) words.1 := rfl
  rw [hrun]
  by_cases hfound : ∃ t, t < 64 ∧ bitAt p (8 * k + t) = bit
  · classical
    obtain ⟨ht₀, hbit⟩ := Nat.find_spec hfound
    have hbefore : ∀ u, 0 ≤ u → u < Nat.find hfound → (loadWord 8 words.2 0#64).getLsbD (63 - u) ≠ bit := by
      intro u _ hu h
      rw [hword u (by omega)] at h
      exact Nat.find_min hfound hu ⟨by omega, h⟩
    rw [if_neg, hpos]
    · have hscan := scanWord_spec ht₀ ((hword _ ht₀).trans hbit) (Nat.zero_le _) (show Nat.find hfound - 0 < 65 by omega)
        hbefore (8 * k)
      refine ⟨_, by simpa using hscan, Or.inl ⟨8 * k + Nat.find hfound, by push_cast; ring, hbit, fun j hj => ?_⟩⟩
      by_cases hjk : j < 8 * k
      · exact hbits j hjk
      · have hmin := hbefore (j - 8 * k) (Nat.zero_le _) (by omega)
        rwa [hword _ (by omega), show 8 * k + (j - 8 * k) = j by omega] at hmin
    · rintro ⟨rfl, hzero⟩
      rw [← hword _ ht₀, hzero] at hbit
      simp at hbit
  · -- no bit of the word is found: then the word is the last, and filled up with zeros
    have hnone : ∀ t < 64, bitAt p (8 * k + t) ≠ bit := fun t ht h => hfound ⟨t, ht, h⟩
    have hshort : words.2.length < 8 := by
      by_contra hlong
      exact hstop ⟨by omega, take_skip (by omega) (fun i hi => by rw [hdrop, bitAt_drop]; exact hnone i hi)⟩
    rw [hdrop, List.length_drop] at hshort
    cases bit with
    | false => exact absurd (bitAt_beyond (by omega)) (hnone (8 * (p.length - k)) (by omega))
    | true =>
      have hzero : loadWord 8 words.2 0#64 = 0#64 := by
        apply BitVec.eq_of_getLsbD_eq
        intro i hi
        rw [show i = 63 - (63 - i) by omega, hword _ (by omega), Bool.eq_false_of_not_eq_true (hnone _ (by omega))]
        simp
      rw [if_pos ⟨rfl, hzero⟩]
      refine ⟨-1, rfl, Or.inr ⟨rfl, rfl, fun i => ?_⟩⟩
      by_cases hi : i < 8 * k
      · exact hbits i hi
      · by_cases hi' : i < 8 * k + 64
        · have h := hnone (i - 8 * k) (by omega)
          rwa [show 8 * k + (i - 8 * k) = i by omega] at h
        · rw [bitAt_beyond (by omega)]
          exact Bool.false_ne_true

end Word

/-! ### The command -/

/-- The first position of the range with the bit, or `none` if there is no such position. -/
def PosReplies (s : Bytes) (bit : Bool) (r : Int × Int) (missing reply : Int) : Prop :=
  (∃ i : Nat, reply = i ∧ 8 * r.1 ≤ i ∧ (i : Int) < 8 * (r.2 + 1) ∧ bitAt s i = bit ∧
      ∀ j : Nat, 8 * r.1 ≤ j → j < i → bitAt s j ≠ bit) ∨
    ((∀ j : Nat, 8 * r.1 ≤ j → (j : Int) < 8 * (r.2 + 1) → bitAt s j ≠ bit) ∧ reply = missing)

section Command

variable {bit : Bool} {p : Bytes} {start fin : Int}

theorem bitAt_slice {i : Nat} (hi : (i : Int) < 8 * (fin - start + 1)) :
    bitAt (slice p start fin) i = bitAt p (8 * start.toNat + i) := by
  rw [← bitAt_drop]
  unfold slice bitAt
  simp only [List.getD_eq_getElem?_getD, List.getElem?_take, if_pos (show i / 8 < (fin - start + 1).toNat by omega)]

/-- What is searched, once the range lies in the string. -/
theorem bitposRange_spec (addr : Nat) (bit endGiven : Bool) (hstart : 0 ≤ start) (hfin : fin < p.length)
    (hend : endGiven = false → fin = (p.length : Int) - 1) :
    ∃ r, bitposRange addr p bit endGiven start fin = some (.longLong r) ∧
      PosReplies p bit (start, fin) (if bit = false ∧ endGiven = false ∧ start ≤ fin then 8 * p.length else -1) r := by
  unfold bitposRange
  by_cases hgt : start > fin
  · rw [if_pos hgt]
    refine ⟨-1, rfl, Or.inr ⟨fun j hlo hhi => ?_, ?_⟩⟩
    · simp only at hlo hhi
      omega
    · rw [if_neg (fun h => absurd h.2.2 (by omega))]
  · rw [if_neg hgt]
    have hlen : ((slice p start fin).length : Int) = fin - start + 1 := by
      unfold slice
      rw [List.length_take, List.length_drop]
      omega
    obtain ⟨r, hrun, hr⟩ := redisBitpos_spec (addr + start.toNat) (slice p start fin) bit
    rw [hrun]
    simp only [Option.map_some]
    have hbits : ∀ j : Nat, 8 * start ≤ j → (j : Int) < 8 * (fin + 1) →
        bitAt p j = bitAt (slice p start fin) (j - 8 * start.toNat) := by
      intro j hlo hhi
      rw [bitAt_slice (by omega), show 8 * start.toNat + (j - 8 * start.toNat) = j by omega]
    rcases hr with ⟨i, rfl, hbit, hbefore⟩ | ⟨rfl, rfl, hnone⟩
    · by_cases hin : (i : Int) < 8 * (fin - start + 1)
      · rw [if_neg (fun h => by omega), if_pos (by omega)]
        refine ⟨_, rfl, Or.inl ⟨8 * start.toNat + i, ?_, ?_, ?_, ?_, fun j hlo hlt => ?_⟩⟩
        · push_cast
          rw [Int.toNat_of_nonneg hstart]
          ring
        · simp only
          omega
        · simp only
          omega
        · rw [← bitAt_slice hin]
          exact hbit
        · simp only at hlo
          rw [hbits j hlo (by omega)]
          exact hbefore _ (by omega)
      · -- the zero behind the range
        have hfalse : bit = false := by rw [← hbit, bitAt_beyond (by omega)]
        subst hfalse
        have hi : (i : Int) = 8 * (fin - start + 1) := by
          by_contra hne
          refine hbefore (8 * (slice p start fin).length) (by omega) ?_
          rw [bitAt_beyond le_rfl]
        have hnone : ∀ j : Nat, 8 * start ≤ j → (j : Int) < 8 * (fin + 1) → bitAt p j ≠ false := by
          intro j hlo hhi
          rw [hbits j hlo hhi]
          exact hbefore _ (by omega)
        cases endGiven with
        | true =>
          rw [if_pos ⟨rfl, rfl, by omega⟩, if_neg (fun h => Bool.false_ne_true h.2.1.symm)]
          exact ⟨-1, rfl, Or.inr ⟨hnone, rfl⟩⟩
        | false =>
          have hlast := hend rfl
          rw [if_neg (fun h => Bool.false_ne_true h.1), if_pos (by omega), if_pos ⟨rfl, rfl, by omega⟩]
          exact ⟨_, rfl, Or.inr ⟨hnone, by omega⟩⟩
    · rw [if_neg (fun h => Bool.false_ne_true h.2.1.symm), if_neg (fun h => h rfl),
        if_neg (fun h => Bool.false_ne_true h.1.symm)]
      refine ⟨-1, rfl, Or.inr ⟨fun j hlo hhi => ?_, rfl⟩⟩
      rw [hbits j hlo hhi]
      exact hnone _

/-- The range lies in the string, and reaches its end if none is given. -/
theorem clip_bounds (n : Nat) (start fin : Int) :
    0 ≤ (clip n start fin).1 ∧ (clip n start fin).2 < n ∧ clip n start ((n : Int) - 1) = clip n start (-1) ∧
      (clip n start (-1)).2 = (n : Int) - 1 := by
  unfold clip
  refine ⟨?_, ?_, ?_, ?_⟩
  · simp only
    split_ifs <;> omega
  · simp only
    split_ifs <;> omega
  · simp only [Prod.mk.injEq, true_and]
    split_ifs <;> omega
  · simp only
    split_ifs <;> omega

theorem bitposCommand_eq (addr : Nat) {o : Robj} (ho : o ≠ .other) {argv : List Bytes}
    (hbit : string2ll (argv.getD 2 []) = some (bit.toNat : Int)) :
    bitposCommand addr (some o) argv = bitposArgs addr (getObjectReadOnlyString o) bit argv := by
  unfold bitposCommand
  rw [getLongFromObjectOrReply, hbit]
  have hone : decide (((bit.toNat : Nat) : Int) = 1) = bit := by cases bit <;> rfl
  have hrange : ¬ (((bit.toNat : Nat) : Int) ≠ 0 ∧ ((bit.toNat : Nat) : Int) ≠ 1) := by cases bit <;> decide
  simp only
  rw [if_neg hrange, hone]

/-- The range by the number of arguments. -/
theorem bitposArgs_spec (addr : Nat) (s : Bytes) (bit : Bool) (cmd key bitarg : Bytes) {rest : List Bytes} {args : List Int}
    (hargs : rest.map string2ll = args.map some) (hlen : rest.length ≤ 2) :
    let r := clip s.length (args.getD 0 0) (args.getD 1 (-1))
    ∃ reply, bitposArgs addr s bit (cmd :: key :: bitarg :: rest) = some (.longLong reply) ∧
      PosReplies s bit r (if bit = false ∧ args.length < 2 ∧ r.1 ≤ r.2 then 8 * s.length else -1) reply := by
  have hnum : ∀ (a : Bytes) (n : Int), string2ll a = some n → getLongFromObjectOrReply a none = .ok n := by
    intro a n h
    rw [getLongFromObjectOrReply, h]
  -- the end is either given or the end of the string
  have hfound : ∀ (endGiven : Bool) (start fin : Int), (endGiven = false → fin = -1) →
      ∃ reply, bitposRange addr s bit endGiven (clip s.length start fin).1 (clip s.length start fin).2
          = some (.longLong reply) ∧
        PosReplies s bit (clip s.length start fin) (if bit = false ∧ endGiven = false ∧
          (clip s.length start fin).1 ≤ (clip s.length start fin).2 then 8 * s.length else -1) reply := by
    intro endGiven start fin hend
    obtain ⟨hlo, hhi, -, hlast⟩ := clip_bounds s.length start fin
    exact bitposRange_spec addr bit endGiven hlo hhi (fun h => by rw [hend h]; exact (clip_bounds s.length start (-1)).2.2.2)
  intro r
  cases rest with
  | nil =>
    obtain rfl : args = [] := List.map_eq_nil_iff.mp hargs.symm
    obtain ⟨reply, hrun, hreply⟩ := hfound false 0 (-1) (fun _ => rfl)
    have hwhole : bitposArgs addr s bit [cmd, key, bitarg] = bitposRange addr s bit false 0 ((s.length : Int) - 1) := rfl
    have hclip : clip s.length 0 (-1) = (0, (s.length : Int) - 1) := by
      rw [Prod.ext_iff]
      exact ⟨rfl, (clip_bounds s.length 0 0).2.2.2⟩
    rw [hclip] at hrun
    exact ⟨reply, hwhole.trans hrun, by simpa [r] using hreply⟩
  | cons a rest =>
    cases args with
    | nil => cases hargs
    | cons start args =>
      obtain ⟨hstart, hargs⟩ := List.cons.inj hargs
      cases rest with
      | nil =>
        obtain rfl : args = [] := List.map_eq_nil_iff.mp hargs.symm
        obtain ⟨reply, hrun, hreply⟩ := hfound false start (-1) (fun _ => rfl)
        refine ⟨reply, ?_, by simpa [r] using hreply⟩
        rw [← (clip_bounds s.length start 0).2.2.1] at hrun
        simpa [bitposArgs, hnum a start hstart] using hrun
      | cons b rest =>
        cases args with
        | nil => cases hargs
        | cons fin args =>
          obtain ⟨hfin, hargs⟩ := List.cons.inj hargs
          obtain rfl : rest = [] := List.length_eq_zero_iff.mp (by simp only [List.length_cons] at hlen; omega)
          obtain rfl : args = [] := List.map_eq_nil_iff.mp hargs.symm
          obtain ⟨reply, hrun, hreply⟩ := hfound true start fin (fun h => absurd h (by decide))
          refine ⟨reply, ?_, by simpa [r] using hreply⟩
          simpa [bitposArgs, hnum a start hstart, hnum b fin hfin] using hrun

/-- **`BITPOS` and `BITCOUNT`.**  The first bit in the range; if there is none, the position behind the string if a
    zero is searched in a range without an end that is not empty, and `-1` otherwise.  The ones in what `GETRANGE`
    returns. -/
theorem bitpos_bitcount (addr : Nat) {o : Robj} (ho : o ≠ .other) :
    (∀ (cmd key bitarg : Bytes) (rest : List Bytes) (bit : Bool) (args : List Int),
      string2ll bitarg = some (bit.toNat : Int) → rest.map string2ll = args.map some → rest.length ≤ 2 →
        let s := getObjectReadOnlyString o
        let r := clip s.length (args.getD 0 0) (args.getD 1 (-1))
        ∃ reply, bitposCommand addr (some o) (cmd :: key :: bitarg :: rest) = some (.longLong reply) ∧
          PosReplies s bit r (if bit = false ∧ args.length < 2 ∧ r.1 ≤ r.2 then 8 * s.length else -1) reply) ∧
    ∀ (argv : List Bytes) (start fin : Int), argv.length = 4 → string2ll (argv.getD 2 []) = some start →
      string2ll (argv.getD 3 []) = some fin →
        ∃ bytes, getrangeCommand (some o) argv = .ok bytes ∧
          bitcountCommand addr (some o) argv = .longLong (ones bytes) := by
  refine ⟨fun cmd key bitarg rest bit args hbit hargs hlen => ?_,
    fun argv start fin hargc hstart hfin => bitcount_eq_ones addr ho hargc hstart hfin⟩
  rw [bitposCommand_eq addr ho (show string2ll ((cmd :: key :: bitarg :: rest).getD 2 []) = some (bit.toNat : Int) from hbit)]
  exact bitposArgs_spec addr _ bit cmd key bitarg hargs hlen

/-- `BITPOS` and `BITCOUNT` of the bytes `255 254`. -/
theorem bitpos_bitcount_two :
    (∃ reply, bitposCommand 1 (some (.sds [255, 254])) [[], [], [48]] = some (.longLong reply) ∧
      PosReplies [255, 254] false (0, 1) 16 reply) ∧
    ∃ bytes, getrangeCommand (some (.sds [255, 254])) [[], [], [48], [45, 49]] = .ok bytes ∧
      bitcountCommand 1 (some (.sds [255, 254])) [[], [], [48], [45, 49]] = .longLong (ones bytes) := by
  obtain ⟨hpos, hcount⟩ := bitpos_bitcount 1 (show Robj.sds [255, 254] ≠ .other from fun h => by cases h)
  exact ⟨hpos [] [] [48] [] false [] (by rfl) rfl (by decide),
    hcount [[], [], [48], [45, 49]] 0 (-1) rfl (by rfl) (by rfl)⟩

/-- `BITPOS` of a zero in the empty string replies `-1` and not the position behind the string. -/
theorem bitpos_empty :
    bitposCommand 0 (some (.sds [])) [[], [], [48]] = some (.longLong (-1)) ∧
      ¬ PosReplies [] false (clip 0 0 (-1)) (if false = false ∧ 0 < 2 then 8 * 0 else -1) (-1) := by
  refine ⟨by rfl, ?_⟩
  rintro (⟨i, hi, -⟩ | ⟨-, h⟩)
  · omega
  · exact absurd h (by decide)

end Command

end Redis.Bitops
