import Redis.Canonical
import Redis.Ziplist.Length

namespace Redis

open Buffer Outcome

/-!
# Looking up entries

The functions that only read a ziplist, on every well-formed block: whatever encoding an
integer has been stored with, its entry stands for the text of the integer.

* `ziplistCompare`, `ziplistFind` — an entry against a string, and the first entry that is
  equal to one, with entries left out in between;
* `Decodes` — a block with the entries at these offsets and these texts;
* `ll2string_eq_iff` — equal texts and equal numbers;
* `strideFind` — the search on lists;
* `ziplist_lookup` — the readers agree with the texts.
-/

/-! ### The model of the readers -/

/-- `ziplistCompare`. -/
def ziplistCompare (zl : Bytes) (p : Nat) (sstr : Bytes) : Except ZipFault Bool := do
  if (← readByte zl p) = ZIP_END then
    return false
  let entry ← zipEntry zl p
  if zipIsStr entry.encoding then
    -- raw compare
    if entry.len = sstr.length then
      let bs ← zipCheck (slice? zl (p + entry.headersize) entry.len)
      return bs = sstr
    else
      return false
  else
    -- the encodings are not compared
    match zipTryEncoding sstr with
    | some (sval, _) => do
        let zval ← zipLoadInteger zl (p + entry.headersize) entry.encoding
        return zval = sval
    | none => return false

/-- `vencoding` and `vll` of `ziplistFind`. -/
structure FindEncoding where
  vencoding : UInt8
  vll : Int

/-- `UCHAR_MAX`. -/
def UCHAR_MAX : UInt8 := 255

/-- "Find out if the searched field can be encoded", the first time only. -/
def findEncode (vstr : Bytes) (v : FindEncoding) : FindEncoding :=
  if v.vencoding = 0 then
    match zipTryEncoding vstr with
    | some (vll, vencoding) => ⟨vencoding, vll⟩
    | none => { v with vencoding := UCHAR_MAX }
  else v

/-- "Compare current entry with specified entry", whose data is at `q`. -/
def findCompare (zl vstr : Bytes) (q : Nat) (encoding : UInt8) (len : Nat) (v : FindEncoding) :
    Except ZipFault (Bool × FindEncoding) :=
  if zipIsStr encoding then
    if len = vstr.length then do
      let bs ← zipCheck (slice? zl q len)
      return (bs = vstr, v)
    else return (false, v)
  else
    let v := findEncode vstr v
    -- must be non-zero by now
    if v.vencoding = 0 then .error .assertion
    else if v.vencoding ≠ UCHAR_MAX then do
      let ll ← zipLoadInteger zl q encoding
      return (ll = v.vll, v)
    else return (false, v)

/-- The loop of `ziplistFind`.  `skipcnt` is only compared with 0 and counted down. -/
def ziplistFindLoop (zl vstr : Bytes) (skip : Nat) :
    Nat → Nat → Nat → FindEncoding → Except ZipFault (Option Nat)
  | 0, _, _, _ => .error .fuel
  | fuel + 1, p, skipcnt, v => do
      if (← readByte zl p) = ZIP_END then
        return none
      let prevlensize ← zipDecodePrevlensize zl p
      let (encoding, lensize, len) ← zipDecodeLength zl (p + prevlensize)
      let q := p + prevlensize + lensize
      if skipcnt = 0 then
        let (found, v) ← findCompare zl vstr q encoding len v
        if found then return some p else ziplistFindLoop zl vstr skip fuel (q + len) skip v
      else
        ziplistFindLoop zl vstr skip fuel (q + len) (skipcnt - 1) v

/-- `ziplistFind`: `none` is `NULL`. -/
def ziplistFind (zl : Bytes) (p : Nat) (vstr : Bytes) (skip : Nat) : Except ZipFault (Option Nat) :=
  ziplistFindLoop zl vstr skip zl.length p 0 ⟨0, 0⟩

/-! ### Numbers and their texts -/

theorem leNat_lt (bs : Bytes) : leNat bs < 256 ^ bs.length := by
  induction bs with
  | nil => decide
  | cons b bs ih =>
    have hb := b.toNat_lt
    rw [leNat, List.length_cons, pow_succ]
    omega

theorem bytesInt_range {bs : Bytes} (h : bs.length ≤ 8) : -2 ^ 63 ≤ bytesInt bs ∧ bytesInt bs < 2 ^ 63 := by
  have hlt := leNat_lt bs
  have hpow : (256 : Nat) ^ bs.length ≤ 256 ^ 8 := Nat.pow_le_pow_right (by decide) h
  rw [bytesInt]
  split
  · omega
  · have hcast : ((256 ^ bs.length : Nat) : Int) = 256 ^ bs.length := by push_cast; rfl
    omega

theorem length_of_slice? {zl bs : Bytes} {p n : Nat} (h : slice? zl p n = some bs) : bs.length = n := by
  rw [slice?] at h
  split at h
  · obtain rfl := Option.some.inj h
    rw [List.length_take, List.length_drop]
    omega
  · cases h

theorem zipCheck_eq_ok {α : Type} {o : Option α} {a : α} : zipCheck o = .ok a ↔ o = some a := by
  cases o <;> simp [zipCheck]

/-- Every stored integer has 64 bits. -/
theorem zipLoadInteger_range {zl : Bytes} {p : Nat} {encoding : UInt8} {v : Int}
    (h : zipLoadInteger zl p encoding = .ok v) : -2 ^ 63 ≤ v ∧ v < 2 ^ 63 := by
  have hbytes : ∀ {n : Nat}, n ≤ 8 →
      (do return bytesInt (← zipCheck (slice? zl p n)) : Except ZipFault Int) = .ok v →
      -2 ^ 63 ≤ v ∧ v < 2 ^ 63 := by
    intro n hn h
    obtain ⟨bs, hbs, h⟩ := bind_eq_ok.mp h
    obtain rfl := Except.ok.inj h
    exact bytesInt_range (by rw [length_of_slice? (zipCheck_eq_ok.mp hbs)]; exact hn)
  rw [zipLoadInteger] at h
  split_ifs at h
  · exact hbytes (by decide) h
  · exact hbytes (by decide) h
  · exact hbytes (by decide) h
  · obtain ⟨bs, hbs, h⟩ := bind_eq_ok.mp h
    obtain rfl := Except.ok.inj h
    have hrange := @bytesInt_range (0 :: bs)
      (by rw [List.length_cons, length_of_slice? (zipCheck_eq_ok.mp hbs)]; decide)
    omega
  · exact hbytes (by decide) h
  · obtain rfl := Except.ok.inj h
    have hlt := (encoding &&& ZIP_INT_IMM_MASK).toNat_lt
    omega

/-- A string is the text of a number exactly if it can be encoded as that number. -/
theorem ll2string_eq_iff {s : Bytes} {v : Int} (hlo : -2 ^ 63 ≤ v) (hhi : v < 2 ^ 63) :
    ll2string 32 v = s ↔ (zipTryEncoding s).map Prod.fst = some v := by
  constructor
  · rintro rfl
    have hread := string2ll_ll2string hlo hhi
    have hle := length_formatLd_le hlo hhi
    have hpos := length_decimal_pos v.natAbs
    have htext : ll2string 32 v = formatLd v := ll2string_eq hlo hhi
    have hlen : 0 < (formatLd v).length := by
      rw [formatLd, List.length_append]
      omega
    rw [zipTryEncoding, if_neg (by rw [htext]; omega), hread]
    simp only
    split_ifs <;> rfl
  · intro h
    obtain ⟨⟨v, encoding⟩, hcode, rfl⟩ := Option.map_eq_some_iff.mp h
    exact ll2string_string2ll (zipTryEncoding_spec hcode).1

/-- `vencoding` tells the three cases apart. -/
theorem zipTryEncoding_ne {s : Bytes} {v : Int} {encoding : UInt8}
    (h : zipTryEncoding s = some (v, encoding)) : encoding ≠ 0 ∧ encoding ≠ UCHAR_MAX := by
  obtain ⟨-, henc⟩ := zipTryEncoding_spec h
  constructor
  · rintro rfl
    exact henc.ge_mask (by decide)
  · rintro rfl
    have hsave := henc.save
    rw [show zipSaveInteger v UCHAR_MAX = .error .assertion from rfl] at hsave
    cases hsave

/-! ### Well-formed blocks -/

/-- The entry at `p` has the text `s`. -/
def Text (zl : Bytes) (p : Nat) (s : Bytes) : Prop :=
  ∃ v, ziplistGet zl p = .ok (some v) ∧ zipValueString v = s

/-- A well-formed block whose entries are at `offsets` and have the texts `vs`, in whatever
    encodings. -/
structure Decodes (zl : Bytes) (offsets : List Nat) (vs : List Bytes) : Prop where
  bytes : ziplistBytes zl = .ok zl.length
  tiles : ZipTiles zl ZIPLIST_HEADER_SIZE 0 offsets
  tail : ziplistTailOffset zl = .ok (offsets.getLast?.getD (zl.length - 1))
  counts : Counts zl vs.length
  texts : List.Forall₂ (Text zl) offsets vs

section Tiles

variable {zl : Bytes} {p q prev : Nat} {z : ZlEntry} {offsets : List Nat}

theorem At.count {k fuel : Nat} (h : At zl offsets k q prev) (len : Nat) (hk : k ≤ offsets.length)
    (hfuel : offsets.length - k < fuel) : ziplistCount zl fuel q len = .ok (len + (offsets.length - k)) := by
  induction fuel generalizing k q prev len with
  | zero => omega
  | succ fuel ih =>
    obtain ⟨b, hb, hend⟩ := h.readByte
    rw [ziplistCount, hb, ok_bind]
    by_cases hlt : k < offsets.length
    · obtain ⟨-, b', z, -, -, hz, -, hnext⟩ := h.next hlt
      rw [if_neg (by rw [hend]; omega), zipRawEntryLength_eq hz, ok_bind, ih hnext (len + 1) hlt (by omega)]
      congr 1
      omega
    · rw [if_pos (by rw [hend]; omega), show offsets.length - k = 0 by omega]
      rfl

variable {vs : List Bytes} {s : Bytes}

theorem Decodes.length_eq (h : Decodes zl offsets vs) : offsets.length = vs.length :=
  h.texts.length_eq

theorem Decodes.tiled (h : Decodes zl offsets vs) : Tiled zl offsets := ⟨h.tiles, h.tail⟩

theorem Decodes.len (h : Decodes zl offsets vs) :
    ∃ zl', ziplistLen zl = .ok (vs.length, zl') := by
  have hlen := h.length_eq
  have hlt := h.tiles.lt
  obtain ⟨L, hL, hcount⟩ := h.counts
  obtain ⟨q, prev, hat⟩ := h.tiles.exists_at (Nat.zero_le offsets.length)
  have hwalk := hat.count 0 (Nat.zero_le _) (show offsets.length - 0 < zl.length by omega)
  rw [(hat.first rfl).1, Nat.zero_add, Nat.sub_zero, hlen] at hwalk
  rw [ziplistLen, hL, ok_bind]
  by_cases hsmall : L < UINT16_MAX
  · rw [if_pos hsmall, hcount.resolve_right hsmall.ne]
    exact ⟨_, rfl⟩
  · rw [if_neg hsmall, hwalk, ok_bind]
    split
    · have hheader : ZIPLIST_HEADER_SIZE < zl.length := by omega
      rw [ZIPLIST_HEADER_SIZE] at hheader
      rw [writeBytes, overwrite?, if_pos (by rw [length_leBytes]; omega)]
      exact ⟨_, rfl⟩
    · exact ⟨_, rfl⟩

/-! ### Comparing -/

/-- The data of an entry with a text: the bytes themselves, or the number. -/
theorem Text.cases {b : UInt8} (h : Text zl q s) (hb : readByte zl q = .ok b) (hne : b ≠ ZIP_END)
    (hz : zipEntry zl q = .ok z) :
    (zipIsStr z.encoding = true ∧ zipCheck (slice? zl (q + z.headersize) z.len) = .ok s ∧ s.length = z.len) ∨
    (zipIsStr z.encoding = false ∧ ∃ v, zipLoadInteger zl (q + z.headersize) z.encoding = .ok v ∧
      ∀ t, s = t ↔ (zipTryEncoding t).map Prod.fst = some v) := by
  obtain ⟨v, hget, hv⟩ := h
  rw [ziplistGet, hb, ok_bind, if_neg hne, hz, ok_bind] at hget
  by_cases hstr : zipIsStr z.encoding = true
  · rw [if_pos hstr] at hget
    obtain ⟨bs, hbs, hget⟩ := bind_eq_ok.mp hget
    obtain rfl := Option.some.inj (Except.ok.inj hget)
    obtain rfl : bs = s := hv
    exact Or.inl ⟨hstr, hbs, length_of_slice? (zipCheck_eq_ok.mp hbs)⟩
  · rw [if_neg hstr] at hget
    obtain ⟨sval, hload, hget⟩ := bind_eq_ok.mp hget
    obtain rfl := Option.some.inj (Except.ok.inj hget)
    obtain rfl : ll2string 32 sval = s := hv
    obtain ⟨hlo, hhi⟩ := zipLoadInteger_range hload
    exact Or.inr ⟨Bool.eq_false_of_not_eq_true hstr, sval, hload, fun t => ll2string_eq_iff hlo hhi⟩

theorem At.ziplistCompare {k : Nat} (h : At zl offsets k q prev) (hk : k < offsets.length) (hs : Text zl q s)
    (t : Bytes) : ziplistCompare zl q t = .ok (decide (s = t)) := by
  obtain ⟨-, b, z, hb, hne, hz, -, -⟩ := h.next hk
  rw [Redis.ziplistCompare, hb, ok_bind, if_neg hne, hz, ok_bind]
  rcases hs.cases hb hne hz with ⟨hstr, hbs, hlen⟩ | ⟨hstr, v, hload, htext⟩
  · rw [if_pos hstr]
    by_cases ht : z.len = t.length
    · rw [if_pos ht, hbs]
      rfl
    · rw [if_neg ht, decide_eq_false (by rintro rfl; exact ht hlen.symm)]
      rfl
  · rw [if_neg (by rw [hstr]; decide)]
    cases hcode : zipTryEncoding t with
    | none =>
      rw [decide_eq_false (fun hst => ?_)]
      · rfl
      · have hsome := (htext t).mp hst
        rw [hcode] at hsome
        cases hsome
    | some c =>
      simp only [hload, ok_bind]
      have hiff : v = c.1 ↔ s = t := by
        rw [htext t, hcode, Option.map_some, Option.some.injEq, eq_comm]
      exact congrArg Except.ok (decide_eq_decide.mpr hiff)

/-! ### Finding -/

/-- The search on a list of pointers and texts: `skipcnt` entries are left out first, and `skip`
    after each comparison. -/
def strideFind (s : Bytes) (skip : Nat) : Nat → List (Nat × Bytes) → Option Nat
  | _, [] => none
  | 0, e :: l => if e.2 = s then some e.1 else strideFind s skip skip l
  | skipcnt + 1, _ :: l => strideFind s skip skipcnt l

theorem strideFind_skip (s : Bytes) (skip skipcnt : Nat) (l : List (Nat × Bytes)) :
    strideFind s skip skipcnt l = strideFind s skip 0 (l.drop skipcnt) := by
  induction l generalizing skipcnt with
  | nil =>
    rw [List.drop_nil, strideFind, strideFind]
  | cons e l ih =>
    cases skipcnt with
    | zero => rfl
    | succ skipcnt => exact ih skipcnt

theorem strideFind_cons (s : Bytes) (skip : Nat) (e : Nat × Bytes) (l : List (Nat × Bytes)) :
    strideFind s skip 0 (e :: l) = if e.2 = s then some e.1 else strideFind s skip 0 (l.drop skip) := by
  rw [← strideFind_skip]
  rfl

/-- The first of every `skip + 1` entries that is equal. -/
theorem strideFind_first {skip m p : Nat} {l : List (Nat × Bytes)} (hm : l[m * (skip + 1)]? = some (p, s))
    (hfirst : ∀ m' < m, ∀ e, l[m' * (skip + 1)]? = some e → e.2 ≠ s) : strideFind s skip 0 l = some p := by
  induction m generalizing l with
  | zero =>
    rw [Nat.zero_mul, ← List.head?_eq_getElem?] at hm
    obtain ⟨l', rfl⟩ := List.head?_eq_some_iff.mp hm
    rw [strideFind_cons, if_pos rfl]
  | succ m ih =>
    have hstep : ∀ j, (j + 1) * (skip + 1) = skip + j * (skip + 1) + 1 := fun j => by ring
    cases l with
    | nil => cases hm
    | cons e l =>
      rw [strideFind_cons, if_neg (hfirst 0 (by omega) e (by rw [Nat.zero_mul]; rfl))]
      apply ih
      · rw [List.getElem?_drop, ← List.getElem?_cons_succ (a := e), ← hstep]
        exact hm
      · intro m' hm' e' he'
        apply hfirst (m' + 1) (by omega) e'
        rw [hstep, List.getElem?_cons_succ, ← List.getElem?_drop]
        exact he'

theorem strideFind_none {skip : Nat} {l : List (Nat × Bytes)} (h : ∀ m e, l[m * (skip + 1)]? = some e → e.2 ≠ s) :
    strideFind s skip 0 l = none := by
  induction hn : l.length using Nat.strongRecOn generalizing l with
  | ind n ih =>
    cases l with
    | nil => rfl
    | cons e l =>
      rw [strideFind_cons, if_neg (h 0 e (by rw [Nat.zero_mul]; rfl))]
      refine ih _ (by rw [← hn, List.length_drop, List.length_cons]; omega) (fun m e' he' => h (m + 1) e' ?_) rfl
      rw [show (m + 1) * (skip + 1) = skip + m * (skip + 1) + 1 by ring, List.getElem?_cons_succ,
        ← List.getElem?_drop]
      exact he'

/-- The search string is encoded at most once. -/
def Cached (vstr : Bytes) (v : FindEncoding) : Prop := findEncode vstr v = findEncode vstr ⟨0, 0⟩

theorem findEncode_ne (vstr : Bytes) : (findEncode vstr ⟨0, 0⟩).vencoding ≠ 0 := by
  rw [findEncode, if_pos rfl]
  cases hcode : zipTryEncoding vstr with
  | none => exact show UCHAR_MAX ≠ 0 by decide
  | some c => exact (zipTryEncoding_ne hcode).1

theorem cached_findEncode (vstr : Bytes) : Cached vstr (findEncode vstr ⟨0, 0⟩) := by
  rw [Cached, findEncode, if_neg (findEncode_ne vstr)]

theorem findCompare_eq {s vstr : Bytes} {b : UInt8} {v : FindEncoding} (hs : Text zl q s)
    (hb : readByte zl q = .ok b) (hne : b ≠ ZIP_END) (hz : zipEntry zl q = .ok z) (hv : Cached vstr v) :
    ∃ v', findCompare zl vstr (q + z.headersize) z.encoding z.len v = .ok (decide (s = vstr), v') ∧
      Cached vstr v' := by
  rw [findCompare]
  rcases hs.cases hb hne hz with ⟨hstr, hbs, hlen⟩ | ⟨hstr, n, hload, htext⟩
  · rw [if_pos hstr]
    by_cases ht : z.len = vstr.length
    · rw [if_pos ht, hbs]
      exact ⟨v, rfl, hv⟩
    · rw [if_neg ht, decide_eq_false (by rintro rfl; exact ht hlen.symm)]
      exact ⟨v, rfl, hv⟩
  · rw [if_neg (by rw [hstr]; decide)]
    refine ⟨findEncode vstr ⟨0, 0⟩, ?_, cached_findEncode vstr⟩
    simp only [show findEncode vstr v = _ from hv, if_neg (findEncode_ne vstr)]
    rw [findEncode, if_pos rfl]
    cases hcode : zipTryEncoding vstr with
    | none =>
      rw [decide_eq_false (fun hst => ?_)]
      · rfl
      · have hsome := (htext vstr).mp hst
        rw [hcode] at hsome
        cases hsome
    | some c =>
      have hval : n = c.1 ↔ s = vstr := by
        rw [htext vstr, hcode, Option.map_some, Option.some.injEq, eq_comm]
      simp only [if_pos (zipTryEncoding_ne hcode).2, hload, ok_bind]
      rw [← decide_eq_decide.mpr hval]
      rfl

theorem At.findLoop (vstr : Bytes) (skip : Nat) {fuel k : Nat} {v : FindEncoding} (skipcnt : Nat)
    (h : At zl offsets k q prev) (hvs : List.Forall₂ (Text zl) offsets vs) (hfuel : offsets.length - k < fuel)
    (hv : Cached vstr v) :
    ziplistFindLoop zl vstr skip fuel q skipcnt v
      = .ok (strideFind vstr skip skipcnt ((offsets.zip vs).drop k)) := by
  induction fuel generalizing k q prev skipcnt v with
  | zero => omega
  | succ fuel ih =>
    have hlen := hvs.length_eq
    have hzip : (offsets.zip vs).length = offsets.length := by rw [List.length_zip]; omega
    obtain ⟨b, hb, hend⟩ := h.readByte
    rw [ziplistFindLoop, hb, ok_bind]
    by_cases hk : k < offsets.length
    · obtain ⟨hget, b', z, hb', hne, hz, -, hnext⟩ := h.next hk
      obtain ⟨-, hsize, hdecode, hheader, -⟩ := zipEntry_parts hz
      have hq : offsets[k] = q := List.getElem_of_getElem? hget |>.2
      have hs : Text zl q vs[k] := by
        have hall := List.forall₂_iff_get.mp hvs
        rw [← hq]
        exact hall.2 k hk (by omega)
      have hdrop : (offsets.zip vs).drop k = (q, vs[k]) :: (offsets.zip vs).drop (k + 1) := by
        rw [List.drop_eq_getElem_cons (by omega), List.getElem_zip, hq]
      rw [if_neg (by rw [hend]; omega), hsize, ok_bind, hdecode, ok_bind, hdrop]
      simp only [Nat.add_assoc q, ← hheader]
      cases skipcnt with
      | zero =>
        obtain ⟨v', hcmp, hv'⟩ := findCompare_eq hs hb' hne hz hv
        rw [if_pos rfl, hcmp, ok_bind, strideFind]
        by_cases hfound : vs[k] = vstr
        · simp only [hfound, decide_true, if_true]
          rfl
        · simp only [hfound, decide_false, if_false, Bool.false_eq_true]
          exact ih skip hnext (by omega) hv'
      | succ skipcnt => exact ih skipcnt hnext (by omega) hv
    · rw [if_pos (by rw [hend]; omega), List.drop_of_length_le (by omega), strideFind]
      rfl

end Tiles

/-! ### The readers -/

/-- **Lookup.**  On every well-formed block the readers agree with the decoded texts: an index
    names its entry from either end, the number of entries is right, the neighbours are found, an
    entry is equal to exactly its text, and the search finds the first equal one of every
    `skip + 1` entries. -/
theorem ziplist_lookup {zl : Bytes} {offsets : List Nat} {vs : List Bytes} (h : Decodes zl offsets vs) :
    (∀ index : Int, ziplistIndex zl index = .ok ((entryIndex vs.length index).bind fun k => offsets[k]?)) ∧
    (∃ zl', ziplistLen zl = .ok (vs.length, zl')) ∧
    ∀ k p v, offsets[k]? = some p → vs[k]? = some v →
      ziplistNext zl p = .ok offsets[k + 1]? ∧
      ziplistPrev zl p = .ok (if k = 0 then none else offsets[k - 1]?) ∧
      (∀ s, ziplistCompare zl p s = .ok (decide (v = s))) ∧
      ∀ s skip,
        (∀ m, vs[k + m * (skip + 1)]? = some s → (∀ m' < m, vs[k + m' * (skip + 1)]? ≠ some s) →
          ziplistFind zl p s skip = .ok offsets[k + m * (skip + 1)]?) ∧
        ((∀ m, vs[k + m * (skip + 1)]? ≠ some s) → ziplistFind zl p s skip = .ok none) := by
  have hlen := h.length_eq
  refine ⟨hlen ▸ h.tiled.index, h.len, fun k p v hp hv => ?_⟩
  obtain ⟨hk, -⟩ := List.getElem?_eq_some_iff.mp hp
  obtain ⟨q, prev, hat⟩ := h.tiles.exists_at hk.le
  obtain rfl : q = p := Option.some.inj ((hat.next hk).1.symm.trans hp)
  have htext : Text zl q v := by
    obtain ⟨hk', rfl⟩ := List.getElem?_eq_some_iff.mp hv
    obtain ⟨-, rfl⟩ := List.getElem?_eq_some_iff.mp hp
    exact (List.forall₂_iff_get.mp h.texts).2 k hk hk'
  refine ⟨hat.ziplistNext hk, h.tiled.before hat hk.le, hat.ziplistCompare hk htext, fun s skip => ?_⟩
  have hlt := h.tiles.lt
  have hfind : ziplistFind zl q s skip = .ok (strideFind s skip 0 ((offsets.zip vs).drop k)) :=
    hat.findLoop s skip 0 h.texts (by omega) rfl
  -- the pairs of pointers and texts
  have hpair : ∀ j e, ((offsets.zip vs).drop k)[j]? = some e → vs[k + j]? = some e.2 := by
    intro j e he
    rw [List.getElem?_drop, List.getElem?_zip_eq_some] at he
    exact he.2
  rw [hfind]
  constructor
  · intro m hm hfirst
    obtain ⟨hin, -⟩ := List.getElem?_eq_some_iff.mp hm
    have hget : offsets[k + m * (skip + 1)]? = some offsets[k + m * (skip + 1)] :=
      List.getElem?_eq_getElem (by omega)
    rw [hget, strideFind_first (m := m)]
    · rw [List.getElem?_drop, List.getElem?_zip_eq_some]
      exact ⟨hget, hm⟩
    · intro m' hm' e he hs
      exact hfirst m' hm' (hs ▸ hpair _ e he)
  · intro hnone
    rw [strideFind_none]
    intro m e he hs
    exact hnone m (hs ▸ hpair _ e he)

/-- The number 5 in 16 bits, and the string `12`. -/
theorem ziplist_lookup_pair :
    ziplistFind [19, 0, 0, 0, 14, 0, 0, 0, 2, 0, 0, 0xc0, 5, 0, 4, 2, 49, 50, 255] 10 [49, 50] 0 = .ok (some 14) ∧
    ziplistFind [19, 0, 0, 0, 14, 0, 0, 0, 2, 0, 0, 0xc0, 5, 0, 4, 2, 49, 50, 255] 10 [48, 53] 0 = .ok none := by
  have hdecodes : Decodes [19, 0, 0, 0, 14, 0, 0, 0, 2, 0, 0, 0xc0, 5, 0, 4, 2, 49, 50, 255] [10, 14]
      [[53], [49, 50]] := by
    refine ⟨rfl, ?_, rfl, ⟨2, rfl, Or.inl rfl⟩, .cons ⟨.inr 5, rfl, rfl⟩ (.cons ⟨.inl [49, 50], rfl, rfl⟩ .nil)⟩
    exact .entry (z := ⟨1, 0, 1, 2, 2, 0xc0, 10⟩) (b := 0) rfl (by decide) rfl
      (.entry (z := ⟨1, 4, 1, 2, 2, 0, 14⟩) (b := 4) rfl (by decide) rfl (.done rfl rfl))
  obtain ⟨-, -, hfind⟩ := ziplist_lookup hdecodes
  have hsearch := (hfind 0 10 [53] rfl rfl).2.2.2
  refine ⟨(hsearch [49, 50] 0).1 1 rfl (fun m hm => ?_), (hsearch [48, 53] 0).2 fun m => ?_⟩
  · obtain rfl : m = 0 := by omega
    decide
  · rw [Nat.zero_add, Nat.zero_add, Nat.mul_one]
    rcases m with _ | _ | m
    · decide
    · decide
    · simp

/-- A block that represents entries, with the right counter. -/
theorem Represents.decodes {zl : Bytes} {es : List ZipCell} (h : Represents zl es) (hcounts : Counts zl es.length) :
    Decodes zl (cellOffsets [] es) (es.map ZipCell.val) := by
  have hbytes := h.wellFormed.bytes
  have htiled := h.tiled
  obtain ⟨L, rfl⟩ := h.frame
  have htexts : ∀ (P : Bytes) (fs : List ZipCell), (∀ e ∈ fs, e.Fits) →
      List.Forall₂ (Text (zipFrame (tailOf [] es) L (P ++ cellsBytes fs))) (cellOffsets P fs) (fs.map ZipCell.val) := by
    intro P fs
    induction fs generalizing P with
    | nil => exact fun _ => .nil
    | cons e fs ih =>
      intro hfs
      have hrest := ih (P ++ e.bytes) fun f hf => hfs f (List.mem_cons_of_mem e hf)
      rw [List.append_assoc, ← cellsBytes_cons] at hrest
      refine .cons ?_ hrest
      rw [cellsBytes_cons]
      exact ziplistGet_zipFrame (hfs e List.mem_cons_self) _ rfl
  exact ⟨hbytes, htiled.tiles, htiled.tail, by rwa [List.length_map], htexts [] es h.fits⟩

/-- **Every run** of updates leaves such a block. -/
theorem ziplistRun_decodes {junk : Nat → UInt8} {ops : List ZipOp} {zl : Bytes} (h : ziplistRun junk ops = .ok zl) :
    ∃ offsets, Decodes zl offsets (listRun ops) := by
  obtain ⟨⟨es, hrep, hval⟩, hcounts⟩ := (ziplistRun_counts junk ops).of_eq_ok h
  rw [← hval] at hcounts ⊢
  exact ⟨_, hrep.decodes (by rwa [List.length_map] at hcounts)⟩

/-- Two pushes. -/
theorem ziplistRun_decodes_push :
    ∃ offsets, Decodes [17, 0, 0, 0, 13, 0, 0, 0, 2, 0, 0, 1, 98, 3, 1, 97, 255] offsets [[98], [97]] :=
  @ziplistRun_decodes (fun _ => 0) [.push [97] .tail, .push [98] .head] _ rfl

end Redis
