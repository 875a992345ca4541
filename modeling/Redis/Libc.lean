import Redis.Util

namespace Redis

/-!
# The C library

What the modelled code takes from the C library, in the C locale and on a 64-bit machine.

* `strtol`, `atoi` — numbers out of texts;
* `formatLd` — the other way;
* `strcasecmp`, `strchr` — texts up to the first zero;
* `zrealloc` — a block of another size;
* `strtol_digits` — a number that was printed is read back, also from its first digits.
-/

/-- `isspace`. -/
def isspace (c : UInt8) : Bool := c = 32 || (9 ≤ c && c ≤ 13)

/-- `isdigit`. -/
def isdigit (c : UInt8) : Bool := 48 ≤ c && c ≤ 57

/-- The number a string of digits stands for. -/
def decimalOf (ds : Bytes) : Nat := ds.foldl (fun n c => n * 10 + (c.toNat - 48)) 0

/-- The optional sign. -/
def splitSign : Bytes → Bool × Bytes
  | c :: s => if c = 45 then (true, s) else if c = 43 then (false, s) else (false, c :: s)
  | [] => (false, [])

/-- `strtol(s,NULL,10)`. -/
def strtol (s : Bytes) : Int :=
  let t := splitSign (s.dropWhile isspace)
  let n : Int := decimalOf (t.2.takeWhile isdigit)
  -- out of range: the nearest number
  max (-9223372036854775808) (min 9223372036854775807 (if t.1 then -n else n))

/-- `atoi`: the low 32 bits of `strtol`. -/
def atoi (s : Bytes) : Int := Int.bmod (strtol s) 4294967296

/-- `%ld`. -/
def formatLd (n : Int) : Bytes := (if n < 0 then [45] else []) ++ decimal n.natAbs

/-- `tolower`. -/
def tolower (c : UInt8) : UInt8 := if 65 ≤ c && c ≤ 90 then c + 32 else c

/-- A string up to the first zero. -/
def cstr (s : Bytes) : Bytes := s.takeWhile (· ≠ 0)

/-- `strchr(s,c)`, as an offset into `s`. -/
def strchr (s : Bytes) (c : UInt8) : Option Nat := (cstr s).findIdx? (· = c)

/-- `!strcasecmp(s,t)`. -/
def strcaseeq (s t : Bytes) : Bool := (cstr s).map tolower = (cstr t).map tolower

/-- `zrealloc`: the common part is kept, and `junk` is what fresh memory holds at each offset. -/
def zrealloc (junk : Nat → UInt8) (zl : Bytes) (len : Nat) : Bytes :=
  zl.take len ++ (List.range (len - zl.length)).map (fun i => junk (zl.length + i))

section Realloc

variable (junk : Nat → UInt8)

/-- A larger block: the old bytes and fresh memory. -/
theorem zrealloc_grow (bs : Bytes) {len : Nat} (h : bs.length ≤ len) :
    ∃ fresh : Bytes, zrealloc junk bs len = bs ++ fresh ∧ bs.length + fresh.length = len := by
  refine ⟨_, by unfold zrealloc; rw [List.take_of_length_le h], ?_⟩
  rw [List.length_map, List.length_range]
  omega

theorem zrealloc_shrink (bs : Bytes) {len : Nat} (h : len ≤ bs.length) : zrealloc junk bs len = bs.take len := by
  unfold zrealloc
  rw [Nat.sub_eq_zero_of_le h]
  exact List.append_nil _

end Realloc

example : atoi [32, 45, 49, 50, 120] = -12 := by decide

/-! ### Numbers that were printed -/

variable {v : Nat}

theorem decimal_digit {b : UInt8} (hb : b ∈ decimal v) : 48 ≤ b ∧ b ≤ 57 := by
  induction v using Nat.strongRecOn with
  | ind v ih =>
    have hdigit : ∀ d, d < 10 → 48 ≤ UInt8.ofNat (48 + d) ∧ UInt8.ofNat (48 + d) ≤ 57 := by decide
    by_cases hv : v < 10
    · rw [decimal_of_lt hv, List.mem_singleton] at hb
      rw [hb]
      exact hdigit v hv
    · rw [decimal_of_ge (by omega), List.mem_append, List.mem_singleton] at hb
      rcases hb with hb | hb
      · exact ih (v / 10) (by omega) hb
      · rw [hb]
        exact hdigit (v % 10) (by omega)

/-- A positive number starts with a digit that is not zero. -/
theorem decimal_head (hv : 0 < v) : ∃ c rest, decimal v = c :: rest ∧ 49 ≤ c := by
  induction v using Nat.strongRecOn with
  | ind v ih =>
    have hdigit : ∀ d, d < 10 → 0 < d → 49 ≤ UInt8.ofNat (48 + d) := by decide
    by_cases hlt : v < 10
    · exact ⟨_, [], decimal_of_lt hlt, hdigit v hlt hv⟩
    · obtain ⟨c, rest, hcons, hc⟩ := ih (v / 10) (by omega) (by omega)
      refine ⟨c, rest ++ [UInt8.ofNat (48 + v % 10)], ?_, hc⟩
      rw [decimal_of_ge (by omega), hcons, List.cons_append]

theorem decimal_isdigit {b : UInt8} (hb : b ∈ decimal v) : isdigit b = true := by
  have h := decimal_digit hb
  simp [isdigit, h.1, h.2]

theorem decimalOf_append (a b : Bytes) :
    decimalOf (a ++ b) = decimalOf a * 10 ^ b.length + decimalOf b := by
  have hfold : ∀ (l : Bytes) (n : Nat), l.foldl (fun n c => n * 10 + (c.toNat - 48)) n
      = n * 10 ^ l.length + decimalOf l := by
    intro l
    induction l with
    | nil => simp [decimalOf]
    | cons c l ih =>
      intro n
      simp only [decimalOf, List.foldl_cons, List.length_cons] at ih ⊢
      rw [ih (n * 10 + (c.toNat - 48)), ih (0 * 10 + (c.toNat - 48))]
      ring
  rw [decimalOf, List.foldl_append]
  exact hfold b _

theorem decimalOf_decimal (v : Nat) : decimalOf (decimal v) = v := by
  induction v using Nat.strongRecOn with
  | ind v ih =>
    have hdigit : ∀ d, d < 10 → (UInt8.ofNat (48 + d)).toNat - 48 = d := by decide
    by_cases hv : v < 10
    · rw [decimal_of_lt hv]
      simp only [decimalOf, List.foldl_cons, List.foldl_nil, hdigit v hv]
      omega
    · rw [decimal_of_ge (by omega), decimalOf_append, ih (v / 10) (by omega)]
      simp only [decimalOf, List.foldl_cons, List.foldl_nil, hdigit (v % 10) (by omega), List.length_singleton]
      omega

/-- The first digits of a number stand for a number that is not larger, and not zero if it is not. -/
theorem decimalOf_take {v k : Nat} (hv : 0 < v) (hk : 0 < k) :
    0 < decimalOf ((decimal v).take k) ∧ decimalOf ((decimal v).take k) ≤ v := by
  constructor
  · obtain ⟨c, rest, hcons, hc⟩ := decimal_head hv
    rw [hcons]
    obtain ⟨k, rfl⟩ : ∃ m, k = m + 1 := ⟨k - 1, by omega⟩
    rw [List.take_succ_cons, show c :: rest.take k = [c] ++ rest.take k from rfl, decimalOf_append]
    have hpos : 0 < decimalOf [c] := by
      have hc' : 49 ≤ c.toNat := hc
      simp only [decimalOf, List.foldl_cons, List.foldl_nil]
      omega
    have := Nat.mul_pos hpos (Nat.pow_pos (n := (rest.take k).length) (show 0 < 10 by decide))
    omega
  · have hsplit : decimalOf ((decimal v).take k ++ (decimal v).drop k) = v := by
      rw [List.take_append_drop, decimalOf_decimal]
    rw [decimalOf_append] at hsplit
    have hpow : 0 < 10 ^ ((decimal v).drop k).length := Nat.pow_pos (by decide)
    have hle := Nat.le_mul_of_pos_right (decimalOf ((decimal v).take k)) hpow
    omega

/-- Digits are read up to the first byte that is none. -/
theorem strtol_digits {ds rest : Bytes} (hds : ∀ b ∈ ds, isdigit b = true)
    (hrest : ∀ b ∈ rest.head?, isdigit b = false) (hne : ds ≠ []) (hfit : decimalOf ds < 2 ^ 63) :
    strtol (ds ++ rest) = decimalOf ds := by
  obtain ⟨c, l, rfl⟩ := List.exists_cons_of_ne_nil hne
  have hc := hds c List.mem_cons_self
  have hspace : isspace c = false ∧ c ≠ 45 ∧ c ≠ 43 := by
    simp only [isdigit, Bool.and_eq_true, decide_eq_true_eq, UInt8.le_iff_toNat_le] at hc
    have hlo : 48 ≤ c.toNat := hc.1
    have hhi : c.toNat ≤ 57 := hc.2
    refine ⟨?_, ?_, ?_⟩
    · simp only [isspace, Bool.or_eq_false_iff, Bool.and_eq_false_iff, decide_eq_false_iff_not,
        UInt8.le_iff_toNat_le]
      refine ⟨fun h => ?_, Or.inr fun h => ?_⟩
      · rw [h] at hlo
        exact absurd hlo (by decide)
      · exact absurd (h.trans (show (13 : UInt8).toNat ≤ 13 by decide)) (by omega)
    · rintro rfl
      exact absurd hlo (by decide)
    · rintro rfl
      exact absurd hlo (by decide)
  have hdrop : ((c :: l) ++ rest).dropWhile isspace = (c :: l) ++ rest := by
    rw [List.cons_append, List.dropWhile_cons, hspace.1]
    rfl
  have hsign : splitSign ((c :: l) ++ rest) = (false, (c :: l) ++ rest) := by
    rw [List.cons_append, splitSign, if_neg hspace.2.1, if_neg hspace.2.2]
  have htake : ((c :: l) ++ rest).takeWhile isdigit = c :: l := by
    rw [List.takeWhile_append_of_pos hds]
    cases rest with
    | nil => simp
    | cons b rest =>
      have hb : isdigit b = false := hrest b rfl
      simp [hb]
  simp only [strtol, hdrop, hsign, htake]
  have hfit' : (decimalOf (c :: l) : Int) < 2 ^ 63 := by exact_mod_cast hfit
  rw [if_neg (by simp)]
  omega

/-- One more digit for the loop of `string2ll`. -/
theorem string2llLoop_append {rest : Bytes} {n m d : Nat} (h : string2llLoop rest n = some (m, []))
    (hd : d < 10) (hfit : m * 10 + d ≤ ULLONG_MAX) :
    string2llLoop (rest ++ [UInt8.ofNat (48 + d)]) n = some (m * 10 + d, []) := by
  have hdigit : isDigit (UInt8.ofNat (48 + d)) = true ∧ (UInt8.ofNat (48 + d)).toNat = 48 + d := by
    have : ∀ d, d < 10 → isDigit (UInt8.ofNat (48 + d)) = true ∧ (UInt8.ofNat (48 + d)).toNat = 48 + d := by decide
    exact this d hd
  induction rest generalizing n with
  | nil =>
    obtain ⟨rfl, -⟩ := Prod.mk.inj (Option.some.inj h)
    rw [List.nil_append, string2llLoop, if_pos hdigit.1, hdigit.2]
    simp only [string2llLoop]
    rw [if_neg (by omega), if_neg (by omega)]
    congr 2
    omega
  | cons c rest ih =>
    rw [string2llLoop] at h
    rw [List.cons_append, string2llLoop]
    by_cases hc : isDigit c = true
    · rw [if_pos hc] at h ⊢
      simp only at h ⊢
      split at h
      · cases h
      · split at h
        · cases h
        · rw [if_neg (by assumption), if_neg (by assumption)]
          exact ih h
    · rw [if_neg hc] at h
      cases h

/-- The decimal digits of a positive number, as `string2ll` takes them apart. -/
theorem decimal_eq_cons (hv : 0 < v) (hfit : v ≤ ULLONG_MAX) :
    ∃ c rest, decimal v = c :: rest ∧ 49 ≤ c ∧ c ≤ 57 ∧ string2llLoop rest (c.toNat - 48) = some (v, []) := by
  induction v using Nat.strongRecOn with
  | ind v ih =>
    by_cases hlt : v < 10
    · have hdigit : ∀ d, d < 10 → 0 < d → 49 ≤ UInt8.ofNat (48 + d) ∧ UInt8.ofNat (48 + d) ≤ 57 ∧
          (UInt8.ofNat (48 + d)).toNat - 48 = d := by decide
      obtain ⟨hlo, hhi, hval⟩ := hdigit v hlt hv
      refine ⟨_, [], decimal_of_lt hlt, hlo, hhi, ?_⟩
      rw [string2llLoop, hval]
    · obtain ⟨c, rest, hcons, hlo, hhi, hloop⟩ := ih (v / 10) (by omega) (by omega) (by omega)
      refine ⟨c, rest ++ [UInt8.ofNat (48 + v % 10)], ?_, hlo, hhi, ?_⟩
      · rw [decimal_of_ge (by omega), hcons, List.cons_append]
      · rw [string2llLoop_append hloop (by omega) (by omega)]
        congr 2
        omega

/-- A number that was printed is read back. -/
theorem string2ll_formatLd (hv : v ≤ LLONG_MAX) : string2ll (formatLd v) = some (v : Int) := by
  have hformat : formatLd v = decimal v := by
    rw [formatLd, if_neg (by omega), List.nil_append, Int.natAbs_natCast]
  rw [hformat]
  by_cases hzero : v = 0
  · subst hzero
    rw [decimal_of_lt (by decide)]
    rfl
  · obtain ⟨c, rest, hcons, hlo, hhi, hloop⟩ := decimal_eq_cons (show 0 < v by omega)
      (le_trans hv (by decide))
    have hne : c ≠ 48 ∧ c ≠ 45 := by
      constructor
      · rintro rfl
        exact absurd hlo (by decide)
      · rintro rfl
        exact absurd hlo (by decide)
    rw [hcons, string2ll, if_neg (by simp), if_neg (by simp [hne.1])]
    simp only [List.head?_cons, Option.some.injEq, if_neg hne.2, hlo, hhi, and_self, if_true, hloop, ne_eq,
      not_true_eq_false, if_false]
    rw [if_neg (by omega)]

/-- So is a negative one. -/
theorem string2ll_formatLd_neg (hpos : 0 < v) (hv : v ≤ LLONG_MAX + 1) :
    string2ll (45 :: decimal v) = some (-(v : Int)) := by
  obtain ⟨c, rest, hcons, hlo, hhi, hloop⟩ := decimal_eq_cons hpos (le_trans hv (by decide))
  rw [hcons, string2ll, if_neg (by simp), if_neg (by simp)]
  simp only [List.head?_cons, if_true, List.tail_cons, hlo, hhi, and_self, hloop, ne_eq,
    not_true_eq_false, if_false]
  rw [if_neg (by omega)]

theorem string2ll_ll2string {v : Int} (hlo : -2 ^ 63 ≤ v) (hhi : v < 2 ^ 63) :
    string2ll (ll2string 32 v) = some v := by
  rw [ll2string_eq hlo hhi]
  by_cases hneg : v < 0
  · rw [if_pos hneg, List.singleton_append,
      string2ll_formatLd_neg (by omega) (by simp only [LLONG_MAX]; omega)]
    congr 1
    omega
  · have hformat := string2ll_formatLd (v := v.natAbs) (by simp only [LLONG_MAX]; omega)
    rw [formatLd, if_neg (by omega), List.nil_append, Int.natAbs_natCast] at hformat
    rw [if_neg hneg, List.nil_append, hformat]
    congr 1
    omega

/-- `strtol` reads what `string2ll` accepts as the same number. -/
theorem strtol_of_string2ll {s : Bytes} {v : Int} (h : string2ll s = some v) : strtol s = v := by
  obtain ⟨hlo, hhi, hs⟩ := string2ll_eq h
  have hdigit : ∀ b ∈ decimal v.natAbs, isdigit b = true := fun b hb => decimal_isdigit hb
  have htake : (decimal v.natAbs).takeWhile isdigit = decimal v.natAbs := by
    have happ : (decimal v.natAbs ++ []).takeWhile isdigit = decimal v.natAbs ++ [].takeWhile isdigit :=
      List.takeWhile_append_of_pos hdigit
    simpa using happ
  have hval := decimalOf_decimal v.natAbs
  by_cases hneg : v < 0
  · rw [hs, if_pos hneg, List.singleton_append, strtol, List.dropWhile_cons_of_neg (by decide), splitSign]
    simp only [if_true, htake, hval]
    omega
  · have hpos : strtol (decimal v.natAbs ++ []) = decimalOf (decimal v.natAbs) :=
      strtol_digits hdigit (by simp) (List.ne_nil_of_length_pos (length_decimal_pos _)) (by omega)
    rw [List.append_nil, hval] at hpos
    rw [hs, if_neg hneg, List.nil_append, hpos]
    omega

end Redis
