import Mathlib.Data.Nat.Bitwise
import Mathlib.Tactic.NormNum
import Mathlib.Tactic.Ring

namespace Redis

/-!
# Numbers and strings

`string2ll` accepts exactly the strings that `ll2string` produces, so an entry that is
stored as a number is read back as the same bytes.

* `digits10`, `ll2string` — the number of digits, and the digits written from the end of
  the buffer two at a time;
* `string2ll` — the parser, with its overflow checks;
* `ll2string_string2ll` — the round trip.
-/

/-- A string of bytes. -/
abbrev Bytes := List UInt8

instance : LawfulBEq Bytes := inferInstance

/-! ### The model of `util.c` -/

/-- `ULLONG_MAX`. -/
def ULLONG_MAX : Nat := 2 ^ 64 - 1

/-- `LLONG_MIN`. -/
def LLONG_MIN : Int := -2 ^ 63

/-- `LLONG_MAX`. -/
def LLONG_MAX : Nat := 2 ^ 63 - 1

/-- `digits10`, as deep as a 64-bit number needs. -/
def digits10Loop : Nat → Nat → Nat
  | 0, _ => 0
  | fuel + 1, v =>
      if v < 10 then 1
      else if v < 100 then 2
      else if v < 1000 then 3
      else if v < 1000000000000 then
        if v < 100000000 then
          if v < 1000000 then
            if v < 10000 then 4
            else 5 + (if v ≥ 100000 then 1 else 0)
          else 7 + (if v ≥ 10000000 then 1 else 0)
        else if v < 10000000000 then 9 + (if v ≥ 1000000000 then 1 else 0)
        else 11 + (if v ≥ 100000000000 then 1 else 0)
      else 12 + digits10Loop fuel (v / 1000000000000)

/-- `digits10`. -/
def digits10 (v : Nat) : Nat := digits10Loop 2 v

/-- The table `digits`: the hundred two-digit numbers, one after the other. -/
def digitsTable : Bytes :=
  (List.range 100).flatMap (fun k => [UInt8.ofNat (48 + k / 10), UInt8.ofNat (48 + k % 10)])

/-- The loop of `ll2string`: two digits at a time, from the end of the buffer. -/
def ll2stringLoop : Nat → Nat → Nat → Bytes → Nat × Nat × Bytes
  | 0, value, next, dst => (value, next, dst)
  | fuel + 1, value, next, dst =>
      if value ≥ 100 then
        let i := (value % 100) * 2
        let dst := dst.set next (digitsTable.getD (i + 1) 0)
        let dst := dst.set (next - 1) (digitsTable.getD i 0)
        ll2stringLoop fuel (value / 100) (next - 2) dst
      else (value, next, dst)

/-- `ll2string` into a buffer of `dstlen` bytes: the characters before the terminator.
    The empty string stands for the result 0. -/
def ll2string (dstlen : Nat) (svalue : Int) : Bytes :=
  let negative := svalue < 0
  let value : Nat :=
    if svalue < 0 then
      if svalue ≠ LLONG_MIN then (-svalue).toNat else LLONG_MAX + 1
    else svalue.toNat
  let length := digits10 value + (if negative then 1 else 0)
  if length ≥ dstlen then []
  else
    let (value, next, dst) := ll2stringLoop 10 value (length - 1) (List.replicate length 0)
    let dst :=
      if value < 10 then dst.set next (UInt8.ofNat (48 + value))
      else
        let i := value * 2
        (dst.set next (digitsTable.getD (i + 1) 0)).set (next - 1) (digitsTable.getD i 0)
    if negative then dst.set 0 45 else dst

/-- `c >= '0' && c <= '9'`. -/
def isDigit (c : UInt8) : Bool := 48 ≤ c && c ≤ 57

/-- The digit loop of `string2ll`: the number and the bytes not used, unless it
    overflows. -/
def string2llLoop : Bytes → Nat → Option (Nat × Bytes)
  | [], v => some (v, [])
  | c :: rest, v =>
      if isDigit c then
        let d := c.toNat - 48
        if v > ULLONG_MAX / 10 then none
        else
          let v := v * 10
          if v > ULLONG_MAX - d then none
          else string2llLoop rest (v + d)
      else some (v, c :: rest)

/-- `string2ll`: `none` is the result 0. -/
def string2ll (s : Bytes) : Option Int :=
  if s.length = 0 then none
  -- special case: first and only digit is 0
  else if s.length = 1 ∧ s.head? = some 48 then some 0
  else
    let negative := s.head? = some 45
    let p := if negative then s.tail else s
    match p with
    | [] => none
    | c :: rest =>
        if 49 ≤ c ∧ c ≤ 57 then
          match string2llLoop rest (c.toNat - 48) with
          | none => none
          | some (v, unused) =>
              if unused ≠ [] then none
              else if negative then
                if v > LLONG_MAX + 1 then none else some (-(v : Int))
              else
                if v > LLONG_MAX then none else some (v : Int)
        else if c = 48 ∧ s.length = 1 then some 0
        else none

/-! ### Decimal digits -/

/-- The decimal digits of a number, most significant first. -/
def decimal (v : Nat) : Bytes :=
  if v < 10 then [UInt8.ofNat (48 + v)] else decimal (v / 10) ++ [UInt8.ofNat (48 + v % 10)]
decreasing_by omega

variable {v : Nat}

theorem decimal_of_lt (h : v < 10) : decimal v = [UInt8.ofNat (48 + v)] := by
  rw [decimal, if_pos h]

theorem decimal_of_ge (h : 10 ≤ v) :
    decimal v = decimal (v / 10) ++ [UInt8.ofNat (48 + v % 10)] := by
  rw [decimal, if_neg (by omega)]

/-- Appending a digit. -/
theorem decimal_mul_add {v d : Nat} (hv : 0 < v) (hd : d < 10) :
    decimal (v * 10 + d) = decimal v ++ [UInt8.ofNat (48 + d)] := by
  rw [decimal_of_ge (by omega), show (v * 10 + d) / 10 = v by omega,
    show (v * 10 + d) % 10 = d by omega]

theorem length_decimal_pos (v : Nat) : 0 < (decimal v).length := by
  rw [decimal]
  split <;> simp

/-- The number of digits is fixed by the powers of ten around the number. -/
theorem length_decimal {n v : Nat} (hlo : 10 ^ n ≤ v) (hhi : v < 10 ^ (n + 1)) :
    (decimal v).length = n + 1 := by
  induction n generalizing v with
  | zero => rw [decimal_of_lt (by simpa using hhi)]; rfl
  | succ n ih =>
    rw [pow_succ] at hlo hhi
    have hpos : 0 < 10 ^ n := by positivity
    rw [decimal_of_ge (by rw [pow_succ] at hhi; omega), List.length_append,
      ih (by omega) (by rw [pow_succ] at hhi ⊢; omega)]
    rfl

theorem length_decimal_le {n v : Nat} (h : v < 10 ^ (n + 1)) : (decimal v).length ≤ n + 1 := by
  induction n generalizing v with
  | zero => rw [decimal_of_lt (by simpa using h)]; rfl
  | succ n ih =>
    by_cases h10 : v < 10
    · rw [decimal_of_lt h10]
      simp
    · rw [decimal_of_ge (by omega), List.length_append]
      have hdiv := ih (v := v / 10) (by rw [pow_succ] at h; omega)
      simpa using hdiv

/-- Dividing by a power of ten drops as many digits. -/
theorem length_decimal_div (k : Nat) (h : 10 ^ k ≤ v) :
    (decimal v).length = (decimal (v / 10 ^ k)).length + k := by
  induction k generalizing v with
  | zero => simp
  | succ k ih =>
    have hpos : 0 < 10 ^ k := by positivity
    have h10 : 10 ^ k ≤ v / 10 := by rw [pow_succ] at h; omega
    rw [decimal_of_ge (by omega), List.length_append, ih h10, Nat.div_div_eq_div_mul, ← pow_succ']
    simp only [List.length_cons, List.length_nil]
    omega

/-- Two digits at a time. -/
theorem decimal_of_ge_hundred (h : 100 ≤ v) :
    decimal v = decimal (v / 100)
      ++ [UInt8.ofNat (48 + v % 100 / 10), UInt8.ofNat (48 + v % 100 % 10)] := by
  rw [decimal_of_ge (by omega), decimal_of_ge (v := v / 10) (by omega), Nat.div_div_eq_div_mul,
    List.append_assoc, show v / 10 % 10 = v % 100 / 10 by omega, show v % 10 = v % 100 % 10 by omega]
  rfl

theorem digits10_eq_length (hv : v < 2 ^ 64) : digits10 v = (decimal v).length := by
  -- below a million millions the digits are counted by cases
  have hsmall : ∀ (fuel u : Nat), u < 1000000000000 →
      digits10Loop (fuel + 1) u = (decimal u).length := by
    intro fuel u hu
    have hlen : ∀ n, (10 ^ n ≤ u ∨ n = 0) → u < 10 ^ (n + 1) → n + 1 = (decimal u).length := by
      intro n hlo hhi
      rcases hlo with hlo | rfl
      · exact (length_decimal hlo hhi).symm
      · rw [decimal_of_lt (by simpa using hhi)]; rfl
    rw [digits10Loop]
    split_ifs <;> first
      | exact hlen 0 (Or.inr rfl) (by norm_num; omega)
      | exact hlen 1 (Or.inl (by norm_num; omega)) (by norm_num; omega)
      | exact hlen 2 (Or.inl (by norm_num; omega)) (by norm_num; omega)
      | exact hlen 3 (Or.inl (by norm_num; omega)) (by norm_num; omega)
      | exact hlen 4 (Or.inl (by norm_num; omega)) (by norm_num; omega)
      | exact hlen 5 (Or.inl (by norm_num; omega)) (by norm_num; omega)
      | exact hlen 6 (Or.inl (by norm_num; omega)) (by norm_num; omega)
      | exact hlen 7 (Or.inl (by norm_num; omega)) (by norm_num; omega)
      | exact hlen 8 (Or.inl (by norm_num; omega)) (by norm_num; omega)
      | exact hlen 9 (Or.inl (by norm_num; omega)) (by norm_num; omega)
      | exact hlen 10 (Or.inl (by norm_num; omega)) (by norm_num; omega)
      | exact hlen 11 (Or.inl (by norm_num; omega)) (by norm_num; omega)
  by_cases hlt : v < 1000000000000
  · exact hsmall 1 v hlt
  · have hdiv := length_decimal_div (v := v) 12 (by norm_num; omega)
    rw [show (10 : Nat) ^ 12 = 1000000000000 by norm_num] at hdiv
    have hu : v / 1000000000000 < 1000000000000 := by omega
    rw [digits10, digits10Loop, if_neg (by omega), if_neg (by omega), if_neg (by omega),
      if_neg hlt, hsmall 0 _ hu, hdiv, Nat.add_comm]

/-! ### Writing digits -/

theorem digitsTable_getD {k : Nat} (hk : k < 100) :
    digitsTable.getD (k * 2) 0 = UInt8.ofNat (48 + k / 10) ∧
    digitsTable.getD (k * 2 + 1) 0 = UInt8.ofNat (48 + k % 10) := by
  have h : ∀ k < 100, digitsTable.getD (k * 2) 0 = UInt8.ofNat (48 + k / 10) ∧
      digitsTable.getD (k * 2 + 1) 0 = UInt8.ofNat (48 + k % 10) := by decide
  exact h k hk

/-- Writing two characters at the end of the free part of the buffer. -/
theorem set_set_last {L S : Bytes} {a b : UInt8} (hL : 2 ≤ L.length) :
    ((L ++ S).set (L.length - 1) b).set (L.length - 1 - 1) a
      = L.take (L.length - 2) ++ ([a, b] ++ S) := by
  obtain ⟨M, x, y, rfl⟩ : ∃ M x y, L = M ++ [x, y] := by
    refine ⟨L.take (L.length - 2), L[L.length - 2], L[L.length - 1], ?_⟩
    conv_lhs => rw [← List.take_append_drop (L.length - 2) L]
    rw [List.drop_eq_getElem_cons (by omega), List.drop_eq_getElem_cons (by omega),
      List.drop_of_length_le (by omega)]
    simp only [show L.length - 2 + 1 = L.length - 1 by omega]
  have h1 : (M ++ [x, y]).length - 1 = M.length + 1 := by simp
  have h2 : (M ++ [x, y]).length - 2 = M.length := by simp
  rw [h1, h2, List.take_left, List.append_assoc, List.set_append_right _ _ (by omega),
    List.set_append_right _ _ (by omega)]
  simp

/-- The end of `ll2string`: the last one or two digits. -/
def ll2stringLast (r : Nat × Nat × Bytes) : Bytes :=
  if r.1 < 10 then r.2.2.set r.2.1 (UInt8.ofNat (48 + r.1))
  else (r.2.2.set r.2.1 (digitsTable.getD (r.1 * 2 + 1) 0)).set (r.2.1 - 1)
    (digitsTable.getD (r.1 * 2) 0)

/-- The digits fill the free part `L` of the buffer from its end, leaving `m` cells. -/
theorem ll2stringLoop_spec (fuel : Nat) {value m : Nat} {L S : Bytes}
    (hfuel : value < 100 ^ (fuel + 1)) (hL : L.length = m + (decimal value).length) :
    ll2stringLast (ll2stringLoop fuel value (L.length - 1) (L ++ S))
      = L.take m ++ (decimal value ++ S) := by
  induction fuel generalizing value L S with
  | zero =>
    rw [ll2stringLoop, ll2stringLast]
    simp only
    rw [pow_one] at hfuel
    by_cases h10 : value < 10
    · rw [decimal_of_lt h10] at hL ⊢
      rw [if_pos h10]
      obtain ⟨M, x, rfl⟩ : ∃ M x, L = M ++ [x] :=
        ⟨L.dropLast, L.getLast (by rintro rfl; simp at hL), (List.dropLast_concat_getLast _).symm⟩
      have hM : M.length = m := by simpa using hL
      rw [show (M ++ [x]).length - 1 = M.length by simp, List.append_assoc,
        List.set_append_right _ _ (le_refl _), ← hM, List.take_left]
      simp
    · have hdec : decimal value = [UInt8.ofNat (48 + value / 10), UInt8.ofNat (48 + value % 10)] := by
        rw [decimal_of_ge (by omega), decimal_of_lt (by omega)]; rfl
      rw [hdec] at hL ⊢
      rw [if_neg h10, (digitsTable_getD hfuel).1, (digitsTable_getD hfuel).2]
      have hlen : L.length = m + 2 := hL
      rw [set_set_last (by omega), show L.length - 2 = m by omega]
  | succ fuel ih =>
    by_cases h100 : 100 ≤ value
    · have hmod : value % 100 < 100 := Nat.mod_lt _ (by omega)
      have hdec := decimal_of_ge_hundred h100
      have hlen : L.length = m + ((decimal (value / 100)).length + 2) := by
        rw [hL, hdec, List.length_append]; rfl
      have hpos := length_decimal_pos (value / 100)
      rw [ll2stringLoop, if_pos h100]
      simp only
      rw [(digitsTable_getD hmod).1, (digitsTable_getD hmod).2, set_set_last (by omega)]
      have hL' : (L.take (L.length - 2)).length = m + (decimal (value / 100)).length := by
        rw [List.length_take]; omega
      have h := @ih (value / 100) (L.take (L.length - 2))
        ([UInt8.ofNat (48 + value % 100 / 10), UInt8.ofNat (48 + value % 100 % 10)] ++ S)
        (by rw [pow_succ] at hfuel; omega) hL'
      rw [show (L.take (L.length - 2)).length - 1 = L.length - 1 - 2 by omega] at h
      rw [h, List.take_take, show min m (L.length - 2) = m by omega, hdec, List.append_assoc]
    · -- the loop stops here, as it would with less fuel
      have hstop : ll2stringLoop (fuel + 1) value (L.length - 1) (L ++ S)
          = ll2stringLoop fuel value (L.length - 1) (L ++ S) := by
        cases fuel with
        | zero | succ fuel => simp only [ll2stringLoop, ge_iff_le, h100, if_false]
      rw [hstop]
      refine ih ?_ hL
      have hpow : 100 ≤ 100 ^ (fuel + 1) := by
        rw [pow_succ]
        have : 0 < 100 ^ fuel := by positivity
        omega
      omega

/-- `ll2string` writes the sign and the decimal digits, if the buffer has room for any of them. -/
theorem ll2string_eq_of_le {dstlen : Nat} {v : Int} (hdst : 21 ≤ dstlen) (hlo : -2 ^ 63 ≤ v) (hhi : v < 2 ^ 63) :
    ll2string dstlen v = (if v < 0 then [45] else []) ++ decimal v.natAbs := by
  have hvalue : (if v < 0 then if v ≠ LLONG_MIN then (-v).toNat else LLONG_MAX + 1 else v.toNat)
      = v.natAbs := by
    rw [LLONG_MIN, LLONG_MAX]
    split_ifs <;> omega
  have hlt : v.natAbs < 2 ^ 64 := by omega
  have hlen : (decimal v.natAbs).length ≤ 19 := length_decimal_le (by norm_num; omega)
  have hfuel : v.natAbs < 100 ^ (10 + 1) := by norm_num; omega
  have hpos := length_decimal_pos v.natAbs
  rw [ll2string]
  simp only [hvalue, digits10_eq_length hlt]
  by_cases hneg : v < 0
  · simp only [hneg, if_true]
    rw [if_neg (by omega)]
    have h := ll2stringLoop_spec 10 (m := 1) (L := List.replicate ((decimal v.natAbs).length + 1) 0)
      (S := []) hfuel (by rw [List.length_replicate, Nat.add_comm])
    rw [List.length_replicate, List.append_nil, List.append_nil, ll2stringLast] at h
    rw [h, List.take_replicate, show min 1 ((decimal v.natAbs).length + 1) = 1 by omega]
    rfl
  · simp only [hneg, if_false, Nat.add_zero]
    rw [if_neg (by omega)]
    have h := ll2stringLoop_spec 10 (m := 0) (L := List.replicate (decimal v.natAbs).length 0)
      (S := []) hfuel (by rw [List.length_replicate, Nat.zero_add])
    rw [List.length_replicate, List.append_nil, List.append_nil, ll2stringLast, List.take_zero,
      List.nil_append] at h
    rw [h, List.nil_append]

theorem ll2string_eq {v : Int} (hlo : -2 ^ 63 ≤ v) (hhi : v < 2 ^ 63) :
    ll2string 32 v = (if v < 0 then [45] else []) ++ decimal v.natAbs :=
  ll2string_eq_of_le (by decide) hlo hhi

/-! ### Reading digits -/

/-- The digit loop extends the number by the digits it uses. -/
theorem string2llLoop_spec {rest unused : Bytes} {v v' : Nat} (hv : 0 < v)
    (h : string2llLoop rest v = some (v', unused)) :
    decimal v ++ rest = decimal v' ++ unused ∧ 0 < v' := by
  induction rest generalizing v with
  | nil =>
    obtain ⟨rfl, rfl⟩ := Prod.mk.inj (Option.some.inj h)
    exact ⟨rfl, hv⟩
  | cons c rest ih =>
    rw [string2llLoop] at h
    split at h
    · rename_i hdig
      simp only [isDigit, Bool.and_eq_true, decide_eq_true_eq, UInt8.le_iff_toNat_le] at hdig
      obtain ⟨hlo, hhi⟩ := hdig
      replace hlo : 48 ≤ c.toNat := hlo
      replace hhi : c.toNat ≤ 57 := hhi
      have hc : UInt8.ofNat (48 + (c.toNat - 48)) = c := by
        rw [show 48 + (c.toNat - 48) = c.toNat by omega, UInt8.ofNat_toNat]
      simp only at h
      split at h
      · simp at h
      · split at h
        · simp at h
        · have hnext := ih (by omega) h
          rw [decimal_mul_add hv (by omega), hc, List.append_assoc] at hnext
          exact hnext
    · obtain ⟨rfl, rfl⟩ := Prod.mk.inj (Option.some.inj h)
      exact ⟨rfl, hv⟩

/-- `string2ll` accepts only a sign and the decimal digits of a 64-bit number. -/
theorem string2ll_eq {s : Bytes} {v : Int} (h : string2ll s = some v) :
    -2 ^ 63 ≤ v ∧ v < 2 ^ 63 ∧ s = (if v < 0 then [45] else []) ++ decimal v.natAbs := by
  have hzero : ∀ {s : Bytes}, s.length = 1 → s.head? = some 48 →
      s = (if (0 : Int) < 0 then [45] else []) ++ decimal (0 : Int).natAbs := by
    intro s hlen hhead
    obtain ⟨c, rfl⟩ := List.length_eq_one_iff.mp hlen
    obtain rfl : c = 48 := by simpa using hhead
    rw [Int.natAbs_zero, decimal_of_lt (by omega)]
    rfl
  rw [string2ll] at h
  split at h
  · simp at h
  split at h
  · rename_i h1
    obtain rfl := Option.some.inj h
    exact ⟨by norm_num, by norm_num, hzero h1.1 h1.2⟩
  simp only at h
  split at h
  · simp at h
  rename_i hne hne0 c rest hp
  split at h
  · rename_i hc
    simp only [UInt8.le_iff_toNat_le] at hc
    obtain ⟨hlo, hhi⟩ := hc
    replace hlo : 49 ≤ c.toNat := hlo
    replace hhi : c.toNat ≤ 57 := hhi
    have hcd : decimal (c.toNat - 48) = [c] := by
      rw [decimal_of_lt (by omega), show 48 + (c.toNat - 48) = c.toNat by omega, UInt8.ofNat_toNat]
    split at h
    · simp at h
    rename_i v' unused hloop
    obtain ⟨heq, hpos⟩ := string2llLoop_spec (by omega) hloop
    split at h
    · simp at h
    rename_i hunused
    rw [not_not] at hunused
    subst hunused
    have hdigits : c :: rest = decimal v' := by
      rw [hcd, List.append_nil] at heq
      exact heq
    rw [hdigits] at hp
    rw [LLONG_MAX] at h
    split at h
    · rename_i hneg
      rw [if_pos hneg] at hp
      split at h
      · simp at h
      obtain rfl := Option.some.inj h
      refine ⟨by omega, by omega, ?_⟩
      rw [if_pos (by omega), Int.natAbs_neg, Int.natAbs_natCast, ← hp]
      cases s with
      | nil => simp at hneg
      | cons a s =>
        obtain rfl : a = 45 := by simpa using hneg
        rfl
    · rename_i hneg
      rw [if_neg hneg] at hp
      split at h
      · simp at h
      obtain rfl := Option.some.inj h
      refine ⟨by omega, by omega, ?_⟩
      rw [if_neg (by omega), Int.natAbs_natCast, List.nil_append]
      exact hp
  · split at h
    · rename_i hc
      obtain rfl := Option.some.inj h
      refine ⟨by norm_num, by norm_num, hzero hc.2 ?_⟩
      -- a single character is not a sign followed by a zero
      by_cases hneg : s.head? = some 45
      · rw [if_pos hneg] at hp
        have hl := congrArg List.length hp
        rw [List.length_tail, hc.2] at hl
        simp at hl
      · rw [if_neg hneg] at hp
        rw [hp, hc.1]
        rfl
    · simp at h

/-- **Round trip.**  A string that is read as a number is printed as the same string. -/
theorem ll2string_string2ll {s : Bytes} {v : Int} (h : string2ll s = some v) :
    ll2string 32 v = s := by
  obtain ⟨hlo, hhi, hs⟩ := string2ll_eq h
  rw [ll2string_eq hlo hhi, hs]

end Redis
