import Mathlib.Data.List.Induction
import Redis.Libc

namespace Redis

/-!
# Canonical texts of integers

Every encoding of integers relies on one text for each number: what `string2ll` accepts is
what `ll2string` prints.

* `Canonical` — the decimal notation, as a grammar;
* `ll2stringInto` — `ll2string` on the buffer of the caller, with every store checked;
* `ll2stringInto_spec` — the text and its terminator, or nothing at all;
* `string2ll_iff` — exactly the canonical texts of 64-bit numbers are read;
* `integers_canonical` — both together.
-/

/-! ### The decimal notation -/

/-- The decimal notation of `v`: a minus for a negative number, then digits, the first of
    them no zero unless it is the only one. -/
def Canonical (s : Bytes) (v : Int) : Prop :=
  ∃ ds, s = (if v < 0 then [45] else []) ++ ds ∧ ds ≠ [] ∧ (∀ c ∈ ds, isdigit c = true) ∧
    (ds.head? = some 48 → ds = [48]) ∧ decimalOf ds = v.natAbs

/-- Digits without a leading zero are the digits of their number. -/
theorem eq_decimal {ds : Bytes} (hne : ds ≠ []) (hdigit : ∀ c ∈ ds, isdigit c = true)
    (hhead : ds.head? = some 48 → ds = [48]) : ds = decimal (decimalOf ds) := by
  induction ds using List.reverseRecOn with
  | nil => exact absurd rfl hne
  | append_singleton xs c ih =>
    have hc := hdigit c (by simp)
    simp only [isdigit, Bool.and_eq_true, decide_eq_true_eq, UInt8.le_iff_toNat_le] at hc
    have hlo : 48 ≤ c.toNat := hc.1
    have hhi : c.toNat ≤ 57 := hc.2
    have hchar : UInt8.ofNat (48 + (c.toNat - 48)) = c := by
      rw [show 48 + (c.toNat - 48) = c.toNat by omega, UInt8.ofNat_toNat]
    have hval : decimalOf (xs ++ [c]) = decimalOf xs * 10 + (c.toNat - 48) := by
      rw [decimalOf_append]
      simp [decimalOf]
    by_cases hxs : xs = []
    · subst hxs
      rw [hval, decimal_of_lt (by simp [decimalOf]; omega)]
      simpa [decimalOf] using hchar.symm
    · -- more digits follow, so the first one is not a zero
      have hfirst : xs.head? ≠ some 48 := by
        intro h48
        have hone := congrArg List.length (hhead (by rw [List.head?_append, h48]; rfl))
        simp at hone
        exact hxs hone
      have hxs' := ih hxs (fun d hd => hdigit d (by simp [hd])) (fun h => absurd h hfirst)
      have hpos : 0 < decimalOf xs := by
        by_contra hzero
        rw [show decimalOf xs = 0 by omega, decimal_of_lt (by decide)] at hxs'
        exact hfirst (by rw [hxs']; rfl)
      rw [hval, decimal_mul_add hpos (by omega), ← hxs', hchar]

/-- There is one text for each number. -/
theorem canonical_iff {s : Bytes} {v : Int} : Canonical s v ↔ s = formatLd v := by
  constructor
  · rintro ⟨ds, rfl, hne, hdigit, hhead, hval⟩
    rw [formatLd, ← hval, ← eq_decimal hne hdigit hhead]
  · rintro rfl
    refine ⟨decimal v.natAbs, rfl, List.ne_nil_of_length_pos (length_decimal_pos _),
      fun c hc => decimal_isdigit hc, fun h48 => ?_, decimalOf_decimal _⟩
    by_cases hzero : v.natAbs = 0
    · rw [hzero, decimal_of_lt (by decide)]
      rfl
    · obtain ⟨c, rest, hcons, hc⟩ := decimal_head (Nat.pos_of_ne_zero hzero)
      rw [hcons] at h48
      obtain rfl : c = 48 := Option.some.inj h48
      exact absurd hc (by decide)

theorem length_formatLd_le {v : Int} (hlo : -2 ^ 63 ≤ v) (hhi : v < 2 ^ 63) : (formatLd v).length ≤ 20 := by
  have hlen : (decimal v.natAbs).length ≤ 19 := length_decimal_le (by norm_num; omega)
  rw [formatLd, List.length_append]
  split
  · rw [List.length_singleton]
    omega
  · rw [List.length_nil]
    omega

/-! ### Reading -/

/-- **`string2ll`** reads the canonical texts of 64-bit numbers and nothing else. -/
theorem string2ll_iff {s : Bytes} {v : Int} :
    string2ll s = some v ↔ -2 ^ 63 ≤ v ∧ v ≤ 2 ^ 63 - 1 ∧ Canonical s v := by
  rw [canonical_iff]
  constructor
  · intro h
    obtain ⟨hlo, hhi, hs⟩ := string2ll_eq h
    exact ⟨hlo, by omega, hs⟩
  · rintro ⟨hlo, hhi, rfl⟩
    have hread := string2ll_ll2string hlo (by omega)
    rwa [ll2string_eq hlo (by omega)] at hread

/-! ### Printing into a buffer -/

/-- `dst[i] = c`: nothing when that is outside of the buffer. -/
def setByte (dst : Bytes) (i : Nat) (c : UInt8) : Option Bytes :=
  if i < dst.length then some (dst.set i c) else none

/-- `next - n` on a `uint32_t`. -/
def nextSub (next n : Nat) : Nat := (next + 2 ^ 32 - n) % 2 ^ 32

/-- The loop of `ll2string` on the buffer; a 64-bit number takes at most ten rounds. -/
def ll2stringIntoLoop : Nat → Nat → Nat → Bytes → Option (Nat × Nat × Bytes)
  | 0, _, _, _ => none
  | fuel + 1, value, next, dst =>
      if value ≥ 100 then do
        let i := (value % 100) * 2
        let dst ← setByte dst next (digitsTable.getD (i + 1) 0)
        let dst ← setByte dst (nextSub next 1) (digitsTable.getD i 0)
        ll2stringIntoLoop fuel (value / 100) (nextSub next 2) dst
      else some (value, next, dst)

/-- "Handle last 1-2 digits." -/
def ll2stringIntoLast (value next : Nat) (dst : Bytes) : Option Bytes :=
  if value < 10 then setByte dst next (UInt8.ofNat (48 + value))
  else do
    let i := value * 2
    let dst ← setByte dst next (digitsTable.getD (i + 1) 0)
    setByte dst (nextSub next 1) (digitsTable.getD i 0)

/-- `ll2string` on the buffer of the caller, who passes its length: the result and the
    buffer. -/
def ll2stringInto (dst : Bytes) (svalue : Int) : Option (Nat × Bytes) :=
  let negative := svalue < 0
  let value : Nat :=
    if svalue < 0 then
      if svalue ≠ LLONG_MIN then (-svalue).toNat else LLONG_MAX + 1
    else svalue.toNat
  -- check length
  let length := digits10 value + (if negative then 1 else 0)
  if length ≥ dst.length then some (0, dst)
  else do
    -- null term
    let dst ← setByte dst length 0
    let (value, next, dst) ← ll2stringIntoLoop 10 value (nextSub length 1) dst
    let dst ← ll2stringIntoLast value next dst
    -- add sign
    let dst ← if negative then setByte dst 0 45 else some dst
    return (length, dst)

theorem setByte_eq {dst : Bytes} {i : Nat} (h : i < dst.length) (c : UInt8) : setByte dst i c = some (dst.set i c) :=
  if_pos h

theorem nextSub_eq {next n : Nat} (hle : n ≤ next) (hlt : next < 2 ^ 32) : nextSub next n = next - n := by
  rw [nextSub]
  omega

/-- The stores of the loop stay in front of `next`, where there is room for the digits that
    are left. -/
theorem ll2stringIntoLoop_eq (fuel : Nat) {value next : Nat} {dst : Bytes}
    (hfuel : value < 100 ^ (fuel + 1)) (hnext : next < dst.length) (hlt : next < 2 ^ 32)
    (hroom : (decimal value).length ≤ next + 1) :
    ∃ value' next' dst', ll2stringLoop (fuel + 1) value next dst = (value', next', dst') ∧
      ll2stringIntoLoop (fuel + 1) value next dst = some (value', next', dst') ∧
      next' < dst'.length ∧ next' < 2 ^ 32 ∧ (decimal value').length ≤ next' + 1 := by
  induction fuel generalizing value next dst with
  | zero =>
    have hsmall : ¬ value ≥ 100 := by omega
    exact ⟨value, next, dst, if_neg hsmall, if_neg hsmall, hnext, hlt, hroom⟩
  | succ fuel ih =>
    by_cases h100 : value ≥ 100
    · have hpos := length_decimal_pos (value / 100)
      rw [decimal_of_ge_hundred h100, List.length_append] at hroom
      have hroom' : (decimal (value / 100)).length + 2 ≤ next + 1 := hroom
      rw [ll2stringLoop, if_pos h100, ll2stringIntoLoop, if_pos h100]
      simp only [nextSub_eq (show 1 ≤ next by omega) hlt, nextSub_eq (show 2 ≤ next by omega) hlt,
        setByte_eq hnext, Option.bind_eq_bind, Option.bind_some]
      rw [setByte_eq (by rw [List.length_set]; omega), Option.bind_some]
      apply ih
      · rw [pow_succ] at hfuel
        omega
      · rw [List.length_set, List.length_set]
        omega
      · omega
      · omega
    · exact ⟨value, next, dst, if_neg h100, if_neg h100, hnext, hlt, hroom⟩

theorem ll2stringIntoLast_eq {value next : Nat} {dst : Bytes} (hnext : next < dst.length)
    (hlt : next < 2 ^ 32) (hroom : (decimal value).length ≤ next + 1) :
    ll2stringIntoLast value next dst = some (ll2stringLast (value, next, dst)) := by
  rw [ll2stringIntoLast, ll2stringLast]
  split
  · exact setByte_eq hnext _
  · rename_i h10
    have hpos := length_decimal_pos (value / 10)
    rw [decimal_of_ge (by omega), List.length_append, List.length_singleton] at hroom
    rw [nextSub_eq (by omega) hlt]
    simp only [setByte_eq hnext, Option.bind_eq_bind, Option.bind_some]
    exact setByte_eq (by rw [List.length_set]; omega) _

/-- **`ll2string`** leaves the buffer alone when the text and its terminator do not fit, and
    otherwise writes exactly them. -/
theorem ll2stringInto_spec {v : Int} (hlo : -2 ^ 63 ≤ v) (hhi : v < 2 ^ 63) (dst : Bytes) :
    ll2stringInto dst v = some (if (formatLd v).length < dst.length
      then ((formatLd v).length, formatLd v ++ 0 :: dst.drop ((formatLd v).length + 1)) else (0, dst)) := by
  have hvalue : (if v < 0 then if v ≠ LLONG_MIN then (-v).toNat else LLONG_MAX + 1 else v.toNat)
      = v.natAbs := by
    rw [LLONG_MIN, LLONG_MAX]
    split_ifs <;> omega
  have hdigits : digits10 v.natAbs = (decimal v.natAbs).length := digits10_eq_length (by omega)
  have hlen : digits10 v.natAbs + (if v < 0 then 1 else 0) = (formatLd v).length := by
    rw [hdigits, formatLd, List.length_append]
    split
    · rw [List.length_singleton, Nat.add_comm]
    · rw [List.length_nil, Nat.add_comm]
  have hle := length_formatLd_le hlo hhi
  have hpos := length_decimal_pos v.natAbs
  rw [ll2stringInto]
  simp only [hvalue, hlen]
  by_cases hfit : (formatLd v).length < dst.length
  · rw [if_neg (by omega), if_pos hfit, setByte_eq hfit]
    -- the text goes where `L` is
    obtain ⟨L, hL, hcut⟩ : ∃ L, L.length = (formatLd v).length ∧
        dst.set (formatLd v).length 0 = L ++ 0 :: dst.drop ((formatLd v).length + 1) :=
      ⟨dst.take (formatLd v).length, by rw [List.length_take]; omega, List.set_eq_take_append_cons_drop .. |>.trans (if_pos hfit)⟩
    have hspec := @ll2stringLoop_spec 10 v.natAbs (if v < 0 then 1 else 0) L
      (0 :: dst.drop ((formatLd v).length + 1)) (by norm_num; omega)
      (by rw [hL, ← hlen, hdigits, Nat.add_comm])
    rw [hL] at hspec
    have hlast : (formatLd v).length - 1 < (L ++ 0 :: dst.drop ((formatLd v).length + 1)).length := by
      rw [List.length_append, hL]
      omega
    obtain ⟨value', next', dst', hloop, hinto, hnext, hlt, hroom⟩ :=
      @ll2stringIntoLoop_eq 9 v.natAbs _ _ (by norm_num; omega) hlast (by omega)
        (by rw [← hdigits]; omega)
    rw [hloop] at hspec
    rw [hcut]
    simp only [Option.bind_eq_bind, Option.bind_some, nextSub_eq (show 1 ≤ (formatLd v).length by omega)
      (by omega), hinto, ll2stringIntoLast_eq hnext hlt hroom, hspec]
    by_cases hneg : v < 0
    · obtain ⟨c, l, rfl⟩ := List.exists_cons_of_length_pos (show 0 < L.length by omega)
      simp only [if_pos hneg, List.take_succ_cons, List.take_zero, formatLd]
      rw [setByte_eq (by simp)]
      rfl
    · simp only [if_neg hneg, List.take_zero, List.nil_append, formatLd]
      rfl
  · rw [if_pos (not_lt.mp hfit), if_neg hfit]

/-! ### Both ways -/

/-- **The canonical texts.**  `string2ll` reads exactly the canonical texts of 64-bit numbers;
    `ll2string` writes them, with a terminator, into every buffer that is long enough and touches
    no other; so they are inverse to each other. -/
theorem integers_canonical :
    (∀ s v, string2ll s = some v ↔ -2 ^ 63 ≤ v ∧ v ≤ 2 ^ 63 - 1 ∧ Canonical s v) ∧
    (∀ v : Int, -2 ^ 63 ≤ v → v ≤ 2 ^ 63 - 1 → ∃ s, Canonical s v ∧ s.length < 21 ∧ ∀ dst,
      (s.length < dst.length →
        ll2stringInto dst v = some (s.length, s ++ 0 :: dst.drop (s.length + 1))) ∧
      (dst.length ≤ s.length → ll2stringInto dst v = some (0, dst))) ∧
    (∀ (v : Int) dst, -2 ^ 63 ≤ v → v ≤ 2 ^ 63 - 1 → 21 ≤ dst.length →
      ∃ n out, ll2stringInto dst v = some (n, out) ∧ string2ll (out.take n) = some v) ∧
    (∀ s v dst, string2ll s = some v → 21 ≤ dst.length →
      ll2stringInto dst v = some (s.length, s ++ 0 :: dst.drop (s.length + 1))) := by
  have hprint : ∀ v : Int, -2 ^ 63 ≤ v → v ≤ 2 ^ 63 - 1 → ∀ dst : Bytes, 21 ≤ dst.length →
      ll2stringInto dst v = some ((formatLd v).length, formatLd v ++ 0 :: dst.drop ((formatLd v).length + 1)) := by
    intro v hlo hhi dst hdst
    have hle := length_formatLd_le hlo (by omega)
    rw [ll2stringInto_spec hlo (by omega), if_pos (by omega)]
  refine ⟨fun s v => string2ll_iff, fun v hlo hhi => ?_, fun v dst hlo hhi hdst => ?_, fun s v dst hs hdst => ?_⟩
  · refine ⟨formatLd v, canonical_iff.mpr rfl, Nat.lt_succ_of_le (length_formatLd_le hlo (by omega)),
      fun dst => ⟨fun hfit => ?_, fun hshort => ?_⟩⟩
    · rw [ll2stringInto_spec hlo (by omega), if_pos hfit]
    · rw [ll2stringInto_spec hlo (by omega), if_neg (by omega)]
  · refine ⟨_, _, hprint v hlo hhi dst hdst, ?_⟩
    rw [List.take_left]
    exact string2ll_iff.mpr ⟨hlo, hhi, canonical_iff.mpr rfl⟩
  · obtain ⟨hlo, hhi, hcanon⟩ := string2ll_iff.mp hs
    rw [canonical_iff.mp hcanon]
    exact hprint v hlo hhi dst hdst

example : ll2stringInto (List.replicate 21 7) LLONG_MIN
    = some (20, [45, 57, 50, 50, 51, 51, 55, 50, 48, 51, 54, 56, 53, 52, 55, 55, 53, 56, 48, 56, 0]) := by decide

end Redis
