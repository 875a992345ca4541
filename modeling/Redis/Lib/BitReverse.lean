import Mathlib.Data.Nat.Bitwise
import Mathlib.Tactic.Ring

/-!
# Counting with reversed bits

Reading a word backwards turns its *low* bits into the *leading* digits of a number, so
the words that agree with `x` on their `k` low bits form an interval of `revNat`.
Incrementing the reversed word at bit `k` jumps to the beginning of the next interval.

* `swapStep`, `getLsbD_swapStep` — exchanging the two halves of every block;
* `revNat` — the reversed word as a number;
* `revNext`, `revNat_revNext` — the reversed increment above a mask;
* `and_lowMask_eq_of_div_eq`, `revNat_interval` — one interval is one choice of the low bits;
* `getLsbD_of_revNat_le` — what the order says about the first differing bit;
* `upNext`, `midBits` — the ordinary increment above a mask, and the bits between two masks.
-/

namespace Redis.BitReverse

variable {w : Nat}

/-! ### Swapping neighbouring blocks -/

/-- Exchange the bits selected by `mask` with those `s` places above them. -/
def swapStep (s : Nat) (mask v : BitVec w) : BitVec w :=
  ((v >>> s) &&& mask) ||| ((v <<< s) &&& ~~~mask)

/-- When `mask` selects the lower half of each block of `2 * s` bits, the step reads bit
    `i` where the index differs by `s`. -/
theorem getLsbD_swapStep {s : Nat} {mask v : BitVec w} {i : Nat} (hi : i < w)
    (hlow : mask.getLsbD i = true → i ^^^ s = i + s)
    (hhigh : mask.getLsbD i = false → i ^^^ s = i - s ∧ s ≤ i) :
    (swapStep s mask v).getLsbD i = v.getLsbD (i ^^^ s) := by
  rw [swapStep, BitVec.getLsbD_or, BitVec.getLsbD_and, BitVec.getLsbD_and,
    BitVec.getLsbD_ushiftRight, BitVec.getLsbD_shiftLeft, BitVec.getLsbD_not]
  cases hm : mask.getLsbD i with
  | true => simp [hlow hm, Nat.add_comm]
  | false => simp [hhigh hm, hi]

/-! ### The reversed word as a number -/

/-- The word read backwards, as a number. -/
def revNat (x : BitVec w) : Nat := x.reverse.toNat

/-- The mask of the `k` low bits. -/
def lowMask (w k : Nat) : BitVec w := BitVec.ofNat w (2 ^ k - 1)

theorem revNat_lt (x : BitVec w) : revNat x < 2 ^ w := x.reverse.isLt

@[simp] theorem revNat_zero : revNat (0 : BitVec w) = 0 := by
  have h : (0 : BitVec w).reverse = 0 := BitVec.reverse_eq_zero_iff.mpr rfl
  rw [revNat, h, BitVec.ofNat_eq_ofNat, BitVec.toNat_ofNat, Nat.zero_mod]

theorem testBit_revNat (x : BitVec w) (i : Nat) :
    (revNat x).testBit i = (decide (i < w) && x.getLsbD (w - 1 - i)) := by
  rw [revNat, BitVec.testBit_toNat, BitVec.getLsbD_reverse, BitVec.getMsbD_eq_getLsbD]

@[simp] theorem getLsbD_lowMask (k i : Nat) :
    (lowMask w k).getLsbD i = (decide (i < w) && decide (i < k)) := by
  rw [lowMask, BitVec.getLsbD_ofNat, Nat.testBit_two_pow_sub_one]

variable {k : Nat} {x y : BitVec w} {k₀ k₁ : Nat}

theorem toNat_lowMask (hk : k ≤ w) : (lowMask w k).toNat = 2 ^ k - 1 := by
  rw [lowMask, BitVec.toNat_ofNat, Nat.mod_eq_of_lt]
  have h1 := Nat.pow_le_pow_right (n := 2) (by omega) hk
  have h2 := Nat.two_pow_pos k
  omega

/-- Bits of `x` above its `k` low ones, all set: the trailing digits of the reversed word
    are at their maximum. -/
theorem revNat_or_not_lowMask (x : BitVec w) (hk : k ≤ w) :
    revNat (x ||| ~~~ lowMask w k)
      = 2 ^ (w - k) * (revNat x / 2 ^ (w - k)) + (2 ^ (w - k) - 1) := by
  have hlt : 2 ^ (w - k) - 1 < 2 ^ (w - k) := Nat.sub_lt (Nat.two_pow_pos _) Nat.one_pos
  apply Nat.eq_of_testBit_eq
  intro i
  rw [Nat.testBit_two_pow_mul_add _ hlt, testBit_revNat, Nat.testBit_two_pow_sub_one,
    Nat.testBit_div_two_pow]
  simp only [BitVec.getLsbD_or, BitVec.getLsbD_not, getLsbD_lowMask]
  by_cases hi : i < w - k
  · have h1 : i < w := by omega
    have h2 : ¬ w - 1 - i < k := by omega
    have h3 : w - 1 - i < w := by omega
    simp [hi, h1, h2, h3]
  · rw [if_neg hi, show i - (w - k) + (w - k) = i by omega, testBit_revNat]
    by_cases h1 : i < w
    · have h2 : w - 1 - i < k := by omega
      have h3 : w - 1 - i < w := by omega
      simp [h1, h2, h3]
    · simp [h1]

/-- Increment of the reversed word at bit `k`: the bits above the mask are set first, so
    that the carry enters the masked bits. -/
def revNext (x : BitVec w) (k : Nat) : BitVec w :=
  ((x ||| ~~~ lowMask w k).reverse + 1).reverse

/-- The increment reaches the start of the next interval, and wraps to zero after the
    last one. -/
theorem revNat_revNext (x : BitVec w) (hk : k ≤ w) :
    revNat (revNext x k) = 2 ^ (w - k) * (revNat x / 2 ^ (w - k) + 1) % 2 ^ w := by
  have h := revNat_or_not_lowMask x hk
  rw [revNat] at h
  have hpos := Nat.two_pow_pos (w - k)
  rw [revNat, revNext, BitVec.reverse_reverse_eq, BitVec.toNat_add, h, BitVec.ofNat_eq_ofNat,
    BitVec.toNat_ofNat, Nat.add_mod_mod, Nat.mul_add, Nat.mul_one, Nat.add_assoc,
    show 2 ^ (w - k) - 1 + 1 = 2 ^ (w - k) by omega]

/-- Above the present interval lies the next one: the increment does not wrap and has
    not passed `y`. -/
theorem revNat_revNext_le (hk : k ≤ w) (hlt : revNat x / 2 ^ (w - k) < revNat y / 2 ^ (w - k)) :
    revNat (revNext x k) ≤ revNat y ∧ revNext x k ≠ 0 := by
  have hpos := Nat.two_pow_pos (w - k)
  have hle : 2 ^ (w - k) * (revNat x / 2 ^ (w - k) + 1) ≤ revNat y :=
    (Nat.mul_le_mul_left _ hlt).trans (Nat.mul_div_le _ _)
  have heq := revNat_revNext x hk
  rw [Nat.mod_eq_of_lt (hle.trans_lt (revNat_lt y))] at heq
  refine ⟨heq ▸ hle, fun h0 => ?_⟩
  rw [h0, revNat_zero, eq_comm] at heq
  have : 0 < 2 ^ (w - k) * (revNat x / 2 ^ (w - k) + 1) := Nat.mul_pos hpos (Nat.succ_pos _)
  omega

/-- The increment clears everything above the mask. -/
theorem getLsbD_revNext_of_le (x : BitVec w) {k i : Nat} (hk : k ≤ w) (hi : k ≤ i) :
    (revNext x k).getLsbD i = false := by
  by_cases hiw : i < w
  · have hbit := testBit_revNat (revNext x k) (w - 1 - i)
    rw [show w - 1 - (w - 1 - i) = i by omega] at hbit
    have hdvd : 2 ^ (w - k) ∣ revNat (revNext x k) := by
      rw [revNat_revNext x hk]
      exact (Nat.dvd_mod_iff (Nat.pow_dvd_pow 2 (by omega))).mpr (Nat.dvd_mul_right _ _)
    obtain ⟨q, hq⟩ := hdvd
    rw [hq, Nat.testBit_two_pow_mul] at hbit
    have h1 : w - 1 - i < w := by omega
    have h2 : ¬ w - 1 - i ≥ w - k := by omega
    simpa [h1, h2] using hbit.symm
  · exact BitVec.getLsbD_of_ge _ _ (by omega)

/-! ### What the order says about low bits -/

/-- Two words in the same interval agree on their low bits. -/
theorem and_lowMask_eq_of_div_eq (hk : k ≤ w) (h : revNat x / 2 ^ (w - k) = revNat y / 2 ^ (w - k)) :
    x &&& lowMask w k = y &&& lowMask w k := by
  apply BitVec.eq_of_getLsbD_eq
  intro i hi
  simp only [BitVec.getLsbD_and, getLsbD_lowMask, hi, decide_true, Bool.true_and]
  by_cases hik : i < k
  · have hbit := congrArg (fun n => n.testBit (k - 1 - i)) h
    simp only [Nat.testBit_div_two_pow, testBit_revNat,
      show k - 1 - i + (w - k) = w - 1 - i by omega,
      show w - 1 - (w - 1 - i) = i by omega, show w - 1 - i < w by omega, decide_true,
      Bool.true_and] at hbit
    rw [hbit]
  · simp [hik]

/-- If `y` is not before `x` in reversed order and both agree below bit `p`, then `y` has
    bit `p` whenever `x` has it. -/
theorem getLsbD_of_revNat_le {p : Nat} (hle : revNat x ≤ revNat y) (hagree : ∀ i < p, x.getLsbD i = y.getLsbD i)
    (hx : x.getLsbD p = true) :
    y.getLsbD p = true := by
  by_contra hy
  have hp : p < w := BitVec.lt_of_getLsbD hx
  refine absurd hle (Nat.not_le.mpr (Nat.lt_of_testBit (w - 1 - p) ?_ ?_ ?_))
  · rw [testBit_revNat, show w - 1 - (w - 1 - p) = p by omega, Bool.eq_false_of_not_eq_true hy,
      Bool.and_false]
  · rw [testBit_revNat, show w - 1 - (w - 1 - p) = p by omega, hx]
    simp; omega
  · intro j hj
    rw [testBit_revNat, testBit_revNat]
    by_cases hjw : j < w
    · rw [hagree (w - 1 - j) (by omega)]
    · simp [hjw]

/-- A word without bits above the mask starts its interval, and the increment starts the next one. -/
theorem revNat_interval (hk : k ≤ w) (hlow : y.toNat % 2 ^ k = x.toNat) :
    revNat x ≤ revNat y ∧ (revNext x k = 0 ∨ revNat y < revNat (revNext x k)) := by
  have hstart : revNat x = 2 ^ (w - k) * (revNat y / 2 ^ (w - k)) := by
    apply Nat.eq_of_testBit_eq
    intro i
    rw [Nat.testBit_two_pow_mul, Nat.testBit_div_two_pow, testBit_revNat, ← BitVec.testBit_toNat, ← hlow,
      Nat.testBit_mod_two_pow]
    by_cases hi : w - k ≤ i
    · rw [show i - (w - k) + (w - k) = i by omega, testBit_revNat, BitVec.testBit_toNat]
      by_cases hiw : i < w
      · simp [hi, hiw, show w - 1 - i < k by omega]
      · simp [hiw]
    · simp [hi, show ¬ w - 1 - i < k by omega]
  have hpos := Nat.two_pow_pos (w - k)
  have hdiv : revNat x / 2 ^ (w - k) = revNat y / 2 ^ (w - k) := by
    rw [hstart, Nat.mul_div_cancel_left _ hpos]
  refine ⟨hstart ▸ Nat.mul_div_le _ _, ?_⟩
  have hnext := revNat_revNext x hk
  rw [hdiv] at hnext
  have hlt : revNat y < 2 ^ (w - k) * (revNat y / 2 ^ (w - k) + 1) := Nat.lt_mul_div_succ _ hpos
  by_cases hwrap : 2 ^ (w - k) * (revNat y / 2 ^ (w - k) + 1) < 2 ^ w
  · exact .inr (by rwa [hnext, Nat.mod_eq_of_lt hwrap])
  · -- the last interval: the increment wraps
    have hpow : 2 ^ w = 2 ^ (w - k) * 2 ^ k := by rw [← Nat.pow_add, show w - k + k = w by omega]
    have hlast : revNat y / 2 ^ (w - k) < 2 ^ k := Nat.div_lt_of_lt_mul (hpow ▸ revNat_lt y)
    have heq : revNat y / 2 ^ (w - k) + 1 = 2 ^ k := by
      refine le_antisymm hlast ?_
      rw [hpow] at hwrap
      exact Nat.le_of_mul_le_mul_left (not_lt.mp hwrap) hpos
    rw [heq, ← hpow, Nat.mod_self] at hnext
    exact .inl (BitVec.reverse_eq_zero_iff.mp (BitVec.eq_of_toNat_eq (by simpa [revNat] using hnext)))

/-! ### The bits between two masks -/

theorem toNat_and_lowMask (x : BitVec w) (hk : k ≤ w) :
    (x &&& lowMask w k).toNat = x.toNat % 2 ^ k := by
  rw [BitVec.toNat_and, toNat_lowMask hk, Nat.and_two_pow_sub_one_eq_mod]

/-- Increment of the bits above the `k` low ones, which stay. -/
def upNext (x : BitVec w) (k : Nat) : BitVec w :=
  (((x ||| lowMask w k) + 1) &&& ~~~ lowMask w k) ||| (x &&& lowMask w k)

theorem upNext_mod (x : BitVec w) (hk : k ≤ w) :
    (upNext x k).toNat % 2 ^ k = x.toNat % 2 ^ k := by
  rw [← toNat_and_lowMask _ hk, ← toNat_and_lowMask _ hk]
  congr 1
  apply BitVec.eq_of_getLsbD_eq
  intro i hi
  simp only [upNext, BitVec.getLsbD_and, BitVec.getLsbD_or, BitVec.getLsbD_not, getLsbD_lowMask, hi]
  by_cases hik : i < k <;> simp [hik]

theorem upNext_div (x : BitVec w) (hk : k ≤ w) :
    (upNext x k).toNat / 2 ^ k = (x.toNat / 2 ^ k + 1) % 2 ^ (w - k) := by
  have hpos := Nat.two_pow_pos k
  -- only the increment contributes above bit `k`
  have hhigh : (upNext x k).toNat / 2 ^ k = ((x ||| lowMask w k) + 1).toNat / 2 ^ k := by
    apply Nat.eq_of_testBit_eq
    intro i
    rw [Nat.testBit_div_two_pow, Nat.testBit_div_two_pow, BitVec.testBit_toNat,
      BitVec.testBit_toNat, upNext, BitVec.getLsbD_or, BitVec.getLsbD_and, BitVec.getLsbD_and,
      BitVec.getLsbD_not, getLsbD_lowMask]
    by_cases hi : i + k < w
    · simp [hi]
    · simp [BitVec.getLsbD_of_ge _ _ (not_lt.mp hi)]
  have hor : (x ||| lowMask w k).toNat = 2 ^ k * (x.toNat / 2 ^ k) + (2 ^ k - 1) := by
    apply Nat.eq_of_testBit_eq
    intro i
    rw [Nat.testBit_two_pow_mul_add _ (Nat.sub_lt hpos Nat.one_pos), BitVec.testBit_toNat,
      BitVec.getLsbD_or, getLsbD_lowMask, Nat.testBit_two_pow_sub_one, Nat.testBit_div_two_pow]
    by_cases hi : i < k
    · simp [hi, show i < w by omega]
    · rw [if_neg hi, show i - k + k = i by omega, BitVec.testBit_toNat]
      simp [hi]
  have hadd : ((x ||| lowMask w k) + 1).toNat = 2 ^ k * ((x.toNat / 2 ^ k + 1) % 2 ^ (w - k)) := by
    rw [BitVec.toNat_add, hor, BitVec.ofNat_eq_ofNat, BitVec.toNat_ofNat, Nat.add_mod_mod,
      Nat.add_assoc, show 2 ^ k - 1 + 1 = 2 ^ k by omega, ← Nat.mul_mod_mul_left, Nat.mul_add,
      Nat.mul_one, ← Nat.pow_add, show k + (w - k) = w by omega]
  rw [hhigh, hadd, Nat.mul_div_cancel_left _ hpos]

/-- The bits from `k₀` up to `k₁`, as a number. -/
def midBits (x : BitVec w) (k₀ k₁ : Nat) : Nat := x.toNat / 2 ^ k₀ % 2 ^ (k₁ - k₀)

theorem midBits_lt (x : BitVec w) (k₀ k₁ : Nat) : midBits x k₀ k₁ < 2 ^ (k₁ - k₀) :=
  Nat.mod_lt _ (Nat.two_pow_pos _)

theorem testBit_midBits (x : BitVec w) (k₀ k₁ i : Nat) :
    (midBits x k₀ k₁).testBit i = (decide (i < k₁ - k₀) && x.getLsbD (i + k₀)) := by
  rw [midBits, Nat.testBit_mod_two_pow, Nat.testBit_div_two_pow, BitVec.testBit_toNat]

theorem midBits_upNext (x : BitVec w) (h₁ : k₁ ≤ w) (h₀ : k₀ ≤ k₁) :
    midBits (upNext x k₀) k₀ k₁ = (midBits x k₀ k₁ + 1) % 2 ^ (k₁ - k₀) := by
  rw [midBits, upNext_div x (h₀.trans h₁), midBits,
    Nat.mod_mod_of_dvd _ (Nat.pow_dvd_pow 2 (by omega)), Nat.mod_add_mod]

/-- The two masks differ exactly on the bits between them. -/
theorem toNat_and_xor_lowMask (x : BitVec w) (h₁ : k₁ ≤ w) (h₀ : k₀ ≤ k₁) :
    (x &&& (lowMask w k₀ ^^^ lowMask w k₁)).toNat = 2 ^ k₀ * midBits x k₀ k₁ := by
  apply Nat.eq_of_testBit_eq
  intro i
  rw [BitVec.testBit_toNat, BitVec.getLsbD_and, BitVec.getLsbD_xor, getLsbD_lowMask,
    getLsbD_lowMask, Nat.testBit_two_pow_mul, testBit_midBits]
  by_cases hi : k₀ ≤ i
  · rw [show i - k₀ + k₀ = i by omega]
    have hlt : ¬ i < k₀ := by omega
    by_cases h : i < k₁
    · simp [hi, hlt, h, show i - k₀ < k₁ - k₀ by omega, show i < w by omega]
    · simp [hlt, h, show ¬ i - k₀ < k₁ - k₀ by omega]
  · have hlt : i < k₀ := by omega
    simp [hi, hlt, show i < k₁ by omega]

theorem mod_eq_midBits (x : BitVec w) (h₀ : k₀ ≤ k₁) :
    x.toNat % 2 ^ k₁ = x.toNat % 2 ^ k₀ + 2 ^ k₀ * midBits x k₀ k₁ := by
  rw [midBits, ← Nat.mod_mul, ← Nat.pow_add, show k₀ + (k₁ - k₀) = k₁ by omega]

/-- The low and the middle bits determine the index under the larger mask. -/
theorem and_lowMask_eq_of_midBits_eq (h₁ : k₁ ≤ w) (h₀ : k₀ ≤ k₁) (hlow : x.toNat % 2 ^ k₀ = y.toNat % 2 ^ k₀)
    (hmid : midBits x k₀ k₁ = midBits y k₀ k₁) :
    x &&& lowMask w k₁ = y &&& lowMask w k₁ := by
  apply BitVec.eq_of_toNat_eq
  rw [toNat_and_lowMask _ h₁, toNat_and_lowMask _ h₁, mod_eq_midBits x h₀, mod_eq_midBits y h₀, hlow, hmid]

/-- When the middle bits of `x` are `0…01…1`, the words after `x` in reversed order with
    the same low bits have middle bits that are not smaller *as numbers*. -/
theorem midBits_le_of_revNat_le {k₀ k₁ j : Nat} (hle : revNat x ≤ revNat y)
    (hlow : x.toNat % 2 ^ k₀ = y.toNat % 2 ^ k₀) (hj : midBits x k₀ k₁ = 2 ^ j - 1) :
    midBits x k₀ k₁ ≤ midBits y k₀ k₁ := by
  have hlow' : ∀ i < k₀, x.getLsbD i = y.getLsbD i := by
    intro i hi
    have h := congrArg (fun n => n.testBit i) hlow
    simpa [Nat.testBit_mod_two_pow, hi, BitVec.testBit_toNat] using h
  have hx : ∀ i < j, i < k₁ - k₀ ∧ x.getLsbD (i + k₀) = true := by
    intro i hi
    have h := congrArg (fun n => n.testBit i) hj
    simpa [testBit_midBits, hi] using h
  -- bit by bit from below: `y` has every middle bit that `x` has
  have hy : ∀ i < j, y.getLsbD (i + k₀) = true := by
    intro i
    induction i using Nat.strong_induction_on with
    | _ i ih =>
      intro hi
      refine getLsbD_of_revNat_le hle (fun p hp => ?_) (hx i hi).2
      by_cases hpk : p < k₀
      · exact hlow' p hpk
      · have hp' := ih (p - k₀) (by omega) (by omega)
        have hxp := (hx (p - k₀) (by omega)).2
        rw [show p - k₀ + k₀ = p by omega] at hp' hxp
        rw [hp', hxp]
  have hsub : midBits x k₀ k₁ &&& midBits y k₀ k₁ = midBits x k₀ k₁ := by
    apply Nat.eq_of_testBit_eq
    intro i
    rw [Nat.testBit_and]
    cases hxi : (midBits x k₀ k₁).testBit i with
    | false => rfl
    | true =>
      have hij : i < j := by simpa [hj] using hxi
      simp [testBit_midBits, (hx i hij).1, hy i hij]
  rw [← hsub]
  exact Nat.and_le_right

end Redis.BitReverse
