import Mathlib.Data.List.Sort
import Mathlib.Data.Finset.Card
import Redis.Intset.Basic

namespace Redis

open Buffer Outcome

/-!
# The intset is a sorted set

* `Holds` — the block is the bytes of a strictly increasing list;
* `intsetSearch_spec` — the search finds a value, or the place where it belongs;
* `upgradeLoop_spec` — the elements survive being rewritten in place;
* `intsetAdd_spec`, `intsetRemove_spec` — the list after a change;
* `intset_sorted_set` — any sequence of changes, against a finite set of integers.
-/

/-- A value in the range of an encoding. -/
def Fits (enc : IntsetEnc) (v : Int) : Prop := -256 ^ enc.size ≤ 2 * v ∧ 2 * v < 256 ^ enc.size

/-- The bytes of a list of values. -/
def intsBytes (w : Nat) (vals : List Int) : Bytes := vals.flatMap (intBytes w)

/-- The intset holds the values. -/
structure Intset.Holds (is : Intset) (vals : List Int) : Prop where
  length : is.length = vals.length
  contents : is.contents = intsBytes is.encoding.size vals
  sorted : vals.Pairwise (· < ·)
  fits : ∀ v ∈ vals, Fits is.encoding v
  small : 8 + vals.length * is.encoding.size < 4294967296

section Elements

variable {is : Intset} {enc : IntsetEnc} {vals : List Int} {v : Int} {n : Nat} {X Y Z : Bytes}

@[simp] theorem size_int16 : IntsetEnc.int16.size = 2 := rfl
@[simp] theorem size_int32 : IntsetEnc.int32.size = 4 := rfl
@[simp] theorem size_int64 : IntsetEnc.int64.size = 8 := rfl

theorem two_le_size (enc : IntsetEnc) : 2 ≤ enc.size := by
  cases enc <;> decide

theorem length_intsBytes (w : Nat) (vals : List Int) : (intsBytes w vals).length = vals.length * w := by
  induction vals with
  | nil => simp [intsBytes]
  | cons v vals ih =>
    unfold intsBytes at ih ⊢
    rw [List.flatMap_cons, List.length_append, length_intBytes, ih, List.length_cons]
    ring

theorem intsBytes_append (w : Nat) (A B : List Int) : intsBytes w (A ++ B) = intsBytes w A ++ intsBytes w B :=
  List.flatMap_append

theorem intsBytes_cons (w : Nat) (v : Int) (B : List Int) : intsBytes w (v :: B) = intBytes w v ++ intsBytes w B :=
  List.flatMap_cons

theorem intsBytes_singleton (w : Nat) (v : Int) : intsBytes w [v] = intBytes w v := by
  rw [intsBytes_cons]
  exact List.append_nil _

/-- The encodings are ordered by the ranges of their values. -/
theorem size_valueEncoding_le_iff (hv : Fits .int64 v) : (intsetValueEncoding v).size ≤ enc.size ↔ Fits enc v := by
  unfold Fits at *
  unfold intsetValueEncoding
  rw [size_int64] at hv
  cases enc <;> split_ifs <;> simp only [size_int16, size_int32, size_int64] <;> omega

theorem getEncoded_append (hc : is.contents = X ++ (intBytes enc.size v ++ Y)) (hX : X.length = n * enc.size)
    (hv : Fits enc v) : intsetGetEncoded is n enc = .ok v := by
  unfold intsetGetEncoded
  rw [if_neg (by omega), Int.toNat_natCast, hc, slice?_append hX.symm (length_intBytes _ _).symm]
  show Except.ok (bytesInt (intBytes enc.size v)) = _
  rw [bytesInt_intBytes hv.1 hv.2]

theorem set_append (hc : is.contents = X ++ (Y ++ Z)) (hX : X.length = n * is.encoding.size)
    (hY : Y.length = is.encoding.size) (v : Int) :
    intsetSet is n v = .ok { is with contents := X ++ (intBytes is.encoding.size v ++ Z) } := by
  unfold intsetSet
  rw [if_neg (by omega), Int.toNat_natCast, hc, overwrite?_append hX.symm (by rw [length_intBytes, hY])]

/-- One element. -/
theorem Intset.Holds.getAt (h : is.Holds vals) (hn : n < vals.length) : intsetGetAt is n = .ok vals[n] := by
  have hsplit : vals = vals.take n ++ vals[n] :: vals.drop (n + 1) := by
    rw [← List.drop_eq_getElem_cons hn, List.take_append_drop]
  have hc : is.contents = intsBytes is.encoding.size (vals.take n)
      ++ (intBytes is.encoding.size vals[n] ++ intsBytes is.encoding.size (vals.drop (n + 1))) := by
    rw [← intsBytes_cons, ← intsBytes_append, ← hsplit]
    exact h.contents
  refine getEncoded_append hc ?_ (h.fits _ (List.getElem_mem hn))
  rw [length_intsBytes, List.length_take, Nat.min_eq_left hn.le]

theorem Intset.Holds.mono (h : is.Holds vals) (i j : Nat) (hi : i < vals.length) (hj : j < vals.length) (hij : i ≤ j) :
    vals[i] ≤ vals[j] := by
  rcases Nat.lt_or_eq_of_le hij with hlt | rfl
  · exact (List.pairwise_iff_getElem.mp h.sorted i j hi hj hlt).le
  · exact le_refl _

end Elements

/-! ### The binary search -/

section Search

variable {is : Intset} {vals : List Int} {value : Int}

/-- The values are split where `value` belongs. -/
structure SplitAt (vals : List Int) (value : Int) (p : Nat) : Prop where
  le : p ≤ vals.length
  below : ∀ i (hi : i < vals.length), i < p → vals[i] < value
  above : ∀ i (hi : i < vals.length), p ≤ i → value < vals[i]

/-- What the loop of `intsetSearch` returns. -/
def SearchResult (vals : List Int) (value : Int) (r : Int × Int × Int) : Prop :=
  (r.2.2 = value ∧ ∃ m, ∃ hm : m < vals.length, r.2.1 = m ∧ vals[m] = value) ∨
    (r.2.2 ≠ value ∧ ∃ p : Nat, r.1 = p ∧ SplitAt vals value p)

theorem searchLoop_spec (h : is.Holds vals) (fuel lo hi : Nat) (mid cur : Int) (hhi : hi ≤ vals.length)
    (hlo : lo ≤ hi) (hfuel : hi - lo < fuel) (hcur : lo < hi ∨ cur ≠ value)
    (hbelow : ∀ i (hi : i < vals.length), i < lo → vals[i] < value)
    (habove : ∀ i (hi' : i < vals.length), hi ≤ i → value < vals[i]) :
    Sat (intsetSearchLoop is value fuel lo (hi - 1) mid cur) (SearchResult vals value) (fun _ => False) := by
  have hsmall := h.small
  have hlen := Nat.mul_le_mul_left vals.length (two_le_size is.encoding)
  have hmono := h.mono
  induction fuel generalizing lo hi mid cur with
  | zero => omega
  | succ fuel ih =>
    unfold intsetSearchLoop
    by_cases hactive : lo < hi
    · -- the middle of the interval, as the sum of two unsigned numbers
      obtain ⟨m, hm⟩ : ∃ m, m = (lo + (hi - 1)) / 2 := ⟨_, rfl⟩
      have hmid : ((lo : Int) + ((hi : Int) - 1)) % 4294967296 / 2 = (m : Nat) := by omega
      have hmlt : m < vals.length := by omega
      rw [if_pos (by omega)]
      simp only [hmid]
      refine Sat.bind_ok (h.getAt hmlt) ?_
      by_cases hgt : value > vals[m]
      · rw [if_pos hgt]
        have hnext := ih (m + 1) hi m vals[m] hhi (by omega) (by omega) (.inr (by omega))
          (fun i hi' hlt => lt_of_le_of_lt (hmono i m hi' hmlt (by omega)) hgt) habove
        exact_mod_cast hnext
      · rw [if_neg hgt]
        by_cases hlt : value < vals[m]
        · rw [if_pos hlt]
          have hnext := ih lo m m vals[m] (by omega) (by omega) (by omega) (.inr (by omega)) hbelow
            (fun i hi' hle => lt_of_lt_of_le hlt (hmono m i hmlt hi' hle))
          exact_mod_cast hnext
        · rw [if_neg hlt]
          have heq : vals[m] = value := by omega
          exact .inl ⟨heq, m, hmlt, rfl, heq⟩
    · rw [if_neg (by omega)]
      obtain rfl : lo = hi := by omega
      have hne : cur ≠ value := by
        rcases hcur with hcur | hcur
        · exact absurd hcur hactive
        · exact hcur
      exact .inr ⟨hne, lo, rfl, hhi, hbelow, habove⟩

theorem SplitAt.not_mem {p : Nat} (h : SplitAt vals value p) : value ∉ vals := by
  intro hmem
  obtain ⟨i, hi, rfl⟩ := List.getElem_of_mem hmem
  rcases Nat.lt_or_ge i p with hip | hip
  · exact lt_irrefl _ (h.below i hi hip)
  · exact lt_irrefl _ (h.above i hi hip)

/-- **The search** finds the value, or the place where it belongs. -/
theorem intsetSearch_spec (h : is.Holds vals) (value : Int) :
    (∃ m, ∃ hm : m < vals.length, vals[m] = value ∧ intsetSearch is value = .ok (true, (m : Int))) ∨
      ∃ p : Nat, SplitAt vals value p ∧ intsetSearch is value = .ok (false, (p : Int)) := by
  have hmono := h.mono
  unfold intsetSearch
  by_cases hempty : is.length = 0
  · refine .inr ⟨0, ⟨by omega, fun i hi hlt => by omega, fun i hi => ?_⟩, ?_⟩
    · rw [← h.length, hempty] at hi
      omega
    · rw [if_pos hempty]
      rfl
  · have hlen : 0 < vals.length := by
      rw [← h.length]
      omega
    have hlast : intsetGetAt is ((is.length : Int) - 1) = .ok vals[vals.length - 1] := by
      rw [← h.getAt (by omega), h.length]
      congr 1
      omega
    rw [if_neg hempty, hlast, ok_bind]
    by_cases hgt : value > vals[vals.length - 1]
    · -- above the last one
      refine .inr ⟨vals.length, ⟨le_refl _, fun i hi _ => ?_, fun i hi hle => by omega⟩, ?_⟩
      · exact lt_of_le_of_lt (hmono i _ hi (by omega) (by omega)) hgt
      · rw [if_pos hgt, h.length]
        rfl
    · have hfirst : intsetGetAt is 0 = .ok vals[0] := h.getAt hlen
      rw [if_neg hgt, hfirst, ok_bind]
      by_cases hlt : value < vals[0]
      · refine .inr ⟨0, ⟨by omega, fun i hi hlt => by omega, fun i hi _ => ?_⟩, ?_⟩
        · exact lt_of_lt_of_le hlt (hmono 0 i hlen hi (by omega))
        · rw [if_pos hlt]
          rfl
      · have hloop : Sat (intsetSearchLoop is value (is.length + 1) (0 : Nat) (vals.length - 1) (-1) (-1))
            (SearchResult vals value) (fun _ => False) :=
          searchLoop_spec h (is.length + 1) 0 vals.length (-1) (-1) (le_refl _) (by omega)
            (by rw [h.length]; omega) (.inl hlen) (fun i hi hlt => by omega) (fun i hi hle => by omega)
        obtain ⟨r, hr, hresult⟩ := hloop.exists_ok
        rw [if_neg hlt, h.length]
        rw [h.length] at hr
        rw [show ((0 : Nat) : Int) = 0 from rfl] at hr
        rw [hr, ok_bind]
        rcases hresult with ⟨hcur, m, hm, hmid, hval⟩ | ⟨hcur, p, hmin, hsplit⟩
        · refine .inl ⟨m, hm, hval, ?_⟩
          rw [if_pos hcur.symm, hmid]
          rfl
        · refine .inr ⟨p, hsplit, ?_⟩
          rw [if_neg (Ne.symm hcur), hmin]
          rfl

end Search

/-! ### The change of width -/

section Upgrade

variable {is : Intset} {curenc : IntsetEnc}

/-- The loop of `intsetUpgradeAndAdd`.  The elements `A` are still narrow, the gap `G` makes room for the wide
    ones, and behind it the block is finished. -/
theorem upgradeLoop_spec (prepend : Nat) (hle : curenc.size ≤ is.encoding.size) (A : List Int) (G T : Bytes)
    (hfits : ∀ v ∈ A, Fits curenc v) (hc : is.contents = intsBytes curenc.size A ++ (G ++ T))
    (hG : A.length * curenc.size + G.length = (A.length + prepend) * is.encoding.size) :
    ∃ G', G'.length = prepend * is.encoding.size ∧
      upgradeLoop curenc prepend A.length is
        = .ok { is with contents := G' ++ (intsBytes is.encoding.size A ++ T) } := by
  induction A using List.reverseRecOn generalizing is G T with
  | nil =>
    have hc' : is.contents = G ++ T := by simpa [intsBytes] using hc
    refine ⟨G, by simpa using hG, ?_⟩
    show Except.ok is = _
    rw [show intsBytes is.encoding.size [] = [] from rfl, List.nil_append, ← hc']
  | append_singleton A v ih =>
    obtain ⟨w, hw⟩ : ∃ w, w = is.encoding.size := ⟨_, rfl⟩
    rw [List.length_append, List.length_singleton, ← hw] at hG
    rw [← hw] at hle
    -- the last narrow element, and where the wide one goes
    obtain ⟨M, hM⟩ : ∃ M, M = intBytes curenc.size v ++ G := ⟨_, rfl⟩
    obtain ⟨k, hk⟩ : ∃ k, k = (A.length + prepend) * w - A.length * curenc.size := ⟨_, rfl⟩
    have hroom : A.length * curenc.size ≤ (A.length + prepend) * w := by
      apply Nat.mul_le_mul (by omega) hle
    have hMlen : M.length = curenc.size + G.length := by rw [hM, List.length_append, length_intBytes]
    rw [Nat.add_mul, Nat.one_mul, show (A.length + 1 + prepend) * w = (A.length + prepend) * w + w by ring] at hG
    have hfit : Fits curenc v := hfits v (List.mem_append_right _ List.mem_cons_self)
    have hc' : is.contents = intsBytes curenc.size A ++ (intBytes curenc.size v ++ (G ++ T)) := by
      rw [hc, intsBytes_append, intsBytes_singleton, List.append_assoc]
    have hget : intsetGetEncoded is (A.length : Nat) curenc = .ok v :=
      getEncoded_append hc' (length_intsBytes _ _) hfit
    have hsplit : is.contents = (intsBytes curenc.size A ++ M.take k) ++ (M.drop k ++ T) := by
      rw [hc', List.append_assoc, ← List.append_assoc (M.take k), List.take_append_drop, hM, List.append_assoc]
    have hX : (intsBytes curenc.size A ++ M.take k).length = (A.length + prepend) * is.encoding.size := by
      rw [List.length_append, length_intsBytes, List.length_take, ← hw]
      omega
    have hY : (M.drop k).length = is.encoding.size := by
      rw [List.length_drop, ← hw]
      omega
    obtain ⟨next, hnext⟩ : ∃ next : Intset, next = { is with contents := (intsBytes curenc.size A ++ M.take k) ++
        (intBytes is.encoding.size v ++ T) } := ⟨_, rfl⟩
    have hset : intsetSet is ((A.length + prepend : Nat) : Int) v = .ok next := by
      rw [hnext]
      exact set_append hsplit hX hY v
    have henc : next.encoding.size = w := by rw [hnext, hw]
    obtain ⟨G', hG', hloop⟩ := ih (by rw [henc]; exact hle) (M.take k) (intBytes is.encoding.size v ++ T)
      (fun x hx => hfits x (List.mem_append_left _ hx)) (by rw [hnext, List.append_assoc])
      (by rw [List.length_append, length_intsBytes, ← hw] at hX; rw [henc]; exact hX)
    refine ⟨G', by rw [hG', henc, hw], ?_⟩
    rw [List.length_append, List.length_singleton]
    show (intsetGetEncoded is (A.length : Nat) curenc >>= fun v => _) = _
    rw [hget, ok_bind]
    show (intsetSet is ((A.length + prepend : Nat) : Int) v >>= fun is => _) = _
    rw [hset, ok_bind, hloop, hnext, intsBytes_append, intsBytes_singleton,
      List.append_assoc (intsBytes is.encoding.size A)]

end Upgrade

/-! ### Changes -/

section Changes

variable {is : Intset} {vals : List Int} {value : Int} (junk : Nat → UInt8)

/-- The wider of two encodings. -/
def IntsetEnc.max (a b : IntsetEnc) : IntsetEnc := if a.size < b.size then b else a

theorem intsetResize_eq {len : Nat} (h : 8 + len * is.encoding.size < 4294967296) :
    intsetResize junk is len = .ok { is with contents := zrealloc junk is.contents (len * is.encoding.size) } := by
  unfold intsetResize
  rw [if_neg (by omega)]
  rfl

theorem Fits.mono {a b : IntsetEnc} (h : a.size ≤ b.size) {v : Int} (hv : Fits a v) : Fits b v := by
  have hpow : (256 : Int) ^ a.size ≤ 256 ^ b.size := pow_le_pow_right₀ (by decide) h
  unfold Fits at *
  omega

/-- A value that is too wide for the encoding lies outside of the range of the others. -/
theorem lt_of_not_fits {enc : IntsetEnc} {v x : Int} (hv : ¬ Fits enc v) (hx : Fits enc x) :
    (v < 0 → v < x) ∧ (0 ≤ v → x < v) := by
  unfold Fits at *
  constructor <;> intro h <;> omega

/-- **`intsetUpgradeAndAdd`** puts the value at one of the ends. -/
theorem intsetUpgradeAndAdd_spec (h : is.Holds vals) (hvalue : Fits .int64 value)
    (hwide : is.encoding.size < (intsetValueEncoding value).size)
    (hsmall : 8 + (vals.length + 1) * (intsetValueEncoding value).size < 4294967296) :
    ∃ is', intsetUpgradeAndAdd junk is value = .ok is' ∧ is'.encoding = intsetValueEncoding value ∧
      is'.Holds (if value < 0 then value :: vals else vals ++ [value]) := by
  obtain ⟨enc, henc⟩ : ∃ enc, enc = intsetValueEncoding value := ⟨_, rfl⟩
  rw [← henc] at hwide hsmall ⊢
  have hfits : Fits enc value := by
    rw [henc]
    exact (size_valueEncoding_le_iff hvalue).mp (le_refl _)
  have hnot : ¬ Fits is.encoding value := by
    rw [← size_valueEncoding_le_iff hvalue, ← henc]
    omega
  have hold : (intsBytes is.encoding.size vals).length ≤ (vals.length + 1) * enc.size := by
    rw [length_intsBytes]
    exact Nat.mul_le_mul (by omega) hwide.le
  obtain ⟨fresh, hfresh, hlen⟩ := zrealloc_grow junk _ hold
  rw [length_intsBytes] at hlen
  obtain ⟨wide, hwideEq⟩ : ∃ wide : Intset, wide = ⟨enc, is.length, intsBytes is.encoding.size vals ++ fresh⟩ := ⟨_, rfl⟩
  have hresize : intsetResize junk { is with encoding := enc } (is.length + 1) = .ok wide := by
    rw [h.length, intsetResize_eq junk hsmall, hwideEq, h.length, ← hfresh, ← h.contents]
  have hle : is.encoding.size ≤ wide.encoding.size := by
    rw [hwideEq]
    exact hwide.le
  have hunfold : intsetUpgradeAndAdd junk is value
      = (upgradeLoop is.encoding (if value < 0 then 1 else 0) vals.length wide >>= fun is =>
        intsetSet is (if (if value < 0 then 1 else 0) = 1 then 0 else is.length) value >>= fun is =>
          .ok { is with length := is.length + 1 }) := by
    unfold intsetUpgradeAndAdd
    rw [← henc, hresize, ok_bind, show wide.length = vals.length by rw [hwideEq, h.length]]
    rfl
  have hall : ∀ v ∈ vals, Fits enc v := fun v hv => (h.fits v hv).mono hwide.le
  rw [hunfold]
  by_cases hneg : value < 0
  · -- the value goes to the front
    simp only [if_pos hneg]
    obtain ⟨G, hG, hloop⟩ := upgradeLoop_spec 1 hle vals fresh [] h.fits (by rw [hwideEq, List.append_nil])
      (by rw [hwideEq]; exact hlen)
    rw [hloop, ok_bind, hwideEq]
    rw [hwideEq, Nat.one_mul] at hG
    have hset : intsetSet ⟨enc, is.length, G ++ (intsBytes enc.size vals ++ [])⟩ (0 : Nat) value
        = .ok ⟨enc, is.length, [] ++ (intBytes enc.size value ++ (intsBytes enc.size vals ++ []))⟩ := by
      refine set_append rfl ?_ ?_ value
      · rw [Nat.zero_mul]
        rfl
      · exact hG
    simp only [if_true]
    rw [show (0 : Int) = (0 : Nat) from rfl, hset, ok_bind]
    refine ⟨_, rfl, rfl, ?_, ?_, ?_, ?_, ?_⟩
    · show is.length + 1 = _
      rw [h.length, List.length_cons]
    · show [] ++ (intBytes enc.size value ++ (intsBytes enc.size vals ++ [])) = intsBytes enc.size (value :: vals)
      rw [List.nil_append, List.append_nil, intsBytes_cons]
    · exact List.pairwise_cons.mpr ⟨fun x hx => (lt_of_not_fits hnot (h.fits x hx)).1 hneg, h.sorted⟩
    · intro v hv
      rcases List.mem_cons.mp hv with rfl | hv
      · exact hfits
      · exact hall v hv
    · exact hsmall
  · -- the value goes to the end
    simp only [if_neg hneg]
    have hroom : vals.length * is.encoding.size ≤ vals.length * enc.size := Nat.mul_le_mul_left _ hwide.le
    obtain ⟨k, hk⟩ : ∃ k, k = vals.length * enc.size - vals.length * is.encoding.size := ⟨_, rfl⟩
    rw [Nat.add_mul, Nat.one_mul] at hlen
    obtain ⟨G, hG, hloop⟩ := upgradeLoop_spec 0 hle vals (fresh.take k) (fresh.drop k) h.fits
      (by rw [hwideEq, List.take_append_drop]) (by
        rw [hwideEq, List.length_take, Nat.add_zero]
        show _ = vals.length * enc.size
        omega)
    rw [hwideEq, Nat.zero_mul] at hG
    obtain rfl := List.length_eq_zero_iff.mp hG
    have hset : intsetSet ⟨enc, is.length, intsBytes enc.size vals ++ (fresh.drop k ++ [])⟩ (is.length : Nat) value
        = .ok ⟨enc, is.length, intsBytes enc.size vals ++ (intBytes enc.size value ++ [])⟩ := by
      refine set_append rfl ?_ ?_ value
      · rw [length_intsBytes, h.length]
      · rw [List.length_drop]
        show _ = enc.size
        omega
    rw [hloop, ok_bind, hwideEq]
    simp only [Nat.zero_ne_one, if_false, List.nil_append]
    rw [List.append_nil] at hset
    rw [hset, ok_bind]
    refine ⟨_, rfl, rfl, ?_, ?_, ?_, ?_, ?_⟩
    · show is.length + 1 = _
      rw [h.length, List.length_append, List.length_singleton]
    · show intsBytes enc.size vals ++ (intBytes enc.size value ++ []) = _
      rw [intsBytes_append, intsBytes_singleton, List.append_nil]
    · refine List.pairwise_append.mpr ⟨h.sorted, List.pairwise_singleton _ _, fun x hx y hy => ?_⟩
      rw [List.mem_singleton.mp hy]
      exact (lt_of_not_fits hnot (h.fits x hx)).2 (by omega)
    · intro v hv
      rcases List.mem_append.mp hv with hv | hv
      · exact hall v hv
      · rw [List.mem_singleton.mp hv]
        exact hfits
    · rw [List.length_append, List.length_singleton]
      exact hsmall

/-- A value is put between the others. -/
theorem insertAt_spec (h : is.Holds vals) {p : Nat} (hsplit : SplitAt vals value p) (hfits : Fits is.encoding value)
    (hsmall : 8 + (vals.length + 1) * is.encoding.size < 4294967296) :
    ∃ is', (intsetResize junk is (is.length + 1) >>= fun is => moveTailIf (p < is.length) is p (p + 1) >>= fun is =>
        intsetSet is p value >>= fun is => .ok { is with length := is.length + 1 }) = .ok is' ∧
      is'.encoding = is.encoding ∧ is'.Holds (vals.take p ++ value :: vals.drop p) := by
  obtain ⟨w, hw⟩ : ∃ w, w = is.encoding.size := ⟨_, rfl⟩
  obtain ⟨A, hA⟩ : ∃ A, A = intsBytes w (vals.take p) := ⟨_, rfl⟩
  obtain ⟨B, hB⟩ : ∃ B, B = intsBytes w (vals.drop p) := ⟨_, rfl⟩
  have hp := hsplit.le
  have hAlen : A.length = p * w := by
    rw [hA, length_intsBytes, List.length_take, Nat.min_eq_left hp]
  have hBlen : B.length = (vals.length - p) * w := by
    rw [hB, length_intsBytes, List.length_drop]
  have hcontents : is.contents = A ++ B := by
    rw [hA, hB, ← intsBytes_append, List.take_append_drop, hw]
    exact h.contents
  have htotal : p * w + (vals.length - p) * w = vals.length * w := by
    rw [← Nat.add_mul, Nat.add_sub_cancel' hp]
  have hgrow : is.contents.length ≤ (vals.length + 1) * w := by
    rw [hcontents, List.length_append, Nat.add_mul]
    omega
  obtain ⟨fresh, hfresh, hlen⟩ := zrealloc_grow junk is.contents hgrow
  rw [hcontents, List.length_append, Nat.add_mul] at hlen
  have hroom : fresh.length = w := by omega
  -- the tail makes room
  have hmove : ∃ Y, Y.length = w ∧ moveTailIf (p < is.length) ⟨is.encoding, is.length, (A ++ B) ++ fresh⟩ p (p + 1)
      = .ok ⟨is.encoding, is.length, A ++ (Y ++ B)⟩ := by
    unfold moveTailIf
    by_cases hlt : p < is.length
    · rw [if_pos (by simpa using hlt)]
      have hsrc : slice? ((A ++ (B ++ fresh).take w) ++ ((B ++ fresh).drop w ++ [])) (p * w) ((is.length - p) * w)
          = some B := by
        rw [List.append_nil, List.append_assoc, List.take_append_drop]
        exact slice?_append hAlen.symm (by rw [hBlen, h.length])
      have hdst : (p + 1) * w = (A ++ (B ++ fresh).take w).length := by
        rw [List.length_append, hAlen, List.length_take, List.length_append, hroom, Nat.add_mul]
        omega
      have hmem := memmove?_append hsrc hdst (by rw [List.length_drop, List.length_append]; omega)
      refine ⟨(B ++ fresh).take w, ?_, ?_⟩
      · rw [List.length_take, List.length_append]
        omega
      · unfold intsetMoveTail
        rw [List.append_nil, List.append_assoc, List.take_append_drop, List.append_nil] at hmem
        simp only [← hw, List.append_assoc] at hmem ⊢
        rw [hmem]
    · rw [if_neg (by simpa using hlt)]
      have hnil : B = [] := by
        rw [← List.length_eq_zero_iff, hBlen, ← h.length, Nat.sub_eq_zero_of_le (by omega), Nat.zero_mul]
      refine ⟨fresh, hroom, ?_⟩
      rw [hnil, List.append_nil, List.append_nil]
  obtain ⟨Y, hY, hmove⟩ := hmove
  have hset : intsetSet ⟨is.encoding, is.length, A ++ (Y ++ B)⟩ (p : Nat) value
      = .ok ⟨is.encoding, is.length, A ++ (intBytes is.encoding.size value ++ B)⟩ := by
    refine set_append rfl ?_ ?_ value
    · rw [hAlen, hw]
    · rw [hY, hw]
  refine ⟨⟨is.encoding, is.length + 1, A ++ (intBytes is.encoding.size value ++ B)⟩, ?_, rfl, ?_⟩
  · rw [h.length, intsetResize_eq junk hsmall, ok_bind, ← hw, hfresh, hcontents, ← h.length]
    show (moveTailIf (p < is.length) ⟨is.encoding, is.length, (A ++ B) ++ fresh⟩ p (p + 1) >>= fun is => _) = _
    rw [hmove, ok_bind, hset, hw]
    rfl
  · constructor
    · show is.length + 1 = _
      rw [h.length, List.length_append, List.length_cons, List.length_take, List.length_drop]
      omega
    · show A ++ (intBytes is.encoding.size value ++ B) = _
      rw [intsBytes_append, intsBytes_cons, hA, hB, hw]
    · refine List.pairwise_append.mpr ⟨h.sorted.sublist (List.take_sublist _ _),
        List.pairwise_cons.mpr ⟨fun x hx => ?_, h.sorted.sublist (List.drop_sublist _ _)⟩, fun x hx y hy => ?_⟩
      · obtain ⟨i, hi, rfl⟩ := List.getElem_of_mem hx
        rw [List.getElem_drop]
        exact hsplit.above _ _ (by omega)
      · have hlow : x < value := by
          obtain ⟨i, hi, rfl⟩ := List.getElem_of_mem hx
          rw [List.getElem_take]
          rw [List.length_take] at hi
          exact hsplit.below _ _ (by omega)
        rcases List.mem_cons.mp hy with rfl | hy
        · exact hlow
        · obtain ⟨i, hi, rfl⟩ := List.getElem_of_mem hy
          rw [List.getElem_drop]
          exact hlow.trans (hsplit.above _ _ (by omega))
    · intro v hv
      rcases List.mem_append.mp hv with hv | hv
      · exact h.fits v (List.mem_of_mem_take hv)
      · rcases List.mem_cons.mp hv with rfl | hv
        · exact hfits
        · exact h.fits v (List.mem_of_mem_drop hv)
    · rw [List.length_append, List.length_cons, List.length_take, List.length_drop, Nat.min_eq_left hp,
        show p + (vals.length - p + 1) = vals.length + 1 by omega]
      exact hsmall

/-- A value is taken out. -/
theorem removeAt_spec (h : is.Holds vals) {m : Nat} (hm : m < vals.length) :
    ∃ is', (moveTailIf (m < is.length - 1) is (m + 1) m >>= fun is' =>
        intsetResize junk is' (is.length - 1) >>= fun is' => .ok { is' with length := is.length - 1 }) = .ok is' ∧
      is'.encoding = is.encoding ∧ is'.Holds (vals.take m ++ vals.drop (m + 1)) := by
  obtain ⟨w, hw⟩ : ∃ w, w = is.encoding.size := ⟨_, rfl⟩
  obtain ⟨A, hA⟩ : ∃ A, A = intsBytes w (vals.take m) := ⟨_, rfl⟩
  obtain ⟨B, hB⟩ : ∃ B, B = intsBytes w (vals.drop (m + 1)) := ⟨_, rfl⟩
  obtain ⟨b, hb⟩ : ∃ b, b = intBytes w vals[m] := ⟨_, rfl⟩
  have hAlen : A.length = m * w := by
    rw [hA, length_intsBytes, List.length_take, Nat.min_eq_left hm.le]
  have hBlen : B.length = (vals.length - (m + 1)) * w := by
    rw [hB, length_intsBytes, List.length_drop]
  have hblen : b.length = w := by rw [hb, length_intBytes]
  have hcontents : is.contents = A ++ (b ++ B) := by
    rw [hA, hB, hb, ← intsBytes_cons, ← List.drop_eq_getElem_cons hm, ← intsBytes_append, List.take_append_drop, hw]
    exact h.contents
  have htotal : (vals.length - 1) * w = A.length + B.length := by
    rw [hAlen, hBlen, ← Nat.add_mul]
    congr 1
    omega
  have hmove : ∃ Z, moveTailIf (m < is.length - 1) is (m + 1) m
      = .ok ⟨is.encoding, is.length, A ++ (B ++ Z)⟩ := by
    unfold moveTailIf
    by_cases hlt : m < is.length - 1
    · rw [if_pos (by simpa using hlt)]
      obtain ⟨M, hM⟩ : ∃ M, M = b ++ B := ⟨_, rfl⟩
      have hsrc : slice? (A ++ (M.take B.length ++ M.drop B.length)) ((m + 1) * w) ((is.length - (m + 1)) * w)
          = some B := by
        rw [List.take_append_drop, hM, ← List.append_assoc]
        have hslice := slice?_append (A := A ++ b) (B := B) (C := []) (p := (m + 1) * w)
          (n := (is.length - (m + 1)) * w) (by rw [List.length_append, hAlen, hblen, Nat.add_mul, Nat.one_mul])
          (by rw [hBlen, h.length])
        rwa [List.append_nil] at hslice
      have hmem := memmove?_append hsrc hAlen.symm (by
        rw [List.length_take, hM, List.length_append]
        omega)
      rw [List.take_append_drop, hM, ← hcontents] at hmem
      refine ⟨(b ++ B).drop B.length, ?_⟩
      unfold intsetMoveTail
      rw [← hw, hmem]
    · rw [if_neg (by simpa using hlt)]
      have hnil : B = [] := by
        rw [← List.length_eq_zero_iff, hBlen, ← h.length, Nat.sub_eq_zero_of_le (by omega), Nat.zero_mul]
      refine ⟨b, ?_⟩
      rw [hnil, List.nil_append]
      rw [hnil, List.append_nil] at hcontents
      rw [← hcontents]
  obtain ⟨Z, hmove⟩ := hmove
  have hpos : 0 < is.length := by
    rw [h.length]
    omega
  have hsmall : 8 + (is.length - 1) * is.encoding.size < 4294967296 := by
    have hle : (is.length - 1) * is.encoding.size ≤ vals.length * is.encoding.size :=
      Nat.mul_le_mul_right _ (by rw [h.length]; omega)
    have := h.small
    omega
  have hshrink : zrealloc junk (A ++ (B ++ Z)) ((is.length - 1) * w) = A ++ B := by
    rw [h.length, htotal, zrealloc_shrink junk _ (by rw [List.length_append, List.length_append]; omega),
      ← List.append_assoc, ← List.length_append, List.take_left]
  refine ⟨⟨is.encoding, is.length - 1, A ++ B⟩, ?_, rfl, ?_⟩
  · rw [hmove, ok_bind]
    have hresize : intsetResize junk ⟨is.encoding, is.length, A ++ (B ++ Z)⟩ (is.length - 1)
        = .ok ⟨is.encoding, is.length, zrealloc junk (A ++ (B ++ Z)) ((is.length - 1) * is.encoding.size)⟩ :=
      intsetResize_eq junk hsmall
    rw [hresize, ok_bind, ← hw, hshrink]
  · constructor
    · show is.length - 1 = _
      rw [h.length, List.length_append, List.length_take, List.length_drop]
      omega
    · show A ++ B = _
      rw [intsBytes_append, hA, hB, hw]
    · have hsub : (vals.take m ++ vals.drop (m + 1)).Sublist vals := by
        have hsub := (List.Sublist.refl (vals.take m)).append (List.drop_sublist_drop_left vals (Nat.le_succ m))
        rwa [List.take_append_drop] at hsub
      exact h.sorted.sublist hsub
    · intro v hv
      rcases List.mem_append.mp hv with hv | hv
      · exact h.fits v (List.mem_of_mem_take hv)
      · exact h.fits v (List.mem_of_mem_drop hv)
    · rw [List.length_append, List.length_take, List.length_drop, Nat.min_eq_left hm.le,
        show m + (vals.length - (m + 1)) = is.length - 1 by rw [h.length]; omega]
      exact hsmall

/-- The list without one of its elements. -/
theorem mem_append_of_nodup {A B : List Int} {v x : Int} (h : (A ++ v :: B).Nodup) :
    x ∈ A ++ B ↔ x ≠ v ∧ x ∈ A ++ v :: B := by
  have hnot : v ∉ A ++ B := (List.nodup_cons.mp (List.nodup_middle.mp h)).1
  rw [List.mem_append, List.mem_append, List.mem_cons]
  constructor
  · intro hx
    refine ⟨?_, hx.imp_right .inr⟩
    rintro rfl
    exact hnot (List.mem_append.mpr hx)
  · intro ⟨hne, hx⟩
    exact hx.imp_right fun hx => hx.resolve_left hne

/-- **`intsetAdd`**: it fails only if the set becomes too large. -/
theorem intsetAdd_spec (h : is.Holds vals) (hvalue : Fits .int64 value) :
    Sat (intsetAdd junk is value)
      (fun r => ∃ vals', r.1.Holds vals' ∧ r.1.encoding = is.encoding.max (intsetValueEncoding value) ∧
        (∀ x, x ∈ vals' ↔ x = value ∨ x ∈ vals) ∧ r.2 = decide (value ∉ vals))
      (fun _ => value ∉ vals ∧
        4294967296 ≤ 8 + (vals.length + 1) * (is.encoding.max (intsetValueEncoding value)).size) := by
  unfold intsetAdd IntsetEnc.max
  by_cases hwide : is.encoding.size < (intsetValueEncoding value).size
  · rw [if_pos hwide, if_pos hwide]
    have hnot : value ∉ vals := by
      intro hmem
      have := (size_valueEncoding_le_iff hvalue).mpr (h.fits value hmem)
      omega
    by_cases hsmall : 8 + (vals.length + 1) * (intsetValueEncoding value).size < 4294967296
    · obtain ⟨is', his', henc, hholds⟩ := intsetUpgradeAndAdd_spec junk h hvalue hwide hsmall
      refine Sat.bind_ok his' ?_
      refine ⟨_, hholds, henc, fun x => ?_, (decide_eq_true hnot).symm⟩
      split
      · exact List.mem_cons
      · rw [List.mem_append, List.mem_singleton, or_comm]
    · have herror : intsetResize junk { is with encoding := intsetValueEncoding value } (is.length + 1)
          = .error (.overflow (8 + (is.length + 1) * (intsetValueEncoding value).size)) := by
        rw [h.length]
        exact if_pos (show 4294967296 ≤ 8 + (vals.length + 1) * (intsetValueEncoding value).size by omega)
      unfold intsetUpgradeAndAdd
      rw [herror]
      exact ⟨hnot, by omega⟩
  · rw [if_neg hwide, if_neg hwide]
    have hfits : Fits is.encoding value := (size_valueEncoding_le_iff hvalue).mp (by omega)
    rcases intsetSearch_spec h value with ⟨m, hm, rfl, hsearch⟩ | ⟨p, hsplit, hsearch⟩
    · rw [hsearch, ok_bind]
      have hmem : vals[m] ∈ vals := List.getElem_mem hm
      refine ⟨vals, h, rfl, fun x => ⟨.inr, fun hx => ?_⟩, (decide_eq_false (not_not.mpr hmem)).symm⟩
      rcases hx with rfl | hx
      · exact hmem
      · exact hx
    · have hnot := hsplit.not_mem
      rw [hsearch, ok_bind]
      simp only [Bool.false_eq_true, if_false, Int.toNat_natCast]
      by_cases hsmall : 8 + (vals.length + 1) * is.encoding.size < 4294967296
      · obtain ⟨is', his', henc, hholds⟩ := insertAt_spec junk h hsplit hfits hsmall
        obtain ⟨a, ha, his'⟩ := bind_eq_ok.mp his'
        obtain ⟨b, hb, his'⟩ := bind_eq_ok.mp his'
        obtain ⟨c, hc, his'⟩ := bind_eq_ok.mp his'
        rw [ha, ok_bind, hb, ok_bind, hc, ok_bind]
        obtain rfl := Except.ok.inj his'
        refine ⟨_, hholds, henc, fun x => ?_, (decide_eq_true hnot).symm⟩
        rw [List.mem_append, List.mem_cons, or_left_comm, ← List.mem_append, List.take_append_drop]
      · unfold intsetResize
        rw [if_pos (by rw [h.length]; omega)]
        exact ⟨hnot, by omega⟩

/-- **`intsetRemove`** never fails. -/
theorem intsetRemove_spec (h : is.Holds vals) (hvalue : Fits .int64 value) :
    ∃ r, intsetRemove junk is value = .ok r ∧ ∃ vals', r.1.Holds vals' ∧ r.1.encoding = is.encoding ∧
      (∀ x, x ∈ vals' ↔ x ≠ value ∧ x ∈ vals) ∧ r.2 = decide (value ∈ vals) := by
  unfold intsetRemove
  by_cases hfits : (intsetValueEncoding value).size ≤ is.encoding.size
  · rw [if_pos hfits]
    rcases intsetSearch_spec h value with ⟨m, hm, rfl, hsearch⟩ | ⟨p, hsplit, hsearch⟩
    · rw [hsearch, ok_bind]
      simp only [if_true, Int.toNat_natCast]
      obtain ⟨is', his', henc, hholds⟩ := removeAt_spec junk h hm
      obtain ⟨a, ha, his'⟩ := bind_eq_ok.mp his'
      obtain ⟨b, hb, his'⟩ := bind_eq_ok.mp his'
      rw [ha, ok_bind, hb, ok_bind]
      obtain rfl := Except.ok.inj his'
      refine ⟨_, rfl, _, hholds, henc, fun x => ?_, (decide_eq_true (List.getElem_mem hm)).symm⟩
      have hmiddle : vals.take m ++ vals[m] :: vals.drop (m + 1) = vals := by
        rw [← List.drop_eq_getElem_cons hm, List.take_append_drop]
      have hnodup : (vals.take m ++ vals[m] :: vals.drop (m + 1)).Nodup := by
        rw [hmiddle]
        exact h.sorted.imp fun hlt => hlt.ne
      rw [mem_append_of_nodup hnodup, hmiddle]
    · have hnot := hsplit.not_mem
      rw [hsearch, ok_bind]
      refine ⟨_, rfl, vals, h, rfl, fun x => ⟨fun hx => ⟨?_, hx⟩, fun hx => hx.2⟩, (decide_eq_false hnot).symm⟩
      rintro rfl
      exact hnot hx
  · rw [if_neg hfits]
    have hnot : value ∉ vals := fun hmem => hfits ((size_valueEncoding_le_iff hvalue).mpr (h.fits value hmem))
    refine ⟨_, rfl, vals, h, rfl, fun x => ⟨fun hx => ⟨?_, hx⟩, fun hx => hx.2⟩, (decide_eq_false hnot).symm⟩
    rintro rfl
    exact hnot hx

theorem intsetFind_spec (h : is.Holds vals) (hvalue : Fits .int64 value) :
    intsetFind is value = .ok (decide (value ∈ vals)) := by
  unfold intsetFind
  by_cases hfits : (intsetValueEncoding value).size ≤ is.encoding.size
  · rw [if_pos hfits]
    rcases intsetSearch_spec h value with ⟨m, hm, rfl, hsearch⟩ | ⟨p, hsplit, hsearch⟩
    · rw [hsearch, decide_eq_true (List.getElem_mem hm)]
      rfl
    · rw [hsearch, decide_eq_false hsplit.not_mem]
      rfl
  · have hnot : value ∉ vals := fun hmem => hfits ((size_valueEncoding_le_iff hvalue).mpr (h.fits value hmem))
    rw [if_neg hfits, decide_eq_false hnot]
    rfl

theorem intsetGet_spec (h : is.Holds vals) (pos : Nat) : intsetGet is pos = .ok vals[pos]? := by
  unfold intsetGet
  by_cases hpos : pos < is.length
  · have hlt : pos < vals.length := by rwa [← h.length]
    rw [if_pos hpos, h.getAt hlt, List.getElem?_eq_getElem hlt]
    rfl
  · rw [if_neg hpos, List.getElem?_eq_none (by rw [← h.length]; omega)]
    rfl

end Changes

/-! ### Any sequence of changes -/

/-- `intsetAdd` and `intsetRemove`. -/
inductive SetOp
  | add (v : Int64)
  | remove (v : Int64)

/-- The set after a change. -/
def SetOp.apply (S : Finset Int) : SetOp → Finset Int
  | .add v => insert v.toInt S
  | .remove v => S.erase v.toInt

/-- The set after a sequence of changes. -/
def setAfter (ops : List SetOp) : Finset Int := ops.foldl SetOp.apply ∅

/-- Which of the changes do change the set. -/
def changes (S : Finset Int) : List SetOp → List Bool
  | [] => []
  | op :: ops => decide (op.apply S ≠ S) :: changes (op.apply S) ops

/-- The width that the values added so far need. -/
def encodingAfter (ops : List SetOp) : IntsetEnc :=
  ops.foldl (fun enc op =>
    match op with
    | .add v => enc.max (intsetValueEncoding v.toInt)
    | .remove _ => enc) .int16

section Runs

variable (junk : Nat → UInt8)

def SetOp.run (is : Intset) : SetOp → Except IntsetFault (Intset × Bool)
  | .add v => intsetAdd junk is v.toInt
  | .remove v => intsetRemove junk is v.toInt

/-- One change, with the flags of the earlier ones. -/
def intsetStep (r : Intset × List Bool) (op : SetOp) : Except IntsetFault (Intset × List Bool) := do
  let x ← op.run junk r.1
  return (x.1, r.2 ++ [x.2])

/-- A sequence of changes of a new intset, with their flags. -/
def intsetRun (ops : List SetOp) : Except IntsetFault (Intset × List Bool) :=
  ops.foldlM (intsetStep junk) (intsetNew, [])

/-- The value was added, and not removed since. -/
def AddedSince (ops : List SetOp) (v : Int) : Prop :=
  ∃ before x after, ops = before ++ .add x :: after ∧ x.toInt = v ∧ ∀ y, .remove y ∈ after → y.toInt ≠ v

/-- The block of the set would take 32 bits or more to count: `before` is fine, and one more value is not. -/
def TooLarge (ops : List SetOp) : Prop :=
  ∃ before v after, ops = before ++ .add v :: after ∧ v.toInt ∉ setAfter before ∧
    4294967296 ≤ 8 + ((setAfter before).card + 1) * (encodingAfter (before ++ [.add v])).size

/-- What is true of an intset after a sequence of changes. -/
structure SortedSet (ops : List SetOp) (is : Intset) (flags : List Bool) (vals : List Int) : Prop where
  /-- The contents, decoded with the encoding. -/
  get : ∀ pos, intsetGet is pos = .ok vals[pos]?
  bytes : is.contents = intsBytes is.encoding.size vals
  increasing : vals.Pairwise (· < ·)
  length : is.length = vals.length
  fits : ∀ v ∈ vals, Fits is.encoding v
  mem : ∀ v, v ∈ vals ↔ AddedSince ops v
  find : ∀ v : Int64, intsetFind is v.toInt = .ok (decide (v.toInt ∈ vals))
  /-- The flags tell which changes did change the set. -/
  flags : flags = changes ∅ ops

theorem fits_toInt (v : Int64) : Fits .int64 v.toInt := by
  have hlo := v.le_toInt
  have hhi := v.toInt_lt
  unfold Fits
  rw [size_int64]
  omega

variable (ops : List SetOp)

theorem setAfter_append (op : SetOp) : setAfter (ops ++ [op]) = op.apply (setAfter ops) := by
  unfold setAfter
  rw [List.foldl_append]
  rfl

theorem changes_append (S : Finset Int) (ops : List SetOp) (op : SetOp) :
    changes S (ops ++ [op]) = changes S ops ++ [decide (op.apply (ops.foldl SetOp.apply S) ≠ ops.foldl SetOp.apply S)] := by
  induction ops generalizing S with
  | nil => rfl
  | cons x ops ih =>
    show decide _ :: changes _ (ops ++ [op]) = decide _ :: (changes _ ops ++ _)
    rw [ih]
    rfl

theorem addedSince_append_add (x : Int64) (v : Int) :
    AddedSince (ops ++ [.add x]) v ↔ v = x.toInt ∨ AddedSince ops v := by
  constructor
  · intro ⟨before, y, after, heq, hy, hafter⟩
    induction after using List.reverseRecOn with
    | nil =>
      obtain ⟨-, hlast⟩ := List.append_inj' heq rfl
      cases hlast
      exact .inl hy.symm
    | append_singleton after op _ =>
      rw [← List.cons_append, ← List.append_assoc] at heq
      obtain ⟨rfl, -⟩ := List.append_inj' heq rfl
      exact .inr ⟨before, y, after, rfl, hy, fun z hz => hafter z (List.mem_append_left _ hz)⟩
  · intro h
    rcases h with rfl | ⟨before, y, after, rfl, hy, hafter⟩
    · exact ⟨ops, x, [], rfl, rfl, fun y hy => absurd hy List.not_mem_nil⟩
    · refine ⟨before, y, after ++ [.add x], by rw [List.append_assoc]; rfl, hy, fun z hz => ?_⟩
      rcases List.mem_append.mp hz with hz | hz
      · exact hafter z hz
      · cases List.mem_singleton.mp hz

theorem addedSince_append_remove (x : Int64) (v : Int) :
    AddedSince (ops ++ [.remove x]) v ↔ v ≠ x.toInt ∧ AddedSince ops v := by
  constructor
  · intro ⟨before, y, after, heq, hy, hafter⟩
    induction after using List.reverseRecOn with
    | nil =>
      obtain ⟨-, hlast⟩ := List.append_inj' heq rfl
      cases hlast
    | append_singleton after op _ =>
      rw [← List.cons_append, ← List.append_assoc] at heq
      obtain ⟨rfl, hlast⟩ := List.append_inj' heq rfl
      cases hlast
      have hlast := hafter x (List.mem_append_right _ List.mem_cons_self)
      exact ⟨hlast.symm, before, y, after, rfl, hy, fun z hz => hafter z (List.mem_append_left _ hz)⟩
  · intro ⟨hne, before, y, after, hops, hy, hafter⟩
    subst hops
    refine ⟨before, y, after ++ [.remove x], by rw [List.append_assoc]; rfl, hy, fun z hz => ?_⟩
    rcases List.mem_append.mp hz with hz | hz
    · exact hafter z hz
    · cases List.mem_singleton.mp hz
      exact hne.symm

/-- The set is what was added and not removed since. -/
theorem mem_setAfter_iff (v : Int) : v ∈ setAfter ops ↔ AddedSince ops v := by
  induction ops using List.reverseRecOn with
  | nil =>
    refine iff_of_false (Finset.notMem_empty v) ?_
    intro ⟨before, x, after, heq, _⟩
    cases before <;> cases heq
  | append_singleton ops op ih =>
    rw [setAfter_append]
    cases op with
    | add x =>
      rw [addedSince_append_add, ← ih]
      exact Finset.mem_insert
    | remove x =>
      rw [addedSince_append_remove, ← ih]
      exact Finset.mem_erase

/-- What the intset is while the changes are made. -/
structure Tracks (ops : List SetOp) (r : Intset × List Bool) (vals : List Int) : Prop where
  holds : r.1.Holds vals
  encoding : r.1.encoding = encodingAfter ops
  mem : ∀ v, v ∈ vals ↔ v ∈ setAfter ops
  flags : r.2 = changes ∅ ops

theorem Tracks.card {ops : List SetOp} {r : Intset × List Bool} {vals : List Int} (h : Tracks ops r vals) :
    (setAfter ops).card = vals.length := by
  have hnodup : vals.Nodup := h.holds.sorted.imp fun hlt => hlt.ne
  have hset : setAfter ops = vals.toFinset := by
    ext v
    rw [List.mem_toFinset, h.mem]
  rw [hset, List.toFinset_card_of_nodup hnodup]

theorem encodingAfter_append (v : Int64) :
    encodingAfter (ops ++ [.add v]) = (encodingAfter ops).max (intsetValueEncoding v.toInt) := by
  unfold encodingAfter
  rw [List.foldl_append]
  rfl

theorem encodingAfter_append_remove (v : Int64) :
    encodingAfter (ops ++ [.remove v]) = encodingAfter ops := by
  unfold encodingAfter
  rw [List.foldl_append]
  rfl

/-- **Step lemma**. -/
theorem intsetStep_spec {done : List SetOp} {r : Intset × List Bool} {vals : List Int} (h : Tracks done r vals)
    (op : SetOp) (rest : List SetOp) :
    Sat (intsetStep junk r op) (fun r' => ∃ vals', Tracks (done ++ [op]) r' vals')
      (fun _ => TooLarge (done ++ op :: rest)) := by
  have hset : ∀ S' : Finset Int, setAfter done = S' → changes ∅ (done ++ [op]) = r.2 ++ [decide (op.apply S' ≠ S')] := by
    intro S' hS'
    rw [changes_append, ← h.flags, ← hS']
    rfl
  unfold intsetStep
  cases op with
  | add v =>
    refine Sat.bind ((intsetAdd_spec junk h.holds (fits_toInt v)).mono (fun _ hr => hr) fun e he => ?_) fun x hx => ?_
    · refine ⟨done, v, rest, rfl, ?_, ?_⟩
      · rw [← h.mem]
        exact he.1
      · rw [encodingAfter_append, h.card, ← h.encoding]
        exact he.2
    · obtain ⟨vals', hholds, henc, hmem, hflag⟩ := hx
      refine (sat_pure _ _ _).mpr ⟨vals', hholds, ?_, fun u => ?_, ?_⟩
      · rw [encodingAfter_append, ← h.encoding]
        exact henc
      · rw [setAfter_append, hmem, h.mem]
        exact Finset.mem_insert.symm
      · have hchange : insert v.toInt (setAfter done) ≠ setAfter done ↔ v.toInt ∉ vals := by
          rw [Ne, Finset.insert_eq_self, h.mem]
        rw [hset _ rfl]
        show r.2 ++ [x.2] = r.2 ++ [decide (insert v.toInt (setAfter done) ≠ setAfter done)]
        rw [hflag, decide_eq_decide.mpr hchange]
  | remove v =>
    obtain ⟨x, hx, vals', hholds, henc, hmem, hflag⟩ := intsetRemove_spec junk h.holds (fits_toInt v)
    refine Sat.bind_ok hx ((sat_pure _ _ _).mpr ⟨vals', hholds, ?_, fun u => ?_, ?_⟩)
    · rw [encodingAfter_append_remove, ← h.encoding]
      exact henc
    · rw [setAfter_append, hmem, h.mem]
      exact Finset.mem_erase.symm
    · have hchange : (setAfter done).erase v.toInt ≠ setAfter done ↔ v.toInt ∈ vals := by
        rw [Ne, Finset.erase_eq_self, not_not, h.mem]
      rw [hset _ rfl]
      show r.2 ++ [x.2] = r.2 ++ [decide ((setAfter done).erase v.toInt ≠ setAfter done)]
      rw [hflag, decide_eq_decide.mpr hchange]

/-- **The intset is a sorted set**, for any sequence of changes of a new intset whose size stays below 4 GB. -/
theorem intset_sorted_set (ops : List SetOp) :
    Sat (intsetRun junk ops) (fun r => ∃ vals, SortedSet ops r.1 r.2 vals) (fun _ => TooLarge ops) := by
  have hnew : Tracks [] (intsetNew, []) [] := by
    refine ⟨⟨rfl, rfl, List.Pairwise.nil, fun v hv => ?_, by decide⟩, rfl, fun v => ?_, rfl⟩
    · exact absurd hv List.not_mem_nil
    · exact iff_of_false List.not_mem_nil (Finset.notMem_empty v)
  have hloop : Sat (intsetRun junk ops) (fun r => ∃ vals, Tracks ops r vals) (fun _ => TooLarge ops) := by
    refine sat_foldlM (fun done r => ∃ vals, Tracks done r vals) ops (intsetNew, []) ⟨[], hnew⟩
      fun done op rest r hops hr => ?_
    obtain ⟨vals, hr⟩ := hr
    rw [hops]
    exact intsetStep_spec junk hr op rest
  refine hloop.weaken fun r hr => ?_
  obtain ⟨vals, h⟩ := hr
  have hmem : ∀ v, v ∈ vals ↔ AddedSince ops v := fun v => by rw [h.mem, mem_setAfter_iff]
  exact ⟨vals, intsetGet_spec h.holds, h.holds.contents, h.holds.sorted, h.holds.length, h.holds.fits, hmem,
    fun v => intsetFind_spec h.holds (fits_toInt v), h.flags⟩

end Runs

end Redis
