import Redis.Lib.BitReverse
import Redis.Dict.Refinement
import Mathlib.Logic.Relation

namespace Redis

open Outcome BitReverse

/-!
# Scanning a dictionary

`dictScan` emits the bucket its cursor selects and returns the next cursor, which is the
old one incremented *from its high bits down*: the bits are reversed, incremented and
reversed back.  During a rehash the bucket of the smaller table is emitted together with
its expansions in the larger one.

The state of a whole iteration is the cursor alone.  Reading cursors backwards as numbers
(`revNat`), a call with cursor `v` is obliged to leave behind it every key whose hash is
not below the next cursor.

* `dictScan` — the function, with the bit reversal `rev` it uses;
* `Dict.CursorAligned` — the bits of the cursor between the two masks are `0…01…1`;
* `dictScan_spec` — a call with an aligned cursor emits every key it is obliged to;
* `FullScan` — an iteration, from cursor 0 back to cursor 0, with calls in between.
-/

variable {K V : Type}

/-! ### The model of `dictScan` -/

/-- The loop of `rev`: `s` is halved until it is zero. -/
def revLoop : Nat → Nat → BitVec 64 → BitVec 64 → BitVec 64
  | 0, _, _, v => v
  | fuel + 1, s, mask, v =>
      let s := s >>> 1
      if s = 0 then v
      else
        let mask := mask ^^^ (mask <<< s)
        revLoop fuel s mask (((v >>> s) &&& mask) ||| ((v <<< s) &&& ~~~mask))

/-- `rev`: reverse the bits of an `unsigned long`. -/
def rev (v : BitVec 64) : BitVec 64 := revLoop 7 64 (BitVec.allOnes 64) v

/-- The end of `dictScan`: set the unmasked bits and increment the reversed cursor. -/
def dictScanNext (v m0 : BitVec 64) : BitVec 64 := rev (rev (v ||| ~~~m0) + 1)

/-- The `do … while` loop of `dictScan` over the expansions of the cursor in the larger
    table: the entries emitted and the final cursor. -/
def dictScanExpansions (t1 : DictHt K V) (m0 m1 : BitVec 64) :
    Nat → BitVec 64 → Except DictFault (List (DictEntry K V) × BitVec 64)
  | 0, _ => .error .scanFuel
  | fuel + 1, v =>
      let emitted := t1.bucket (v &&& m1).toNat
      let v := (((v ||| m0) + 1) &&& ~~~m0) ||| (v &&& m0)
      if v &&& (m0 ^^^ m1) = 0 then
        .ok (emitted, v)
      else do
        let (rest, v) ← dictScanExpansions t1 m0 m1 fuel v
        return (emitted ++ rest, v)

/-- `dictScan`: the entries passed to the callback, in order, and the next cursor. -/
def dictScan (d : Dict K V) (v : BitVec 64) :
    Except DictFault (List (DictEntry K V) × BitVec 64) :=
  if d.dictSize = 0 then
    .ok ([], 0)
  else if !d.isRehashing then
    let m0 := BitVec.ofNat 64 d.ht0.sizemask
    .ok (d.ht0.bucket (v &&& m0).toNat, dictScanNext v m0)
  else do
    let (t0, t1) := if d.ht0.size > d.ht1.size then (d.ht1, d.ht0) else (d.ht0, d.ht1)
    let m0 := BitVec.ofNat 64 t0.sizemask
    let m1 := BitVec.ofNat 64 t1.sizemask
    let emitted := t0.bucket (v &&& m0).toNat
    let (expansions, v) ← dictScanExpansions t1 m0 m1 t1.size v
    return (emitted ++ expansions, dictScanNext v m0)

/-! ### The bit reversal -/

/-- One round of `rev` reads bit `i` at an index that differs in the bit `s` only. -/
theorem getLsbD_swapStep_of_mask {s : Nat} {mask : BitVec 64}
    (hmask : ∀ i < 64, if mask.getLsbD i then i ^^^ s = i + s else i ^^^ s = i - s ∧ s ≤ i)
    (v : BitVec 64) {i : Nat} (hi : i < 64) :
    (swapStep s mask v).getLsbD i = v.getLsbD (i ^^^ s) := by
  have h := hmask i hi
  refine getLsbD_swapStep hi (fun hm => ?_) (fun hm => ?_)
  · rwa [if_pos hm] at h
  · rwa [if_neg (by rw [hm]; simp)] at h

/-- The six rounds of `rev` reverse the word. -/
theorem rev_eq_reverse (v : BitVec 64) : rev v = v.reverse := by
  have hunroll : rev v = swapStep 1 0x5555555555555555#64 (swapStep 2 0x3333333333333333#64
      (swapStep 4 0x0f0f0f0f0f0f0f0f#64 (swapStep 8 0x00ff00ff00ff00ff#64
        (swapStep 16 0x0000ffff0000ffff#64 (swapStep 32 0x00000000ffffffff#64 v))))) := rfl
  have hlt : ∀ i < 64, ∀ s ∈ [1, 2, 4, 8, 16, 32], i ^^^ s < 64 := by decide
  have hidx : ∀ i < 64, i ^^^ 1 ^^^ 2 ^^^ 4 ^^^ 8 ^^^ 16 ^^^ 32 = 64 - 1 - i := by decide
  apply BitVec.eq_of_getLsbD_eq
  intro i hi
  have h1 := hlt i hi 1 (by decide)
  have h2 := hlt _ h1 2 (by decide)
  have h4 := hlt _ h2 4 (by decide)
  have h8 := hlt _ h4 8 (by decide)
  have h16 := hlt _ h8 16 (by decide)
  rw [hunroll, getLsbD_swapStep_of_mask (by decide) _ hi,
    getLsbD_swapStep_of_mask (by decide) _ h1, getLsbD_swapStep_of_mask (by decide) _ h2,
    getLsbD_swapStep_of_mask (by decide) _ h4, getLsbD_swapStep_of_mask (by decide) _ h8,
    getLsbD_swapStep_of_mask (by decide) _ h16, hidx i hi, BitVec.getLsbD_reverse,
    BitVec.getMsbD_eq_getLsbD]
  simp [hi]

theorem dictScanNext_eq_revNext (v : BitVec 64) (k : Nat) :
    dictScanNext v (lowMask 64 k) = revNext v k := by
  rw [dictScanNext, rev_eq_reverse, rev_eq_reverse, revNext]

/-! ### One call -/

/-- The hash of a key as the cursor sees it. -/
def cursorOf (hash : K → BitVec 32) (key : K) : BitVec 64 := (hash key).setWidth 64

/-- The bits of the cursor between the masks of the two tables are ones from the bottom,
    then zeros: the inner loop, which counts those bits upwards, then reaches every
    expansion that the reversed order has still to visit. -/
def Dict.CursorAligned (d : Dict K V) (v : BitVec 64) : Prop :=
  d.isRehashing = true →
    ∃ j < 32, v.toNat &&& (d.ht0.sizemask ^^^ d.ht1.sizemask) = d.scanSize * (2 ^ j - 1)

instance (d : Dict K V) (v : BitVec 64) : Decidable (d.CursorAligned v) :=
  inferInstanceAs (Decidable (_ → _))

section

variable {hash : K → BitVec 32}

variable {t : DictHt K V} {k : Nat}

/-- A table as a mask: `h & sizemask` keeps the low bits of the hash. -/
theorem DictHt.Wf.exists_lowMask (hw : t.Wf hash) (hpos : 0 < t.size) :
    ∃ k < 31, t.size = 2 ^ k ∧ BitVec.ofNat 64 t.sizemask = lowMask 64 k ∧
      t.sizemask = 2 ^ k - 1 := by
  rcases hw.pow with h0 | ⟨k, -, hk⟩
  · omega
  · have hlt : k < 31 := by
      have hs := hw.small
      rw [hk] at hs
      exact (Nat.pow_lt_pow_iff_right (by omega)).mp hs
    exact ⟨k, hlt, hk, by rw [hw.mask_eq, hk, lowMask], by rw [hw.mask_eq, hk]⟩

/-- The bucket of a key, read off its cursor. -/
theorem DictHt.index_eq_and_lowMask (hk : k ≤ 64) (hmask : t.sizemask = 2 ^ k - 1) (key : K) :
    t.index hash key = (cursorOf hash key &&& lowMask 64 k).toNat := by
  rw [DictHt.index, hmask, BitVec.toNat_and, toNat_lowMask hk, cursorOf,
    BitVec.toNat_setWidth_of_le (by omega)]

/-- The keys of a chain are emitted when the chain of their index is. -/
theorem DictHt.Wf.mem_emitted (hw : t.Wf hash) (hk : k ≤ 64) (hmask : t.sizemask = 2 ^ k - 1) {key : K}
    (hmem : key ∈ t.entries.map DictEntry.key) {v : BitVec 64}
    (hv : cursorOf hash key &&& lowMask 64 k = v &&& lowMask 64 k) :
    key ∈ (t.bucket (v &&& lowMask 64 k).toNat).map DictEntry.key := by
  obtain ⟨e, he, rfl⟩ := List.mem_map.mp hmem
  have hb := hw.mem_bucket_index he
  rw [DictHt.index_eq_and_lowMask hk hmask, hv] at hb
  exact List.mem_map_of_mem hb

/-- The inner loop ends, keeps the low bits of the cursor, and emits the chain of every
    expansion that is not below the cursor. -/
theorem dictScanExpansions_spec (t1 : DictHt K V) {k₀ k₁ : Nat} (h₁ : k₁ ≤ 64) (h₀ : k₀ ≤ k₁)
    (fuel : Nat) (v : BitVec 64) (hfuel : 2 ^ (k₁ - k₀) - midBits v k₀ k₁ ≤ fuel) :
    Sat (dictScanExpansions t1 (lowMask 64 k₀) (lowMask 64 k₁) fuel v)
      (fun r => r.2.toNat % 2 ^ k₀ = v.toNat % 2 ^ k₀ ∧
        ∀ y : BitVec 64, y.toNat % 2 ^ k₀ = v.toNat % 2 ^ k₀ →
          midBits v k₀ k₁ ≤ midBits y k₀ k₁ →
          ∀ e ∈ t1.bucket (y &&& lowMask 64 k₁).toNat, e ∈ r.1)
      (fun _ => False) := by
  induction fuel generalizing v with
  | zero =>
    have hlt := midBits_lt v k₀ k₁
    omega
  | succ fuel ih =>
    have hlt := midBits_lt v k₀ k₁
    have hnext : (((v ||| lowMask 64 k₀) + 1) &&& ~~~ lowMask 64 k₀) ||| (v &&& lowMask 64 k₀)
        = upNext v k₀ := rfl
    have hlow := upNext_mod v (h₀.trans h₁)
    have hmid := midBits_upNext v h₁ h₀
    -- the expansion with the same middle bits is the bucket emitted now
    have hsame : ∀ y : BitVec 64, y.toNat % 2 ^ k₀ = v.toNat % 2 ^ k₀ →
        midBits y k₀ k₁ = midBits v k₀ k₁ → y &&& lowMask 64 k₁ = v &&& lowMask 64 k₁ :=
      fun y => and_lowMask_eq_of_midBits_eq h₁ h₀
    rw [dictScanExpansions, hnext]
    refine Sat.ite (fun hstop => ?_) (fun hgo => ?_)
    · have hzero : midBits (upNext v k₀) k₀ k₁ = 0 := by
        have h := congrArg BitVec.toNat hstop
        rw [toNat_and_xor_lowMask _ h₁ h₀] at h
        have hpos := Nat.two_pow_pos k₀
        exact (Nat.mul_eq_zero.mp h).resolve_left (by omega)
      refine ⟨hlow, fun y hy hle e he => ?_⟩
      have hlast : midBits v k₀ k₁ + 1 = 2 ^ (k₁ - k₀) := by
        rw [hmid] at hzero
        by_contra hne
        rw [Nat.mod_eq_of_lt (by omega)] at hzero
        omega
      have hylt := midBits_lt y k₀ k₁
      rwa [hsame y hy (by omega)] at he
    · have hne : midBits v k₀ k₁ + 1 ≠ 2 ^ (k₁ - k₀) := by
        intro hlast
        apply hgo
        apply BitVec.eq_of_toNat_eq
        rw [toNat_and_xor_lowMask _ h₁ h₀, hmid, hlast, Nat.mod_self]
        rfl
      rw [Nat.mod_eq_of_lt (by omega)] at hmid
      refine Sat.bind (ih (upNext v k₀) (by omega)) ?_
      rintro ⟨rest, v'⟩ ⟨hv', hrest⟩
      refine ⟨hv'.trans hlow, fun y hy hle e he => ?_⟩
      by_cases heq : midBits y k₀ k₁ = midBits v k₀ k₁
      · rw [hsame y hy heq] at he
        exact List.mem_append_left _ he
      · exact List.mem_append_right _ (hrest y (hy.trans hlow.symm) (by omega) e he)

/-- The next cursor depends on the low bits of the present one only. -/
theorem revNext_congr {v v' : BitVec 64} (hk : k ≤ 64) (h : v'.toNat % 2 ^ k = v.toNat % 2 ^ k) :
    revNext v' k = revNext v k := by
  have hand : v' &&& lowMask 64 k = v &&& lowMask 64 k := by
    apply BitVec.eq_of_toNat_eq
    rw [toNat_and_lowMask _ hk, toNat_and_lowMask _ hk, h]
  have hor : v' ||| ~~~ lowMask 64 k = v ||| ~~~ lowMask 64 k := by
    apply BitVec.eq_of_getLsbD_eq
    intro i hi
    have hbit := congrArg (fun x => x.getLsbD i) hand
    simp only [BitVec.getLsbD_and, BitVec.getLsbD_or, BitVec.getLsbD_not, getLsbD_lowMask, hi] at hbit ⊢
    by_cases hik : i < k
    · simpa [hik] using hbit
    · simp [hik]
  rw [revNext, revNext, hor]

/-- What a call with cursor `v` owes to the key: either it is emitted, or the next cursor
    is not 0 and has not passed the hash of the key. -/
def ScanOwes (hash : K → BitVec 32) (key : K) (r : List (DictEntry K V) × BitVec 64) : Prop :=
  key ∈ r.1.map DictEntry.key ∨
    (r.2 ≠ 0 ∧ revNat r.2 ≤ revNat (cursorOf hash key))

/-- A key the cursor has not passed is in the interval of the cursor, or in a later one,
    which the next cursor has not passed either. -/
theorem same_low_or_later {v y : BitVec 64} (hk : k ≤ 64) (hle : revNat v ≤ revNat y) :
    y &&& lowMask 64 k = v &&& lowMask 64 k ∨
      (revNext v k ≠ 0 ∧ revNat (revNext v k) ≤ revNat y) := by
  rcases Nat.lt_or_ge (revNat v / 2 ^ (64 - k)) (revNat y / 2 ^ (64 - k)) with hlt | hge
  · obtain ⟨hle', hne⟩ := revNat_revNext_le hk hlt
    exact Or.inr ⟨hne, hle'⟩
  · refine Or.inl (and_lowMask_eq_of_div_eq hk ?_)
    exact le_antisymm hge (Nat.div_le_div_right hle)

/-- The cursor returned for a table of `2 ^ k` buckets is one of its indices. -/
theorem revNext_lt (v : BitVec 64) (hk : k ≤ 64) : (revNext v k).toNat < 2 ^ k := by
  refine Nat.lt_pow_two_of_testBit _ (fun i hi => ?_)
  rw [BitVec.testBit_toNat, getLsbD_revNext_of_le v hk hi]

/-- The rehashing branch, with the smaller table first. -/
theorem dictScan_two_spec {t0 t1 : DictHt K V} (hw0 : t0.Wf hash) (hw1 : t1.Wf hash)
    (hpos : 0 < t0.size) (hle : t0.size ≤ t1.size) (v : BitVec 64) :
    Sat (do
        let (expansions, v') ← dictScanExpansions t1 (BitVec.ofNat 64 t0.sizemask)
          (BitVec.ofNat 64 t1.sizemask) t1.size v
        return (t0.bucket (v &&& BitVec.ofNat 64 t0.sizemask).toNat ++ expansions,
          dictScanNext v' (BitVec.ofNat 64 t0.sizemask)))
      (fun r => r.2.toNat < t0.size ∧
        ((∃ j, v.toNat &&& (t0.sizemask ^^^ t1.sizemask) = t0.size * (2 ^ j - 1)) →
          ∀ key, key ∈ t0.entries.map DictEntry.key ∨ key ∈ t1.entries.map DictEntry.key →
            revNat v ≤ revNat (cursorOf hash key) → ScanOwes hash key r))
      (fun _ => False) := by
  obtain ⟨k₀, hk₀, hs0, hm0, hn0⟩ := hw0.exists_lowMask hpos
  obtain ⟨k₁, hk₁, hs1, hm1, hn1⟩ := hw1.exists_lowMask (by omega)
  have hkk : k₀ ≤ k₁ := by
    rw [hs0, hs1] at hle
    exact (Nat.pow_le_pow_iff_right (by omega)).mp hle
  have hfuel : 2 ^ (k₁ - k₀) - midBits v k₀ k₁ ≤ t1.size := by
    have := Nat.pow_le_pow_right (n := 2) (by omega) (show k₁ - k₀ ≤ k₁ by omega)
    omega
  rw [hm0, hm1]
  refine Sat.bind (dictScanExpansions_spec t1 (by omega) hkk t1.size v hfuel) ?_
  rintro ⟨expansions, v'⟩ ⟨hv', hexp⟩
  have hnext : dictScanNext v' (lowMask 64 k₀) = revNext v k₀ := by
    rw [dictScanNext_eq_revNext, revNext_congr (by omega) hv']
  refine ⟨?_, ?_⟩
  · show (dictScanNext v' (lowMask 64 k₀)).toNat < t0.size
    rw [hnext, hs0]
    exact revNext_lt v (by omega)
  rintro ⟨j, hj⟩ key hmem hrev
  rcases same_low_or_later (k := k₀) (by omega) hrev with hlow | hlater
  · left
    show key ∈ (t0.bucket _ ++ expansions).map DictEntry.key
    rw [List.map_append, List.mem_append]
    rcases hmem with hmem | hmem
    · exact Or.inl (hw0.mem_emitted (by omega) hn0 hmem hlow)
    · -- a key of the larger table: its expansion is not below the cursor
      right
      obtain ⟨e, he, rfl⟩ := List.mem_map.mp hmem
      have hb := hw1.mem_bucket_index he
      rw [DictHt.index_eq_and_lowMask (by omega) hn1] at hb
      have hmod : (cursorOf hash e.key).toNat % 2 ^ k₀ = v.toNat % 2 ^ k₀ := by
        rw [← toNat_and_lowMask _ (by omega), hlow, toNat_and_lowMask _ (by omega)]
      have hmid : midBits v k₀ k₁ = 2 ^ j - 1 := by
        have hx := toNat_and_xor_lowMask v (show k₁ ≤ 64 by omega) hkk
        rw [BitVec.toNat_and, BitVec.toNat_xor, toNat_lowMask (by omega),
          toNat_lowMask (by omega), ← hn0, ← hn1, hj, hs0] at hx
        exact (Nat.eq_of_mul_eq_mul_left (Nat.two_pow_pos k₀) hx).symm
      exact List.mem_map_of_mem
        (hexp _ hmod (midBits_le_of_revNat_le hrev hmod.symm hmid) e hb)
  · right
    show dictScanNext v' (lowMask 64 k₀) ≠ 0 ∧ _
    rw [hnext]
    exact hlater

/-- **One call of `dictScan`** returns, with a cursor that is an index of the scanned
    table; when the cursor it was given is aligned, no key that this cursor has not passed
    is left behind. -/
theorem dictScan_spec {d : Dict K V} (h : d.Inv hash) (v : BitVec 64) :
    Sat (dictScan d v)
      (fun r => (r.2 = 0 ∨ r.2.toNat < d.scanSize) ∧
        (d.CursorAligned v → ∀ key ∈ d.keys, revNat v ≤ revNat (cursorOf hash key) →
          ScanOwes hash key r))
      (fun _ => False) := by
  rw [dictScan]
  refine Sat.ite (fun h0 => ⟨Or.inl rfl, fun _ key hkey => ?_⟩) (fun h0 => ?_)
  · rw [h.dictSize_eq] at h0
    rw [List.eq_nil_of_length_eq_zero h0] at hkey
    simp at hkey
  refine Sat.ite (fun hidle => ?_) (fun hre => ?_)
  · have hidle' : d.rehashidx = -1 := by simpa using hidle
    have hht1 : d.ht1.entries = [] := by rw [h.idle hidle']; rfl
    have hpos : 0 < d.ht0.size := by
      by_contra hz
      apply h0
      rw [h.dictSize_eq, Dict.keys, Dict.entries, hht1, h.wf0.entries_eq_nil_of_size (by omega)]
      rfl
    obtain ⟨k, hk, hs, hm, hn⟩ := h.wf0.exists_lowMask hpos
    have hscan : d.scanSize = 2 ^ k := by simp [Dict.scanSize, hidle', hs]
    rw [hm, hscan]
    refine ⟨Or.inr ?_, fun _ key hkey hrev => ?_⟩
    · show (dictScanNext v (lowMask 64 k)).toNat < 2 ^ k
      rw [dictScanNext_eq_revNext]
      exact revNext_lt v (by omega)
    · rw [Dict.keys, Dict.entries, hht1, List.append_nil] at hkey
      rcases same_low_or_later (k := k) (by omega) hrev with hlow | hlater
      · exact Or.inl (h.wf0.mem_emitted (by omega) hn hkey hlow)
      · right
        show dictScanNext v (lowMask 64 k) ≠ 0 ∧ _
        rw [dictScanNext_eq_revNext]
        exact hlater
  · have hre' : d.isRehashing = true := by simpa using hre
    obtain ⟨-, -, hp0, hp1⟩ := h.busy (by simpa using hre')
    have hkeys : ∀ key ∈ d.keys, key ∈ d.ht0.entries.map DictEntry.key ∨
        key ∈ d.ht1.entries.map DictEntry.key := by
      intro key hkey
      rwa [Dict.keys, Dict.entries, List.map_append, List.mem_append] at hkey
    by_cases hgt : d.ht0.size > d.ht1.size
    · simp only [hgt, if_true]
      refine (dictScan_two_spec h.wf1 h.wf0 hp1 (by omega) v).weaken ?_
      rintro r ⟨hlt, howes⟩
      have hscan : d.scanSize = d.ht1.size := by
        rw [Dict.scanSize, if_pos hre']; omega
      refine ⟨Or.inr (hscan ▸ hlt), fun hal key hkey => howes ?_ key (hkeys key hkey).symm⟩
      obtain ⟨j, -, hj⟩ := hal hre'
      exact ⟨j, by rw [Nat.xor_comm, hj, hscan]⟩
    · simp only [hgt, if_false]
      refine (dictScan_two_spec h.wf0 h.wf1 hp0 (by omega) v).weaken ?_
      rintro r ⟨hlt, howes⟩
      have hscan : d.scanSize = d.ht0.size := by
        rw [Dict.scanSize, if_pos hre']; omega
      refine ⟨Or.inr (hscan ▸ hlt), fun hal key hkey => howes ?_ key (hkeys key hkey)⟩
      obtain ⟨j, -, hj⟩ := hal hre'
      exact ⟨j, by rw [hj, hscan]⟩

/-- A cursor inside the scanned table is aligned: it has no bit between the masks. -/
theorem Dict.Inv.cursorAligned_of_lt {d : Dict K V} (h : d.Inv hash) {v : BitVec 64}
    (hv : v = 0 ∨ v.toNat < d.scanSize) : d.CursorAligned v := by
  intro hre
  obtain ⟨-, -, hp0, hp1⟩ := h.busy (by simpa using hre)
  obtain ⟨k₀, -, hs0, -, hn0⟩ := h.wf0.exists_lowMask hp0
  obtain ⟨k₁, -, hs1, -, hn1⟩ := h.wf1.exists_lowMask hp1
  have hscan : d.scanSize = min (2 ^ k₀) (2 ^ k₁) := by rw [Dict.scanSize, if_pos hre, hs0, hs1]
  refine ⟨0, by omega, ?_⟩
  rw [pow_zero, Nat.sub_self, Nat.mul_zero, hn0, hn1]
  rcases hv with rfl | hv
  · simp
  apply Nat.eq_of_testBit_eq
  intro i
  rw [Nat.testBit_and, Nat.testBit_xor, Nat.testBit_two_pow_sub_one, Nat.testBit_two_pow_sub_one,
    Nat.zero_testBit]
  by_cases hi : i < k₀ ∧ i < k₁
  · simp [hi.1, hi.2]
  · have hge : min (2 ^ k₀) (2 ^ k₁) ≤ 2 ^ i := by
      rcases not_and_or.mp hi with hi | hi
      · exact (min_le_left _ _).trans (Nat.pow_le_pow_right (by omega) (by omega))
      · exact (min_le_right _ _).trans (Nat.pow_le_pow_right (by omega) (by omega))
    rw [Nat.testBit_eq_false_of_lt (by omega), Bool.false_and]

end

end Redis
