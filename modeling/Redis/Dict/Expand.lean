import Redis.Dict.Rehash

namespace Redis

open Outcome

/-!
# Starting a rehash

`dictExpand` is refused, allocates the first table, or starts a rehash into a new empty
table (`Dict.Expanded`); the entries stay where they are (`Dict.Kept`).  The growth that
`dictAdd` triggers asks for at least twice the present size, so it is never refused
(`dictExpandIfNeeded_spec`): `dictAdd` cannot fail because of it.
-/

variable {K V : Type} {hash : K → BitVec 32}

/-- The doubling loop ends on a power of two that is large enough. -/
theorem dictNextPowerLoop_spec (size fuel j : Nat) (hle : size ≤ 2 ^ j * 2 ^ fuel) :
    ∃ k, j ≤ k ∧ dictNextPowerLoop size fuel (2 ^ j) = 2 ^ k ∧ size ≤ 2 ^ k := by
  induction fuel generalizing j with
  | zero => exact ⟨j, le_refl _, rfl, by simpa using hle⟩
  | succ fuel ih =>
    rw [dictNextPowerLoop]
    split
    · rename_i hstop
      exact ⟨j, le_refl _, rfl, hstop⟩
    · obtain ⟨k, hjk, hk, hsz⟩ := ih (j + 1) (by
        rw [pow_succ, mul_assoc, mul_comm 2, ← pow_succ]; exact hle)
      refine ⟨k, by omega, ?_, hsz⟩
      rw [← hk, pow_succ]

/-- `_dictNextPower` below the limit of the model. -/
theorem dictNextPower_spec {size : Nat} (hlt : dictNextPower size < 2 ^ 31) :
    size ≤ dictNextPower size ∧ ∃ k, 2 ≤ k ∧ dictNextPower size = 2 ^ k := by
  rw [dictNextPower] at hlt ⊢
  split at hlt
  · rw [LONG_MAX] at hlt; omega
  · rename_i hsz
    rw [if_neg hsz]
    obtain ⟨k, hk2, hk, hle⟩ := dictNextPowerLoop_spec size 61 2 (by
      rw [LONG_MAX] at hsz; norm_num; omega)
    rw [show DICT_HT_INITIAL_SIZE = 2 ^ 2 from rfl]
    exact ⟨by rw [hk]; exact hle, k, hk2, hk⟩

/-- What `dictExpand` may do: nothing, allocate the first table, or start a rehash into
    a new empty table. -/
inductive Dict.Expanded (size : Nat) (d : Dict K V) : DictStatus → Dict K V → Prop
  | refused : Dict.Expanded size d .err d
  | first (n : DictHt K V) (hidle : d.rehashidx = -1) (h0 : d.ht0.size = 0)
      (hn : n.size = dictNextPower size) : Dict.Expanded size d .ok { d with ht0 := n }
  | started (n : DictHt K V) (hidle : d.rehashidx = -1) (h0 : 0 < d.ht0.size)
      (hn : n.size = dictNextPower size) :
      Dict.Expanded size d .ok { d with ht1 := n, rehashidx := 0 }

/-- The part of the specification shared by everything that may start a rehash: the
    entries stay where they are. -/
structure Dict.Kept (d d' : Dict K V) : Prop where
  inv : d'.Inv hash
  entries : d'.entries = d.entries
  iterators : d'.iterators = d.iterators

theorem dictExpand_spec {d : Dict K V} (h : d.Inv hash) (size : Nat) :
    Sat (dictExpand d size)
      (fun r => @Dict.Kept K V hash d r.2 ∧ d.Expanded size r.1 r.2 ∧
        (r.1 = .err → d.rehashidx ≠ -1 ∨ size < d.ht0.used ∨ dictNextPower size = d.ht0.size))
      (fun e => e = .tooManyBuckets) := by
  have hsame : @Dict.Kept K V hash d d := ⟨h, rfl, rfl⟩
  rw [dictExpand]
  refine Sat.ite (fun hr => ⟨hsame, .refused, fun _ => ?_⟩) (fun hr => ?_)
  · rcases hr with hr | hr
    · exact Or.inl (by simpa using hr)
    · exact Or.inr (Or.inl hr)
  refine Sat.ite (fun hr => ⟨hsame, .refused, fun _ => Or.inr (Or.inr hr)⟩) (fun hsz => ?_)
  refine Sat.ite (fun _ => rfl) (fun hbig => ?_)
  have hidle : d.rehashidx = -1 := by
    by_contra hcon
    exact hr (Or.inl (by simpa using hcon))
  obtain ⟨-, hpow⟩ := dictNextPower_spec (not_le.mp hbig)
  have hwf : (DictHt.alloc (dictNextPower size) : DictHt K V).Wf hash := DictHt.alloc_wf hpow (not_le.mp hbig)
  have hpos : 0 < dictNextPower size := by
    obtain ⟨k, -, hk⟩ := hpow
    rw [hk]; exact Nat.two_pow_pos k
  have h1 := h.idle hidle
  refine Sat.ite (fun hempty => ?_) (fun hempty => ?_)
  · have htab : d.ht0.table = [] := by simpa using hempty
    have h0 : d.ht0.size = 0 := by rw [← h.wf0.length_eq, htab]; rfl
    have hent : ({ d with ht0 := .alloc (dictNextPower size) } : Dict K V).entries = d.entries := by
      rw [Dict.entries, Dict.entries, h.wf0.entries_eq_nil_of_size h0, DictHt.alloc_entries]
    refine ⟨⟨⟨hwf, h.wf1, ?_, h.idle, fun hne => absurd hidle hne, ?_⟩, hent, rfl⟩,
      .first _ hidle h0 rfl, fun hcon => by simp at hcon⟩
    · rw [Dict.keys, hent]; exact h.nodup
    · intro i hi
      exfalso
      replace hi : (i : Int) < d.rehashidx := hi
      omega
  · have hpos0 : 0 < d.ht0.size := by
      rw [← h.wf0.length_eq]
      exact List.length_pos_of_ne_nil (by simpa using hempty)
    have hent : ({ d with ht1 := .alloc (dictNextPower size), rehashidx := 0 } :
        Dict K V).entries = d.entries := by
      rw [Dict.entries, Dict.entries, h1, DictHt.alloc_entries]; rfl
    refine ⟨⟨⟨h.wf0, hwf, ?_, fun hcon => ?_, fun _ => ⟨by simp, by simp, hpos0, hpos⟩, ?_⟩,
      hent, rfl⟩, .started _ hidle hpos0 rfl, fun hcon => by simp at hcon⟩
    · rw [Dict.keys, hent]; exact h.nodup
    · exact absurd hcon (by simp)
    · intro i hi
      exfalso
      replace hi : (i : Int) < 0 := hi
      omega

theorem dictResize_spec {d : Dict K V} (h : d.Inv hash) (can : Bool) :
    Sat (dictResize can d)
      (fun r => @Dict.Kept K V hash d r.2 ∧ ∃ size, d.Expanded size r.1 r.2)
      (fun e => e = .tooManyBuckets) := by
  rw [dictResize]
  refine Sat.ite (fun _ => ⟨⟨h, rfl, rfl⟩, 0, .refused⟩) (fun _ => ?_)
  exact (dictExpand_spec h _).weaken (fun r hr => ⟨hr.1, _, hr.2.1⟩)

/-- **Growth on demand always succeeds**: the table asked for is strictly larger than
    the present one, so `dictAdd` cannot fail because of it. -/
theorem dictExpandIfNeeded_spec {d : Dict K V} (h : d.Inv hash) (can : Bool) :
    Sat (dictExpandIfNeeded can d)
      (fun r => r.1 = .ok ∧ @Dict.Kept K V hash d r.2 ∧ 0 < r.2.ht0.size ∧
        d.scanSize ≤ r.2.scanSize)
      (fun e => e = .tooManyBuckets) := by
  rw [dictExpandIfNeeded]
  refine Sat.ite (fun hre => ?_) (fun hre => ?_)
  · have hre' : d.rehashidx ≠ -1 := by simpa using hre
    exact ⟨rfl, ⟨h, rfl, rfl⟩, (h.busy hre').2.2.1, le_refl _⟩
  have hidle : d.rehashidx = -1 := by simpa using hre
  refine Sat.ite (fun h0 => ?_) (fun h0 => Sat.ite (fun hfull => ?_) (fun _ => ?_))
  · refine (dictExpand_spec h DICT_HT_INITIAL_SIZE).weaken ?_
    rintro ⟨st, d'⟩ ⟨hk, hex, herr⟩
    have hused : d.ht0.used = 0 := by rw [h.wf0.used_eq, h.wf0.entries_eq_nil_of_size h0]; rfl
    have hpow : dictNextPower DICT_HT_INITIAL_SIZE = 4 := by decide
    cases hex with
    | refused =>
      exfalso
      rcases herr rfl with hcon | hcon | hcon
      · exact hcon hidle
      · rw [hused] at hcon; omega
      · rw [hpow, h0] at hcon; omega
    | first n _ _ hn =>
      refine ⟨rfl, hk, by rw [hn, hpow]; omega, ?_⟩
      simp [Dict.scanSize, hidle, h0]
    | started n _ hpos _ => omega
  · refine (dictExpand_spec h (d.ht0.used * 2)).mono ?_ (fun _ he => he)
    rintro ⟨st, d'⟩ ⟨hk, hex, herr⟩
    -- the size asked for is at least twice the present one
    have hgrow : d'.Inv hash → ∀ n : DictHt K V, n.Wf hash →
        n.size = dictNextPower (d.ht0.used * 2) → d.ht0.size < n.size := by
      intro _ n hn hns
      have hle := (dictNextPower_spec (hns ▸ hn.small)).1
      rw [hns]; omega
    cases hex with
    | refused =>
      exfalso
      rcases herr rfl with hcon | hcon | hcon
      · exact hcon hidle
      · omega
      · have hle := (dictNextPower_spec (hcon ▸ h.wf0.small)).1
        omega
    | first n _ hz _ => exact absurd hz h0
    | started n _ hpos hn =>
      refine ⟨rfl, hk, hpos, ?_⟩
      have hlt := hgrow hk.inv n hk.inv.wf1 hn
      have hre2 : ({ d with ht1 := n, rehashidx := 0 } : Dict K V).isRehashing = true := by simp
      have hsc : ({ d with ht1 := n, rehashidx := 0 } : Dict K V).scanSize
          = min d.ht0.size n.size := by rw [Dict.scanSize, if_pos hre2]
      rw [hsc, Dict.scanSize, if_neg hre]
      exact le_min (le_refl _) hlt.le
  · exact ⟨rfl, ⟨h, rfl, rfl⟩, by show 0 < d.ht0.size; omega, le_refl _⟩

end Redis
