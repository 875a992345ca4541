import Redis.Cluster.Query

namespace Redis

open Outcome

/-!
# Hash tags and the commands that cross slots

A client keeps keys in one slot by giving them the same part in braces.

* `HasTag`, `keyHashSlot_tag`, `keyHashSlot_whole` — what of a key is hashed;
* `crossSlot_exact` — which commands `getNodeByQuery` refuses because of their slots.
-/

/-- The first `{` of the key is followed by `tag` and the first `}` behind it. -/
def HasTag (tag key : Bytes) : Prop :=
  ∃ a b, key = a ++ 123 :: (tag ++ 125 :: b) ∧ 123 ∉ a ∧ 125 ∉ tag ∧ tag ≠ []

theorem dropWhile_append_cons {c : UInt8} {a b : Bytes} (ha : c ∉ a) : (a ++ c :: b).dropWhile (· ≠ c) = c :: b := by
  rw [List.dropWhile_append_of_pos (by simpa using fun x hx (heq : x = c) => ha (heq ▸ hx))]
  simp

theorem head_dropWhile {c x : UInt8} {l rest : Bytes} (h : l.dropWhile (· ≠ c) = x :: rest) : x = c := by
  have hhead := List.head?_dropWhile_not (· ≠ c) l
  rw [h] at hhead
  simpa using hhead

theorem keyHashSlot_tag {tag key : Bytes} (h : HasTag tag key) : keyHashSlot key = crc16Slot tag := by
  obtain ⟨a, b, rfl, ha, htag, hne⟩ := h
  have htake : (tag ++ 125 :: b).takeWhile (· ≠ 125) = tag := by
    rw [List.takeWhile_append_of_pos (by simpa using fun x hx (heq : x = 125) => htag (heq ▸ hx))]
    simp
  unfold keyHashSlot
  rw [dropWhile_append_cons ha]
  dsimp only
  rw [htake, if_neg]
  simp [hne]

theorem keyHashSlot_whole {key : Bytes} (h : ∀ tag, ¬ HasTag tag key) : keyHashSlot key = crc16Slot key := by
  have hkey := List.takeWhile_append_dropWhile (p := (· ≠ (123 : UInt8))) (l := key)
  unfold keyHashSlot
  cases hopen : key.dropWhile (· ≠ 123) with
  | nil => rfl
  | cons x rest =>
    have hx : x = 123 := head_dropWhile hopen
    dsimp only
    by_cases hwhole : (rest.takeWhile (· ≠ 125)).length = rest.length ∨ rest.takeWhile (· ≠ 125) = []
    · rw [if_pos hwhole]
    · have hrest := List.takeWhile_append_dropWhile (p := (· ≠ (125 : UInt8))) (l := rest)
      cases hclose : rest.dropWhile (· ≠ 125) with
      | nil =>
        rw [hclose, List.append_nil] at hrest
        exact absurd (.inl (by rw [hrest])) hwhole
      | cons y b =>
        have hy : y = 125 := head_dropWhile hclose
        refine absurd ⟨key.takeWhile (· ≠ 123), b, ?_, ?_, ?_, fun hnil => hwhole (.inr hnil)⟩ (h (rest.takeWhile (· ≠ 125)))
        · subst hx hy
          rw [← hclose, hrest, ← hopen, hkey]
        · exact fun hmem => by simpa using List.all_eq_true.mp List.all_takeWhile _ hmem
        · exact fun hmem => by simpa using List.all_eq_true.mp List.all_takeWhile _ hmem

section Query

variable {s : ClusterState} {lookupKeyRead : Bytes → Bool} {c : QueryClient} {cmd : RedisCommand} {argv : List Bytes}
  {keys : List Bytes} {r : QueryResult}

/-- The loop stops at the first key of another slot. -/
theorem foldlM_queryKey_crossSlot {n : Ref} {first : Bytes} (h : ∃ k ∈ keys, keyHashSlot k ≠ keyHashSlot first)
    {done : List Bytes} : keys.foldlM (queryKey s lookupKeyRead) (scanned s lookupKeyRead n first done)
      = .error (.redirect .crossSlot) := by
  induction keys generalizing done with
  | nil => simp at h
  | cons k keys ih =>
    rw [List.foldlM_cons, queryKey_next]
    by_cases hk : keyHashSlot k = keyHashSlot first
    · rw [if_pos hk]
      exact ih (by simpa [hk] using h)
    · rw [if_neg hk]
      rfl

theorem queryDecide_ne_crossSlot (q : QueryScan) (n : Ref) :
    (queryDecide s c cmd q n).errorCode ≠ .crossSlot := by
  unfold queryDecide
  split_ifs <;> simp

theorem errorCode_eq_crossSlot_iff (hkeys : queryKeys c cmd argv = .ok keys)
    (hrun : getNodeByQuery s lookupKeyRead c cmd argv = .ok r) :
    r.errorCode = .crossSlot ↔ ∃ first rest, keys = first :: rest ∧ (s.slots (keyHashSlot first)).isSome = true ∧
      ∃ k ∈ rest, keyHashSlot k ≠ keyHashSlot first := by
  rw [getNodeByQuery, foldlM_queryCommands hkeys] at hrun
  cases keys with
  | nil =>
    cases hrun
    simp
  | cons first rest =>
    simp only [List.cons.injEq, exists_and_left, exists_eq_left', and_assoc]
    rw [List.foldlM_cons] at hrun
    cases hslot : s.slots (keyHashSlot first) with
    | none =>
      rw [queryKey_unbound hslot] at hrun
      cases hrun
      simp
    | some n =>
      rw [queryKey_first hslot] at hrun
      by_cases hother : ∃ k ∈ rest, keyHashSlot k ≠ keyHashSlot first
      · have hfold : rest.foldlM (queryKey s lookupKeyRead) (scanned s lookupKeyRead n first [first])
            = .error (.redirect .crossSlot) := foldlM_queryKey_crossSlot hother
        simp only [ok_bind, hfold] at hrun
        cases hrun
        simpa [hslot] using hother
      · have hsame : ∀ k ∈ rest, keyHashSlot k = keyHashSlot first := by simpa using hother
        simp only [ok_bind, foldlM_queryKey hsame] at hrun
        cases hrun
        simpa [hslot, queryDecide_ne_crossSlot] using hsame

/-- **`CROSSSLOT`** is the answer exactly if the slot of the first key is bound and another key is in another
    slot; keys with the same tag are all in the slot of the tag, so that it never is for them. -/
theorem crossSlot_exact (hkeys : queryKeys c cmd argv = .ok keys)
    (hrun : getNodeByQuery s lookupKeyRead c cmd argv = .ok r) :
    (r.errorCode = .crossSlot ↔ ∃ first rest, keys = first :: rest ∧ (s.slots (keyHashSlot first)).isSome = true ∧
      ∃ k ∈ rest, keyHashSlot k ≠ keyHashSlot first) ∧
    ∀ tag, (∀ k ∈ keys, HasTag tag k) →
      (∀ k ∈ keys, keyHashSlot k = crc16Slot tag) ∧ r.errorCode ≠ .crossSlot := by
  have hiff := errorCode_eq_crossSlot_iff hkeys hrun
  refine ⟨hiff, ?_⟩
  intro tag htag
  have hslots : ∀ k ∈ keys, keyHashSlot k = crc16Slot tag := fun k hk => keyHashSlot_tag (htag k hk)
  refine ⟨hslots, ?_⟩
  rw [ne_eq, hiff]
  rintro ⟨first, rest, rfl, -, k, hk, hne⟩
  exact hne ((hslots k (List.mem_cons_of_mem _ hk)).trans (hslots first List.mem_cons_self).symm)

end Query

/-- `MGET` of the empty key, in slot 0, and of `a`. -/
theorem crossSlot_exact_mget : ∃ res, getNodeByQuery (duo true) (fun _ => false) plainClient
    { getCommand with lastkey := -1 } [[77, 71, 69, 84], [], [97]] = .ok res ∧ res.errorCode = .crossSlot := by
  have hkeys : queryKeys plainClient { getCommand with lastkey := -1 } [[77, 71, 69, 84], [], [97]]
      = .ok [[], [97]] := by decide
  have hrun : getNodeByQuery (duo true) (fun _ => false) plainClient { getCommand with lastkey := -1 }
      [[77, 71, 69, 84], [], [97]] = .ok ⟨none, .crossSlot, none⟩ := rfl
  exact ⟨_, hrun, (crossSlot_exact hkeys hrun).1.mpr ⟨[], [[97]], rfl, rfl, [97], List.mem_singleton.mpr rfl, by decide⟩⟩

end Redis
