import Redis.Bitops.Bitop

namespace Redis.Bitops

open Redis

/-!
# BITOP is bytewise

* `bytewise`, `longest` — the operation on the bytes at one place, and the length of the
  result;
* `combineWhile_spec`, `bitopFast_spec` — the words are combined as their bytes would be;
* `bitopBytes_spec`, `bitopResult_spec` — the bytes behind them;
* `minlenLoop_le`, `lookupSources_eq` — what the loops over the keys find;
* `bitop_bytewise` — the command.
-/

/-- The operation on the bytes of the sources at one place. -/
def bytewise : BitopName → List UInt8 → UInt8
  | .and, b :: bs => bs.foldl (· &&& ·) b
  | .or,  b :: bs => bs.foldl (· ||| ·) b
  | .xor, b :: bs => bs.foldl (· ^^^ ·) b
  | .not, b :: _  => ~~~b
  | _, []         => 0

/-- The length of the longest source. -/
def longest (srcs : List Bytes) : Nat := (srcs.map List.length).foldr max 0

variable {srcs : List Bytes} {res : Bytes}

theorem length_le_longest {s : Bytes} (hs : s ∈ srcs) : s.length ≤ longest srcs := by
  induction srcs with
  | nil => cases hs
  | cons s' srcs ih =>
    rw [longest, List.map_cons, List.foldr_cons, ← longest]
    cases hs with
    | head => exact le_max_left _ _
    | tail _ hs => exact le_trans (ih hs) (le_max_right _ _)

/-! ### The words -/

variable (op : BitopName)

theorem combine_bitwise : Words.Bitwise (combine op) := by
  cases op with
  | and => exact ⟨(· && ·), fun w x y i hi => BitVec.getLsbD_and⟩
  | or  => exact ⟨(· || ·), fun w x y i hi => BitVec.getLsbD_or⟩
  | xor => exact ⟨fun a b => a ^^ b, fun w x y i hi => BitVec.getLsbD_xor⟩
  | not => exact ⟨fun a _ => !a, fun w x y i hi => by simp [combine, hi]⟩

/-- `n` bytes from `j` on are combined with those of `s`. -/
structure Combined (op : BitopName) (s res : Bytes) (j n : Nat) (res' : Bytes) : Prop where
  length : res'.length = res.length
  byte : ∀ i, res'.getD i 0
    = if j ≤ i ∧ i < j + n then Words.onBytes (combine op) (res.getD i 0) (s.getD i 0) else res.getD i 0

theorem combineLong_spec {s res : Bytes} (off : Nat) (hs : off + 8 ≤ s.length) (hres : off + 8 ≤ res.length) :
    ∃ res', combineLong op s res off = .ok res' ∧ Combined op s res off 8 res' := by
  have hlen := Words.length_unload (n := 8) (combine op 64 (Words.load res off 8) (Words.load s off 8))
  rw [combineLong, loadLong, if_pos hres, Outcome.ok_bind, loadLong, if_pos hs, Outcome.ok_bind]
  refine ⟨_, rfl, ?_, ?_⟩
  · exact Words.length_splice (by rw [hlen]; exact hres)
  · exact Words.getD_splice_bitwise (combine_bitwise op) s hres

/-- Runs that follow one another, and do not overlap. -/
theorem Combined.trans {op : BitopName} {s res res' res'' : Bytes} {j n m : Nat} (h : Combined op s res j n res')
    (h' : Combined op s res' (j + n) m res'') : Combined op s res j (n + m) res'' := by
  refine ⟨h'.length.trans h.length, ?_⟩
  intro i
  rw [h'.byte i, h.byte i]
  by_cases hfirst : j ≤ i ∧ i < j + n
  · rw [if_neg (by omega), if_pos hfirst, if_pos (by omega)]
  · rw [if_neg hfirst]
    by_cases hsecond : j + n ≤ i ∧ i < j + n + m
    · rw [if_pos hsecond, if_pos (by omega)]
    · rw [if_neg hsecond, if_neg (by omega)]

theorem combineFour_spec {s res : Bytes} {j : Nat} (hs : j + 32 ≤ s.length) (hres : j + 32 ≤ res.length) :
    ∃ res', combineFour op j res s = .ok res' ∧ Combined op s res j 32 res' := by
  obtain ⟨r1, hr1, h1⟩ := combineLong_spec op j (show j + 8 ≤ s.length by omega)
    (show j + 8 ≤ res.length by omega)
  obtain ⟨r2, hr2, h2⟩ := combineLong_spec op (j + 8) (show j + 8 + 8 ≤ s.length by omega)
    (show j + 8 + 8 ≤ r1.length by rw [h1.length]; omega)
  have h12 := h1.trans h2
  obtain ⟨r3, hr3, h3⟩ := combineLong_spec op (j + 16) (show j + 16 + 8 ≤ s.length by omega)
    (show j + 16 + 8 ≤ r2.length by rw [h12.length]; omega)
  have h123 := h12.trans h3
  obtain ⟨r4, hr4, h4⟩ := combineLong_spec op (j + 24) (show j + 24 + 8 ≤ s.length by omega)
    (show j + 24 + 8 ≤ r3.length by rw [h123.length]; omega)
  rw [combineFour, hr1, Outcome.ok_bind, hr2, Outcome.ok_bind, hr3, Outcome.ok_bind]
  exact ⟨r4, hr4, h123.trans h4⟩

/-- A byte of the result combined with those of the sources, or complemented. -/
def combineByte (op : BitopName) (srcs : List Bytes) (i : Nat) (b : UInt8) : UInt8 :=
  if op = .not then ~~~b else srcs.foldl (fun b s => Words.onBytes (combine op) b (s.getD i 0)) b

theorem foldlM_combineFour (hop : op ≠ .not) {j : Nat} (hsrcs : ∀ s ∈ srcs, j + 32 ≤ s.length)
    (hres : j + 32 ≤ res.length) :
    ∃ res', srcs.foldlM (combineFour op j) res = .ok res' ∧ res'.length = res.length ∧
      ∀ i, res'.getD i 0 = if j ≤ i ∧ i < j + 32 then combineByte op srcs i (res.getD i 0) else res.getD i 0 := by
  induction srcs generalizing res with
  | nil =>
    refine ⟨res, rfl, rfl, ?_⟩
    intro i
    rw [combineByte, if_neg hop, List.foldl_nil]
    split <;> rfl
  | cons s srcs ih =>
    obtain ⟨r, hr, hcombined⟩ := combineFour_spec op (hsrcs s List.mem_cons_self) hres
    obtain ⟨res', hres', hlen, hbyte⟩ := ih (fun s' h => hsrcs s' (List.mem_cons_of_mem _ h))
      (show j + 32 ≤ r.length by rw [hcombined.length]; exact hres)
    rw [List.foldlM_cons, hr, Outcome.ok_bind]
    refine ⟨res', hres', hlen.trans hcombined.length, ?_⟩
    intro i
    rw [hbyte i, hcombined.byte i]
    by_cases hin : j ≤ i ∧ i < j + 32
    · rw [if_pos hin, if_pos hin, if_pos hin, combineByte, combineByte, if_neg hop, if_neg hop, List.foldl_cons]
    · rw [if_neg hin, if_neg hin, if_neg hin]

theorem combineStep_spec {j : Nat} (hsrcs : ∀ s ∈ srcs, j + 32 ≤ s.length) (hres : j + 32 ≤ res.length) :
    ∃ res', combineStep op srcs j res = .ok res' ∧ res'.length = res.length ∧
      ∀ i, res'.getD i 0 = if j ≤ i ∧ i < j + 32 then combineByte op srcs.tail i (res.getD i 0) else res.getD i 0 := by
  rw [combineStep]
  by_cases hop : op = .not
  · obtain ⟨res', hres', hcombined⟩ := combineFour_spec op hres hres
    rw [if_pos hop]
    refine ⟨res', hres', hcombined.length, ?_⟩
    intro i
    rw [hcombined.byte i, combineByte, if_pos hop, hop]
    rfl
  · rw [if_neg hop]
    exact foldlM_combineFour op hop (fun s h => hsrcs s (List.mem_of_mem_tail h)) hres

/-- The fast path goes on from `j` as far as whole runs of four words reach. -/
theorem combineWhile_spec (minlen : Nat) {j : Nat} (hsrcs : ∀ s ∈ srcs, j + minlen ≤ s.length)
    (hres : j + minlen ≤ res.length) :
    ∃ res', combineWhile op srcs minlen j res = .ok (j + 32 * (minlen / 32), res') ∧ res'.length = res.length ∧
      ∀ i, res'.getD i 0
        = if j ≤ i ∧ i < j + 32 * (minlen / 32) then combineByte op srcs.tail i (res.getD i 0) else res.getD i 0 := by
  induction minlen using Nat.strongRecOn generalizing res j with
  | ind minlen ih =>
    rw [combineWhile]
    by_cases hlarge : 8 * 4 ≤ minlen
    · obtain ⟨r, hr, hlen, hbyte⟩ := combineStep_spec op
        (show ∀ s ∈ srcs, j + 32 ≤ s.length from fun s h => by have := hsrcs s h; omega)
        (show j + 32 ≤ res.length by omega)
      obtain ⟨res', hres', hlen', hbyte'⟩ := ih (minlen - 8 * 4) (by omega)
        (show ∀ s ∈ srcs, j + 8 * 4 + (minlen - 8 * 4) ≤ s.length from fun s h => by have := hsrcs s h; omega)
        (show j + 8 * 4 + (minlen - 8 * 4) ≤ r.length by omega)
      have hend : j + 8 * 4 + 32 * ((minlen - 8 * 4) / 32) = j + 32 * (minlen / 32) := by omega
      rw [if_pos hlarge, hr, Outcome.ok_bind]
      rw [hend] at hres' hbyte'
      refine ⟨res', hres', hlen'.trans hlen, ?_⟩
      intro i
      rw [hbyte' i, hbyte i]
      by_cases hfirst : j ≤ i ∧ i < j + 32
      · rw [if_neg (by omega), if_pos hfirst, if_pos (by omega)]
      · rw [if_neg hfirst]
        by_cases hrest : j + 8 * 4 ≤ i ∧ i < j + 32 * (minlen / 32)
        · rw [if_pos hrest, if_pos (by omega)]
        · rw [if_neg hrest, if_neg (by omega)]
    · have hzero : minlen / 32 = 0 := by omega
      rw [if_neg hlarge, hzero]
      refine ⟨res, rfl, rfl, ?_⟩
      intro i
      rw [if_neg (by omega)]

/-! ### The bytes -/

theorem sourceByte_eq (j : Nat) (s : Bytes) : sourceByte j s = s.getD j 0 := by
  rw [sourceByte]
  by_cases hend : s.length ≤ j
  · rw [if_pos hend, List.getD_eq_default _ _ hend]
  · rw [if_neg hend]

/-- `output` is the operation on the bytes of the sources. -/
theorem outputByte_eq (s : Bytes) (srcs : List Bytes) (j : Nat) (hnot : op = .not → srcs = []) :
    outputByte op (s :: srcs) j = bytewise op ((s :: srcs).map (·.getD j 0)) := by
  rw [outputByte, List.map_cons]
  simp only [List.headD_cons, List.tail_cons, sourceByte_eq]
  cases op with
  | not =>
    rw [hnot rfl]
    rfl
  | and =>
    rw [bytewise, List.foldl_map]
    rfl
  | or =>
    rw [bytewise, List.foldl_map]
    rfl
  | xor =>
    rw [bytewise, List.foldl_map]
    rfl

/-- The words compute the same. -/
theorem combineByte_eq (s : Bytes) (srcs : List Bytes) (i : Nat) :
    combineByte op srcs i (s.getD i 0) = bytewise op ((s :: srcs).map (·.getD i 0)) := by
  rw [combineByte, List.map_cons]
  cases op with
  | not => rfl
  | and | or | xor => exact (List.foldl_map ..).symm

theorem bitopBytes_spec (srcs : List Bytes) (fuel j : Nat) (res : Bytes) (h : j + fuel ≤ res.length) :
    (bitopBytes op srcs fuel j res).length = res.length ∧
    ∀ i, (bitopBytes op srcs fuel j res).getD i 0
      = if j ≤ i ∧ i < j + fuel then outputByte op srcs i else res.getD i 0 := by
  induction fuel generalizing j res with
  | zero =>
    refine ⟨rfl, ?_⟩
    intro i
    rw [if_neg (by omega)]
    rfl
  | succ fuel ih =>
    obtain ⟨hlen, hbyte⟩ := ih (j + 1) (res.set j (outputByte op srcs j)) (by rw [List.length_set]; omega)
    rw [bitopBytes]
    refine ⟨by rw [hlen, List.length_set], ?_⟩
    intro i
    rw [hbyte i]
    by_cases hrest : j + 1 ≤ i ∧ i < j + 1 + fuel
    · rw [if_pos hrest, if_pos (by omega)]
    · rw [if_neg hrest]
      by_cases hfirst : i = j
      · subst hfirst
        rw [if_pos (by omega), List.getD_eq_getElem?_getD, List.getElem?_set_self (by omega), Option.getD_some]
      · rw [if_neg (by omega), List.getD_eq_getElem?_getD, List.getElem?_set_ne (Ne.symm hfirst),
          ← List.getD_eq_getElem?_getD]

/-! ### The result -/

/-- As far as it gets, the fast path computes the bytes of the result. -/
theorem bitopFast_spec {s : Bytes} {minlen : Nat} (hsrcs : ∀ s' ∈ s :: srcs, minlen ≤ s'.length)
    (hres : minlen ≤ res.length) :
    ∃ j res', bitopFast op (s :: srcs) minlen res = .ok (j, res') ∧ j ≤ minlen ∧ res'.length = res.length ∧
      ∀ i < j, res'.getD i 0 = bytewise op ((s :: srcs).map (·.getD i 0)) := by
  rw [bitopFast]
  by_cases hfast : minlen ≥ 8 * 4 ∧ (s :: srcs).length ≤ 16
  · have htake : (s.take minlen).length = minlen := by
      rw [List.length_take]
      exact min_eq_left (hsrcs s List.mem_cons_self)
    have hcopied : (Words.splice res 0 (s.take minlen)).length = res.length :=
      Words.length_splice (by omega)
    obtain ⟨res', hres', hlen, hbyte⟩ := combineWhile_spec op minlen
      (show ∀ s' ∈ s :: srcs, 0 + minlen ≤ s'.length from fun s' h => by rw [Nat.zero_add]; exact hsrcs s' h)
      (show 0 + minlen ≤ (Words.splice res 0 (s.take minlen)).length by omega)
    rw [if_pos hfast, List.headD_cons]
    refine ⟨_, res', hres', by omega, hlen.trans hcopied, ?_⟩
    intro i hi
    have hin : i < minlen := by omega
    -- the first source was copied
    have hfirst : (Words.splice res 0 (s.take minlen)).getD i 0 = s.getD i 0 := by
      rw [Words.getD_splice (by omega), if_pos (by omega), Nat.sub_zero]
      simp [List.getD_eq_getElem?_getD, hin]
    rw [hbyte i, if_pos (by omega), hfirst, List.tail_cons, combineByte_eq]
  · rw [if_neg hfast]
    exact ⟨0, res, rfl, Nat.zero_le _, rfl, fun i hi => absurd hi (by omega)⟩

/-- The string that is stored. -/
theorem bitopResult_spec {s : Bytes} {minlen maxlen : Nat} (hnot : op = .not → srcs = [])
    (hmin : ∀ s' ∈ s :: srcs, minlen ≤ s'.length) (hle : minlen ≤ maxlen) :
    ∃ res, bitopResult op (s :: srcs) minlen maxlen = .ok res ∧ res.length = maxlen ∧
      ∀ i < maxlen, res.getD i 0 = bytewise op ((s :: srcs).map (·.getD i 0)) := by
  obtain ⟨j, res, hfast, hj, hlen, hdone⟩ := bitopFast_spec op hmin
    (show minlen ≤ (List.replicate maxlen (0 : UInt8)).length by rw [List.length_replicate]; exact hle)
  rw [List.length_replicate] at hlen
  obtain ⟨hlen', hbyte⟩ := bitopBytes_spec op (s :: srcs) (maxlen - j) j res (by omega)
  rw [bitopResult, hfast, Outcome.ok_bind]
  refine ⟨_, rfl, hlen'.trans hlen, ?_⟩
  intro i hi
  rw [hbyte i]
  by_cases hrest : j ≤ i
  · rw [if_pos (by omega), outputByte_eq op s srcs i hnot]
  · rw [if_neg (by omega), hdone i (by omega)]

/-! ### The keys -/

theorem maxlenLoop_eq (maxlen : Nat) (srcs : List Bytes) : maxlenLoop maxlen srcs = max maxlen (longest srcs) := by
  induction srcs generalizing maxlen with
  | nil => exact (Nat.max_zero maxlen).symm
  | cons s srcs ih =>
    rw [maxlenLoop, ih, longest, longest, List.map_cons, List.foldr_cons]
    by_cases hlonger : s.length > maxlen
    · rw [if_pos hlonger]
      omega
    · rw [if_neg hlonger]
      omega

/-- The string of a key. -/
def source (db : Keys) (key : Bytes) : Bytes := content (db key)

theorem getDecodedObject_eq {o : Robj} (ho : IsString (some o)) : getDecodedObject o = content (some o) := by
  cases o with
  | sds ptr => rfl
  | int ptr => exact ll2string_buffer ptr
  | other   => exact absurd rfl ho

theorem lookupSources_eq {db : Keys} {keys : List Bytes} (hkeys : ∀ key ∈ keys, IsString (db key)) :
    lookupSources db keys = some (keys.map (source db)) := by
  induction keys with
  | nil => rfl
  | cons key keys ih =>
    have hkey := hkeys key List.mem_cons_self
    have hrest := ih (fun k h => hkeys k (List.mem_cons_of_mem _ h))
    rw [lookupSources, List.map_cons, source]
    cases hfound : db key with
    | none =>
      rw [hrest]
      rfl
    | some o =>
      rw [hfound] at hkey
      have hdecoded := getDecodedObject_eq hkey
      cases o with
      | sds ptr =>
        simp only [hrest, hdecoded]
        rfl
      | int ptr =>
        simp only [hrest, hdecoded]
        rfl
      | other => exact absurd rfl hkey

/-- The shortest length is that of no longer source, once a key has been looked up. -/
theorem minlenLoop_le (db : Keys) (keys : List Bytes) (j minlen : Nat) :
    (j ≠ 0 → minlenLoop db j minlen keys (keys.map (source db)) ≤ minlen) ∧
    ∀ key ∈ keys, minlenLoop db j minlen keys (keys.map (source db)) ≤ (source db key).length := by
  induction keys generalizing j minlen with
  | nil => exact ⟨fun _ => le_refl _, by simp⟩
  | cons key keys ih =>
    rw [List.map_cons, minlenLoop]
    obtain ⟨m, hm⟩ : ∃ m, m = if db key = none then 0
        else if j = 0 ∨ (source db key).length < minlen then (source db key).length else minlen := ⟨_, rfl⟩
    rw [← hm]
    obtain ⟨hle, hkeys⟩ := ih (j + 1) m
    have hstep := hle (by omega)
    constructor
    · intro hj
      refine le_trans hstep ?_
      rw [hm]
      split
      · exact Nat.zero_le _
      · split <;> omega
    · intro key' hkey'
      cases hkey' with
      | head =>
        refine le_trans hstep ?_
        rw [hm]
        split
        · exact Nat.zero_le _
        · split
          · exact le_refl _
          · omega
      | tail _ hkey' => exact hkeys key' hkey'

/-! ### The command -/

/-- BITOP of one or more keys that are missing or strings: the result is as long as the
    longest source and each of its bytes is the operation on those of the sources, which end
    in zeros; an empty result deletes the destination, and no other key changes. -/
theorem bitop_bytewise {db : Keys} {argv : List Bytes} {op : BitopName} (hop : bitopName (argv.getD 1 []) = some op)
    (hargc : if op = .not then argv.length = 4 else 4 ≤ argv.length)
    (hkeys : ∀ key ∈ argv.drop 3, IsString (db key)) :
    ∃ ran, bitopCommand db argv = .ok ran ∧ ran.dirty = 1 ∧
      ran.reply = .longLong (longest ((argv.drop 3).map (source db))) ∧
      if longest ((argv.drop 3).map (source db)) = 0 then ran.db = Function.update db (argv.getD 2 []) none
      else
        ∃ res, ran.db = Function.update db (argv.getD 2 []) (some (.sds res)) ∧
          res.length = longest ((argv.drop 3).map (source db)) ∧
          ∀ i < res.length, res.getD i 0 = bytewise op ((argv.drop 3).map (fun key => (source db key).getD i 0)) := by
  have hcount : ¬(op = .not ∧ argv.length ≠ 4) := by
    rintro ⟨hnot, hne⟩
    rw [if_pos hnot] at hargc
    exact hne hargc
  have hsources := lookupSources_eq hkeys
  have hmax := maxlenLoop_eq 0 ((argv.drop 3).map (source db))
  have hmin := (minlenLoop_le db (argv.drop 3) 0 0).2
  rw [Nat.zero_max] at hmax
  rw [bitopCommand, hop]
  dsimp only
  rw [if_neg hcount, bitopKeys, hsources]
  dsimp only
  rw [hmax]
  generalize hminlen : minlenLoop db 0 0 (argv.drop 3) ((argv.drop 3).map (source db)) = minlen at hmin ⊢
  by_cases hempty : longest ((argv.drop 3).map (source db)) = 0
  · rw [if_neg (by simpa using hempty)]
    simp only [if_pos hempty]
    exact ⟨_, rfl, rfl, rfl, rfl⟩
  · rw [if_pos hempty]
    simp only [if_neg hempty]
    obtain ⟨key, keys, hdrop⟩ : ∃ key keys, argv.drop 3 = key :: keys := by
      apply List.exists_cons_of_length_pos
      rw [List.length_drop]
      split at hargc <;> omega
    have hnot : op = .not → keys.map (source db) = [] := by
      intro hop
      rw [if_pos hop] at hargc
      have hlen := congrArg List.length hdrop
      rw [List.length_drop, List.length_cons] at hlen
      rw [List.length_eq_zero_iff.mp (show keys.length = 0 by omega)]
      rfl
    rw [hdrop] at hmin ⊢
    rw [List.map_cons]
    have hall : ∀ s ∈ source db key :: keys.map (source db), minlen ≤ s.length := by
      intro s hs
      rw [← List.map_cons] at hs
      obtain ⟨k, hk, rfl⟩ := List.mem_map.mp hs
      exact hmin k hk
    have hle : minlen ≤ longest (source db key :: keys.map (source db)) :=
      le_trans (hall _ List.mem_cons_self) (length_le_longest List.mem_cons_self)
    obtain ⟨res, hres, hlen, hbyte⟩ := bitopResult_spec op hnot hall hle
    rw [hres, Outcome.ok_bind]
    refine ⟨_, rfl, rfl, rfl, res, rfl, hlen, ?_⟩
    intro i hi
    rw [hbyte i (by omega), List.map_cons, List.map_cons, List.map_map]
    rfl

/-- The complement of a number's text, stored in the key itself. -/
theorem bitop_bytewise_not : ∃ ran, bitopCommand (fun _ => some (.int 7#64)) [[], [78, 111, 116], [1], [1]] = .ok ran ∧
    ran.reply = .longLong 1 := by
  obtain ⟨ran, hrun, -, hreply, -⟩ := @bitop_bytewise (fun _ => some (.int 7#64))
    [[], [78, 111, 116], [1], [1]] .not (by decide) (by decide) (by decide)
  refine ⟨ran, hrun, hreply.trans ?_⟩
  decide

end Redis.Bitops
