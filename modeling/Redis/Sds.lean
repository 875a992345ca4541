import Redis.Libc

namespace Redis.Sds

/-!
# Quoted arguments

`sdscatrepr` quotes a string and `sdssplitargs` takes a line of quoted strings apart.  A
pointer is what is left of the line from there on, with the final zero as its last byte, and
nothing behind that byte can be read.

* `sdscatrepr` — the encoder;
* `sdssplitargs` — the decoder, one turn of its inner loop at a time;
* `Terminated`, `tokenStep_safe` — every read stays on the line;
* `tokenLoop_repr` — a quoted string is read back;
* `sdssplitargs_sdscatrepr` — lists of strings, and lines of any other kind.
-/

/-! ### The model of `sds.c` -/

/-- `isprint`. -/
def isprint (c : UInt8) : Bool := 32 ≤ c && c ≤ 126

/-- A digit of `%02x`. -/
def hexDigit (n : Nat) : UInt8 := if n < 10 then UInt8.ofNat (48 + n) else UInt8.ofNat (87 + n)

/-- One turn of the loop of `sdscatrepr`. -/
def reprChar (c : UInt8) : Bytes :=
  if c = 92 ∨ c = 34 then [92, c]
  else if c = 10 then [92, 110]
  else if c = 13 then [92, 114]
  else if c = 9 then [92, 116]
  else if c = 7 then [92, 97]
  else if c = 8 then [92, 98]
  else if isprint c then [c]
  else [92, 120, hexDigit (c.toNat / 16), hexDigit (c.toNat % 16)]

/-- `sdscatrepr`. -/
def sdscatrepr (s p : Bytes) : Bytes := s ++ [34] ++ p.flatMap reprChar ++ [34]

/-- `is_hex_digit`. -/
def isHexDigit (c : UInt8) : Bool := (48 ≤ c && c ≤ 57) || (97 ≤ c && c ≤ 102) || (65 ≤ c && c ≤ 70)

/-- `hex_digit_to_int`. -/
def hexDigitToInt (c : UInt8) : Nat :=
  if 48 ≤ c ∧ c ≤ 57 then c.toNat - 48
  else if 97 ≤ c ∧ c ≤ 102 then c.toNat - 87
  else if 65 ≤ c ∧ c ≤ 70 then c.toNat - 55
  else 0

/-- The variables of the inner loop of `sdssplitargs`. -/
structure TokenState where
  p : Bytes
  inq : Bool
  insq : Bool
  done : Bool
  current : Bytes

/-- `current = sdscatlen(current,&c,1)` after `p += n`. -/
def TokenState.put (st : TokenState) (n : Nat) (c : UInt8) : TokenState :=
  { st with p := st.p.drop n, current := st.current ++ [c] }

/-- The test for `\x` and two digits: each byte is read only if those before it fit. -/
def hexEscape (p : Bytes) : Option (Option UInt8) := do
  if (← p[0]?) ≠ 92 then return none
  if (← p[1]?) ≠ 120 then return none
  let hi ← p[2]?
  if !isHexDigit hi then return none
  let lo ← p[3]?
  if !isHexDigit lo then return none
  return some (UInt8.ofNat (hexDigitToInt hi * 16 + hexDigitToInt lo))

/-- The byte that an escaped one stands for. -/
def unescape (c : UInt8) : UInt8 :=
  if c = 110 then 10 else if c = 114 then 13 else if c = 116 then 9 else if c = 98 then 8
  else if c = 97 then 7 else c

/-- "Closing quote must be followed by a space or nothing at all." -/
def closeQuote (st : TokenState) : Option (Option TokenState) := do
  let d ← st.p[1]?
  if d ≠ 0 ∧ !isspace d then return none else return some { st with done := true }

/-- A byte in double quotes; the inner `none` is `goto err`. -/
def stepQuoted (st : TokenState) : Option (Option TokenState) := do
  match ← hexEscape st.p with
  | some byte => return some (st.put 3 byte)
  | none =>
      let c ← st.p[0]?
      if c = 92 then
        let d ← st.p[1]?
        if d ≠ 0 then return some (st.put 1 (unescape d)) else return some (st.put 0 c)
      else if c = 34 then closeQuote st
      -- unterminated quotes
      else if c = 0 then return none
      else return some (st.put 0 c)

/-- A byte in single quotes. -/
def stepSingle (st : TokenState) : Option (Option TokenState) := do
  let c ← st.p[0]?
  if c = 92 then
    let d ← st.p[1]?
    if d = 39 then return some (st.put 1 39) else return some (st.put 0 c)
  else if c = 39 then closeQuote st
  else if c = 0 then return none
  else return some (st.put 0 c)

/-- A byte outside of quotes. -/
def stepPlain (st : TokenState) : Option (Option TokenState) := do
  let c ← st.p[0]?
  if c = 32 ∨ c = 10 ∨ c = 13 ∨ c = 9 ∨ c = 0 then return some { st with done := true }
  else if c = 34 then return some { st with inq := true }
  else if c = 39 then return some { st with insq := true }
  else return some (st.put 0 c)

/-- One turn of `while(!done)`, with `if (*p) p++` at its end. -/
def tokenStep (st : TokenState) : Option (Option TokenState) := do
  match ← (if st.inq then stepQuoted st else if st.insq then stepSingle st else stepPlain st) with
  | none => return none
  | some st =>
      let c ← st.p[0]?
      return some (if c ≠ 0 then { st with p := st.p.drop 1 } else st)

/-- `while(!done)`. -/
def tokenLoop : Nat → TokenState → Option (Option TokenState)
  | 0, _ => none
  | fuel + 1, st => do
      match ← tokenStep st with
      | none => return none
      | some st => if st.done then return some st else tokenLoop fuel st

/-- "Skip blanks." -/
def skipBlanks : Bytes → Option Bytes
  | [] => none
  | c :: p => if c ≠ 0 ∧ isspace c then skipBlanks p else some (c :: p)

/-- `while(1)`. -/
def splitLoop : Nat → Bytes → List Bytes → Option (Option (List Bytes))
  | 0, _, _ => none
  | fuel + 1, p, vector => do
      let p ← skipBlanks p
      if (← p[0]?) ≠ 0 then
        match ← tokenLoop p.length { p := p, inq := false, insq := false, done := false, current := [] } with
        | none => return none
        | some st => splitLoop fuel st.p (vector ++ [st.current])
      else return some vector

/-- `sdssplitargs` of a line and its final zero.  The outer `none` is a read behind the line, or
    a loop that does not end; the inner one is `NULL`. -/
def sdssplitargs (line : Bytes) : Option (Option (List Bytes)) :=
  splitLoop (line.length + 1) (line ++ [0]) []

/-! ### Reads stay on the line -/

/-- What is left of a line: bytes other than zero and the final zero. -/
inductive Terminated : Bytes → Prop
  | zero : Terminated [0]
  | byte {c : UInt8} {p : Bytes} (hc : c ≠ 0) (hp : Terminated p) : Terminated (c :: p)

theorem terminated_line {line : Bytes} (h : ∀ c ∈ line, c ≠ 0) : Terminated (line ++ [0]) := by
  induction line with
  | nil => exact .zero
  | cons c line ih => exact .byte (h c List.mem_cons_self) (ih fun d hd => h d (List.mem_cons_of_mem c hd))

variable {p : Bytes}

theorem Terminated.exists_cons (h : Terminated p) : ∃ c q, p = c :: q := by
  cases h with
  | zero | byte => exact ⟨_, _, rfl⟩

/-- A byte that is not the final zero has another one behind it. -/
theorem Terminated.tail {c : UInt8} (h : Terminated (c :: p)) (hc : c ≠ 0) : Terminated p := by
  cases h with
  | zero => exact absurd rfl hc
  | byte _ hp => exact hp

theorem isHexDigit_ne {c : UInt8} (h : isHexDigit c = true) : c ≠ 0 := by
  rintro rfl
  exact absurd h (by decide)

theorem hexEscape_safe (h : Terminated p) :
    ∃ r, hexEscape p = some r ∧ ∀ byte, r = some byte →
      ∃ c x hi lo q, p = c :: x :: hi :: lo :: q ∧ lo ≠ 0 ∧ Terminated q := by
  obtain ⟨c, q, rfl⟩ := h.exists_cons
  by_cases hc : c = 92
  · obtain ⟨x, q, rfl⟩ := (h.tail (by rw [hc]; decide)).exists_cons
    have hq := h.tail (by rw [hc]; decide)
    by_cases hx : x = 120
    · obtain ⟨hi, q, rfl⟩ := (hq.tail (by rw [hx]; decide)).exists_cons
      have hq := hq.tail (by rw [hx]; decide)
      by_cases hhi : isHexDigit hi = true
      · obtain ⟨lo, q, rfl⟩ := (hq.tail (isHexDigit_ne hhi)).exists_cons
        have hq := hq.tail (isHexDigit_ne hhi)
        by_cases hlo : isHexDigit lo = true
        · refine ⟨some (UInt8.ofNat (hexDigitToInt hi * 16 + hexDigitToInt lo)), by simp [hexEscape, hc, hx, hhi, hlo],
            fun _ _ => ?_⟩
          exact ⟨c, x, hi, lo, q, rfl, isHexDigit_ne hlo, hq.tail (isHexDigit_ne hlo)⟩
        · exact ⟨none, by simp [hexEscape, hc, hx, hlo], fun _ h => by cases h⟩
      · exact ⟨none, by simp [hexEscape, hc, hx, hhi], fun _ h => by cases h⟩
    · exact ⟨none, by simp [hexEscape, hc, hx], fun _ h => by cases h⟩
  · exact ⟨none, by simp [hexEscape, hc], fun _ h => by cases h⟩

/-- A turn that does not fail ends at a byte it has read, or at the final zero if it began there. -/
def Advances (st : TokenState) (r : Option (Option TokenState)) : Prop :=
  ∃ o, r = some o ∧ ∀ st', o = some st' →
    (st.p = [0] ∧ st'.p = [0] ∧ st'.done = true) ∨
    ∃ c q, st'.p = c :: q ∧ c ≠ 0 ∧ Terminated q ∧ q.length < st.p.length

theorem advances_err (st : TokenState) : Advances st (some none) := ⟨none, rfl, fun _ h => by cases h⟩

section Safe

variable {st : TokenState} {c : UInt8} {q : Bytes}

theorem advances_stay (hp : st.p = c :: q) (hc : c ≠ 0) (hq : Terminated q) {st' : TokenState}
    (h : st'.p = c :: q) : Advances st (some (some st')) := by
  refine ⟨_, rfl, fun _ hst => ?_⟩
  obtain rfl := Option.some.inj hst
  exact Or.inr ⟨c, q, h, hc, hq, by rw [hp, List.length_cons]; omega⟩

theorem closeQuote_advances (hp : st.p = c :: q) (hc : c ≠ 0) (hq : Terminated q) : Advances st (closeQuote st) := by
  obtain ⟨d, q', rfl⟩ := hq.exists_cons
  simp only [closeQuote, hp, List.getElem?_cons_succ, List.getElem?_cons_zero, Option.bind_eq_bind, Option.bind_some]
  split
  · exact advances_err st
  · exact advances_stay hp hc hq rfl

theorem stepQuoted_advances (h : Terminated st.p) : Advances st (stepQuoted st) := by
  obtain ⟨r, hr, hbyte⟩ := hexEscape_safe h
  rw [stepQuoted, hr]
  cases r with
  | some byte =>
    obtain ⟨c, x, hi, lo, q, hp, hlo, hq⟩ := hbyte byte rfl
    refine ⟨_, rfl, fun st' hst => Or.inr ⟨lo, q, ?_, hlo, hq, by simp only [hp, List.length_cons]; omega⟩⟩
    obtain rfl := Option.some.inj hst
    simp [TokenState.put, hp]
  | none =>
    obtain ⟨c, q, hp⟩ := h.exists_cons
    simp only [hp, List.getElem?_cons_succ, List.getElem?_cons_zero, Option.bind_eq_bind, Option.bind_some]
    rw [hp] at h
    split
    · rename_i hc
      have hc0 : c ≠ 0 := by
        rw [hc]
        decide
      obtain ⟨d, q', rfl⟩ := (h.tail hc0).exists_cons
      simp only [List.getElem?_cons_zero, Option.bind_some]
      split
      · rename_i hd
        refine ⟨_, rfl, fun st' hst => Or.inr ⟨d, q', ?_, hd, (h.tail hc0).tail hd, by simp only [hp, List.length_cons]; omega⟩⟩
        obtain rfl := Option.some.inj hst
        simp [TokenState.put, hp]
      · exact advances_stay hp hc0 (h.tail hc0) (by simp [TokenState.put, hp])
    · split
      · rename_i hc
        have hc0 : c ≠ 0 := by
          rw [hc]
          decide
        exact closeQuote_advances hp hc0 (h.tail hc0)
      · split
        · exact advances_err st
        · rename_i hc0
          exact advances_stay hp hc0 (h.tail hc0) (by simp [TokenState.put, hp])

theorem stepSingle_advances (h : Terminated st.p) : Advances st (stepSingle st) := by
  obtain ⟨c, q, hp⟩ := h.exists_cons
  simp only [stepSingle, hp, List.getElem?_cons_succ, List.getElem?_cons_zero, Option.bind_eq_bind, Option.bind_some]
  rw [hp] at h
  split
  · rename_i hc
    have hc0 : c ≠ 0 := by
      rw [hc]
      decide
    obtain ⟨d, q', rfl⟩ := (h.tail hc0).exists_cons
    simp only [List.getElem?_cons_zero, Option.bind_some]
    split
    · rename_i hd
      have hd0 : d ≠ 0 := by
        rw [hd]
        decide
      refine ⟨_, rfl, fun st' hst => Or.inr ⟨d, q', ?_, hd0, (h.tail hc0).tail hd0, by simp only [hp, List.length_cons]; omega⟩⟩
      obtain rfl := Option.some.inj hst
      simp [TokenState.put, hp]
    · exact advances_stay hp hc0 (h.tail hc0) (by simp [TokenState.put, hp])
  · split
    · rename_i hc
      have hc0 : c ≠ 0 := by
        rw [hc]
        decide
      exact closeQuote_advances hp hc0 (h.tail hc0)
    · split
      · exact advances_err st
      · rename_i hc0
        exact advances_stay hp hc0 (h.tail hc0) (by simp [TokenState.put, hp])

theorem stepPlain_advances (h : Terminated st.p) : Advances st (stepPlain st) := by
  obtain ⟨c, q, hp⟩ := h.exists_cons
  simp only [stepPlain, hp, List.getElem?_cons_zero, Option.bind_eq_bind, Option.bind_some]
  rw [hp] at h
  by_cases hc0 : c = 0
  · rw [if_pos (by simp [hc0])]
    refine ⟨_, rfl, fun st' hst => Or.inl ?_⟩
    obtain rfl := Option.some.inj hst
    cases h with
    | zero => exact ⟨hp, rfl, rfl⟩
    | byte hc => exact absurd hc0 hc
  · split
    · exact advances_stay hp hc0 (h.tail hc0) rfl
    · split
      · exact advances_stay hp hc0 (h.tail hc0) rfl
      · split
        · exact advances_stay hp hc0 (h.tail hc0) rfl
        · exact advances_stay hp hc0 (h.tail hc0) (by simp [TokenState.put, hp])

/-- **Step lemma.**  A turn of the inner loop reads only the line, and takes at least one byte
    off it. -/
theorem tokenStep_safe (h : Terminated st.p) :
    ∃ o, tokenStep st = some o ∧ ∀ st', o = some st' →
      Terminated st'.p ∧ (st.p = [0] ∧ st'.p = [0] ∧ st'.done = true ∨ st'.p.length < st.p.length) := by
  have hstep : Advances st (if st.inq then stepQuoted st else if st.insq then stepSingle st else stepPlain st) := by
    split
    · exact stepQuoted_advances h
    · split
      · exact stepSingle_advances h
      · exact stepPlain_advances h
  obtain ⟨o, ho, hmoved⟩ := hstep
  rw [tokenStep, ho]
  cases o with
  | none => exact ⟨none, rfl, fun _ h => by cases h⟩
  | some st₁ =>
    rcases hmoved st₁ rfl with ⟨hp, hp₁, hdone⟩ | ⟨c, q, hp₁, hc, hq, hlt⟩
    · refine ⟨some st₁, by simp [hp₁], fun st' hst => ?_⟩
      obtain rfl := Option.some.inj hst
      exact ⟨hp₁ ▸ .zero, Or.inl ⟨hp, hp₁, hdone⟩⟩
    · refine ⟨_, by simp [hp₁, hc]; rfl, fun st' hst => ?_⟩
      obtain rfl := Option.some.inj hst
      exact ⟨hq, Or.inr hlt⟩

theorem tokenLoop_safe {fuel : Nat} (h : Terminated st.p) (hfuel : st.p.length ≤ fuel) :
    ∃ o, tokenLoop fuel st = some o ∧ ∀ st', o = some st' → Terminated st'.p ∧
      st'.p.length ≤ st.p.length ∧ (st.p ≠ [0] → st'.p.length < st.p.length) := by
  induction fuel generalizing st with
  | zero =>
    obtain ⟨c, q, hp⟩ := h.exists_cons
    rw [hp, List.length_cons] at hfuel
    omega
  | succ fuel ih =>
    obtain ⟨o, ho, hnext⟩ := tokenStep_safe h
    rw [tokenLoop, ho]
    cases o with
    | none => exact ⟨none, rfl, fun _ h => by cases h⟩
    | some st₁ =>
      obtain ⟨h₁, hmoved⟩ := hnext st₁ rfl
      simp only [Option.bind_eq_bind, Option.bind_some]
      by_cases hdone : st₁.done = true
      · rw [if_pos hdone]
        refine ⟨_, rfl, fun st' hst => ?_⟩
        obtain rfl := Option.some.inj hst
        refine ⟨h₁, ?_, fun hne => hmoved.resolve_left fun hz => hne hz.1⟩
        rcases hmoved with ⟨hp, hp₁, -⟩ | hlt
        · rw [hp, hp₁]
        · exact hlt.le
      · have hlt := hmoved.resolve_left fun hz => hdone hz.2.2
        rw [if_neg hdone]
        obtain ⟨o, ho, hend⟩ := ih h₁ (by omega)
        refine ⟨o, ho, fun st' hst => ?_⟩
        obtain ⟨h', hle, -⟩ := hend st' hst
        exact ⟨h', by omega, fun _ => by omega⟩

end Safe

theorem skipBlanks_safe (h : Terminated p) :
    ∃ c q, skipBlanks p = some (c :: q) ∧ Terminated (c :: q) ∧ (c :: q).length ≤ p.length := by
  induction h with
  | zero => exact ⟨0, [], rfl, .zero, le_refl _⟩
  | @byte c p hc hp ih =>
    rw [skipBlanks]
    split
    · obtain ⟨d, q, hskip, hq, hle⟩ := ih
      exact ⟨d, q, hskip, hq, hle.trans (Nat.le_succ _)⟩
    · exact ⟨c, p, rfl, .byte hc hp, le_refl _⟩

/-- **Run lemma.**  The outer loop ends, and never leaves the line. -/
theorem splitLoop_safe {fuel : Nat} (h : Terminated p) (hfuel : p.length ≤ fuel) (vector : List Bytes) :
    ∃ r, splitLoop fuel p vector = some r := by
  induction fuel generalizing p vector with
  | zero =>
    obtain ⟨c, q, rfl⟩ := h.exists_cons
    rw [List.length_cons] at hfuel
    omega
  | succ fuel ih =>
    obtain ⟨c, q, hskip, hq, hle⟩ := skipBlanks_safe h
    simp only [splitLoop, hskip, Option.bind_eq_bind, Option.bind_some, List.getElem?_cons_zero]
    by_cases hc : c = 0
    · rw [if_neg (not_not.mpr hc)]
      exact ⟨_, rfl⟩
    · obtain ⟨o, ho, hend⟩ := @tokenLoop_safe ⟨c :: q, false, false, false, []⟩ _ hq (le_refl _)
      rw [if_pos hc, ho, Option.bind_some]
      cases o with
      | none => exact ⟨_, rfl⟩
      | some st =>
        obtain ⟨hst, -, hlt⟩ := hend st rfl
        have hshort : st.p.length < (c :: q).length := hlt fun h0 => hc (List.cons.inj h0).1
        exact ih hst (by omega) _

/-! ### Quoted strings are read back -/

theorem hexDigit_spec {n : Nat} (h : n < 16) :
    isHexDigit (hexDigit n) = true ∧ hexDigitToInt (hexDigit n) = n ∧ hexDigit n ≠ 0 := by
  have hall : ∀ n < 16, isHexDigit (hexDigit n) = true ∧ hexDigitToInt (hexDigit n) = n ∧ hexDigit n ≠ 0 := by
    decide
  exact hall n h

/-- One turn reads the escape of one byte. -/
theorem tokenStep_reprChar (c : UInt8) (rest current : Bytes) :
    tokenStep ⟨reprChar c ++ rest, true, false, false, current⟩
      = some (some ⟨rest, true, false, false, current ++ [c]⟩) := by
  rw [reprChar]
  split_ifs with hquote hn hr ht ha hb hprint
  · rcases hquote with rfl | rfl <;> rfl
  · rw [hn]; rfl
  · rw [hr]; rfl
  · rw [ht]; rfl
  · rw [ha]; rfl
  · rw [hb]; rfl
  · have hc0 : c ≠ 0 := by
      rintro rfl
      exact absurd hprint (by decide)
    rw [not_or] at hquote
    simp [tokenStep, stepQuoted, hexEscape, TokenState.put, hquote, hc0]
  · have hlt := c.toNat_lt
    obtain ⟨hhi, hhiVal, -⟩ := hexDigit_spec (show c.toNat / 16 < 16 by omega)
    obtain ⟨hlo, hloVal, hne⟩ := hexDigit_spec (Nat.mod_lt c.toNat (show 0 < 16 by decide))
    have hbyte : UInt8.ofNat (c.toNat / 16 * 16 + c.toNat % 16) = c := by
      rw [Nat.mul_comm, Nat.div_add_mod, UInt8.ofNat_toNat]
    have hescape : hexEscape (92 :: 120 :: hexDigit (c.toNat / 16) :: hexDigit (c.toNat % 16) :: rest)
        = some (some c) := by
      rw [← hbyte]
      simp only [hexEscape, List.getElem?_cons_succ, List.getElem?_cons_zero, Option.bind_eq_bind, Option.bind_some,
        hhi, hlo, hhiVal, hloVal, hbyte]
      rfl
    simp only [tokenStep, if_true, stepQuoted, List.cons_append, List.nil_append, hescape]
    simp [TokenState.put, hne]

theorem tokenLoop_repr {d : UInt8} (hd : d = 0 ∨ isspace d = true) (rest arg current : Bytes) {fuel : Nat}
    (hfuel : arg.length < fuel) :
    tokenLoop fuel ⟨arg.flatMap reprChar ++ 34 :: d :: rest, true, false, false, current⟩
      = some (some ⟨d :: rest, true, false, true, current ++ arg⟩) := by
  induction arg generalizing current fuel with
  | nil =>
    obtain ⟨fuel, rfl⟩ : ∃ n, fuel = n + 1 := ⟨fuel - 1, by omega⟩
    have hclose : ¬ (¬ d = 0 ∧ isspace d = false) := by
      rintro ⟨hne, hspace⟩
      rw [hd.resolve_left hne] at hspace
      cases hspace
    simp [tokenLoop, tokenStep, stepQuoted, hexEscape, closeQuote, hclose]
  | cons c arg ih =>
    obtain ⟨fuel, rfl⟩ : ∃ n, fuel = n + 1 := ⟨fuel - 1, by omega⟩
    rw [List.flatMap_cons, List.append_assoc, tokenLoop, tokenStep_reprChar]
    simp only [Option.bind_eq_bind, Option.bind_some, Bool.false_eq_true, if_false]
    rw [ih (current ++ [c]) (by simpa using hfuel), List.append_assoc]
    rfl

theorem sdscatrepr_nil (arg : Bytes) : sdscatrepr [] arg = 34 :: (arg.flatMap reprChar ++ [34]) := rfl

theorem length_le_repr (arg : Bytes) : arg.length ≤ (arg.flatMap reprChar).length := by
  have hpos : ∀ c, 1 ≤ (reprChar c).length := by
    intro c
    rw [reprChar]
    split_ifs <;> simp
  induction arg with
  | nil => exact le_refl _
  | cons c arg ih =>
    rw [List.flatMap_cons, List.length_append, List.length_cons]
    have := hpos c
    omega

/-- The outer loop reads one quoted string. -/
theorem splitLoop_repr {d : UInt8} (hd : d = 0 ∨ isspace d = true) (rest arg : Bytes) (fuel : Nat)
    (vector : List Bytes) :
    splitLoop (fuel + 1) (sdscatrepr [] arg ++ d :: rest) vector = splitLoop fuel (d :: rest) (vector ++ [arg]) := by
  have hle := length_le_repr arg
  have hopen : ∀ n p, tokenLoop (n + 1) ⟨34 :: p, false, false, false, []⟩
      = tokenLoop n ⟨p, true, false, false, []⟩ := fun _ _ => rfl
  rw [sdscatrepr_nil, List.cons_append, List.append_assoc, List.singleton_append, splitLoop,
    show skipBlanks (34 :: _) = some (34 :: _) from rfl]
  simp only [Option.bind_eq_bind, Option.bind_some, List.getElem?_cons_zero]
  rw [if_pos (by decide), List.length_cons, hopen, tokenLoop_repr hd _ _ _ (by rw [List.length_append, List.length_cons]; omega), List.nil_append]
  rfl

theorem splitLoop_blanks {blanks : Bytes} (h : ∀ c ∈ blanks, isspace c = true) (fuel : Nat) (p : Bytes)
    (vector : List Bytes) : splitLoop fuel (blanks ++ p) vector = splitLoop fuel p vector := by
  have hskip : skipBlanks (blanks ++ p) = skipBlanks p := by
    induction blanks with
    | nil => rfl
    | cons c blanks ih =>
      have hc := h c List.mem_cons_self
      have hne : c ≠ 0 := by
        rintro rfl
        exact absurd hc (by decide)
      rw [List.cons_append, skipBlanks, if_pos ⟨hne, hc⟩]
      exact ih fun d hd => h d (List.mem_cons_of_mem c hd)
  cases fuel with
  | zero => rfl
  | succ fuel => rw [splitLoop, splitLoop, hskip]

/-- The strings are quoted and joined with one or more blanks. -/
inductive Joins : List Bytes → Bytes → Prop
  | nil : Joins [] []
  | one (arg : Bytes) : Joins [arg] (sdscatrepr [] arg)
  | cons (arg : Bytes) {blanks line : Bytes} {next : Bytes} {args : List Bytes} (hne : blanks ≠ [])
      (hblank : ∀ c ∈ blanks, isspace c = true) (h : Joins (next :: args) line) :
      Joins (arg :: next :: args) (sdscatrepr [] arg ++ (blanks ++ line))

/-- **Round trip.**  Splitting a line of quoted strings gives the strings; and on every line the
    splitter ends with a vector or with `NULL`, without a read behind the final zero. -/
theorem sdssplitargs_sdscatrepr :
    (∀ args line, Joins args line → sdssplitargs line = some (some args)) ∧
    ∀ line, (∀ c ∈ line, c ≠ 0) → ∃ r, sdssplitargs line = some r := by
  constructor
  · intro args line h
    have hloop : ∀ fuel vector, line.length < fuel → splitLoop fuel (line ++ [0]) vector = some (some (vector ++ args)) := by
      induction h with
      | nil =>
        intro fuel vector hfuel
        obtain ⟨fuel, rfl⟩ : ∃ n, fuel = n + 1 := ⟨fuel - 1, by omega⟩
        rw [List.append_nil]
        rfl
      | one arg =>
        intro fuel vector hfuel
        rw [sdscatrepr_nil, List.length_cons, List.length_append, List.length_singleton] at hfuel
        obtain ⟨fuel, rfl⟩ : ∃ n, fuel = n + 1 + 1 := ⟨fuel - 2, by omega⟩
        rw [splitLoop_repr (Or.inl rfl)]
        rfl
      | @cons arg blanks line next args hne hblank _ ih =>
        intro fuel vector hfuel
        obtain ⟨fuel, rfl⟩ : ∃ n, fuel = n + 1 := ⟨fuel - 1, by omega⟩
        obtain ⟨d, blanks, rfl⟩ := List.exists_cons_of_ne_nil hne
        rw [List.append_assoc, List.append_assoc, List.cons_append,
          splitLoop_repr (Or.inr (hblank d List.mem_cons_self)), ← List.cons_append, splitLoop_blanks hblank, ih,
          List.append_assoc, List.singleton_append]
        rw [sdscatrepr_nil, List.length_append, List.length_append, List.length_cons] at hfuel
        omega
    exact hloop _ [] (Nat.lt_succ_self _)
  · intro line h
    exact splitLoop_safe (terminated_line h) (by rw [List.length_append, List.length_singleton]) []

example : sdssplitargs [34, 92, 120, 48, 48, 34, 32, 102, 39] = some none := by decide

end Redis.Sds
