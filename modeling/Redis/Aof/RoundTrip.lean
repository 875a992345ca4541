import Redis.Aof.Load
import Redis.Lib.Outcome

namespace Redis.Aof

open Outcome

/-!
# AOF — the file is read back

The loader makes of the text of a sequence of commands the same commands, and of every prefix of
the text the commands that are whole in it.

* `readBulk_cat`, `readCommand_cat` — a whole argument, a whole command;
* `readBulk_short`, `readCommand_short` — a command that is cut anywhere ends in a read error;
* `loadLoop_text` — the commands at the beginning of the file;
* `load_prefix` — every prefix of the file;
* `aof_roundtrip` — the calls, with their databases, and the offset to which the file is cut.
-/

/-- What fits the counters: `argc` is an `int`, and a length an `unsigned long`. -/
structure Fits (argv : List Bytes) : Prop where
  pos : 0 < argv.length
  count : argv.length < 2 ^ 31
  sizes : ∀ a ∈ argv, a.length < 2 ^ 63

/-! ## Lines -/

variable {line : Bytes} {argv : List Bytes} {cs : List (List Bytes)} {fs : List (Int × Fed)}

theorem fgetsLine_line (X : Bytes) : ∀ {n : Nat}, (∀ b ∈ line, b ≠ 10) →
    line.length < n → fgetsLine n (line ++ 10 :: X) = (line ++ [10], X) := by
  induction line with
  | nil =>
    intro n _ hn
    obtain ⟨n, rfl⟩ : ∃ m, n = m + 1 := ⟨n - 1, by simp at hn; omega⟩
    simp [fgetsLine]
  | cons c line ih =>
    intro n hline hn
    obtain ⟨n, rfl⟩ : ∃ m, n = m + 1 := ⟨n - 1, by simp at hn; omega⟩
    rw [List.cons_append, fgetsLine, if_neg (hline c List.mem_cons_self)]
    rw [ih (fun b hb => hline b (List.mem_cons_of_mem _ hb)) (by simp at hn; omega)]
    rfl

theorem fgetsLine_open : ∀ {n : Nat}, (∀ b ∈ line, b ≠ 10) → line.length ≤ n →
    fgetsLine n line = (line, []) := by
  induction line with
  | nil =>
    intro n _ _
    cases n <;> rfl
  | cons c line ih =>
    intro n hline hn
    obtain ⟨n, rfl⟩ : ∃ m, n = m + 1 := ⟨n - 1, by simp at hn; omega⟩
    rw [fgetsLine, if_neg (hline c List.mem_cons_self)]
    rw [ih (fun b hb => hline b (List.mem_cons_of_mem _ hb)) (by simpa using hn)]

/-- A line that the file holds whole. -/
theorem fgets_line (X : Bytes) (hline : ∀ b ∈ line, b ≠ 10) (hlen : line.length < 127) :
    fgets (line ++ 10 :: X) = some (line ++ [10], X, false) := by
  have hne : (line ++ 10 :: X).length ≠ 0 := by simp
  rw [fgets, if_neg hne, fgetsLine_line X hline hlen]
  simp

/-- A line in which the file ends. -/
theorem fgets_open (hline : ∀ b ∈ line, b ≠ 10) (hlen : line.length < 127) (hne : line ≠ []) :
    fgets line = some (line, [], true) := by
  have hlen' : line.length ≠ 0 := fun h => hne (List.length_eq_zero_iff.mp h)
  have hlast : line.getLast? ≠ some 10 := by
    intro h
    exact hline 10 (List.mem_of_getLast? h) rfl
  rw [fgets, if_neg hlen', fgetsLine_open hline (by omega)]
  simp [hlast, hlen]

/-- The first line of a command or an argument, without its newline. -/
def header (c : UInt8) (n : Nat) : Bytes := c :: (decimal n ++ [13])

theorem header_ne {c : UInt8} (hc : c ≠ 10) (n : Nat) : ∀ b ∈ header c n, b ≠ 10 := by
  intro b hb
  simp only [header, List.mem_cons, List.mem_append, List.not_mem_nil, or_false] at hb
  rcases hb with rfl | hb | rfl
  · exact hc
  · rintro rfl
    exact absurd (decimal_digit hb).1 (by decide)
  · decide

theorem length_header_lt (c : UInt8) {n : Nat} (hn : n < 2 ^ 63) : (header c n).length < 127 := by
  have hlen := length_decimal_le (n := 18) (show n < 10 ^ 19 by omega)
  simp only [header, List.length_cons, List.length_append, List.length_nil]
  omega

theorem strtol_decimal {n : Nat} (hn : n < 2 ^ 63) (X : Bytes) :
    strtol (decimal n ++ 13 :: X) = n := by
  have hval := decimalOf_decimal n
  have hne : decimal n ≠ [] := List.ne_nil_of_length_pos (length_decimal_pos n)
  rw [strtol_digits (fun b hb => decimal_isdigit hb) (fun b hb => ?_) hne (by omega), hval]
  rw [List.head?_cons, Option.mem_some_iff] at hb
  rw [← hb]
  rfl

theorem atoi_of_strtol {s : Bytes} {n : Nat} (h : strtol s = n) (hn : n < 2 ^ 31) : atoi s = n := by
  rw [atoi, h, Int.bmod_eq_of_le] <;> omega

theorem catBulk_eq {a : Bytes} (ha : a.length < 2 ^ 63) :
    catBulk a = header 36 a.length ++ 10 :: (a ++ [13, 10]) := by
  rw [catBulk, ll2string_natCast ha, header]
  simp

theorem cat_eq (h : argv.length < 2 ^ 63) : catAppendOnlyGenericCommand argv
    = header 42 argv.length ++ 10 :: argv.flatMap catBulk := by
  rw [catAppendOnlyGenericCommand, ll2string_natCast h, header]
  simp

/-! ## Whole commands -/

/-- The number in a header. -/
theorem strtol_header {a : Bytes} (ha : a.length < 2 ^ 63) :
    (strtol ((header 36 a.length ++ [10]).drop 1) % 2 ^ 64).toNat = a.length := by
  have hdrop : (header 36 a.length ++ [10]).drop 1 = decimal a.length ++ 13 :: [10] := by simp [header]
  rw [hdrop, strtol_decimal ha]
  omega

theorem readBulk_cat {a : Bytes} (ha : a.length < 2 ^ 63) (X : Bytes) :
    readBulk (catBulk a ++ X) = .ok (a, X) := by
  have hline := fgets_line (a ++ [13, 10] ++ X) (header_ne (c := 36) (by decide) a.length)
    (length_header_lt 36 ha)
  rw [catBulk_eq ha, List.append_assoc, List.cons_append, readBulk, hline]
  simp only [strtol_header ha]
  rw [if_neg (by simp [header]), if_neg (by simp), if_neg (by simp)]
  simp

theorem readBulks_cat {args : List Bytes} (h : ∀ a ∈ args, a.length < 2 ^ 63) (X : Bytes) :
    readBulks args.length (args.flatMap catBulk ++ X) = .ok (args, X) := by
  induction args with
  | nil => rfl
  | cons a args ih =>
    rw [List.flatMap_cons, List.append_assoc, List.length_cons, readBulks,
      readBulk_cat (h a List.mem_cons_self), ok_bind,
      ih (fun b hb => h b (List.mem_cons_of_mem _ hb)), ok_bind]
    rfl

theorem readCount_cat (h : Fits argv) (X : Bytes) :
    readCount (header 42 argv.length ++ 10 :: X) = .ok (some (argv.length, X)) := by
  have hcount := h.count
  have hpos := h.pos
  have hline := fgets_line X (header_ne (c := 42) (by decide) argv.length)
    (length_header_lt 42 (show argv.length < 2 ^ 63 by omega))
  have hdrop : (header 42 argv.length ++ [10]).drop 1 = decimal argv.length ++ 13 :: [10] := by
    simp [header]
  have hatoi : atoi (decimal argv.length ++ 13 :: [10]) = argv.length :=
    atoi_of_strtol (strtol_decimal (by omega) [10]) hcount
  obtain ⟨c, rest, hdigits, hc⟩ := decimal_head hpos
  have hfirst : (decimal argv.length ++ 13 :: [10]).head?.getD 0 ≠ 0 := by
    rw [hdigits]
    rintro (rfl : c = 0)
    exact absurd hc (by decide)
  simp only [readCount, hline, hdrop, hatoi]
  rw [if_neg (by simp [header]), if_neg hfirst, if_neg (by omega)]
  simp

theorem readCommand_cat (h : Fits argv) (X : Bytes) :
    readCommand (catAppendOnlyGenericCommand argv ++ X) = .ok (some (argv, X)) := by
  have hcount := h.count
  rw [cat_eq (by omega), List.append_assoc, List.cons_append, readCommand, readCount_cat h, ok_bind]
  simp only [readBulks_cat h.sizes X, ok_bind]
  rfl

/-! ## Commands that are cut -/

/-- An argument that is cut: the bytes for it are not there. -/
theorem readBulk_short {a P Q : Bytes} (ha : a.length < 2 ^ 63) (hcut : P ++ Q = catBulk a) (hQ : Q ≠ []) :
    readBulk P = .error .short := by
  -- the cut is in the line of the length
  have hheader : ∀ R, header 36 a.length = P ++ R → readBulk P = .error .short := by
    intro R hR
    have hmem : ∀ b ∈ P, b ≠ 10 := by
      intro b hb
      exact header_ne (c := 36) (by decide) a.length b (hR ▸ List.mem_append_left R hb)
    have hlen : P.length < 127 := by
      have := length_header_lt 36 ha
      rw [hR, List.length_append] at this
      omega
    cases P with
    | nil => rfl
    | cons c P =>
      have hc : c = 36 := by
        rw [header, List.cons_append, List.cons.injEq] at hR
        exact hR.1.symm
      rw [readBulk, fgets_open hmem hlen (List.cons_ne_nil _ _)]
      simp only [hc]
      rw [if_neg (by simp)]
      -- nothing is left, whatever number the digits stand for
      by_cases hzero : (strtol ((36 :: P).drop 1) % 2 ^ 64).toNat = 0
      · rw [if_neg (fun h => h.1 hzero), if_pos (by simp)]
      · rw [if_pos ⟨hzero, by simp only [List.length_nil]; omega⟩]
  rw [catBulk_eq ha] at hcut
  rcases List.append_eq_append_iff.mp hcut with ⟨R, hR, -⟩ | ⟨R, hP, hRQ⟩
  · exact hheader R hR
  · cases R with
    | nil =>
      rw [List.append_nil] at hP
      exact hheader [] (by rw [hP, List.append_nil])
    | cons c R =>
      rw [List.cons_append, List.cons.injEq] at hRQ
      obtain ⟨rfl, hrest⟩ := hRQ
      have hline := fgets_line R (header_ne (c := 36) (by decide) a.length) (length_header_lt 36 ha)
      have hshort : R.length < a.length + 2 := by
        have hlen' := congrArg List.length hrest
        have hQpos := List.length_pos_iff.mpr hQ
        simp only [List.length_append, List.length_cons, List.length_nil] at hlen'
        omega
      rw [hP, readBulk, hline]
      simp only [strtol_header ha]
      rw [if_neg (by simp [header])]
      by_cases hdata : a.length ≠ 0 ∧ R.length < a.length
      · rw [if_pos hdata]
      · rw [if_neg hdata, if_pos (by rw [List.length_drop]; omega)]

theorem readBulks_short {args : List Bytes} (h : ∀ a ∈ args, a.length < 2 ^ 63) :
    ∀ {P Q : Bytes}, P ++ Q = args.flatMap catBulk → Q ≠ [] →
      readBulks args.length P = .error .short := by
  induction args with
  | nil =>
    intro P Q hcut hQ
    exact absurd (List.append_eq_nil_iff.mp hcut).2 hQ
  | cons a args ih =>
    intro P Q hcut hQ
    have ha := h a List.mem_cons_self
    have hrest := fun b hb => h b (List.mem_cons_of_mem a hb)
    have hnext : ∀ R, P = catBulk a ++ R → R ++ Q = args.flatMap catBulk →
        readBulks (a :: args).length P = .error .short := by
      intro R hP hR
      rw [hP, List.length_cons, readBulks, readBulk_cat ha, ok_bind, ih hrest hR hQ]
      rfl
    rw [List.flatMap_cons] at hcut
    rcases List.append_eq_append_iff.mp hcut with ⟨R, hR, hQR⟩ | ⟨R, hP, hRQ⟩
    · cases R with
      | nil =>
        rw [List.append_nil] at hR
        exact hnext [] (by rw [hR, List.append_nil]) (by simpa using hQR)
      | cons c R =>
        -- the cut is in this argument
        rw [List.length_cons, readBulks, readBulk_short ha hR.symm (List.cons_ne_nil _ _)]
        rfl
    · exact hnext R hP hRQ.symm

/-- The count of a line that is cut is read as a number that is not zero. -/
theorem atoi_cut {n : Nat} (hpos : 0 < n) (hn : n < 2 ^ 31) {D E : Bytes} (hcut : decimal n ++ [13] = D ++ E)
    (hD : D ≠ []) : ∃ m : Nat, atoi D = m ∧ 0 < m ∧ D.head?.getD 0 ≠ 0 := by
  obtain ⟨c, rest, hdigits, hc⟩ := decimal_head hpos
  have hfirst : D.head?.getD 0 ≠ 0 := by
    obtain ⟨d, D, rfl⟩ := List.exists_cons_of_ne_nil hD
    rw [hdigits, List.cons_append, List.cons_append, List.cons.injEq] at hcut
    rw [List.head?_cons, Option.getD_some, ← hcut.1]
    rintro rfl
    exact absurd hc (by decide)
  have htake : D = (decimal n ++ [13]).take D.length := by
    rw [hcut, List.take_left]
  have hDlen := List.length_pos_iff.mpr hD
  by_cases hlen : D.length ≤ (decimal n).length
  · -- some of the digits
    rw [List.take_append_of_le_length hlen] at htake
    obtain ⟨hlow, hhigh⟩ := decimalOf_take hpos hDlen
    rw [← htake] at hlow hhigh
    have hdigit : ∀ b ∈ D, isdigit b = true := by
      intro b hb
      rw [htake] at hb
      exact decimal_isdigit (List.mem_of_mem_take hb)
    have hstrtol : strtol (D ++ []) = decimalOf D := strtol_digits hdigit (by simp) hD (by omega)
    rw [List.append_nil] at hstrtol
    exact ⟨decimalOf D, atoi_of_strtol hstrtol (by omega), hlow, hfirst⟩
  · rw [List.take_of_length_le (by simp; omega)] at htake
    have hstrtol := strtol_decimal (show n < 2 ^ 63 by omega) []
    exact ⟨n, atoi_of_strtol (by rw [htake]; exact hstrtol) hn, hpos, hfirst⟩

/-- A command that is cut anywhere ends in the read error. -/
theorem readCommand_short (h : Fits argv) {P Q : Bytes} (hcut : P ++ Q = catAppendOnlyGenericCommand argv)
    (hP : P ≠ []) (hQ : Q ≠ []) :
    readCommand P = .error .short := by
  have hcount := h.count
  have hpos := h.pos
  -- the cut is in the line of the count, which stands for another number then
  have hheader : ∀ R, header 42 argv.length = P ++ R → readCommand P = .error .short := by
    intro R hR
    have hmem : ∀ b ∈ P, b ≠ 10 := by
      intro b hb
      exact header_ne (c := 42) (by decide) argv.length b (hR ▸ List.mem_append_left R hb)
    have hlen : P.length < 127 := by
      have := length_header_lt 42 (show argv.length < 2 ^ 63 by omega)
      rw [hR, List.length_append] at this
      omega
    obtain ⟨c, D, rfl⟩ := List.exists_cons_of_ne_nil hP
    rw [header, List.cons_append, List.cons.injEq] at hR
    obtain ⟨rfl, hD⟩ := hR
    have hopen := fgets_open hmem hlen (List.cons_ne_nil _ _)
    rw [readCommand, readCount, hopen]
    simp only [List.head?_cons, ne_eq, not_true_eq_false, if_false, List.drop_succ_cons, List.drop_zero]
    by_cases hDnil : D = []
    · rw [hDnil]
      rfl
    · obtain ⟨m, hm, hmpos, hfirst⟩ := atoi_cut hpos hcount hD hDnil
      rw [if_neg hfirst, if_neg (by rw [hm]; omega), hm]
      obtain ⟨m, rfl⟩ : ∃ k, m = k + 1 := ⟨m - 1, by omega⟩
      rfl
  rw [cat_eq (by omega)] at hcut
  rcases List.append_eq_append_iff.mp hcut with ⟨R, hR, -⟩ | ⟨R, hPR, hRQ⟩
  · exact hheader R hR
  · cases R with
    | nil =>
      rw [List.append_nil] at hPR
      exact hheader [] (by rw [hPR, List.append_nil])
    | cons c R =>
      rw [List.cons_append, List.cons.injEq] at hRQ
      obtain ⟨rfl, hrest⟩ := hRQ
      rw [hPR, readCommand, readCount_cat h, ok_bind]
      simp only [readBulks_short h.sizes hrest.symm hQ]
      rfl

/-! ## The commands of a file -/

/-- The text of a sequence of commands. -/
def text (cs : List (List Bytes)) : Bytes := cs.flatMap catAppendOnlyGenericCommand

@[simp] theorem text_nil : text [] = [] := rfl

@[simp] theorem text_cons (argv : List Bytes) (cs : List (List Bytes)) :
    text (argv :: cs) = catAppendOnlyGenericCommand argv ++ text cs := rfl

@[simp] theorem text_append (cs ds : List (List Bytes)) : text (cs ++ ds) = text cs ++ text ds :=
  List.flatMap_append

theorem length_cat_pos (argv : List Bytes) : 0 < (catAppendOnlyGenericCommand argv).length := by
  simp [catAppendOnlyGenericCommand]

/-- `done` is the longest sequence of commands at the beginning of `cs` whose text is within `k` bytes. -/
structure LongestWithin (cs done : List (List Bytes)) (k : Nat) : Prop where
  pre : done <+: cs
  within : (text done).length ≤ k
  longest : ∀ ds, ds <+: cs → (text ds).length ≤ k → ds <+: done

/-- The text is cut after `done`, or inside the command behind it. -/
theorem longestWithin_cut {done rest : List (List Bytes)} {cut : Bytes}
    (h : ∀ argv ∈ rest.head?, cut.length < (catAppendOnlyGenericCommand argv).length) :
    LongestWithin (done ++ rest) done ((text done).length + cut.length) where
  pre := List.prefix_append done rest
  within := Nat.le_add_right _ _
  longest := by
    intro ds hds hlen
    rcases List.prefix_or_prefix_of_prefix hds (List.prefix_append done rest) with h' | ⟨es, rfl⟩
    · exact h'
    · cases es with
      | nil => simp
      | cons argv es =>
        -- one command more does not fit
        have hhead : rest.head? = some argv := by
          obtain ⟨fs, hfs⟩ := hds
          rw [List.append_assoc, List.append_cancel_left_eq] at hfs
          rw [← hfs]
          rfl
        have hshort := h argv hhead
        simp only [text_append, text_cons, List.length_append] at hlen
        omega

/-- What the loader knows about a command. -/
structure Known (env : LoadEnv) (argv : List Bytes) : Prop where
  fits : Fits argv
  known : (env.commands (arg argv 0)).isSome

/-- One command is run. -/
def runCommand (env : LoadEnv) (l : Loader) (argv : List Bytes) : Loader :=
  ((env.commands (arg argv 0)).map fun proc => runProc env l proc argv).getD l

/-- The commands are run. -/
def runCommands (env : LoadEnv) (l : Loader) (cs : List (List Bytes)) : Loader :=
  cs.foldl (runCommand env) l

theorem runCommand_eq {env : LoadEnv} {proc : Proc} (h : env.commands (arg argv 0) = some proc) (l : Loader) :
    runCommand env l argv = runProc env l proc argv := by
  rw [runCommand, h]
  rfl

/-! ## The loop -/

variable {env : LoadEnv}

theorem loadLoop_cat (h : Known env argv) (size n : Nat) (l : Loader) (v : Nat) (X : Bytes) :
    loadLoop env size (n + 1) l v (catAppendOnlyGenericCommand argv ++ X)
      = loadLoop env size n (runCommand env l argv) (if env.loadTruncated then size - X.length else v) X := by
  obtain ⟨proc, hproc⟩ := Option.isSome_iff_exists.mp h.known
  simp only [loadLoop, readCommand_cat h.fits X, hproc, runCommand_eq hproc]

/-- The commands at the beginning of the file are run. -/
theorem loadLoop_text (size : Nat) (X : Bytes) : ∀ {n : Nat} (l : Loader) (v : Nat),
    (∀ argv ∈ cs, Known env argv) → cs.length ≤ n →
      loadLoop env size n l v (text cs ++ X) = loadLoop env size (n - cs.length) (runCommands env l cs)
        (if env.loadTruncated = true ∧ cs ≠ [] then size - X.length else v) X := by
  induction cs with
  | nil =>
    intro n l v _ _
    simp [runCommands]
  | cons argv cs ih =>
    intro n l v hcs hn
    rw [List.length_cons] at hn
    obtain ⟨n, rfl⟩ : ∃ m, n = m + 1 := ⟨n - 1, by omega⟩
    rw [text_cons, List.append_assoc, loadLoop_cat (hcs argv List.mem_cons_self)]
    rw [ih _ _ (fun b hb => hcs b (List.mem_cons_of_mem _ hb)) (by omega)]
    have hv : (if env.loadTruncated = true ∧ cs ≠ [] then size - X.length
        else if env.loadTruncated = true then size - (text cs ++ X).length else v)
        = if env.loadTruncated = true ∧ argv :: cs ≠ [] then size - X.length else v := by
      cases cs <;> cases env.loadTruncated <;> simp
    rw [hv, List.length_cons, Nat.add_sub_add_right]
    rfl

/-- The file ends, between two commands or inside one. -/
theorem loadLoop_end (h : Fits argv) {cut Q : Bytes} (hcut : cut ++ Q = catAppendOnlyGenericCommand argv)
    (hQ : Q ≠ []) (size n : Nat) (l : Loader) (v : Nat) :
    loadLoop env size (n + 1) l v cut
      = if cut = [] ∧ l.multi = false then .loaded l.calls size else unexpectedEof env l v := by
  by_cases hnil : cut = []
  · subst hnil
    have hread : readCommand [] = .ok none := rfl
    simp only [loadLoop, hread]
    cases l.multi <;> simp
  · rw [if_neg (fun hc => hnil hc.1)]
    simp only [loadLoop, readCommand_short h hcut hnil hQ]

/-- A prefix of the text is the text of some commands and a piece of the next one. -/
theorem text_split : ∀ {P Q : Bytes}, P ++ Q = text cs →
    ∃ done rest cut, cs = done ++ rest ∧ P = text done ++ cut ∧ (rest = [] → cut = []) ∧
      ∀ argv ∈ rest.head?, ∃ Q', cut ++ Q' = catAppendOnlyGenericCommand argv ∧ Q' ≠ [] := by
  induction cs with
  | nil =>
    intro P Q hPQ
    have hP := (List.append_eq_nil_iff.mp hPQ).1
    exact ⟨[], [], [], rfl, by rw [hP]; rfl, fun _ => rfl, by simp⟩
  | cons argv cs ih =>
    intro P Q hPQ
    have hnext : ∀ R, P = catAppendOnlyGenericCommand argv ++ R → R ++ Q = text cs →
        ∃ done rest cut, argv :: cs = done ++ rest ∧ P = text done ++ cut ∧ (rest = [] → cut = []) ∧
          ∀ argv ∈ rest.head?, ∃ Q', cut ++ Q' = catAppendOnlyGenericCommand argv ∧ Q' ≠ [] := by
      intro R hP hR
      obtain ⟨done, rest, cut, hcs, hsplit, hlast, hcut⟩ := ih hR
      refine ⟨argv :: done, rest, cut, by rw [hcs]; rfl, ?_, hlast, hcut⟩
      rw [hP, hsplit, text_cons, List.append_assoc]
    rw [text_cons] at hPQ
    rcases List.append_eq_append_iff.mp hPQ with ⟨R, hR, hQR⟩ | ⟨R, hP, hRQ⟩
    · cases R with
      | nil =>
        rw [List.append_nil] at hR
        exact hnext [] (by rw [hR, List.append_nil]) (by simpa using hQR)
      | cons c R =>
        -- the cut is in this command
        refine ⟨[], argv :: cs, P, rfl, rfl, by simp, ?_⟩
        intro a ha
        rw [List.head?_cons, Option.mem_some_iff] at ha
        exact ⟨c :: R, by rw [← ha]; exact hR.symm, List.cons_ne_nil _ _⟩
    · exact hnext R hP hRQ.symm

theorem length_le_text (cs : List (List Bytes)) : cs.length ≤ (text cs).length := by
  induction cs with
  | nil => exact Nat.le_refl _
  | cons argv cs ih =>
    have := length_cat_pos argv
    simp only [text_cons, List.length_cons, List.length_append]
    omega

/-- Before the first command. -/
def Loader.fresh : Loader := ⟨0, false, []⟩

/-- The whole file. -/
theorem load_text (hcs : ∀ argv ∈ cs, Known env argv) (hne : cs ≠ [])
    (hmulti : (runCommands env Loader.fresh cs).multi = false) :
    loadAppendOnlyFile env (text cs)
      = .loaded (runCommands env Loader.fresh cs).calls (text cs).length := by
  have hlen := length_le_text cs
  have hpos := List.length_pos_iff.mpr hne
  have hloop := loadLoop_text (text cs).length [] Loader.fresh 0 hcs
    (show cs.length ≤ (text cs).length + 1 by omega)
  obtain ⟨m, hm⟩ : ∃ m, (text cs).length + 1 - cs.length = m + 1 :=
    ⟨(text cs).length - cs.length, by omega⟩
  rw [List.append_nil, hm] at hloop
  have hread : readCommand [] = .ok none := rfl
  rw [loadAppendOnlyFile, if_neg (by omega)]
  refine hloop.trans ?_
  simp only [loadLoop, hread, hmulti]
  rfl

/-- A file that is cut: the commands that are whole in it, and it is cut behind them. -/
theorem load_prefix (hcs : ∀ argv ∈ cs, Known env argv) (htruncated : env.loadTruncated = true) {k : Nat}
    (hk : 0 < k) (hfit : k ≤ (text cs).length) :
    ∃ done, LongestWithin cs done k ∧ loadAppendOnlyFile env ((text cs).take k)
      = .loaded (runCommands env Loader.fresh done).calls (text done).length := by
  obtain ⟨done, rest, cut, rfl, hsplit, hlast, hcut⟩ := text_split (List.take_append_drop k (text cs))
  have hkeq : k = (text done).length + cut.length := by
    have := congrArg List.length hsplit
    rw [List.length_take, List.length_append, Nat.min_eq_left hfit] at this
    exact this
  have hshort : ∀ argv ∈ rest.head?, cut.length < (catAppendOnlyGenericCommand argv).length := by
    intro argv hargv
    obtain ⟨Q, hQ, hne⟩ := hcut argv hargv
    have := List.length_pos_iff.mpr hne
    rw [← hQ, List.length_append]
    omega
  refine ⟨done, hkeq ▸ longestWithin_cut hshort, ?_⟩
  have hknown := fun argv h => hcs argv (List.mem_append_left rest h)
  have hlen := length_le_text done
  have hloop := loadLoop_text k cut Loader.fresh 0 hknown (show done.length ≤ k + 1 by omega)
  obtain ⟨m, hm⟩ : ∃ m, k + 1 - done.length = m + 1 := ⟨k - done.length, by omega⟩
  have hv : (if env.loadTruncated = true ∧ done ≠ [] then k - cut.length else 0) = (text done).length := by
    rw [htruncated, hkeq]
    cases done <;> simp
  rw [hm, hv] at hloop
  rw [hsplit, loadAppendOnlyFile, if_neg (by rw [List.length_append]; omega), List.length_append, ← hkeq]
  refine hloop.trans ?_
  obtain ⟨l, hl⟩ : ∃ l, runCommands env Loader.fresh done = l := ⟨_, rfl⟩
  rw [hl]
  -- between two commands the offset is the end of the file
  have hend : loadLoop env k (m + 1) l (text done).length cut
      = if cut = [] ∧ l.multi = false then .loaded l.calls k else unexpectedEof env l (text done).length := by
    cases rest with
    | nil =>
      have hread : readCommand [] = .ok none := rfl
      rw [hlast rfl]
      simp only [loadLoop, hread]
      cases l.multi <;> simp
    | cons argv rest =>
      obtain ⟨Q, hQ, hne⟩ := hcut argv rfl
      exact loadLoop_end (hcs argv (List.mem_append_right _ List.mem_cons_self)).fits hQ hne _ _ _ _
  rw [hend]
  by_cases hboth : cut = [] ∧ l.multi = false
  · rw [if_pos hboth, hkeq, hboth.1]
    rfl
  · rw [if_neg hboth, unexpectedEof, htruncated]
    rfl

/-! ## The file is fed and loaded -/

/-- A command as the server feeds it, without a time and without a transaction.  `SELECT` itself is
    never fed: it is not a write.  The loading server has the same commands and databases. -/
structure Replayable (env : LoadEnv) (f : Fed) : Prop where
  fits : Fits f.argv
  known : env.commands (arg f.argv 0) = some f.proc
  plain : f.proc ∉ [Proc.select, .multi, .expire, .pexpire, .expireat, .setex, .psetex]
  db : f.dictid < env.dbnum
  /-- `dictid` is an `int`. -/
  int : f.dictid < 2 ^ 31
  cluster : env.clusterEnabled = true → f.dictid = 0

theorem selectCommand_selectArgv {d : Nat} (hdb : d < env.dbnum) (hint : d < 2 ^ 31)
    (hcluster : env.clusterEnabled = true → d = 0) (db : Nat) :
    selectCommand env db (selectArgv d) = d := by
  have hnum : string2ll (arg (selectArgv d) 1) = some (d : Int) :=
    string2ll_formatLd (v := d) (by simp only [LLONG_MAX]; omega)
  have hmod : Int.bmod (d : Int) (2 ^ 32) = d := by
    rw [Int.bmod_eq_of_le] <;> omega
  simp only [selectCommand, hnum]
  rw [if_neg (fun h => h.2 (by rw [hcluster h.1]; rfl)), selectDb]
  simp only [hmod]
  rw [if_neg (by omega)]
  rfl

theorem fits_selectArgv {d : Nat} (hd : d < 2 ^ 31) : Fits (selectArgv d) where
  pos := by simp [selectArgv]
  count := by simp [selectArgv]
  sizes := by
    intro a ha
    simp only [selectArgv, List.mem_cons, List.not_mem_nil, or_false] at ha
    rcases ha with rfl | rfl
    · decide
    · exact length_formatLd_lt (by omega)

theorem translate_plain {mstime : Int} {f : Fed}
    (h : f.proc ∉ [Proc.select, .multi, .expire, .pexpire, .expireat, .setex, .psetex]) :
    translate mstime f = [f.argv] := by
  simp only [List.mem_cons, List.not_mem_nil, or_false, not_or] at h
  simp [translate, h]

theorem known_commandsOf (hselect : env.commands selectName = some .select) {f : Fed}
    (h : Replayable env f) (mstime selected : Int) : ∀ argv ∈ commandsOf mstime selected f, Known env argv := by
  intro argv hargv
  rw [commandsOf, translate_plain h.plain, List.mem_append] at hargv
  rcases hargv with hargv | hargv
  · by_cases hs : (f.dictid : Int) ≠ selected
    · rw [if_pos hs, List.mem_singleton] at hargv
      rw [hargv]
      exact ⟨fits_selectArgv h.int, by simp [arg, selectArgv, hselect]⟩
    · simp [hs] at hargv
  · rw [List.mem_singleton.mp hargv]
    exact ⟨h.fits, by simp [h.known]⟩

theorem known_commandsOfAll (hselect : env.commands selectName = some .select)
    (h : ∀ f ∈ fs, Replayable env f.2) :
    ∀ (selected : Int), ∀ argv ∈ commandsOfAll selected fs, Known env argv := by
  induction fs with
  | nil => simp [commandsOfAll]
  | cons f fs ih =>
    intro selected argv hargv
    obtain ⟨mstime, f⟩ := f
    rw [commandsOfAll, List.mem_append] at hargv
    rcases hargv with hargv | hargv
    · exact known_commandsOf hselect (h _ List.mem_cons_self) mstime selected argv hargv
    · exact ih (fun g hg => h g (List.mem_cons_of_mem _ hg)) _ argv hargv

theorem runCommands_append (l : Loader) (cs ds : List (List Bytes)) :
    runCommands env l (cs ++ ds) = runCommands env (runCommands env l cs) ds :=
  List.foldl_append

/-- One call for one command. -/
theorem runCommands_argv (h : ∀ argv ∈ cs, Known env argv) : ∀ (l : Loader),
    (runCommands env l cs).calls.map Call.argv = l.calls.map Call.argv ++ cs := by
  induction cs with
  | nil => simp [runCommands]
  | cons argv cs ih =>
    intro l
    obtain ⟨proc, hproc⟩ := Option.isSome_iff_exists.mp (h argv List.mem_cons_self).known
    rw [show runCommands env l (argv :: cs) = runCommands env (runCommand env l argv) cs from rfl]
    rw [ih (fun b hb => h b (List.mem_cons_of_mem _ hb)), runCommand_eq hproc]
    simp [runProc]

theorem runCommands_isPrefix (env : LoadEnv) (ds : List (List Bytes)) : ∀ (l : Loader), l.calls <+: (runCommands env l ds).calls := by
  induction ds with
  | nil => exact fun l => List.prefix_refl _
  | cons argv ds ih =>
    intro l
    refine List.IsPrefix.trans ?_ (ih (runCommand env l argv))
    cases hproc : env.commands (arg argv 0) with
    | none => simp [runCommand, hproc]
    | some proc => simp [runCommand_eq hproc, runProc]

/-- The calls for a command that was fed. -/
theorem runCommands_commandsOf (hselect : env.commands selectName = some .select) {f : Fed}
    (h : Replayable env f) (mstime : Int) {selected : Int} {l : Loader}
    (hdb : selected = l.db ∨ selected = -1) (hmulti : l.multi = false) :
    (runCommands env l (commandsOf mstime selected f)).db = f.dictid
      ∧ (runCommands env l (commandsOf mstime selected f)).multi = false
      ∧ (runCommands env l (commandsOf mstime selected f)).calls.filter (fun c => c.proc ≠ .select)
        = l.calls.filter (fun c => c.proc ≠ .select) ++ [⟨f.dictid, f.proc, f.argv⟩] := by
  have hplain := h.plain
  simp only [List.mem_cons, List.not_mem_nil, or_false, not_or] at hplain
  -- the command is run in its database
  have hrun : ∀ l' : Loader, l'.db = f.dictid → l'.multi = false →
      runCommands env l' [f.argv] = ⟨f.dictid, false, l'.calls ++ [⟨f.dictid, f.proc, f.argv⟩]⟩ := by
    intro l' hl' hm'
    have hstep : runCommands env l' [f.argv] = runProc env l' f.proc f.argv := runCommand_eq h.known l'
    rw [hstep, runProc]
    simp [hplain, hl', hm']
  rw [commandsOf, translate_plain h.plain, runCommands_append]
  by_cases hs : (f.dictid : Int) ≠ selected
  · rw [if_pos hs]
    have hsel : runCommands env l [selectArgv f.dictid]
        = ⟨f.dictid, false, l.calls ++ [⟨l.db, .select, selectArgv f.dictid⟩]⟩ := by
      have hstep : runCommands env l [selectArgv f.dictid] = runProc env l .select (selectArgv f.dictid) :=
        runCommand_eq hselect l
      rw [hstep, runProc]
      simp [selectCommand_selectArgv h.db h.int h.cluster, hmulti]
    rw [hsel, hrun _ rfl rfl]
    simp [hplain]
  · have hdb' : l.db = f.dictid := by omega
    rw [if_neg hs, show runCommands env l [] = l from rfl, hrun l hdb' hmulti]
    simp [hplain]

theorem runCommands_commandsOfAll (hselect : env.commands selectName = some .select)
    (h : ∀ f ∈ fs, Replayable env f.2) : ∀ {selected : Int} {l : Loader},
      (selected = l.db ∨ selected = -1) → l.multi = false →
        (runCommands env l (commandsOfAll selected fs)).multi = false
          ∧ (runCommands env l (commandsOfAll selected fs)).calls.filter (fun c => c.proc ≠ .select)
            = l.calls.filter (fun c => c.proc ≠ .select)
              ++ fs.map fun f => (⟨f.2.dictid, f.2.proc, f.2.argv⟩ : Call) := by
  induction fs with
  | nil =>
    intro selected l _ hmulti
    exact ⟨hmulti, by simp [commandsOfAll, runCommands]⟩
  | cons f fs ih =>
    intro selected l hdb hmulti
    obtain ⟨mstime, f⟩ := f
    obtain ⟨hdb', hmulti', hcalls'⟩ :=
      runCommands_commandsOf hselect (h _ List.mem_cons_self) mstime hdb hmulti
    rw [commandsOfAll, runCommands_append]
    obtain ⟨hm, hc⟩ := ih (fun g hg => h g (List.mem_cons_of_mem _ hg)) (.inl (by rw [hdb'])) hmulti'
    exact ⟨hm, by rw [hc, hcalls']; simp⟩

theorem commandsOfAll_ne_nil (hne : fs ≠ []) (h : ∀ f ∈ fs, Replayable env f.2) (selected : Int) :
    commandsOfAll selected fs ≠ [] := by
  obtain ⟨⟨mstime, f⟩, fs, rfl⟩ := List.exists_cons_of_ne_nil hne
  rw [commandsOfAll, commandsOf, translate_plain (h _ List.mem_cons_self).plain]
  simp

/-- **The round trip.** A file that is fed and loaded gives the same commands, each in its database;
    a file that is cut after `k` bytes gives the longest sequence of commands that is whole in them,
    and is truncated behind it. -/
theorem aof_roundtrip (env : LoadEnv) (hselect : env.commands selectName = some .select)
    (fs : List (Int × Fed)) (h : ∀ f ∈ fs, Replayable env f.2) :
    (feedAll (-1) fs).1 = text (commandsOfAll (-1) fs) ∧
      ∃ calls : List Call, calls.map Call.argv = commandsOfAll (-1) fs
        ∧ calls.filter (fun c => c.proc ≠ .select) = fs.map (fun f => ⟨f.2.dictid, f.2.proc, f.2.argv⟩)
        ∧ loadAppendOnlyFile env (feedAll (-1) fs).1
          = (if fs = [] then .empty else .loaded calls (feedAll (-1) fs).1.length)
        ∧ (env.loadTruncated = true → ∀ k ≤ (feedAll (-1) fs).1.length,
            ∃ done, LongestWithin (commandsOfAll (-1) fs) done k
              ∧ loadAppendOnlyFile env ((feedAll (-1) fs).1.take k)
                = (if k = 0 then .empty else .loaded (calls.take done.length) (text done).length)) := by
  have hfile : (feedAll (-1) fs).1 = text (commandsOfAll (-1) fs) :=
    feedAll_eq fs (-1) (fun f hf => by have := (h f hf).int; omega)
  have hknown := known_commandsOfAll hselect h (-1)
  obtain ⟨hmulti, hcalls⟩ := runCommands_commandsOfAll hselect h (l := Loader.fresh) (.inr rfl) rfl
  refine ⟨hfile, (runCommands env Loader.fresh (commandsOfAll (-1) fs)).calls,
    runCommands_argv hknown Loader.fresh, hcalls, ?_, ?_⟩
  · by_cases hnil : fs = []
    · subst hnil
      rfl
    · rw [if_neg hnil, hfile]
      exact load_text hknown (commandsOfAll_ne_nil hnil h (-1)) hmulti
  · intro htruncated k hk
    by_cases hzero : k = 0
    · subst hzero
      refine ⟨[], ⟨List.nil_prefix, Nat.le_refl _, ?_⟩, rfl⟩
      intro ds _ hlen
      have hle := length_le_text ds
      have hds : ds = [] := List.length_eq_zero_iff.mp (by omega)
      subst hds
      exact List.prefix_refl _
    · rw [hfile] at hk ⊢
      obtain ⟨done, hdone, hload⟩ := load_prefix hknown htruncated (by omega) hk
      refine ⟨done, hdone, ?_⟩
      rw [if_neg hzero, hload]
      obtain ⟨rest, hrest⟩ := hdone.pre
      have hprefix := runCommands_isPrefix env rest (runCommands env Loader.fresh done)
      rw [← runCommands_append, hrest] at hprefix
      have hlen : (runCommands env Loader.fresh done).calls.length = done.length := by
        have hargv := runCommands_argv
          (fun a ha => hknown a (hrest ▸ List.mem_append_left rest ha)) Loader.fresh
        simpa [Loader.fresh] using congrArg List.length hargv
      rw [← hlen, ← List.prefix_iff_eq_take.mp hprefix]

/-- A server with two commands. -/
def smallEnv : LoadEnv where
  commands name := if name = selectName then some .select else if name = setName then some .set else none
  dbnum := 16
  clusterEnabled := false
  loadTruncated := true

theorem aof_roundtrip_set : ∃ calls : List Call,
    calls.filter (fun c => c.proc ≠ .select)
        = [⟨3, .set, [setName, [107], [42, 13, 10]]⟩, ⟨0, .set, [setName, [107], []]⟩]
      ∧ loadAppendOnlyFile smallEnv
          (feedAll (-1) [(0, ⟨.set, 3, [setName, [107], [42, 13, 10]]⟩), (1, ⟨.set, 0, [setName, [107], []]⟩)]).1
        = .loaded calls
          (feedAll (-1) [(0, ⟨.set, 3, [setName, [107], [42, 13, 10]]⟩), (1, ⟨.set, 0, [setName, [107], []]⟩)]).1.length := by
  have hset : ∀ v, v = [42, 13, 10] ∨ v = [] → Fits [setName, [107], v] := by
    rintro v (rfl | rfl) <;> exact ⟨by decide, by decide, by simp [setName]⟩
  obtain ⟨-, calls, -, hcalls, hload, -⟩ := aof_roundtrip smallEnv rfl
    [(0, ⟨.set, 3, [setName, [107], [42, 13, 10]]⟩), (1, ⟨.set, 0, [setName, [107], []]⟩)] (by
      intro f hf
      simp only [List.mem_cons, List.not_mem_nil, or_false] at hf
      rcases hf with rfl | rfl
      · exact ⟨hset _ (.inl rfl), by decide, by decide, by decide, by decide, by decide⟩
      · exact ⟨hset _ (.inr rfl), by decide, by decide, by decide, by decide, by decide⟩)
  exact ⟨calls, hcalls, hload⟩

end Redis.Aof
