import Redis.Libc

namespace Redis.Aof

/-!
# AOF — what is written

The text of the append only file (`aof.c`): every command is written in the format of the
protocol, a `SELECT` before a command of another database, and the commands that take a time to
live with the absolute time instead.

* `Proc` — the command implementations that are told apart;
* `catAppendOnlyGenericCommand`, `catAppendOnlyExpireAtCommand`;
* `feedAppendOnlyFile` — the bytes for one command, and `server.aof_selected_db` after them;
* `commandsOf`, `feedAppendOnlyFile_eq` — the same as a list of argument vectors.
-/

/-- `cmd->proc`, as far as the code compares it. -/
inductive Proc
  | select
  | multi
  | exec
  | discard
  | del
  | set
  | setex
  | psetex
  | expire
  | pexpire
  | expireat
  | pexpireat
  | persist
  | restore
  | other
  deriving DecidableEq, Repr

/-- A command as it is given to `feedAppendOnlyFile`. -/
structure Fed where
  proc : Proc
  dictid : Nat
  argv : List Bytes
  deriving DecidableEq, Repr

/-- One argument: `$<len>\r\n<arg>\r\n`. -/
def catBulk (arg : Bytes) : Bytes :=
  [36] ++ ll2string 32 arg.length ++ [13, 10] ++ arg ++ [13, 10]

/-- `catAppendOnlyGenericCommand`: what is appended to `dst`. -/
def catAppendOnlyGenericCommand (argv : List Bytes) : Bytes :=
  [42] ++ ll2string 32 argv.length ++ [13, 10] ++ argv.flatMap catBulk

/-- `"PEXPIREAT"`. -/
def pexpireatName : Bytes := [80, 69, 88, 80, 73, 82, 69, 65, 84]

/-- `"SET"`. -/
def setName : Bytes := [83, 69, 84]

/-- `"SELECT"`. -/
def selectName : Bytes := [83, 69, 76, 69, 67, 84]

/-- The time that `catAppendOnlyExpireAtCommand` writes, with 64-bit arithmetic. -/
def expireAt (proc : Proc) (mstime : Int) (seconds : Bytes) : Int :=
  let when := strtol seconds
  -- into milliseconds for `EXPIRE`, `SETEX`, `EXPIREAT`
  let when :=
    if proc = .expire ∨ proc = .setex ∨ proc = .expireat then Int.bmod (when * 1000) (2 ^ 64) else when
  -- into absolute time for `EXPIRE`, `PEXPIRE`, `SETEX`, `PSETEX`
  if proc = .expire ∨ proc = .pexpire ∨ proc = .setex ∨ proc = .psetex then
    Int.bmod (when + mstime) (2 ^ 64)
  else when

/-- The argument vector of `catAppendOnlyExpireAtCommand`. -/
def expireAtArgv (proc : Proc) (mstime : Int) (key seconds : Bytes) : List Bytes :=
  [pexpireatName, key, ll2string 32 (expireAt proc mstime seconds)]

/-- `catAppendOnlyExpireAtCommand`. -/
def catAppendOnlyExpireAtCommand (proc : Proc) (mstime : Int) (key seconds : Bytes) : Bytes :=
  catAppendOnlyGenericCommand (expireAtArgv proc mstime key seconds)

/-- The `SELECT` of `feedAppendOnlyFile`, from its format. -/
def catSelect (dictid : Nat) : Bytes :=
  let seldb := formatLd dictid
  -- `*2\r\n$6\r\nSELECT\r\n$%lu\r\n%s\r\n`
  [42, 50, 13, 10, 36, 54, 13, 10] ++ selectName ++ [13, 10, 36] ++ formatLd seldb.length ++ [13, 10]
    ++ seldb ++ [13, 10]

/-- The argument of a vector, empty if it is not there. -/
def arg (argv : List Bytes) (i : Nat) : Bytes := argv.getD i []

/-- `feedAppendOnlyFile`: the bytes, and `server.aof_selected_db` afterwards. -/
def feedAppendOnlyFile (mstime : Int) (selected : Int) (f : Fed) : Bytes × Int :=
  let buf := if (f.dictid : Int) ≠ selected then catSelect f.dictid else []
  let buf := buf ++
    (if f.proc = .expire ∨ f.proc = .pexpire ∨ f.proc = .expireat then
      catAppendOnlyExpireAtCommand f.proc mstime (arg f.argv 1) (arg f.argv 2)
    else if f.proc = .setex ∨ f.proc = .psetex then
      -- `SETEX key seconds value` is written as `SET` and `PEXPIREAT`
      catAppendOnlyGenericCommand [setName, arg f.argv 1, arg f.argv 3]
        ++ catAppendOnlyExpireAtCommand f.proc mstime (arg f.argv 1) (arg f.argv 2)
    else catAppendOnlyGenericCommand f.argv)
  (buf, f.dictid)

/-- A sequence of commands, each with the time at which it is fed. -/
def feedAll (selected : Int) : List (Int × Fed) → Bytes × Int
  | [] => ([], selected)
  | (mstime, f) :: fs =>
    let r := feedAppendOnlyFile mstime selected f
    let rest := feedAll r.2 fs
    (r.1 ++ rest.1, rest.2)

/-! ## The same as argument vectors -/

/-- The arguments of a `SELECT`. -/
def selectArgv (dictid : Nat) : List Bytes := [selectName, formatLd dictid]

/-- What a command is written as, without a `SELECT`. -/
def translate (mstime : Int) (f : Fed) : List (List Bytes) :=
  if f.proc = .expire ∨ f.proc = .pexpire ∨ f.proc = .expireat then
    [expireAtArgv f.proc mstime (arg f.argv 1) (arg f.argv 2)]
  else if f.proc = .setex ∨ f.proc = .psetex then
    [[setName, arg f.argv 1, arg f.argv 3], expireAtArgv f.proc mstime (arg f.argv 1) (arg f.argv 2)]
  else [f.argv]

/-- What a command is written as. -/
def commandsOf (mstime : Int) (selected : Int) (f : Fed) : List (List Bytes) :=
  (if (f.dictid : Int) ≠ selected then [selectArgv f.dictid] else []) ++ translate mstime f

/-- What a sequence of commands is written as. -/
def commandsOfAll (selected : Int) : List (Int × Fed) → List (List Bytes)
  | [] => []
  | (mstime, f) :: fs => commandsOf mstime selected f ++ commandsOfAll f.dictid fs

theorem formatLd_natCast (n : Nat) : formatLd (n : Int) = decimal n := by
  rw [formatLd, if_neg (by omega), List.nil_append, Int.natAbs_natCast]

theorem ll2string_natCast {n : Nat} (h : n < 2 ^ 63) : ll2string 32 (n : Int) = decimal n := by
  rw [ll2string_eq (by omega) (by exact_mod_cast h), if_neg (by omega), List.nil_append, Int.natAbs_natCast]

theorem length_formatLd_lt {n : Nat} (h : n < 2 ^ 63) : (formatLd (n : Int)).length < 2 ^ 63 := by
  rw [formatLd_natCast]
  have hlen := length_decimal_le (n := 18) (show n < 10 ^ 19 by omega)
  omega

theorem catSelect_eq {dictid : Nat} (h : dictid < 2 ^ 63) :
    catSelect dictid = catAppendOnlyGenericCommand (selectArgv dictid) := by
  have hlen := length_formatLd_lt h
  have htwo : ll2string 32 ((2 : Nat) : Int) = [50] := by
    rw [ll2string_natCast (by decide), decimal_of_lt (by decide)]
    rfl
  have hsix : ll2string 32 ((6 : Nat) : Int) = [54] := by
    rw [ll2string_natCast (by decide), decimal_of_lt (by decide)]
    rfl
  have hnum : ll2string 32 ((formatLd (dictid : Int)).length : Int)
      = formatLd ((formatLd (dictid : Int)).length : Int) := by
    rw [ll2string_natCast hlen, formatLd_natCast (formatLd (dictid : Int)).length]
  simp only [catAppendOnlyGenericCommand, selectArgv, List.length_cons, List.length_nil, htwo,
    List.flatMap_cons, List.flatMap_nil, catBulk, hnum, show selectName.length = 6 from rfl, hsix, catSelect]
  simp

theorem catSelect_zero : catSelect 0
    = [42, 50, 13, 10, 36, 54, 13, 10, 83, 69, 76, 69, 67, 84, 13, 10, 36, 49, 13, 10, 48, 13, 10] := by
  have hnum : formatLd ((0 : Nat) : Int) = [48] := by
    rw [formatLd_natCast, decimal_of_lt (by decide)]
    rfl
  have hlen : formatLd ((([48] : Bytes).length : Nat) : Int) = [49] := by
    rw [formatLd_natCast, decimal_of_lt (by decide)]
    rfl
  simp only [catSelect, hnum, hlen]
  decide

theorem feedAppendOnlyFile_eq (mstime selected : Int) {f : Fed} (h : f.dictid < 2 ^ 63) :
    feedAppendOnlyFile mstime selected f
      = ((commandsOf mstime selected f).flatMap catAppendOnlyGenericCommand, (f.dictid : Int)) := by
  have hselect : (if (f.dictid : Int) ≠ selected then catSelect f.dictid else [])
      = (if (f.dictid : Int) ≠ selected then [selectArgv f.dictid] else []).flatMap
          catAppendOnlyGenericCommand := by
    by_cases hs : (f.dictid : Int) ≠ selected
    · rw [if_pos hs, if_pos hs, catSelect_eq h]
      simp
    · rw [if_neg hs, if_neg hs]
      rfl
  simp only [feedAppendOnlyFile, commandsOf, List.flatMap_append, hselect, translate]
  congr 2
  by_cases hexpire : f.proc = .expire ∨ f.proc = .pexpire ∨ f.proc = .expireat
  · rw [if_pos hexpire, if_pos hexpire]
    simp [catAppendOnlyExpireAtCommand]
  · rw [if_neg hexpire, if_neg hexpire]
    by_cases hsetex : f.proc = .setex ∨ f.proc = .psetex
    · rw [if_pos hsetex, if_pos hsetex]
      simp [catAppendOnlyExpireAtCommand]
    · rw [if_neg hsetex, if_neg hsetex]
      simp

/-- The file is the text of the argument vectors. -/
theorem feedAll_eq (fs : List (Int × Fed)) : ∀ (selected : Int), (∀ f ∈ fs, f.2.dictid < 2 ^ 63) →
    (feedAll selected fs).1 = (commandsOfAll selected fs).flatMap catAppendOnlyGenericCommand := by
  induction fs with
  | nil => exact fun _ _ => rfl
  | cons f fs ih =>
    intro selected h
    obtain ⟨mstime, f⟩ := f
    have hf := feedAppendOnlyFile_eq mstime selected (h _ List.mem_cons_self)
    simp only [feedAll, hf, commandsOfAll, List.flatMap_append]
    rw [ih _ (fun g hg => h g (List.mem_cons_of_mem _ hg))]

end Redis.Aof
