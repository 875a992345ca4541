import Redis.Aof.Command

namespace Redis.Aof

/-!
# AOF — loading

`loadAppendOnlyFile` (`aof.c`): the file is read command by command and every command is given to
its implementation with a client that is not connected.

* `fgets`, `readCount`, `readBulk`, `readBulks` — one command;
* `Loader`, `runProc` — the client, and the calls that were made with it;
* `loadLoop`, `loadAppendOnlyFile` — the loop, and the ends of it.

The position in the file is what is left of it.  `truncate` and `lseek` succeed.
-/

/-! ## Reading -/

/-- `fgets` into a buffer with room for `n` bytes: the line with its newline, and what is left. -/
def fgetsLine : Nat → Bytes → Bytes × Bytes
  | 0, s => ([], s)
  | _ + 1, [] => ([], [])
  | n + 1, c :: s =>
    if c = 10 then ([c], s)
    else
      let r := fgetsLine n s
      (c :: r.1, r.2)

/-- `fgets(buf,128,fp)`: `none` is `NULL`, and the flag is `feof(fp)`. -/
def fgets (s : Bytes) : Option (Bytes × Bytes × Bool) :=
  if s.length = 0 then none
  else
    let r := fgetsLine 127 s
    some (r.1, r.2, decide (r.1.getLast? ≠ some 10 ∧ r.1.length < 127))

/-- Where `loadAppendOnlyFile` jumps to. -/
inductive ReadFault
  /-- `readerr` with `feof(fp)`. -/
  | short
  /-- `readerr` without it. -/
  | failed
  /-- `fmterr`. -/
  | format
  deriving DecidableEq, Repr

/-- The line `*<argc>`: `none` at the end of the file. -/
def readCount (s : Bytes) : Except ReadFault (Option (Nat × Bytes)) :=
  match fgets s with
  | none => .ok none
  | some (buf, s, eof) =>
    if buf.head? ≠ some 42 then .error .format
    else if (buf.drop 1).head?.getD 0 = 0 then .error (if eof then .short else .failed)
    else if atoi (buf.drop 1) < 1 then .error .format
    else .ok (some ((atoi (buf.drop 1)).toNat, s))

/-- One argument. -/
def readBulk (s : Bytes) : Except ReadFault (Bytes × Bytes) :=
  match fgets s with
  | none => .error .short
  | some (buf, s, _) =>
    if buf.head? ≠ some 36 then .error .format
    else
      -- `len` is an `unsigned long`
      let len := (strtol (buf.drop 1) % 2 ^ 64).toNat
      if len ≠ 0 ∧ s.length < len then .error .short
      -- discard CRLF
      else if (s.drop len).length < 2 then .error .short
      else .ok (s.take len, (s.drop len).drop 2)

/-- The loop over the arguments. -/
def readBulks : Nat → Bytes → Except ReadFault (List Bytes × Bytes)
  | 0, s => .ok ([], s)
  | n + 1, s => do
    let r ← readBulk s
    let rest ← readBulks n r.2
    return (r.1 :: rest.1, rest.2)

/-- One command: `none` at the end of the file. -/
def readCommand (s : Bytes) : Except ReadFault (Option (List Bytes × Bytes)) := do
  let r ← readCount s
  match r with
  | none => return none
  | some (argc, s) => do
    let r ← readBulks argc s
    return some r

/-! ## Running -/

/-- A command implementation is called for the client, in the database that is selected then. -/
structure Call where
  db : Nat
  proc : Proc
  argv : List Bytes
  deriving DecidableEq, Repr

/-- The fake client, and the calls so far. -/
structure Loader where
  db : Nat
  /-- `CLIENT_MULTI`. -/
  multi : Bool
  calls : List Call
  deriving DecidableEq, Repr

/-- The part of the configuration that loading reads. -/
structure LoadEnv where
  /-- `server.commands`. -/
  commands : Bytes → Option Proc
  dbnum : Nat
  clusterEnabled : Bool
  /-- `server.aof_load_truncated`. -/
  loadTruncated : Bool

/-- `selectDb`, whose `id` is an `int`: the database that is selected afterwards. -/
def selectDb (env : LoadEnv) (db : Nat) (id : Int) : Nat :=
  let id := Int.bmod id (2 ^ 32)
  if id < 0 ∨ (env.dbnum : Int) ≤ id then db else id.toNat

/-- `selectCommand`. -/
def selectCommand (env : LoadEnv) (db : Nat) (argv : List Bytes) : Nat :=
  match string2ll (arg argv 1) with
  | none => db
  | some id => if env.clusterEnabled = true ∧ id ≠ 0 then db else selectDb env db id

/-- `cmd->proc(fakeClient)`.  `EXEC` finds no queued command. -/
def runProc (env : LoadEnv) (l : Loader) (proc : Proc) (argv : List Bytes) : Loader :=
  { db := if proc = .select then selectCommand env l.db argv else l.db
    multi := if proc = .multi then true else if proc = .exec ∨ proc = .discard then false else l.multi
    calls := l.calls ++ [⟨l.db, proc, argv⟩] }

/-- How loading ends. -/
inductive LoadResult
  /-- `C_ERR`: the file is empty. -/
  | empty
  /-- `C_OK`, with the calls and the length of the file. -/
  | loaded (calls : List Call) (size : Nat)
  /-- `exit(1)`. -/
  | formatError
  | readError
  | unknownCommand
  | unexpectedEnd
  | unfinished
  deriving DecidableEq, Repr

/-- `uxeof`: `validUpTo` is the offset of the latest well-formed command. -/
def unexpectedEof (env : LoadEnv) (l : Loader) (validUpTo : Nat) : LoadResult :=
  if env.loadTruncated then .loaded l.calls validUpTo else .unexpectedEnd

/-- The loop of `loadAppendOnlyFile`, at most `n` times, on what is left of a file of `size` bytes. -/
def loadLoop (env : LoadEnv) (size : Nat) : Nat → Loader → Nat → Bytes → LoadResult
  | 0, _, _, _ => .unfinished
  | n + 1, l, validUpTo, s =>
    match readCommand s with
    | .error .short => unexpectedEof env l validUpTo
    | .error .failed => .readError
    | .error .format => .formatError
    | .ok none =>
      -- in the middle of a transaction
      if l.multi then unexpectedEof env l validUpTo else .loaded l.calls size
    | .ok (some (argv, rest)) =>
      match env.commands (arg argv 0) with
      | none => .unknownCommand
      | some proc =>
        loadLoop env size n (runProc env l proc argv)
          (if env.loadTruncated then size - rest.length else validUpTo) rest

/-- `loadAppendOnlyFile`: every turn but the last reads a byte. -/
def loadAppendOnlyFile (env : LoadEnv) (file : Bytes) : LoadResult :=
  if file.length = 0 then .empty
  else loadLoop env file.length (file.length + 1) ⟨0, false, []⟩ 0 file

end Redis.Aof
