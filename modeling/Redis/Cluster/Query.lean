import Redis.Cluster.Election
import Redis.Libc

namespace Redis

open Outcome

/-!
# Which node serves a query

* `getKeysFromCommand` — the positions of the keys of a command;
* `keyHashSlot` — the slot of a key;
* `getNodeByQuery` — the node that may serve a command or a queued transaction: the keys
  are looked at one after the other, then an ordered list of exceptions decides;
* `QueryScan.Saw` — what the loop over the keys has gathered;
* `MayServe`, `QuerySound` — when a node may serve a query, and what the answers mean;
* `getNodeByQuery_sound_iff` — the answers mean that, unless a slot is migrating to the
  node that owns it.
-/

/-! ### Slots -/

/-- `crc16tab`. -/
def crc16tab : List Nat := [
  0x0000, 0x1021, 0x2042, 0x3063, 0x4084, 0x50a5, 0x60c6, 0x70e7,
  0x8108, 0x9129, 0xa14a, 0xb16b, 0xc18c, 0xd1ad, 0xe1ce, 0xf1ef,
  0x1231, 0x0210, 0x3273, 0x2252, 0x52b5, 0x4294, 0x72f7, 0x62d6,
  0x9339, 0x8318, 0xb37b, 0xa35a, 0xd3bd, 0xc39c, 0xf3ff, 0xe3de,
  0x2462, 0x3443, 0x0420, 0x1401, 0x64e6, 0x74c7, 0x44a4, 0x5485,
  0xa56a, 0xb54b, 0x8528, 0x9509, 0xe5ee, 0xf5cf, 0xc5ac, 0xd58d,
  0x3653, 0x2672, 0x1611, 0x0630, 0x76d7, 0x66f6, 0x5695, 0x46b4,
  0xb75b, 0xa77a, 0x9719, 0x8738, 0xf7df, 0xe7fe, 0xd79d, 0xc7bc,
  0x48c4, 0x58e5, 0x6886, 0x78a7, 0x0840, 0x1861, 0x2802, 0x3823,
  0xc9cc, 0xd9ed, 0xe98e, 0xf9af, 0x8948, 0x9969, 0xa90a, 0xb92b,
  0x5af5, 0x4ad4, 0x7ab7, 0x6a96, 0x1a71, 0x0a50, 0x3a33, 0x2a12,
  0xdbfd, 0xcbdc, 0xfbbf, 0xeb9e, 0x9b79, 0x8b58, 0xbb3b, 0xab1a,
  0x6ca6, 0x7c87, 0x4ce4, 0x5cc5, 0x2c22, 0x3c03, 0x0c60, 0x1c41,
  0xedae, 0xfd8f, 0xcdec, 0xddcd, 0xad2a, 0xbd0b, 0x8d68, 0x9d49,
  0x7e97, 0x6eb6, 0x5ed5, 0x4ef4, 0x3e13, 0x2e32, 0x1e51, 0x0e70,
  0xff9f, 0xefbe, 0xdfdd, 0xcffc, 0xbf1b, 0xaf3a, 0x9f59, 0x8f78,
  0x9188, 0x81a9, 0xb1ca, 0xa1eb, 0xd10c, 0xc12d, 0xf14e, 0xe16f,
  0x1080, 0x00a1, 0x30c2, 0x20e3, 0x5004, 0x4025, 0x7046, 0x6067,
  0x83b9, 0x9398, 0xa3fb, 0xb3da, 0xc33d, 0xd31c, 0xe37f, 0xf35e,
  0x02b1, 0x1290, 0x22f3, 0x32d2, 0x4235, 0x5214, 0x6277, 0x7256,
  0xb5ea, 0xa5cb, 0x95a8, 0x8589, 0xf56e, 0xe54f, 0xd52c, 0xc50d,
  0x34e2, 0x24c3, 0x14a0, 0x0481, 0x7466, 0x6447, 0x5424, 0x4405,
  0xa7db, 0xb7fa, 0x8799, 0x97b8, 0xe75f, 0xf77e, 0xc71d, 0xd73c,
  0x26d3, 0x36f2, 0x0691, 0x16b0, 0x6657, 0x7676, 0x4615, 0x5634,
  0xd94c, 0xc96d, 0xf90e, 0xe92f, 0x99c8, 0x89e9, 0xb98a, 0xa9ab,
  0x5844, 0x4865, 0x7806, 0x6827, 0x18c0, 0x08e1, 0x3882, 0x28a3,
  0xcb7d, 0xdb5c, 0xeb3f, 0xfb1e, 0x8bf9, 0x9bd8, 0xabbb, 0xbb9a,
  0x4a75, 0x5a54, 0x6a37, 0x7a16, 0x0af1, 0x1ad0, 0x2ab3, 0x3a92,
  0xfd2e, 0xed0f, 0xdd6c, 0xcd4d, 0xbdaa, 0xad8b, 0x9de8, 0x8dc9,
  0x7c26, 0x6c07, 0x5c64, 0x4c45, 0x3ca2, 0x2c83, 0x1ce0, 0x0cc1,
  0xef1f, 0xff3e, 0xcf5d, 0xdf7c, 0xaf9b, 0xbfba, 0x8fd9, 0x9ff8,
  0x6e17, 0x7e36, 0x4e55, 0x5e74, 0x2e93, 0x3eb2, 0x0ed1, 0x1ef0]

/-- `crc16`. -/
def crc16 (buf : Bytes) : UInt16 :=
  buf.foldl (fun crc c =>
    (crc <<< 8) ^^^ UInt16.ofNat (crc16tab.getD (((crc >>> 8) ^^^ c.toUInt16) &&& 0x00FF).toNat 0)) 0

example : crc16 [49, 50, 51, 52, 53, 54, 55, 56, 57] = 0x31C3 := by decide

/-- The low 14 bits. -/
def crc16Slot (buf : Bytes) : Slot :=
  ⟨(crc16 buf).toNat % 16384, Nat.mod_lt _ (by decide)⟩

/-- `keyHashSlot`: of `{...}` only the part in the braces is hashed. -/
def keyHashSlot (key : Bytes) : Slot :=
  match key.dropWhile (· ≠ 123) with
  | [] => crc16Slot key
  | _ :: rest =>
      let tag := rest.takeWhile (· ≠ 125)
      -- no closing brace, or nothing between the braces
      if tag.length = rest.length ∨ tag = [] then crc16Slot key else crc16Slot tag

/-! ### Keys of a command -/

/-- The commands that `getNodeByQuery` tells apart. -/
inductive CommandProc
  | exec
  | migrate
  | other
  deriving DecidableEq, Repr

/-- `getkeys_proc`. -/
inductive GetKeysProc
  | zunionInterGetKeys
  | evalGetKeys
  | sortGetKeys
  | migrateGetKeys
  deriving DecidableEq, Repr

/-- `struct redisCommand`, as far as queries read it. -/
structure RedisCommand where
  proc : CommandProc
  /-- `CMD_READONLY`. -/
  readonly : Bool
  /-- `CMD_ASKING`. -/
  asking : Bool
  getkeysProc : Option GetKeysProc
  firstkey : Nat
  lastkey : Int
  keystep : Nat
  /-- The loop over the keys advances. -/
  advances : firstkey ≠ 0 → 0 < keystep

/-- What ends the process while the keys are looked for. -/
inductive QueryFault
  /-- `j < argc` in `getKeysUsingCommandTable`. -/
  | assertion
  /-- An index outside of `argv` or `keys`. -/
  | outOfBounds
  /-- `zmalloc` of a negative size. -/
  | outOfMemory
  deriving DecidableEq, Repr

/-- `CLUSTER_REDIR_NONE` …. -/
inductive Redir
  | none
  | crossSlot
  | unstable
  | ask
  | moved
  | downState
  | downUnbound
  deriving DecidableEq, Repr

/-- Why the loop over the keys ends early. -/
inductive QueryStop
  | fault (f : QueryFault)
  /-- `return NULL`. -/
  | redirect (e : Redir)
  deriving DecidableEq, Repr

/-- `argv[i]`. -/
def argAt (argv : List Bytes) (i : Nat) : Except QueryStop Bytes :=
  match argv[i]? with
  | some arg => .ok arg
  | none => .error (.fault .outOfBounds)

/-- `getKeysUsingCommandTable`. -/
def getKeysUsingCommandTable (cmd : RedisCommand) (argc : Nat) : Except QueryStop (List Nat) :=
  if cmd.firstkey = 0 then .ok []
  else
    let last : Int := if cmd.lastkey < 0 then argc + cmd.lastkey else cmd.lastkey
    if last - cmd.firstkey + 1 < 0 then .error (.fault .outOfMemory)
    else
      -- for (j = cmd->firstkey; j <= last; j += cmd->keystep)
      let keys := (List.range (last + 1).toNat).filter fun j =>
        cmd.firstkey ≤ j && (j - cmd.firstkey) % cmd.keystep = 0
      if keys.all (· < argc) then .ok keys else .error (.fault .assertion)

/-- `zunionInterGetKeys`. -/
def zunionInterGetKeys (argv : List Bytes) : Except QueryStop (List Nat) := do
  let num := atoi (← argAt argv 2)
  if num > argv.length - 3 then return []
  if num + 1 < 0 then throw (.fault .outOfMemory)
  -- keys[num] = 1
  if num < 0 then throw (.fault .outOfBounds)
  return (List.range num.toNat).map (3 + ·) ++ [1]

/-- `evalGetKeys`. -/
def evalGetKeys (argv : List Bytes) : Except QueryStop (List Nat) := do
  let num := atoi (← argAt argv 2)
  if num > argv.length - 3 then return []
  if num < 0 then throw (.fault .outOfMemory)
  return (List.range num.toNat).map (3 + ·)

/-- The options of `SORT` that have arguments. -/
def sortSkiplist : List (Bytes × Nat) :=
  [([108, 105, 109, 105, 116], 2), ([103, 101, 116], 1), ([98, 121], 1)]

/-- The loop of `sortGetKeys`, with the position of the key of the last `STORE` so far.  The
    position grows in every round, so `argc` rounds are enough. -/
def sortGetKeysLoop (argv : List Bytes) : Nat → Nat → Option Nat → Option Nat
  | 0, _, store => store
  | fuel + 1, i, store =>
      match argv[i]? with
      | none => store
      | some arg =>
          match sortSkiplist.find? fun opt => strcaseeq arg opt.1 with
          | some opt => sortGetKeysLoop argv fuel (i + opt.2 + 1) store
          | none =>
              -- "store"; the key itself is looked at in the next round
              if strcaseeq arg [115, 116, 111, 114, 101] && i + 1 < argv.length then
                sortGetKeysLoop argv fuel (i + 1) (some (i + 1))
              else sortGetKeysLoop argv fuel (i + 1) store

/-- `sortGetKeys`. -/
def sortGetKeys (argv : List Bytes) : List Nat :=
  1 :: (sortGetKeysLoop argv argv.length 2 none).toList

/-- `migrateGetKeys`: the keys follow `KEYS` if the third argument is empty. -/
def migrateGetKeys (argv : List Bytes) : List Nat :=
  match (List.range argv.length).find? fun i =>
      6 ≤ i && (argv[i]?).any (strcaseeq · [107, 101, 121, 115]) && argv[3]? = some [] with
  | some i => (List.range (argv.length - (i + 1))).map (i + 1 + ·)
  | none => [3]

/-- `getKeysFromCommand`. -/
def getKeysFromCommand (cmd : RedisCommand) (argv : List Bytes) : Except QueryStop (List Nat) :=
  match cmd.getkeysProc with
  | some .zunionInterGetKeys => zunionInterGetKeys argv
  | some .evalGetKeys => evalGetKeys argv
  | some .sortGetKeys => .ok (sortGetKeys argv)
  | some .migrateGetKeys => .ok (migrateGetKeys argv)
  | none => getKeysUsingCommandTable cmd argv.length

/-! ### `getNodeByQuery` -/

/-- `multiCmd`. -/
structure MultiCmd where
  cmd : RedisCommand
  argv : List Bytes

/-- `client`, as far as queries read it. -/
structure QueryClient where
  /-- `CLIENT_MULTI`. -/
  multi : Bool
  /-- `CLIENT_ASKING`. -/
  asking : Bool
  /-- `CLIENT_READONLY`. -/
  readonly : Bool
  mstate : List MultiCmd

/-- The variables of the loop over the keys. -/
structure QueryScan where
  n : Option Ref := none
  firstkey : Option Bytes := none
  multipleKeys : Bool := false
  slot : Slot := slotZero
  migratingSlot : Bool := false
  importingSlot : Bool := false
  missingKeys : Nat := 0

/-- What is returned, with the values of `*error_code` and `*hashslot`. -/
structure QueryResult where
  node : Option Ref
  errorCode : Redir
  hashslot : Option Slot
  deriving DecidableEq, Repr

section Query

variable (s : ClusterState) (lookupKeyRead : Bytes → Bool)

/-- The commands that are looked at; `EXEC` without `MULTI` only returns an error. -/
def queryCommands (c : QueryClient) (cmd : RedisCommand) (argv : List Bytes) : List MultiCmd :=
  if cmd.proc = .exec then
    if c.multi then c.mstate else []
  else [⟨cmd, argv⟩]

/-- The first key, and the keys after it. -/
def querySlot (q : QueryScan) (thiskey : Bytes) : Except QueryStop QueryScan :=
  let thisslot := keyHashSlot thiskey
  match q.firstkey with
  | none =>
      match s.slots thisslot with
      | none => .error (.redirect .downUnbound)
      | some n =>
          let migrating := n = s.myself && (s.migratingSlotsTo thisslot).isSome
          .ok { q with
            firstkey := some thiskey
            slot := thisslot
            n := some n
            migratingSlot := migrating
            importingSlot := !migrating && (s.importingSlotsFrom thisslot).isSome }
  | some firstkey =>
      if firstkey = thiskey then .ok q
      else if q.slot ≠ thisslot then .error (.redirect .crossSlot)
      else .ok { q with multipleKeys := true }

/-- One key. -/
def queryKey (q : QueryScan) (thiskey : Bytes) : Except QueryStop QueryScan := do
  let q ← querySlot s q thiskey
  -- count the keys that are not here, if the slot is open
  if (q.migratingSlot || q.importingSlot) && !lookupKeyRead thiskey then
    return { q with missingKeys := q.missingKeys + 1 }
  else return q

/-- The keys of one command. -/
def queryCommand (q : QueryScan) (mc : MultiCmd) : Except QueryStop QueryScan := do
  let keyindex ← getKeysFromCommand mc.cmd mc.argv
  keyindex.foldlM (fun q i => do queryKey s lookupKeyRead q (← argAt mc.argv i)) q

/-- The exceptions, once all the keys are known to be in one slot. -/
def queryDecide (c : QueryClient) (cmd : RedisCommand) (q : QueryScan) (n : Ref) : QueryResult :=
  if s.state ≠ .ok then ⟨none, .downState, none⟩
  else if (q.migratingSlot || q.importingSlot) = true ∧ cmd.proc = .migrate then
    ⟨some s.myself, .none, some q.slot⟩
  else if q.migratingSlot = true ∧ q.missingKeys ≠ 0 then
    ⟨s.migratingSlotsTo q.slot, .ask, some q.slot⟩
  else if q.importingSlot = true ∧ (c.asking || cmd.asking) = true then
    if q.multipleKeys = true ∧ q.missingKeys ≠ 0 then ⟨none, .unstable, some q.slot⟩
    else ⟨some s.myself, .none, some q.slot⟩
  else if (c.readonly && cmd.readonly && (s.heap s.myself).any fun me =>
      me.flags.slave && me.slaveof = some n) = true then
    ⟨some s.myself, .none, some q.slot⟩
  else ⟨some n, if n ≠ s.myself then .moved else .none, some q.slot⟩

/-- `getNodeByQuery`. -/
def getNodeByQuery (c : QueryClient) (cmd : RedisCommand) (argv : List Bytes) :
    Except QueryFault QueryResult :=
  match (queryCommands c cmd argv).foldlM (queryCommand s lookupKeyRead) {} with
  | .error (.fault f) => .error f
  | .error (.redirect e) => .ok ⟨none, e, none⟩
  | .ok q =>
      match q.n with
      | none => .ok ⟨some s.myself, .none, none⟩
      | some n => .ok (queryDecide s c cmd q n)

end Query

/-! ### What the answers mean -/

/-- The keys of a command. -/
def commandKeys (mc : MultiCmd) : Except QueryStop (List Bytes) := do
  let keyindex ← getKeysFromCommand mc.cmd mc.argv
  keyindex.mapM (argAt mc.argv)

/-- The keys of all the commands. -/
def queryKeys (c : QueryClient) (cmd : RedisCommand) (argv : List Bytes) : Except QueryStop (List Bytes) := do
  let keys ← (queryCommands c cmd argv).mapM commandKeys
  return keys.flatten

section Meaning

variable (s : ClusterState) (lookupKeyRead : Bytes → Bool) (c : QueryClient) (cmd : RedisCommand)

/-- The slot is bound to this node and, if it is migrating, all the keys are here or the command moves them. -/
def ServesOwn (keys : List Bytes) (slot : Slot) : Prop :=
  s.slots slot = some s.myself ∧
    (s.migratingSlotsTo slot ≠ none → (∀ k ∈ keys, lookupKeyRead k = true) ∨ cmd.proc = .migrate)

/-- The slot is being imported, and the client has been sent here. -/
def ServesImported (keys : List Bytes) (slot : Slot) : Prop :=
  s.importingSlotsFrom slot ≠ none ∧ (cmd.proc = .migrate ∨
    ((c.asking || cmd.asking) = true ∧
      ((∀ k ∈ keys, ∀ k' ∈ keys, k = k') ∨ ∀ k ∈ keys, lookupKeyRead k = true)))

/-- The slot belongs to the master of this slave, and nothing is written. -/
def ServesReplica (slot : Slot) : Prop :=
  c.readonly = true ∧ cmd.readonly = true ∧
    ∃ me, s.heap s.myself = some me ∧ me.flags.slave = true ∧ ∃ n, me.slaveof = some n ∧ s.slots slot = some n

/-- The node may serve the keys. -/
def MayServe (keys : List Bytes) : Prop :=
  ∃ slot, (∀ k ∈ keys, keyHashSlot k = slot) ∧
    (ServesOwn s lookupKeyRead cmd keys slot ∨ ServesImported s lookupKeyRead c cmd keys slot ∨
      ServesReplica s c cmd slot)

/-- An answer of `getNodeByQuery` keeps its promises. -/
structure QuerySound (argv : List Bytes) (res : QueryResult) : Prop where
  /-- A query with keys is served here only if it may be. -/
  served : res.node = some s.myself → ∃ keys, queryKeys c cmd argv = .ok keys ∧
    (keys ≠ [] → MayServe s lookupKeyRead c cmd keys)
  /-- A client is sent to the owner of the slot. -/
  moved : res.errorCode = .moved → ∃ keys slot n, queryKeys c cmd argv = .ok keys ∧ keys ≠ [] ∧
    (∀ k ∈ keys, keyHashSlot k = slot) ∧ res.node = some n ∧ n ≠ s.myself ∧ s.slots slot = some n
  /-- A query that is not served has a reason. -/
  refused : res.node = none → res.errorCode ≠ .none

/-- The slot of the keys migrates to the node that owns it, and the node can neither serve the query for lack of
    a key nor on other grounds. -/
def MigratesToSelf (argv : List Bytes) : Prop :=
  ∃ keys slot, queryKeys c cmd argv = .ok keys ∧ (∀ k ∈ keys, keyHashSlot k = slot) ∧ s.state = .ok ∧
    s.slots slot = some s.myself ∧ s.migratingSlotsTo slot = some s.myself ∧ cmd.proc ≠ .migrate ∧
    (∃ k ∈ keys, lookupKeyRead k = false) ∧ ¬ ServesImported s lookupKeyRead c cmd keys slot ∧
    ¬ ServesReplica s c cmd slot

end Meaning

section Scan

variable {s : ClusterState} {lookupKeyRead : Bytes → Bool} {c : QueryClient} {cmd : RedisCommand}
  {argv : List Bytes} {q q' : QueryScan}

variable {keys : List Bytes}

/-- The loop over the positions is a loop over the keys. -/
theorem foldlM_argAt {idx : List Nat} (h : idx.mapM (argAt argv) = .ok keys) :
    idx.foldlM (fun q i => do queryKey s lookupKeyRead q (← argAt argv i)) q
      = keys.foldlM (queryKey s lookupKeyRead) q := by
  induction idx generalizing keys q with
  | nil =>
    cases h
    rfl
  | cons i idx ih =>
    obtain ⟨k, ks, hk, hks, rfl⟩ := mapM_cons_eq_ok.mp h
    rw [List.foldlM_cons, List.foldlM_cons, hk]
    exact bind_congr fun q' => ih hks

theorem queryCommand_eq {mc : MultiCmd} (h : commandKeys mc = .ok keys) :
    queryCommand s lookupKeyRead q mc = keys.foldlM (queryKey s lookupKeyRead) q := by
  obtain ⟨idx, hidx, hkeys⟩ := bind_eq_ok.mp h
  unfold queryCommand
  rw [hidx]
  exact foldlM_argAt hkeys

/-- The loop over the commands is one loop over all their keys. -/
theorem foldlM_queryCommand {mcs : List MultiCmd} {keys : List (List Bytes)}
    (h : mcs.mapM commandKeys = .ok keys) :
    mcs.foldlM (queryCommand s lookupKeyRead) q = keys.flatten.foldlM (queryKey s lookupKeyRead) q := by
  induction mcs generalizing keys q with
  | nil =>
    cases h
    rfl
  | cons mc mcs ih =>
    obtain ⟨ks, rest, hks, hrest, rfl⟩ := mapM_cons_eq_ok.mp h
    rw [List.foldlM_cons, List.flatten_cons, List.foldlM_append, queryCommand_eq hks]
    exact bind_congr fun q' => ih hrest

theorem foldlM_queryCommands (h : queryKeys c cmd argv = .ok keys) :
    (queryCommands c cmd argv).foldlM (queryCommand s lookupKeyRead) q
      = keys.foldlM (queryKey s lookupKeyRead) q := by
  obtain ⟨kss, hkss, hkeys⟩ := bind_eq_ok.mp h
  cases hkeys
  exact foldlM_queryCommand hkss

/-- A loop that ends has found all the keys. -/
theorem exists_keys_of_foldlM_argAt {idx : List Nat}
    (h : idx.foldlM (fun q i => do queryKey s lookupKeyRead q (← argAt argv i)) q = .ok q') :
    ∃ keys, idx.mapM (argAt argv) = .ok keys := by
  induction idx generalizing q with
  | nil => exact ⟨[], rfl⟩
  | cons i idx ih =>
    rw [List.foldlM_cons] at h
    obtain ⟨q₁, hq₁, hrest⟩ := bind_eq_ok.mp h
    obtain ⟨k, hk, -⟩ := bind_eq_ok.mp hq₁
    obtain ⟨ks, hks⟩ := ih hrest
    exact ⟨k :: ks, mapM_cons_eq_ok.mpr ⟨k, ks, hk, hks, rfl⟩⟩

theorem exists_keys_of_foldlM_queryCommand {mcs : List MultiCmd}
    (h : mcs.foldlM (queryCommand s lookupKeyRead) q = .ok q') : ∃ keys, mcs.mapM commandKeys = .ok keys := by
  induction mcs generalizing q with
  | nil => exact ⟨[], rfl⟩
  | cons mc mcs ih =>
    rw [List.foldlM_cons] at h
    obtain ⟨q₁, hq₁, hrest⟩ := bind_eq_ok.mp h
    obtain ⟨idx, hidx, hfold⟩ := bind_eq_ok.mp hq₁
    obtain ⟨ks, hks⟩ := exists_keys_of_foldlM_argAt hfold
    obtain ⟨kss, hkss⟩ := ih hrest
    exact ⟨ks :: kss, mapM_cons_eq_ok.mpr ⟨ks, kss, bind_eq_ok.mpr ⟨idx, hidx, hks⟩, hkss, rfl⟩⟩

theorem exists_queryKeys (h : (queryCommands c cmd argv).foldlM (queryCommand s lookupKeyRead) q = .ok q') :
    ∃ keys, queryKeys c cmd argv = .ok keys := by
  obtain ⟨kss, hkss⟩ := exists_keys_of_foldlM_queryCommand h
  exact ⟨kss.flatten, bind_eq_ok.mpr ⟨kss, hkss, rfl⟩⟩

end Scan

/-! ### The loop over the keys -/

section Keys

variable {s : ClusterState} {lookupKeyRead : Bytes → Bool} {q q' : QueryScan}

/-- The slot of the first key is open in one direction or the other. -/
def slotMigrating (s : ClusterState) (n : Ref) (slot : Slot) : Bool :=
  n = s.myself && (s.migratingSlotsTo slot).isSome

def slotImporting (s : ClusterState) (n : Ref) (slot : Slot) : Bool :=
  !slotMigrating s n slot && (s.importingSlotsFrom slot).isSome

/-- The variables after the keys `keys`, the first of which is `first` in a slot of `n`. -/
def scanned (s : ClusterState) (lookupKeyRead : Bytes → Bool) (n : Ref) (first : Bytes) (keys : List Bytes) :
    QueryScan where
  n := some n
  firstkey := some first
  multipleKeys := keys.any fun k => k ≠ first
  slot := keyHashSlot first
  migratingSlot := slotMigrating s n (keyHashSlot first)
  importingSlot := slotImporting s n (keyHashSlot first)
  missingKeys :=
    if slotMigrating s n (keyHashSlot first) || slotImporting s n (keyHashSlot first) then
      keys.countP fun k => !lookupKeyRead k
    else 0

/-- A key adds to the count if it is missing and its slot is open. -/
theorem queryKey_of_querySlot {thiskey : Bytes} (h : querySlot s q thiskey = .ok q') :
    queryKey s lookupKeyRead q thiskey = .ok { q' with
      missingKeys := q'.missingKeys +
        if (q'.migratingSlot || q'.importingSlot) && !lookupKeyRead thiskey then 1 else 0 } := by
  unfold queryKey
  rw [h]
  show (if _ then _ else _) = _
  split_ifs with hmissing <;> rfl

variable {first : Bytes}

/-- The first key. -/
theorem queryKey_unbound (h : s.slots (keyHashSlot first) = none) :
    queryKey s lookupKeyRead {} first = .error (.redirect .downUnbound) := by
  have hslot : querySlot s {} first = .error (.redirect .downUnbound) := by
    simp only [querySlot, h]
  unfold queryKey
  rw [hslot]
  rfl

theorem queryKey_first {n : Ref} (h : s.slots (keyHashSlot first) = some n) :
    queryKey s lookupKeyRead {} first = .ok (scanned s lookupKeyRead n first [first]) := by
  have hslot : querySlot s {} first = .ok { scanned s lookupKeyRead n first [first] with missingKeys := 0 } := by
    simp only [querySlot, h, scanned, slotMigrating, slotImporting]
    simp
  rw [queryKey_of_querySlot hslot]
  unfold scanned
  cases slotMigrating s n (keyHashSlot first) <;> cases slotImporting s n (keyHashSlot first) <;>
    cases hl : lookupKeyRead first <;> simp [hl]

/-- A key after the first one. -/
theorem queryKey_next (n : Ref) (first : Bytes) (keys : List Bytes) (k : Bytes) :
    queryKey s lookupKeyRead (scanned s lookupKeyRead n first keys) k =
      if keyHashSlot k = keyHashSlot first then .ok (scanned s lookupKeyRead n first (keys ++ [k]))
      else .error (.redirect .crossSlot) := by
  by_cases hk : keyHashSlot k = keyHashSlot first
  · have hslot : querySlot s (scanned s lookupKeyRead n first keys) k = .ok { scanned s lookupKeyRead n first keys with
        multipleKeys := (keys ++ [k]).any fun k => k ≠ first } := by
      unfold querySlot
      by_cases hfirst : first = k
      · simp [scanned, hfirst]
      · simp [scanned, hfirst, hk, Ne.symm hfirst]
    rw [queryKey_of_querySlot hslot, if_pos hk]
    unfold scanned
    cases slotMigrating s n (keyHashSlot first) <;> cases slotImporting s n (keyHashSlot first) <;>
      cases hl : lookupKeyRead k <;> simp [hl]
  · -- a key of another slot is not the first key again
    have hne : first ≠ k := fun h => hk (by rw [h])
    have hslot : querySlot s (scanned s lookupKeyRead n first keys) k = .error (.redirect .crossSlot) := by
      unfold querySlot
      simp [scanned, hne, Ne.symm hk]
    unfold queryKey
    rw [hslot, if_neg hk]
    rfl

/-- The loop over the keys of one slot. -/
theorem foldlM_queryKey {n : Ref} {done keys : List Bytes} (h : ∀ k ∈ keys, keyHashSlot k = keyHashSlot first) :
    keys.foldlM (queryKey s lookupKeyRead) (scanned s lookupKeyRead n first done)
      = .ok (scanned s lookupKeyRead n first (done ++ keys)) := by
  induction keys generalizing done with
  | nil => rw [List.append_nil]; rfl
  | cons k keys ih =>
    rw [List.foldlM_cons, queryKey_next, if_pos (h k List.mem_cons_self)]
    show keys.foldlM (queryKey s lookupKeyRead) (scanned s lookupKeyRead n first (done ++ [k])) = _
    rw [ih fun k' hk' => h k' (List.mem_cons_of_mem _ hk'), List.append_assoc, List.singleton_append]

/-- A loop that ends has seen keys of one slot only. -/
theorem same_slot_of_foldlM {n : Ref} {done keys : List Bytes}
    (h : keys.foldlM (queryKey s lookupKeyRead) (scanned s lookupKeyRead n first done) = .ok q') :
    ∀ k ∈ keys, keyHashSlot k = keyHashSlot first := by
  induction keys generalizing done with
  | nil =>
    intro k hk
    cases hk
  | cons k keys ih =>
    rw [List.foldlM_cons, queryKey_next] at h
    by_cases hk : keyHashSlot k = keyHashSlot first
    · rw [if_pos hk] at h
      intro k' hk'
      rcases List.mem_cons.mp hk' with rfl | hk'
      · exact hk
      · exact ih h k' hk'
    · rw [if_neg hk] at h
      cases h

/-- What the loop has seen when it ends. -/
theorem exists_scanned {keys : List Bytes} (h : keys.foldlM (queryKey s lookupKeyRead) {} = .ok q) :
    (keys = [] ∧ q = {}) ∨ ∃ n first slot, first ∈ keys ∧ (∀ k ∈ keys, keyHashSlot k = slot) ∧
      s.slots slot = some n ∧ q = scanned s lookupKeyRead n first keys := by
  cases keys with
  | nil =>
    cases h
    exact Or.inl ⟨rfl, rfl⟩
  | cons first keys =>
    rw [List.foldlM_cons] at h
    cases hn : s.slots (keyHashSlot first) with
    | none =>
      rw [queryKey_unbound hn] at h
      cases h
    | some n =>
      rw [queryKey_first hn] at h
      have hsame := same_slot_of_foldlM h
      have hq : (Except.ok q : Except QueryStop QueryScan) = .ok (scanned s lookupKeyRead n first ([first] ++ keys)) :=
        h.symm.trans (foldlM_queryKey hsame)
      refine Or.inr ⟨n, first, keyHashSlot first, List.mem_cons_self, fun k hk => ?_, hn, Except.ok.inj hq⟩
      rcases List.mem_cons.mp hk with rfl | hk
      · rfl
      · exact hsame k hk

/-- The loop ends if the keys are in a slot that is bound. -/
theorem foldlM_queryKey_of_bound {keys : List Bytes} {slot : Slot} {n : Ref}
    (hkeys : ∀ k ∈ keys, keyHashSlot k = slot) (hn : s.slots slot = some n) :
    ∃ q, keys.foldlM (queryKey s lookupKeyRead) {} = .ok q := by
  cases keys with
  | nil => exact ⟨{}, rfl⟩
  | cons first keys =>
    have hfirst : keyHashSlot first = slot := hkeys first List.mem_cons_self
    refine ⟨scanned s lookupKeyRead n first ([first] ++ keys), ?_⟩
    rw [List.foldlM_cons, queryKey_first (hfirst.symm ▸ hn)]
    exact foldlM_queryKey fun k hk => (hkeys k (List.mem_cons_of_mem _ hk)).trans hfirst.symm

/-- The reasons to end the loop early. -/
def QueryStop.Expected (e : QueryStop) : Prop :=
  (∃ f, e = .fault f) ∨ e = .redirect .downUnbound ∨ e = .redirect .crossSlot

theorem sat_queryKey (k : Bytes) : Sat (queryKey s lookupKeyRead q k) (fun _ => True) QueryStop.Expected := by
  have hslot : Sat (querySlot s q k) (fun _ => True) QueryStop.Expected := by
    unfold querySlot
    cases q.firstkey with
    | none =>
      dsimp only
      cases s.slots (keyHashSlot k) with
      | none => exact Or.inr (Or.inl rfl)
      | some n => trivial
    | some first =>
      refine Sat.ite (fun _ => trivial) fun _ => ?_
      exact Sat.ite (fun _ => Or.inr (Or.inr rfl)) fun _ => trivial
  refine Sat.bind hslot fun q' _ => ?_
  exact Sat.ite (fun _ => trivial) fun _ => trivial

theorem sat_argAt (argv : List Bytes) (i : Nat) : Sat (argAt argv i) (fun _ => True) QueryStop.Expected := by
  unfold argAt
  cases argv[i]? with
  | none => exact Or.inl ⟨_, rfl⟩
  | some arg => trivial

theorem sat_getKeysFromCommand (cmd : RedisCommand) (argv : List Bytes) :
    Sat (getKeysFromCommand cmd argv) (fun _ => True) QueryStop.Expected := by
  have hfault : ∀ {f : QueryFault}, (QueryStop.fault f).Expected := fun {f} => Or.inl ⟨f, rfl⟩
  unfold getKeysFromCommand
  cases cmd.getkeysProc with
  | none =>
    refine Sat.ite (fun _ => trivial) fun _ => ?_
    refine Sat.ite (fun _ => hfault) fun _ => ?_
    exact Sat.ite (fun _ => trivial) fun _ => hfault
  | some proc =>
    cases proc with
    | zunionInterGetKeys =>
      refine Sat.bind (sat_argAt argv 2) fun arg _ => ?_
      refine Sat.ite (fun _ => trivial) fun _ => ?_
      refine Sat.ite (fun _ => hfault) fun _ => ?_
      exact Sat.ite (fun _ => hfault) fun _ => trivial
    | evalGetKeys =>
      refine Sat.bind (sat_argAt argv 2) fun arg _ => ?_
      refine Sat.ite (fun _ => trivial) fun _ => ?_
      exact Sat.ite (fun _ => hfault) fun _ => trivial
    | sortGetKeys | migrateGetKeys => trivial

/-- The loop over the commands ends early for an expected reason. -/
theorem sat_queryCommands (mcs : List MultiCmd) :
    Sat (mcs.foldlM (queryCommand s lookupKeyRead) q) (fun _ => True) QueryStop.Expected := by
  refine sat_foldlM (fun _ _ => True) mcs q trivial fun _ mc _ q' _ _ => ?_
  refine Sat.bind (sat_getKeysFromCommand mc.cmd mc.argv) fun idx _ => ?_
  refine sat_foldlM (fun _ _ => True) idx q' trivial fun _ i _ q'' _ _ => ?_
  exact Sat.bind (sat_argAt mc.argv i) fun k _ => sat_queryKey k

end Keys

/-! ### The decision -/

/-- The variables tell about keys in a slot of `n` what the decision needs. -/
structure QueryScan.Saw (s : ClusterState) (lookupKeyRead : Bytes → Bool) (n : Ref) (keys : List Bytes) (slot : Slot)
    (q : QueryScan) : Prop where
  slot_eq : q.slot = slot
  migrating : q.migratingSlot = true ↔ n = s.myself ∧ s.migratingSlotsTo slot ≠ none
  importing : q.importingSlot = true → s.importingSlotsFrom slot ≠ none
  missing : (q.migratingSlot || q.importingSlot) = true → (q.missingKeys = 0 ↔ ∀ k ∈ keys, lookupKeyRead k = true)
  multiple : q.multipleKeys = false ↔ ∀ k ∈ keys, ∀ k' ∈ keys, k = k'

section Decision

variable {s : ClusterState} {lookupKeyRead : Bytes → Bool} {c : QueryClient} {cmd : RedisCommand}
  {argv keys : List Bytes} {slot : Slot} {n : Ref} {first : Bytes} {q : QueryScan}

theorem saw_scanned (hfirst : first ∈ keys) :
    (scanned s lookupKeyRead n first keys).Saw s lookupKeyRead n keys (keyHashSlot first) where
  slot_eq := rfl
  migrating := by
    unfold scanned slotMigrating
    simp [Option.isSome_iff_ne_none]
  importing := by
    unfold scanned slotImporting
    simp [Option.isSome_iff_ne_none]
  missing := by
    intro hopen
    replace hopen : (slotMigrating s n (keyHashSlot first) || slotImporting s n (keyHashSlot first)) = true := hopen
    show (if _ then _ else 0) = 0 ↔ _
    rw [if_pos hopen, List.countP_eq_zero]
    simp
  multiple := by
    show (keys.any fun k => k ≠ first) = false ↔ _
    rw [List.any_eq_false]
    constructor
    · intro h k hk k' hk'
      have hk := h k hk
      have hk' := h k' hk'
      simp only [ne_eq, decide_not, Bool.not_eq_true', decide_eq_false_iff_not, not_not] at hk hk'
      rw [hk, hk']
    · intro h k hk
      simpa using h k hk first hfirst

/-- An answer by which the query is served here has a reason, or is a redirection to this node itself. -/
theorem queryDecide_served (hq : q.Saw s lookupKeyRead n keys slot) (hkeys : ∀ k ∈ keys, keyHashSlot k = slot)
    (hn : s.slots slot = some n) (h : (queryDecide s c cmd q n).node = some s.myself) :
    MayServe s lookupKeyRead c cmd keys ∨
      (s.state = .ok ∧ n = s.myself ∧ s.migratingSlotsTo slot = some s.myself ∧ cmd.proc ≠ .migrate ∧
        ∃ k ∈ keys, lookupKeyRead k = false) := by
  have hown : ServesOwn s lookupKeyRead cmd keys slot → MayServe s lookupKeyRead c cmd keys :=
    fun h => ⟨slot, hkeys, Or.inl h⟩
  have himported : ServesImported s lookupKeyRead c cmd keys slot → MayServe s lookupKeyRead c cmd keys :=
    fun h => ⟨slot, hkeys, Or.inr (Or.inl h)⟩
  unfold queryDecide at h
  by_cases hstate : s.state = .ok
  swap
  · rw [if_pos hstate] at h
    cases h
  rw [if_neg (not_not.mpr hstate)] at h
  by_cases hmove : (q.migratingSlot || q.importingSlot) = true ∧ cmd.proc = .migrate
  · -- MIGRATE on an open slot
    left
    obtain ⟨hopen, hproc⟩ := hmove
    rcases Bool.or_eq_true_iff.mp hopen with hmig | himp
    · obtain ⟨rfl, -⟩ := hq.migrating.mp hmig
      exact hown ⟨hn, fun _ => Or.inr hproc⟩
    · exact himported ⟨hq.importing himp, Or.inl hproc⟩
  rw [if_neg hmove] at h
  by_cases hask : q.migratingSlot = true ∧ q.missingKeys ≠ 0
  · -- the answer is the node the slot migrates to
    right
    rw [if_pos hask] at h
    obtain ⟨hmig, hmissing⟩ := hask
    have hopen : (q.migratingSlot || q.importingSlot) = true := by rw [hmig, Bool.true_or]
    rw [Ne, hq.missing hopen] at hmissing
    push Not at hmissing
    obtain ⟨k, hk, hlookup⟩ := hmissing
    refine ⟨hstate, (hq.migrating.mp hmig).1, hq.slot_eq ▸ h, fun hproc => hmove ⟨hopen, hproc⟩, k, hk, ?_⟩
    simpa using hlookup
  rw [if_neg hask] at h
  left
  by_cases hasking : q.importingSlot = true ∧ (c.asking || cmd.asking) = true
  · rw [if_pos hasking] at h
    obtain ⟨himp, hasking⟩ := hasking
    have hopen : (q.migratingSlot || q.importingSlot) = true := by rw [himp, Bool.or_true]
    by_cases hunstable : q.multipleKeys = true ∧ q.missingKeys ≠ 0
    · rw [if_pos hunstable] at h
      cases h
    · refine himported ⟨hq.importing himp, Or.inr ⟨hasking, ?_⟩⟩
      rcases not_and_or.mp hunstable with hone | hall
      · exact Or.inl (hq.multiple.mp (Bool.eq_false_iff.mpr hone))
      · exact Or.inr ((hq.missing hopen).mp (not_not.mp hall))
  rw [if_neg hasking] at h
  by_cases hreplica : (c.readonly && cmd.readonly && (s.heap s.myself).any fun me =>
      me.flags.slave && me.slaveof = some n) = true
  · simp only [Bool.and_eq_true, Option.any_eq_true, decide_eq_true_eq] at hreplica
    obtain ⟨⟨hc, hcmd⟩, me, hme, hslave, hof⟩ := hreplica
    exact ⟨slot, hkeys, Or.inr (Or.inr ⟨hc, hcmd, me, hme, hslave, n, hof, hn⟩)⟩
  · -- the base case: the owner of the slot
    rw [if_neg hreplica] at h
    have hself : n = s.myself := Option.some.inj h
    refine hown ⟨hself ▸ hn, fun hmig => Or.inl ?_⟩
    have hopen : q.migratingSlot = true := hq.migrating.mpr ⟨hself, hmig⟩
    rw [← hq.missing (by rw [hopen, Bool.true_or])]
    exact not_not.mp fun hmissing => hask ⟨hopen, hmissing⟩

/-- A slot that migrates to its owner. -/
theorem queryDecide_ask (hq : q.Saw s lookupKeyRead s.myself keys slot) (hstate : s.state = .ok)
    (hmig : s.migratingSlotsTo slot = some s.myself) (hproc : cmd.proc ≠ .migrate)
    (hmissing : ∃ k ∈ keys, lookupKeyRead k = false) :
    (queryDecide s c cmd q s.myself).node = some s.myself := by
  have hopen : q.migratingSlot = true := hq.migrating.mpr ⟨rfl, by rw [hmig]; exact Option.some_ne_none _⟩
  have hcount : q.missingKeys ≠ 0 := by
    rw [Ne, hq.missing (by rw [hopen, Bool.true_or])]
    obtain ⟨k, hk, hlookup⟩ := hmissing
    intro hall
    rw [hall k hk] at hlookup
    cases hlookup
  unfold queryDecide
  rw [if_neg (not_not.mpr hstate), if_neg (fun h => hproc h.2), if_pos ⟨hopen, hcount⟩, hq.slot_eq]
  exact hmig

/-- The other answers. -/
theorem queryDecide_moved (h : (queryDecide s c cmd q n).errorCode = .moved) :
    (queryDecide s c cmd q n).node = some n ∧ n ≠ s.myself := by
  unfold queryDecide at h ⊢
  split_ifs at h ⊢ with h1 h2 h3 h4 h5 h6 h7
  exact ⟨rfl, h7⟩

theorem queryDecide_refused (hq : q.Saw s lookupKeyRead n keys slot)
    (h : (queryDecide s c cmd q n).node = none) : (queryDecide s c cmd q n).errorCode ≠ .none := by
  have hmig : q.migratingSlot = true → s.migratingSlotsTo q.slot ≠ none := by
    intro hopen
    rw [hq.slot_eq]
    exact (hq.migrating.mp hopen).2
  unfold queryDecide at h ⊢
  split_ifs at h ⊢ with h1 h2 h3 h4 h5 h6 <;> simp_all

/-- An answer without a node and with a reason. -/
theorem querySound_redirect {e : Redir} (hnone : e ≠ .none) (hmoved : e ≠ .moved) :
    QuerySound s lookupKeyRead c cmd argv ⟨none, e, none⟩ where
  served := by
    intro hnode
    cases hnode
  moved := fun hcode => absurd hcode hmoved
  refused := fun _ => hnone

/-- **Queries are answered soundly** if and only if no slot of theirs migrates to the node that owns it. -/
theorem getNodeByQuery_sound_iff {res : QueryResult} (h : getNodeByQuery s lookupKeyRead c cmd argv = .ok res) :
    QuerySound s lookupKeyRead c cmd argv res ↔ ¬ MigratesToSelf s lookupKeyRead c cmd argv := by
  unfold getNodeByQuery at h
  have hstop := @sat_queryCommands s lookupKeyRead {} (queryCommands c cmd argv)
  cases hfold : (queryCommands c cmd argv).foldlM (queryCommand s lookupKeyRead) {} with
  | error e =>
    rw [hfold] at h hstop
    -- the loop does not end early on keys of one bound slot
    have hnot : ¬ MigratesToSelf s lookupKeyRead c cmd argv := by
      intro ⟨keys, slot, hkeys, hslot, _, hown, _⟩
      obtain ⟨q, hq⟩ := foldlM_queryKey_of_bound hslot hown
      rw [← foldlM_queryCommands hkeys, hfold] at hq
      cases hq
    refine iff_of_true ?_ hnot
    rcases hstop with ⟨f, rfl⟩ | rfl | rfl
    · cases h
    · cases h
      exact querySound_redirect (by decide) (by decide)
    · cases h
      exact querySound_redirect (by decide) (by decide)
  | ok q =>
    rw [hfold] at h
    obtain ⟨keys, hkeys⟩ := exists_queryKeys hfold
    rw [foldlM_queryCommands hkeys] at hfold
    rcases exists_scanned hfold with ⟨rfl, rfl⟩ | ⟨n, first, slot, hfirst, hslot, hn, rfl⟩
    · -- no keys
      cases h
      refine iff_of_true ⟨fun _ => ⟨[], hkeys, fun hne => absurd rfl hne⟩, ?_, ?_⟩ ?_
      · intro hcode
        cases hcode
      · intro hnode
        cases hnode
      intro ⟨keys', slot, hkeys', _, _, _, _, _, ⟨k, hk, _⟩, _⟩
      cases hkeys.symm.trans hkeys'
      cases hk
    · cases h
      have hsaw := @saw_scanned s lookupKeyRead keys n first hfirst
      rw [hslot first hfirst] at hsaw
      have hne : keys ≠ [] := List.ne_nil_of_mem hfirst
      constructor
      · intro hsound ⟨keys', slot', hkeys', hslot', hstate, hown, hmig, hproc, hmissing, himp, hrep⟩
        cases hkeys.symm.trans hkeys'
        have heq : slot' = slot := (hslot' first hfirst).symm.trans (hslot first hfirst)
        subst heq
        cases hn.symm.trans hown
        obtain ⟨_, hkeys'', hmay⟩ := hsound.served (queryDecide_ask hsaw hstate hmig hproc hmissing)
        cases hkeys.symm.trans hkeys''
        obtain ⟨slot'', hslot'', hserves⟩ := hmay hne
        have heq : slot'' = slot' := (hslot'' first hfirst).symm.trans (hslot first hfirst)
        subst heq
        rcases hserves with ⟨-, hall⟩ | himp' | hrep'
        · rcases hall (by rw [hmig]; exact Option.some_ne_none _) with hall | hproc'
          · obtain ⟨k, hk, hlookup⟩ := hmissing
            rw [hall k hk] at hlookup
            cases hlookup
          · exact hproc hproc'
        · exact himp himp'
        · exact hrep hrep'
      · intro hnot
        refine ⟨fun hnode => ⟨keys, hkeys, fun _ => ?_⟩, fun hcode => ?_, queryDecide_refused hsaw⟩
        · rcases queryDecide_served hsaw hslot hn hnode with hmay | ⟨hstate, rfl, hmig, hproc, hmissing⟩
          · exact hmay
          · by_contra hmay
            refine hnot ⟨keys, slot, hkeys, hslot, hstate, hn, hmig, hproc, hmissing, fun himp => ?_, fun hrep => ?_⟩
            · exact hmay ⟨slot, hslot, Or.inr (Or.inl himp)⟩
            · exact hmay ⟨slot, hslot, Or.inr (Or.inr hrep)⟩
        · obtain ⟨hnode, hother⟩ := queryDecide_moved hcode
          exact ⟨keys, slot, n, hkeys, hne, hslot, hnode, hother, hn⟩

end Decision

/-- `GET` of the empty key, which is in slot 0. -/
def getCommand : RedisCommand where
  proc := .other
  readonly := true
  asking := false
  getkeysProc := none
  firstkey := 1
  lastkey := 1
  keystep := 1
  advances := fun _ => Nat.one_pos

def plainClient : QueryClient := ⟨false, false, false, []⟩
def getEmptyKey : List Bytes := [[71, 69, 84], []]

theorem queryKeys_getEmptyKey : queryKeys plainClient getCommand getEmptyKey = .ok [[]] := by decide

/-- The owner of the slot, nothing in motion. -/
theorem getNodeByQuery_sound_duo : ∃ res, getNodeByQuery (duo true) (fun _ => false) plainClient getCommand getEmptyKey
      = .ok res ∧ QuerySound (duo true) (fun _ => false) plainClient getCommand getEmptyKey res := by
  have hrun : getNodeByQuery (duo true) (fun _ => false) plainClient getCommand getEmptyKey
      = .ok ⟨some 0, .none, some slotZero⟩ := rfl
  refine ⟨_, hrun, (getNodeByQuery_sound_iff hrun).mpr ?_⟩
  intro ⟨keys, slot, _, _, _, _, hmig, _⟩
  cases hmig

/-- `CLUSTER SETSLOT 0 MIGRATING` with the name of the node itself. -/
def duoSelfMigrating : ClusterState :=
  stateAfter (clusterHandle (clockEnv 10000) (.command (.setslot 0 (.migrating [0])))) (duo true)

/-- **A slot that migrates to its owner**: the key is missing, and the query is served here all the same. -/
theorem query_served_without_key :
    (clusterHandle (clockEnv 10000) (.command (.setslot 0 (.migrating [0])))).run (duo true)
      = .ok (.idle, duoSelfMigrating) ∧
    getNodeByQuery duoSelfMigrating (fun _ => false) plainClient getCommand getEmptyKey
      = .ok ⟨some duoSelfMigrating.myself, .ask, some slotZero⟩ ∧
    ¬ QuerySound duoSelfMigrating (fun _ => false) plainClient getCommand getEmptyKey
      ⟨some duoSelfMigrating.myself, .ask, some slotZero⟩ := by
  refine ⟨rfl, rfl, ?_⟩
  intro hsound
  obtain ⟨keys, hkeys, hmay⟩ := hsound.served rfl
  cases queryKeys_getEmptyKey.symm.trans hkeys
  obtain ⟨slot, hslot, hserves⟩ := hmay (List.cons_ne_nil _ _)
  cases hslot [] (List.mem_singleton.mpr rfl)
  rcases hserves with ⟨-, hall⟩ | ⟨himp, -⟩ | ⟨hc, -⟩
  · rcases hall (fun h => by cases h) with hall | hproc
    · cases hall [] (List.mem_singleton.mpr rfl)
    · cases hproc
  · exact himp rfl
  · cases hc

end Redis
