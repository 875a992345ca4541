import Mathlib.Data.List.Nodup
import Redis.Lib.Outcome
import Redis.Util

namespace Redis

open Outcome

/-!
# Watched keys

The databases, the clients, and the functions of `multi.c` behind `WATCH`: which client
watches which key is stored twice, with the client and with the database.

* `Server` — the databases and the clients;
* `watchForKey`, `unwatchAllKeys`, `touchWatchedKey`, `touchWatchedKeysOnFlush`;
* `WatchInv` — the two sides agree;
* one lemma for each function: it returns, and what it changes.
-/

abbrev ClientId := Nat
abbrev DbId := Nat

/-- `watchedKey`. -/
structure WatchedKey where
  key : Bytes
  db : DbId
  deriving DecidableEq, Repr

/-- The command procedures that are told apart. -/
inductive CommandKind
  | multi
  | exec
  | discard
  | watch
  | unwatch
  | select
  | auth
  | ping
  /-- `SUBSCRIBE`, `UNSUBSCRIBE` and their pattern forms. -/
  | subscribe
  | replconf
  | shutdown
  | script
  | other
  deriving DecidableEq, Repr

/-- An entry of the command table, as far as `processCommand` reads it. -/
structure ServerCommand where
  kind : CommandKind
  arity : Int
  write : Bool
  denyoom : Bool
  stale : Bool
  loading : Bool
  /-- Whether the command has keys by the table. -/
  hasKeys : Bool
  deriving DecidableEq, Repr

/-- `multiCmd`. -/
structure QueuedCommand where
  cmd : ServerCommand
  argv : List Bytes
  deriving DecidableEq, Repr

/-- Inside of `MULTI` all commands are queued but four. -/
def CommandKind.queueable : CommandKind → Bool
  | .exec | .discard | .multi | .watch => false
  | _ => true

/-- `client`, as far as transactions read it. -/
structure Client where
  db : DbId
  /-- `CLIENT_MULTI`. -/
  multi : Bool
  /-- `CLIENT_DIRTY_CAS`. -/
  dirtyCas : Bool
  /-- `CLIENT_DIRTY_EXEC`. -/
  dirtyExec : Bool
  watchedKeys : List WatchedKey
  mstate : List { q : QueuedCommand // q.cmd.kind.queueable = true }
  deriving DecidableEq

/-- `redisDb`. -/
structure RedisDb (V : Type) where
  dict : Bytes → Option V
  expires : Bytes → Option Int
  watchedKeys : Bytes → Option (List ClientId)

/-- What has happened to the transactions, for the statements about them. -/
inductive Happening
  | watched (c : ClientId) (wk : WatchedKey)
  /-- `UNWATCH`. -/
  | unwatched (c : ClientId)
  /-- `MULTI`. -/
  | began (c : ClientId)
  | queued (c : ClientId) (q : QueuedCommand)
  /-- A command is refused before it is queued or called, with or without `flagTransaction`. -/
  | refused (c : ClientId) (flagged : Bool)
  /-- `DISCARD`. -/
  | discarded (c : ClientId)
  /-- `EXEC` of a transaction, whether it is aborted or not. -/
  | exec (c : ClientId)
  | called (c : ClientId) (q : QueuedCommand)
  /-- The keys for which the watchers are told. -/
  | touched (wks : WatchedKey → Bool)
  | freed (c : ClientId)

/-- The server: `clients` holds the clients that are allocated, `clientList` is `server.clients`.
    The last field records what has happened, the latest first. -/
structure Server (V : Type) where
  dbs : DbId → RedisDb V
  clients : ClientId → Option Client
  clientList : List ClientId
  log : List Happening

/-- What ends the process. -/
inductive ServerFault
  /-- `clients != NULL` in `unwatchAllKeys`. -/
  | unwatchAssertion
  /-- `listDelNode` of a client that is not in the list. -/
  | nullPointer
  /-- A client that has been freed is accessed. -/
  | dangling
  /-- `dbAdd` of a key that exists. -/
  | addAssertion
  /-- `dbOverwrite` of a key that does not exist. -/
  | overwriteAssertion
  /-- The expire time of a key that does not exist. -/
  | expireAssertion
  deriving DecidableEq, Repr

namespace Server

variable {V : Type}

/-- `*c`. -/
def getClient (s : Server V) (c : ClientId) : Except ServerFault Client :=
  match s.clients c with
  | some cl => .ok cl
  | none => .error .dangling

/-- Assignments through `c`. -/
def setClient (s : Server V) (c : ClientId) (cl : Client) : Server V :=
  { s with clients := fun x => if x = c then some cl else s.clients x }

/-- The list of a key in `watched_keys` of its database. -/
def watchers (s : Server V) (wk : WatchedKey) : Option (List ClientId) := (s.dbs wk.db).watchedKeys wk.key

def setWatchers (s : Server V) (wk : WatchedKey) (l : Option (List ClientId)) : Server V :=
  { s with dbs := fun d => if d = wk.db then
      { s.dbs d with watchedKeys := fun k => if k = wk.key then l else (s.dbs d).watchedKeys k }
    else s.dbs d }

def note (s : Server V) (h : Happening) : Server V := { s with log := h :: s.log }

end Server

section Multi

variable {V : Type}

/-- `watchForKey`. -/
def watchForKey (s : Server V) (c : ClientId) (key : Bytes) : Except ServerFault (Server V) := do
  let cl ← s.getClient c
  let wk : WatchedKey := ⟨key, cl.db⟩
  if wk ∈ cl.watchedKeys then return s
  let clients := (s.watchers wk).getD []
  let s := s.setWatchers wk (some (clients ++ [c]))
  return (s.setClient c { cl with watchedKeys := cl.watchedKeys ++ [wk] }).note (.watched c wk)

/-- One round of `unwatchAllKeys`. -/
def unwatchKey (c : ClientId) (s : Server V) (wk : WatchedKey) : Except ServerFault (Server V) := do
  match s.watchers wk with
  | none => throw .unwatchAssertion
  | some clients =>
      if c ∉ clients then throw .nullPointer
      -- an empty list goes away with its entry
      let s := s.setWatchers wk (if clients.erase c = [] then none else some (clients.erase c))
      let cl ← s.getClient c
      return s.setClient c { cl with watchedKeys := cl.watchedKeys.erase wk }

/-- `unwatchAllKeys`. -/
def unwatchAllKeys (s : Server V) (c : ClientId) : Except ServerFault (Server V) := do
  let cl ← s.getClient c
  cl.watchedKeys.foldlM (unwatchKey c) s

/-- `c->flags |= CLIENT_DIRTY_CAS`. -/
def flagDirtyCas (s : Server V) (c : ClientId) : Except ServerFault (Server V) := do
  let cl ← s.getClient c
  return s.setClient c { cl with dirtyCas := true }

/-- `touchWatchedKey`. -/
def touchWatchedKey (s : Server V) (db : DbId) (key : Bytes) : Except ServerFault (Server V) := do
  let s' ← ((s.watchers ⟨key, db⟩).getD []).foldlM flagDirtyCas s
  return s'.note (.touched fun wk => wk = ⟨key, db⟩)

/-- The keys of a flush that exist. -/
def flushedKey (s : Server V) (dbid : Option DbId) (wk : WatchedKey) : Bool :=
  (dbid = none || dbid = some wk.db) && ((s.dbs wk.db).dict wk.key).isSome

/-- `touchWatchedKeysOnFlush`, with `none` for `-1`. -/
def touchWatchedKeysOnFlush (s : Server V) (dbid : Option DbId) : Except ServerFault (Server V) := do
  let s' ← s.clientList.foldlM (fun t c => do
    let cl ← t.getClient c
    if cl.watchedKeys.any (flushedKey s dbid) then flagDirtyCas t c else return t) s
  return s'.note (.touched (flushedKey s dbid))

end Multi

/-! ### The two sides -/

/-- A client is in the list of a key if and only if the key is in the list of the client, once in each. -/
structure WatchInv {V : Type} (s : Server V) : Prop where
  symm : ∀ c cl, s.clients c = some cl → ∀ wk, wk ∈ cl.watchedKeys ↔ ∃ l, s.watchers wk = some l ∧ c ∈ l
  keysNodup : ∀ c cl, s.clients c = some cl → cl.watchedKeys.Nodup
  listsNodup : ∀ wk l, s.watchers wk = some l → l.Nodup
  nonempty : ∀ wk, s.watchers wk ≠ some []
  live : ∀ wk l, s.watchers wk = some l → ∀ c ∈ l, (s.clients c).isSome = true
  list : ∀ c, c ∈ s.clientList ↔ (s.clients c).isSome = true
  listNodup : s.clientList.Nodup

section Lemmas

variable {V : Type} {s t : Server V} {c : ClientId} {cl : Client} {wk : WatchedKey}

namespace Server

theorem getClient_eq (h : s.clients c = some cl) : s.getClient c = .ok cl := by
  unfold getClient
  rw [h]

@[simp] theorem watchers_setWatchers (l : Option (List ClientId)) (x : WatchedKey) :
    (s.setWatchers wk l).watchers x = if x = wk then l else s.watchers x := by
  obtain ⟨key, db⟩ := wk
  obtain ⟨key', db'⟩ := x
  unfold setWatchers watchers
  by_cases hdb : db' = db
  · by_cases hkey : key' = key <;> simp [hdb, hkey]
  · simp [hdb]

@[simp] theorem watchers_setClient (cl : Client) : (s.setClient c cl).watchers wk = s.watchers wk := rfl

@[simp] theorem clients_note (h : Happening) : (s.note h).clients = s.clients := rfl

@[simp] theorem clients_setWatchers (l : Option (List ClientId)) : (s.setWatchers wk l).clients = s.clients := rfl

theorem clients_setClient (cl : Client) (x : ClientId) :
    (s.setClient c cl).clients x = if x = c then some cl else s.clients x := rfl

/-- Flag the clients that satisfy `p`. -/
def markDirty (s : Server V) (p : ClientId → Bool) : Server V :=
  { s with clients := fun c => (s.clients c).map fun cl => { cl with dirtyCas := cl.dirtyCas || p c } }

theorem clients_markDirty (h : s.clients c = some cl) (p : ClientId → Bool) :
    (s.markDirty p).clients c = some { cl with dirtyCas := cl.dirtyCas || p c } := by
  show (s.clients c).map _ = _
  rw [h]
  rfl

theorem markDirty_none (s : Server V) : s.markDirty (fun _ => false) = s := by
  unfold markDirty
  have hid : (fun c => (s.clients c).map fun cl => { cl with dirtyCas := cl.dirtyCas || false }) = s.clients := by
    ext c cl
    simp
  rw [hid]

/-- The clients of a list are flagged one after the other. -/
theorem foldlM_mark {f : Server V → ClientId → Except ServerFault (Server V)} {l : List ClientId}
    {p : ClientId → Bool} (hf : ∀ q, ∀ c ∈ l,
      f (s.markDirty q) c = .ok (s.markDirty fun x => q x || (x = c && p c))) (q : ClientId → Bool) :
    l.foldlM f (s.markDirty q) = .ok (s.markDirty fun x => q x || (x ∈ l && p x)) := by
  induction l generalizing q with
  | nil => simp [pure, Except.pure]
  | cons c l ih =>
    rw [List.foldlM_cons, hf q c List.mem_cons_self]
    show l.foldlM f _ = _
    rw [ih fun q c' hc' => hf q c' (List.mem_cons_of_mem _ hc')]
    congr 2
    ext x
    by_cases hx : x = c
    · subst hx
      cases q x <;> cases p x <;> simp
    · cases q x <;> simp [hx]

theorem flagDirtyCas_markDirty (h : s.clients c = some cl) (q : ClientId → Bool) :
    flagDirtyCas (s.markDirty q) c = .ok (s.markDirty fun x => q x || x = c) := by
  unfold flagDirtyCas
  rw [getClient_eq (clients_markDirty h q)]
  show Except.ok _ = Except.ok _
  congr 1
  unfold setClient markDirty
  congr 1
  ext x cl'
  by_cases hx : x = c
  · subst hx
    simp [h]
  · simp [hx]

end Server

open Server

/-- The watchers of a key are told. -/
theorem touchWatchedKey_eq (h : WatchInv s) (db : DbId) (key : Bytes) :
    touchWatchedKey s db key = .ok ((s.markDirty fun c => c ∈ (s.watchers ⟨key, db⟩).getD []).note
      (.touched fun wk => wk = ⟨key, db⟩)) := by
  have hfold : ((s.watchers ⟨key, db⟩).getD []).foldlM flagDirtyCas (s.markDirty fun _ => false)
      = .ok (s.markDirty fun c => c ∈ (s.watchers ⟨key, db⟩).getD []) := by
    rw [foldlM_mark (p := fun _ => true)]
    · simp
    · intro q c hc
      obtain ⟨l, hl, hmem⟩ : ∃ l, s.watchers ⟨key, db⟩ = some l ∧ c ∈ l := by
        cases hl : s.watchers ⟨key, db⟩ with
        | none =>
          rw [hl] at hc
          cases hc
        | some l =>
          rw [hl] at hc
          exact ⟨l, rfl, hc⟩
      obtain ⟨cl, hcl⟩ := Option.isSome_iff_exists.mp (h.live _ l hl c hmem)
      rw [flagDirtyCas_markDirty hcl q]
      simp
  unfold touchWatchedKey
  rw [markDirty_none] at hfold
  rw [hfold]
  rfl

/-- The watchers of the keys that are flushed are told. -/
theorem touchWatchedKeysOnFlush_eq (h : WatchInv s) (dbid : Option DbId) :
    touchWatchedKeysOnFlush s dbid = .ok ((s.markDirty fun c =>
      (s.clients c).any fun cl => cl.watchedKeys.any (flushedKey s dbid)).note (.touched (flushedKey s dbid))) := by
  have hfold : s.clientList.foldlM (fun t c => do
      let cl ← t.getClient c
      if cl.watchedKeys.any (flushedKey s dbid) then flagDirtyCas t c else return t) (s.markDirty fun _ => false)
      = .ok (s.markDirty fun c => (s.clients c).any fun cl => cl.watchedKeys.any (flushedKey s dbid)) := by
    rw [foldlM_mark (p := fun c => (s.clients c).any fun cl => cl.watchedKeys.any (flushedKey s dbid))]
    · congr 2
      ext c
      -- a client that watches something is in the list
      cases hcl : s.clients c with
      | none => simp
      | some cl =>
        have hc : c ∈ s.clientList := (h.list c).mpr (by rw [hcl]; rfl)
        simp [hc]
    · intro q c hc
      obtain ⟨cl, hcl⟩ := Option.isSome_iff_exists.mp ((h.list c).mp hc)
      rw [getClient_eq (clients_markDirty hcl q)]
      show (if cl.watchedKeys.any (flushedKey s dbid) = true then _ else _) = _
      by_cases hany : cl.watchedKeys.any (flushedKey s dbid) = true
      · rw [if_pos hany, flagDirtyCas_markDirty hcl q]
        simp [hcl, hany]
      · rw [if_neg hany]
        simp [hcl, hany, pure, Except.pure]
  unfold touchWatchedKeysOnFlush
  rw [markDirty_none] at hfold
  rw [hfold]
  rfl

/-- Only the flags change. -/
theorem WatchInv.markDirty (h : WatchInv s) (p : ClientId → Bool) : WatchInv (s.markDirty p) := by
  have hclient : ∀ {c cl}, (s.markDirty p).clients c = some cl →
      ∃ cl', s.clients c = some cl' ∧ cl.watchedKeys = cl'.watchedKeys := by
    intro c cl hcl
    obtain ⟨cl', hcl', rfl⟩ := Option.map_eq_some_iff.mp hcl
    exact ⟨cl', hcl', rfl⟩
  have hsome : ∀ c, ((s.markDirty p).clients c).isSome = (s.clients c).isSome := fun c => Option.isSome_map
  refine ⟨?_, ?_, h.listsNodup, h.nonempty, ?_, ?_, h.listNodup⟩
  · intro c cl hcl wk
    obtain ⟨cl', hcl', hkeys⟩ := hclient hcl
    rw [hkeys]
    exact h.symm c cl' hcl' wk
  · intro c cl hcl
    obtain ⟨cl', hcl', hkeys⟩ := hclient hcl
    rw [hkeys]
    exact h.keysNodup c cl' hcl'
  · intro wk l hl c hc
    rw [hsome]
    exact h.live wk l hl c hc
  · intro c
    rw [hsome]
    exact h.list c

theorem WatchInv.note (h : WatchInv s) (e : Happening) : WatchInv (s.note e) :=
  ⟨h.symm, h.keysNodup, h.listsNodup, h.nonempty, h.live, h.list, h.listNodup⟩

/-- A client is changed, but not what it watches. -/
theorem WatchInv.setClient (h : WatchInv s) {cl' : Client} (hcl : s.clients c = some cl)
    (hkeys : cl'.watchedKeys = cl.watchedKeys) : WatchInv (s.setClient c cl') := by
  have hsome : ∀ x, ((s.setClient c cl').clients x).isSome = (s.clients x).isSome := by
    intro x
    rw [clients_setClient]
    by_cases hx : x = c
    · rw [if_pos hx, hx, hcl]
      rfl
    · rw [if_neg hx]
  have hclient : ∀ {x y}, (s.setClient c cl').clients x = some y →
      ∃ z, s.clients x = some z ∧ y.watchedKeys = z.watchedKeys := by
    intro x y hy
    rw [clients_setClient] at hy
    by_cases hx : x = c
    · rw [if_pos hx] at hy
      cases hy
      exact ⟨cl, hx ▸ hcl, hkeys⟩
    · rw [if_neg hx] at hy
      exact ⟨y, hy, rfl⟩
  refine ⟨?_, ?_, h.listsNodup, h.nonempty, ?_, ?_, h.listNodup⟩
  · intro x y hy wk
    obtain ⟨z, hz, hyz⟩ := hclient hy
    rw [hyz]
    exact h.symm x z hz wk
  · intro x y hy
    obtain ⟨z, hz, hyz⟩ := hclient hy
    rw [hyz]
    exact h.keysNodup x z hz
  · intro wk l hl x hx
    rw [hsome]
    exact h.live wk l hl x hx
  · intro x
    rw [hsome]
    exact h.list x

/-- What stays when only the watched keys of `c` change. -/
structure Rewatched (c : ClientId) (s t : Server V) : Prop where
  dict : ∀ d, (t.dbs d).dict = (s.dbs d).dict
  expires : ∀ d, (t.dbs d).expires = (s.dbs d).expires
  others : ∀ x, x ≠ c → t.clients x = s.clients x
  clientList : t.clientList = s.clientList

theorem Rewatched.refl (s : Server V) : Rewatched c s s := ⟨fun _ => rfl, fun _ => rfl, fun _ _ => rfl, rfl⟩

theorem Rewatched.trans {u : Server V} (h : Rewatched c s t) (h' : Rewatched c t u) : Rewatched c s u :=
  ⟨fun d => (h'.dict d).trans (h.dict d), fun d => (h'.expires d).trans (h.expires d),
    fun x hx => (h'.others x hx).trans (h.others x hx), h'.clientList.trans h.clientList⟩

theorem Rewatched.note (h : Rewatched c s t) (e : Happening) : Rewatched c s (t.note e) :=
  ⟨h.dict, h.expires, h.others, h.clientList⟩

/-- Both sides are edited. -/
theorem rewatched_edit (l : Option (List ClientId)) (cl : Client) :
    Rewatched c s ((s.setWatchers wk l).setClient c cl) := by
  refine ⟨fun d => ?_, fun d => ?_, fun x hx => if_neg hx, rfl⟩
  · show (if d = wk.db then _ else _ : RedisDb V).dict = _
    split_ifs <;> rfl
  · show (if d = wk.db then _ else _ : RedisDb V).expires = _
    split_ifs <;> rfl

section

variable (h : WatchInv s) (hcl : s.clients c = some cl)

include h hcl

/-- The two sides still agree if `c` is added to, or removed from, both. -/
theorem WatchInv.edit {cl' : Client} {l : Option (List ClientId)} (hnodup : cl'.watchedKeys.Nodup)
    (hl : ∀ l', l = some l' → l'.Nodup ∧ l' ≠ [])
    (hkeys : ∀ x, x ≠ wk → (x ∈ cl'.watchedKeys ↔ x ∈ cl.watchedKeys))
    (hself : wk ∈ cl'.watchedKeys ↔ ∃ l', l = some l' ∧ c ∈ l')
    (hothers : ∀ x, x ≠ c → ((∃ l', l = some l' ∧ x ∈ l') ↔ ∃ l', s.watchers wk = some l' ∧ x ∈ l')) :
    WatchInv ((s.setWatchers wk l).setClient c cl') := by
  have hwatchers : ∀ x, ((s.setWatchers wk l).setClient c cl').watchers x = if x = wk then l else s.watchers x :=
    fun x => watchers_setWatchers l x
  have hclients : ∀ x, ((s.setWatchers wk l).setClient c cl').clients x = if x = c then some cl' else s.clients x :=
    fun x => rfl
  have hsome : ∀ x, (((s.setWatchers wk l).setClient c cl').clients x).isSome = (s.clients x).isSome := by
    intro x
    rw [hclients]
    by_cases hx : x = c
    · rw [if_pos hx, hx, hcl]
      rfl
    · rw [if_neg hx]
  refine ⟨?_, ?_, ?_, ?_, ?_, ?_, h.listNodup⟩
  · intro x y hy k
    rw [hclients] at hy
    rw [hwatchers]
    by_cases hx : x = c
    · rw [if_pos hx] at hy
      cases hy
      subst hx
      by_cases hk : k = wk
      · rw [if_pos hk, hk]
        exact hself
      · rw [if_neg hk, hkeys k hk]
        exact h.symm x cl hcl k
    · rw [if_neg hx] at hy
      by_cases hk : k = wk
      · rw [if_pos hk, hk, hothers x hx]
        exact h.symm x y hy wk
      · rw [if_neg hk]
        exact h.symm x y hy k
  · intro x y hy
    rw [hclients] at hy
    by_cases hx : x = c
    · rw [if_pos hx] at hy
      cases hy
      exact hnodup
    · rw [if_neg hx] at hy
      exact h.keysNodup x y hy
  · intro k l' hl'
    rw [hwatchers] at hl'
    by_cases hk : k = wk
    · rw [if_pos hk] at hl'
      exact (hl l' hl').1
    · rw [if_neg hk] at hl'
      exact h.listsNodup k l' hl'
  · intro k hnil
    rw [hwatchers] at hnil
    by_cases hk : k = wk
    · rw [if_pos hk] at hnil
      exact (hl [] hnil).2 rfl
    · rw [if_neg hk] at hnil
      exact h.nonempty k hnil
  · intro k l' hl' x hx
    rw [hsome]
    rw [hwatchers] at hl'
    by_cases hk : k = wk
    · rw [if_pos hk] at hl'
      by_cases hxc : x = c
      · rw [hxc, hcl]
        rfl
      · obtain ⟨l'', hl'', hmem⟩ := (hothers x hxc).mp ⟨l', hl', hx⟩
        exact h.live wk l'' hl'' x hmem
    · rw [if_neg hk] at hl'
      exact h.live k l' hl' x hx
  · intro x
    rw [hsome]
    exact h.list x

/-- A key is watched. -/
theorem watchForKey_spec (key : Bytes) :
    Sat (watchForKey s c key) (fun t => WatchInv t ∧ Rewatched c s t ∧ ((⟨key, cl.db⟩ ∈ cl.watchedKeys ∧ t = s) ∨
      (t.clients c = some { cl with watchedKeys := cl.watchedKeys ++ [⟨key, cl.db⟩] } ∧
        t.log = .watched c ⟨key, cl.db⟩ :: s.log))) (fun _ => False) := by
  unfold watchForKey
  refine Sat.bind_ok (getClient_eq hcl) ?_
  refine Sat.ite (fun hmem => ⟨h, Rewatched.refl s, Or.inl ⟨hmem, rfl⟩⟩) fun hmem => ?_
  have hnot : ¬ ∃ l, s.watchers ⟨key, cl.db⟩ = some l ∧ c ∈ l := fun hl => hmem ((h.symm c cl hcl _).mpr hl)
  -- the list of the key, if there is one, does not have the client yet
  have hfresh : c ∉ (s.watchers ⟨key, cl.db⟩).getD [] := by
    cases hl : s.watchers ⟨key, cl.db⟩ with
    | none => simp
    | some l => exact fun hc => hnot ⟨l, hl, hc⟩
  have hnodup : ((s.watchers ⟨key, cl.db⟩).getD []).Nodup := by
    cases hl : s.watchers ⟨key, cl.db⟩ with
    | none => exact List.nodup_nil
    | some l => exact h.listsNodup _ l hl
  refine ⟨WatchInv.note (h.edit hcl ?_ ?_ ?_ ?_ ?_) _, (rewatched_edit _ _).note _, Or.inr ⟨if_pos rfl, rfl⟩⟩
  · simpa [List.concat_eq_append] using List.Nodup.concat hmem (h.keysNodup c cl hcl)
  · intro l' hl'
    cases hl'
    exact ⟨by simpa [List.concat_eq_append] using List.Nodup.concat hfresh hnodup, by simp⟩
  · intro x hx
    simp [hx]
  · simp
  · intro x hx
    cases hl : s.watchers ⟨key, cl.db⟩ with
    | none | some l => simp [hx]

/-- A key is no longer watched. -/
theorem unwatchKey_spec {rest : List WatchedKey} (hkeys : cl.watchedKeys = wk :: rest) :
    Sat (unwatchKey c s wk) (fun t => WatchInv t ∧ Rewatched c s t ∧ t.log = s.log ∧
      t.clients c = some { cl with watchedKeys := rest }) (fun _ => False) := by
  have hmem : wk ∈ cl.watchedKeys := by
    rw [hkeys]
    exact List.mem_cons_self
  have hnodup := h.keysNodup c cl hcl
  rw [hkeys] at hnodup
  have herase : cl.watchedKeys.erase wk = rest := by rw [hkeys, List.erase_cons_head]
  obtain ⟨l, hl, hc⟩ := (h.symm c cl hcl wk).mp hmem
  have hlnodup := h.listsNodup wk l hl
  unfold unwatchKey
  rw [hl]
  refine Sat.ite (fun hno => absurd hc hno) fun _ => ?_
  refine Sat.bind_ok (getClient_eq hcl) ?_
  rw [herase]
  refine ⟨h.edit hcl (List.nodup_cons.mp hnodup).2 ?_ ?_ ?_ ?_, rewatched_edit _ _, rfl, if_pos rfl⟩
  · intro l' hl'
    split_ifs at hl' with hnil
    cases hl'
    exact ⟨hlnodup.erase c, hnil⟩
  · intro x hx
    rw [hkeys]
    simp [hx]
  · refine iff_of_false (List.nodup_cons.mp hnodup).1 ?_
    intro ⟨l', hl', hc'⟩
    split_ifs at hl' with hnil
    cases hl'
    exact hlnodup.not_mem_erase hc'
  · intro x hx
    have herase' : x ∈ l.erase c ↔ x ∈ l := List.mem_erase_of_ne hx
    constructor
    · intro ⟨l', hl', hx'⟩
      split_ifs at hl' with hnil
      cases hl'
      exact ⟨l, hl, herase'.mp hx'⟩
    · intro ⟨l', hl', hx'⟩
      cases hl.symm.trans hl'
      have hx' := herase'.mpr hx'
      exact ⟨l.erase c, if_neg (List.ne_nil_of_mem hx'), hx'⟩

/-- **`unwatchAllKeys` returns**, and the client watches nothing. -/
theorem unwatchAllKeys_spec :
    Sat (unwatchAllKeys s c) (fun t => WatchInv t ∧ Rewatched c s t ∧ t.log = s.log ∧
      t.clients c = some { cl with watchedKeys := [] }) (fun _ => False) := by
  unfold unwatchAllKeys
  refine Sat.bind_ok (getClient_eq hcl) ?_
  -- after some rounds the keys that are left are those of the client
  refine (sat_foldlM (fun done t => WatchInv t ∧ Rewatched c s t ∧ t.log = s.log ∧
    ∃ rest, cl.watchedKeys = done ++ rest ∧ t.clients c = some { cl with watchedKeys := rest })
    cl.watchedKeys s ⟨h, Rewatched.refl s, rfl, cl.watchedKeys, rfl, hcl⟩ ?_).weaken ?_
  · rintro done wk rest t hsplit ⟨ht, hst, hlog, rest', hsplit', hclt⟩
    have hrest : rest' = wk :: rest := List.append_cancel_left (hsplit'.symm.trans hsplit)
    subst hrest
    refine (unwatchKey_spec ht hclt rfl).weaken ?_
    rintro u ⟨hu, htu, hlogu, hclu⟩
    exact ⟨hu, hst.trans htu, hlogu.trans hlog, rest, by rw [hsplit, List.append_assoc, List.singleton_append], hclu⟩
  · rintro t ⟨ht, hst, hlog, rest, hsplit, hclt⟩
    have hrest : rest = [] := by
      have hlen := congrArg List.length hsplit
      rw [List.length_append] at hlen
      exact List.eq_nil_of_length_eq_zero (by omega)
    subst hrest
    exact ⟨ht, hst, hlog, hclt⟩

end

end Lemmas

end Redis
