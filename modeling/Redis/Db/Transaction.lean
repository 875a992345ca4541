import Redis.Db.Watch
import Redis.Libc

namespace Redis

open Outcome Server

/-!
# Transactions

`MULTI`, `EXEC`, `DISCARD`, `WATCH` and `UNWATCH` of `multi.c`, and the checks that
`processCommand` makes before a command is queued or called.  What an ordinary command
does is a parameter: a list of the actions that matter here.

* `processCheck` — the checks, in order;
* `execCommand` — all the queued commands, or none;
* `serverStep` — one event: a client connects, disconnects or sends a command;
* `watch_symmetric` — the two sides of `WATCH` agree in every state, and no step fails;
* `TxState`, `replay` — what a client's transaction should be after what has happened;
* `exec_all_or_nothing` — `EXEC` runs the queue if and only if nothing has spoiled it.
-/

/-- What an ordinary command does, as far as watched keys and clients are concerned. -/
inductive ServerAct (V : Type)
  /-- `signalModifiedKey`. -/
  | touch (db : DbId) (key : Bytes)
  /-- `signalFlushedDb`. -/
  | flush (dbid : Option DbId)
  /-- The contents of a database change. -/
  | store (db : DbId) (dict : Bytes → Option V) (expires : Bytes → Option Int)
  /-- `selectDb`. -/
  | select (db : DbId)
  /-- `freeClient` of another client. -/
  | free (c : ClientId)

/-- What `processCommand` reads besides the command. -/
structure RequestEnv where
  /-- `server.requirepass && !c->authenticated`. -/
  noauth : Bool
  /-- `getNodeByQuery` returns another node or none. -/
  redirected : Bool
  /-- `freeMemoryIfNeeded` fails. -/
  oom : Bool
  /-- Problems persisting on the disk of a master. -/
  writesStopped : Bool
  /-- Not enough good slaves for a master. -/
  fewSlaves : Bool
  /-- A read-only slave, and the client is not its master. -/
  readonlySlave : Bool
  /-- `CLIENT_PUBSUB`. -/
  pubsub : Bool
  /-- A slave without its master that does not serve stale data. -/
  staleMaster : Bool
  loading : Bool
  luaTimedout : Bool
  deriving DecidableEq, Repr

/-- What `processCommand` does with a command. -/
inductive CheckResult
  | quit
  /-- An error reply, with or without `flagTransaction`. -/
  | refuse (flags : Bool)
  /-- An `EXEC` that belongs to another node. -/
  | redirectExec
  | accept (cmd : ServerCommand)
  deriving DecidableEq, Repr

/-- The commands that are allowed while a script is too slow. -/
def slowScriptAllows (cmd : ServerCommand) (argv : List Bytes) : Bool :=
  cmd.kind = .auth || cmd.kind = .replconf ||
    -- SHUTDOWN NOSAVE and SCRIPT KILL
    (cmd.kind = .shutdown && argv.length = 2 && ((argv.getD 1 []).headD 0 |> tolower) = 110) ||
    (cmd.kind = .script && argv.length = 2 && ((argv.getD 1 []).headD 0 |> tolower) = 107)

section Server

variable {V : Type} (lookupCommand : Bytes → Option ServerCommand)
  (effect : ServerCommand → List Bytes → ClientId → Server V → List (ServerAct V))

/-- The checks of `processCommand`. -/
def processCheck (env : RequestEnv) (argv : List Bytes) : CheckResult :=
  if strcaseeq (argv.headD []) [113, 117, 105, 116] then .quit
  else match lookupCommand (argv.headD []) with
    | none => .refuse true
    | some cmd =>
        if (0 < cmd.arity ∧ cmd.arity ≠ argv.length) ∨ (argv.length : Int) < -cmd.arity then .refuse true
        else if env.noauth = true ∧ cmd.kind ≠ .auth then .refuse true
        else if env.redirected = true ∧ (cmd.hasKeys = true ∨ cmd.kind = .exec) then
          if cmd.kind = .exec then .redirectExec else .refuse true
        else if env.oom = true ∧ cmd.denyoom = true then .refuse true
        else if env.writesStopped = true ∧ (cmd.write = true ∨ cmd.kind = .ping) then .refuse true
        else if env.fewSlaves = true ∧ cmd.write = true then .refuse true
        -- these two return without flagTransaction
        else if env.readonlySlave = true ∧ cmd.write = true then .refuse false
        else if env.pubsub = true ∧ cmd.kind ≠ .ping ∧ cmd.kind ≠ .subscribe then .refuse false
        else if env.staleMaster = true ∧ cmd.stale = false then .refuse true
        -- and so does this one
        else if env.loading = true ∧ cmd.loading = false then .refuse false
        else if env.luaTimedout = true ∧ slowScriptAllows cmd argv = false then .refuse true
        else .accept cmd

/-- `freeClient`. -/
def freeClient (s : Server V) (c : ClientId) : Except ServerFault (Server V) := do
  let s ← unwatchAllKeys s c
  return ({ s with
    clients := fun x => if x = c then none else s.clients x
    clientList := s.clientList.erase c } : Server V).note (.freed c)

/-- One action, on behalf of a client or of nobody. -/
def performAct (caller : Option ClientId) (s : Server V) : ServerAct V → Except ServerFault (Server V)
  | .touch db key => touchWatchedKey s db key
  | .flush dbid => touchWatchedKeysOnFlush s dbid
  | .store db dict expires => return { s with
      dbs := fun d => if d = db then { s.dbs d with dict := dict, expires := expires } else s.dbs d }
  | .select db =>
      match caller with
      | none => return s
      | some c => do
          let cl ← s.getClient c
          return s.setClient c { cl with db := db }
  -- a client that closes itself is freed later
  | .free c => if caller = some c ∨ s.clients c = none then return s else freeClient s c

/-- `discardTransaction`. -/
def discardTransaction (s : Server V) (c : ClientId) : Except ServerFault (Server V) := do
  let cl ← s.getClient c
  unwatchAllKeys (s.setClient c { cl with mstate := [], multi := false, dirtyCas := false, dirtyExec := false }) c

/-- `flagTransaction`. -/
def flagTransaction (s : Server V) (c : ClientId) : Except ServerFault (Server V) := do
  let cl ← s.getClient c
  if cl.multi then return s.setClient c { cl with dirtyExec := true } else return s

/-- `multiCommand`. -/
def multiCommand (s : Server V) (c : ClientId) : Except ServerFault (Server V) := do
  let cl ← s.getClient c
  if cl.multi then return s else return (s.setClient c { cl with multi := true }).note (.began c)

/-- `discardCommand`. -/
def discardCommand (s : Server V) (c : ClientId) : Except ServerFault (Server V) := do
  let cl ← s.getClient c
  if cl.multi then discardTransaction (s.note (.discarded c)) c else return s

/-- `watchCommand`. -/
def watchCommand (s : Server V) (c : ClientId) (keys : List Bytes) : Except ServerFault (Server V) := do
  let cl ← s.getClient c
  if cl.multi then return s else keys.foldlM (fun s key => watchForKey s c key) s

/-- `unwatchCommand`. -/
def unwatchCommand (s : Server V) (c : ClientId) : Except ServerFault (Server V) := do
  let s ← unwatchAllKeys s c
  let cl ← s.getClient c
  return (s.setClient c { cl with dirtyCas := false }).note (.unwatched c)

/-- `call` of a command that may be queued. -/
def callQueueable (s : Server V) (c : ClientId) (q : QueuedCommand) : Except ServerFault (Server V) := do
  let s := s.note (.called c q)
  if q.cmd.kind = .unwatch then unwatchCommand s c
  else (effect q.cmd q.argv c s).foldlM (performAct (some c)) s

/-- `execCommand`. -/
def execCommand (s : Server V) (c : ClientId) : Except ServerFault (Server V) := do
  let cl ← s.getClient c
  if cl.multi then do
    let s := s.note (.exec c)
    if cl.dirtyCas || cl.dirtyExec then discardTransaction s c
    else do
      let s ← unwatchAllKeys s c
      let s ← cl.mstate.foldlM (fun s q => callQueueable effect s c q.1) s
      discardTransaction s c
  else return s

/-- `call` of a command that comes from a client. -/
def callCommand (s : Server V) (c : ClientId) (q : QueuedCommand) : Except ServerFault (Server V) :=
  match q.cmd.kind with
  | .multi => multiCommand s c
  | .exec => execCommand effect s c
  | .discard => discardCommand s c
  | .watch => watchCommand s c q.argv.tail
  | _ => callQueueable effect s c q

/-- `processCommand`. -/
def processCommand (s : Server V) (c : ClientId) (env : RequestEnv) (argv : List Bytes) :
    Except ServerFault (Server V) := do
  match processCheck lookupCommand env argv with
  | .quit => return s
  | .refuse flags =>
      let s := s.note (.refused c flags)
      if flags then flagTransaction s c else return s
  | .redirectExec => discardTransaction (s.note (.discarded c)) c
  | .accept cmd => do
      let cl ← s.getClient c
      if h : cl.multi = true ∧ cmd.kind.queueable = true then
        return (s.setClient c { cl with mstate := cl.mstate ++ [⟨⟨cmd, argv⟩, h.2⟩] }).note (.queued c ⟨cmd, argv⟩)
      else callCommand effect s c ⟨cmd, argv⟩

/-- The events of the server. -/
inductive ServerEvent (V : Type)
  | connect (c : ClientId)
  | disconnect (c : ClientId)
  | request (c : ClientId) (env : RequestEnv) (argv : List Bytes)
  /-- Anything that no client has asked for: expiry, replication, clients that were blocked. -/
  | background (acts : List (ServerAct V))

/-- A client that has just connected. -/
def createClient : Client := ⟨0, false, false, false, [], []⟩

/-- One event. -/
def serverStep (s : Server V) : ServerEvent V → Except ServerFault (Server V)
  | .connect c =>
      if (s.clients c).isSome then return s
      else return { s with
        clients := fun x => if x = c then some createClient else s.clients x
        clientList := s.clientList ++ [c] }
  | .disconnect c => if (s.clients c).isSome then freeClient s c else return s
  | .request c env argv => if (s.clients c).isSome then processCommand lookupCommand effect s c env argv else return s
  | .background acts => acts.foldlM (performAct none) s

/-- A server without clients. -/
structure Server.Initial (s : Server V) : Prop where
  clients : ∀ c, s.clients c = none
  clientList : s.clientList = []
  watchers : ∀ wk, s.watchers wk = none
  log : s.log = []

/-- The states that steps with `cond` lead to. -/
inductive ServerReachable (cond : Server V → ServerEvent V → Prop) : Server V → Prop
  | init {s : Server V} : s.Initial → ServerReachable cond s
  | step {s t : Server V} {ev : ServerEvent V} : ServerReachable cond s → cond s ev →
      serverStep lookupCommand effect s ev = .ok t → ServerReachable cond t

end Server

/-! ### What a transaction should be -/

/-- The transaction of a client. -/
@[ext] structure TxState where
  watching : List WatchedKey := []
  /-- A watched key has been touched. -/
  spoiled : Bool := false
  /-- A command has been refused inside of `MULTI`. -/
  failed : Bool := false
  multi : Bool := false
  queue : List QueuedCommand := []
  deriving DecidableEq

/-- What happens to the transaction of `c`. -/
def TxState.next (c : ClientId) (e : Happening) (st : TxState) : TxState :=
  match e with
  | .watched x wk => if x = c then { st with watching := st.watching ++ [wk] } else st
  | .unwatched x => if x = c then { st with watching := [], spoiled := false } else st
  | .began x => if x = c then { st with multi := true } else st
  | .queued x q => if x = c then { st with queue := st.queue ++ [q] } else st
  | .refused x flagged => if x = c then { st with failed := st.failed || (flagged && st.multi) } else st
  | .discarded x | .exec x | .freed x => if x = c then {} else st
  | .called _ _ => st
  | .touched wks => { st with spoiled := st.spoiled || st.watching.any wks }

theorem TxState.next_refused (c : ClientId) (flagged : Bool) (st : TxState) :
    st.next c (.refused c flagged) = { st with failed := st.failed || (flagged && st.multi) } := if_pos rfl

theorem TxState.next_queued (c : ClientId) (q : QueuedCommand) (st : TxState) :
    st.next c (.queued c q) = { st with queue := st.queue ++ [q] } := if_pos rfl

theorem TxState.next_discarded (c : ClientId) (st : TxState) : st.next c (.discarded c) = {} := if_pos rfl

/-- The transaction of `c` after what has happened. -/
def replay (c : ClientId) (log : List Happening) : TxState := log.foldr (TxState.next c) {}

/-- The transaction as the client has it. -/
def Client.tx (cl : Client) : TxState where
  watching := cl.watchedKeys
  spoiled := cl.dirtyCas
  failed := cl.dirtyExec
  multi := cl.multi
  queue := cl.mstate.map Subtype.val

def Server.tx {V : Type} (s : Server V) (c : ClientId) : TxState := ((s.clients c).map Client.tx).getD {}

/-- The calls of a part of the record, the first call first. -/
def calls (log : List Happening) : List (ClientId × QueuedCommand) :=
  log.reverse.filterMap fun e =>
    match e with
    | .called c q => some (c, q)
    | _ => none

/-- A command is refused. -/
def Happening.isRefusal : Happening → Bool
  | .refused _ _ => true
  | _ => false

/-- Nothing happens to other clients than `c`. -/
def Happening.About (c : ClientId) (e : Happening) : Prop := ∀ x, x ≠ c → ∀ st : TxState, st.next x e = st

/-- The transactions are what they should be.  While the queue of `caller` is executed its transaction is
    already over. -/
structure TxInv {V : Type} (caller : Option ClientId) (executing : Bool) (s : Server V) : Prop where
  watch : WatchInv s
  live : ∀ c, caller = some c → ∃ cl, s.clients c = some cl ∧ (executing = true → cl.watchedKeys = [])
  tracks : ∀ c, ¬ (executing = true ∧ caller = some c) → s.tx c = replay c s.log
  ended : executing = true → ∀ c, caller = some c → replay c s.log = {}

section Tx

variable {V : Type} {s t : Server V} {c : ClientId} {cl : Client} {caller : Option ClientId} {b : Bool}

theorem replay_append (c : ClientId) (new log : List Happening) :
    replay c (new ++ log) = new.foldr (TxState.next c) (replay c log) := List.foldr_append

theorem Server.tx_eq (h : s.clients c = some cl) : s.tx c = cl.tx := by
  unfold Server.tx
  rw [h]
  rfl

theorem calls_append (new log : List Happening) : calls (new ++ log) = calls log ++ calls new := by
  unfold calls
  rw [List.reverse_append, List.filterMap_append]

/-- One client is changed, and nothing happens to the others. -/
theorem TxInv.edit (h : TxInv caller b s) (ht : WatchInv t) (hothers : ∀ x, x ≠ c → t.clients x = s.clients x)
    (new : List Happening) (hlog : t.log = new ++ s.log) (habout : ∀ e ∈ new, e.About c)
    (hlive : caller = some c → ∃ cl, t.clients c = some cl ∧ (b = true → cl.watchedKeys = []))
    (htx : ¬ (b = true ∧ caller = some c) → t.tx c = new.foldr (TxState.next c) (s.tx c))
    (hover : b = true → caller = some c → new.foldr (TxState.next c) {} = ({} : TxState)) : TxInv caller b t := by
  have hreplay : ∀ x, x ≠ c → replay x t.log = replay x s.log := by
    intro x hx
    rw [hlog, replay_append]
    clear hlog htx hover
    induction new with
    | nil => rfl
    | cons e new ih =>
      rw [List.foldr_cons, ih fun e he => habout e (List.mem_cons_of_mem _ he)]
      exact habout e List.mem_cons_self x hx _
  refine ⟨ht, fun x hx => ?_, fun x hx => ?_, fun hb x hx => ?_⟩
  · by_cases hxc : x = c
    · subst hxc
      exact hlive hx
    · rw [hothers x hxc]
      exact h.live x hx
  · by_cases hxc : x = c
    · subst hxc
      rw [htx hx, h.tracks x hx, hlog, replay_append]
    · rw [hreplay x hxc, ← h.tracks x hx]
      unfold Server.tx
      rw [hothers x hxc]
  · by_cases hxc : x = c
    · subst hxc
      rw [hlog, replay_append, h.ended hb x hx]
      exact hover hb hx
    · rw [hreplay x hxc]
      exact h.ended hb x hx

/-- The watchers of some keys are told. -/
theorem TxInv.touch (h : TxInv caller b s) {p : ClientId → Bool} {wks : WatchedKey → Bool}
    (hp : ∀ c cl, s.clients c = some cl → p c = cl.watchedKeys.any wks) :
    TxInv caller b ((s.markDirty p).note (.touched wks)) := by
  have hreplay : ∀ x, replay x ((s.markDirty p).note (.touched wks)).log
      = (replay x s.log).next x (.touched wks) := fun x => rfl
  refine ⟨(h.watch.markDirty p).note _, fun c hc => ?_, fun c hc => ?_, fun hb c hc => ?_⟩
  · obtain ⟨cl, hcl, hkeys⟩ := h.live c hc
    exact ⟨_, clients_markDirty hcl p, hkeys⟩
  · rw [hreplay, ← h.tracks c hc]
    cases hcl : s.clients c with
    | none =>
      have hnone : ((s.markDirty p).note (.touched wks)).clients c = none := by
        show (s.clients c).map _ = none
        rw [hcl]
        rfl
      unfold Server.tx
      rw [hnone, hcl]
      rfl
    | some cl =>
      show (s.markDirty p).tx c = _
      rw [tx_eq hcl, tx_eq (clients_markDirty hcl p), hp c cl hcl]
      rfl
  · rw [hreplay, h.ended hb c hc]
    rfl

/-! ### The actions of ordinary commands -/

/-- The commands `qs` are called in between, and none is refused. -/
def Calls (qs : List (ClientId × QueuedCommand)) (s t : Server V) : Prop :=
  ∃ new, t.log = new ++ s.log ∧ calls new = qs ∧ ∀ e ∈ new, e.isRefusal = false

theorem Calls.of_eq (h : t.log = s.log) : Calls [] s t := ⟨[], h, rfl, fun _ he => absurd he List.not_mem_nil⟩

theorem Calls.of_cons {e : Happening} (h : t.log = e :: s.log) (hcalls : calls [e] = [])
    (he : e.isRefusal = false) : Calls [] s t := by
  refine ⟨[e], h, hcalls, fun x hx => ?_⟩
  rw [List.mem_singleton.mp hx]
  exact he

theorem Calls.trans {u : Server V} {qs qs' : List (ClientId × QueuedCommand)} (h : Calls qs s t)
    (h' : Calls qs' t u) : Calls (qs ++ qs') s u := by
  obtain ⟨new, hnew, hcalls, hquiet⟩ := h
  obtain ⟨new', hnew', hcalls', hquiet'⟩ := h'
  refine ⟨new' ++ new, ?_, ?_, fun e he => ?_⟩
  · rw [hnew', hnew, List.append_assoc]
  · rw [calls_append, hcalls, hcalls']
  · rcases List.mem_append.mp he with he | he
    · exact hquiet' e he
    · exact hquiet e he

theorem about_unwatched (c : ClientId) : (Happening.unwatched c).About c := fun _ hx _ => if_neg (Ne.symm hx)
theorem about_freed (c : ClientId) : (Happening.freed c).About c := fun _ hx _ => if_neg (Ne.symm hx)
theorem about_exec (c : ClientId) : (Happening.exec c).About c := fun _ hx _ => if_neg (Ne.symm hx)
theorem about_discarded (c : ClientId) : (Happening.discarded c).About c := fun _ hx _ => if_neg (Ne.symm hx)
theorem about_began (c : ClientId) : (Happening.began c).About c := fun _ hx _ => if_neg (Ne.symm hx)
theorem about_called (c x : ClientId) (q : QueuedCommand) : (Happening.called x q).About c := fun _ _ _ => rfl
theorem about_watched (c : ClientId) (wk : WatchedKey) : (Happening.watched c wk).About c :=
  fun _ hx _ => if_neg (Ne.symm hx)
theorem about_queued (c : ClientId) (q : QueuedCommand) : (Happening.queued c q).About c :=
  fun _ hx _ => if_neg (Ne.symm hx)
theorem about_refused (c : ClientId) (f : Bool) : (Happening.refused c f).About c :=
  fun _ hx _ => if_neg (Ne.symm hx)

/-- A client that is not executing is freed. -/
theorem freeClient_spec (h : TxInv caller b s) (hcl : s.clients c = some cl) (hc : caller ≠ some c) :
    Sat (freeClient s c) (fun t => TxInv caller b t ∧ Calls [] s t) (fun _ => False) := by
  unfold freeClient
  refine Sat.bind (unwatchAllKeys_spec h.watch hcl) ?_
  rintro t ⟨ht, hst, hlog, hclt⟩
  have hdead : ∀ wk l, t.watchers wk = some l → c ∉ l := by
    intro wk l hl hmem
    have hin := (ht.symm c _ hclt wk).mpr ⟨l, hl, hmem⟩
    cases hin
  have hclients : ∀ x, (({ t with
      clients := fun x => if x = c then none else t.clients x
      clientList := t.clientList.erase c } : Server V).note (.freed c)).clients x
      = if x = c then none else t.clients x := fun x => rfl
  refine ⟨h.edit (c := c) ?_ ?_ [.freed c] (congrArg _ hlog) ?_ (fun hx => absurd hx hc) ?_ ?_,
    Calls.of_cons (congrArg _ hlog) rfl rfl⟩
  · refine ⟨?_, ?_, ht.listsNodup, ht.nonempty, ?_, ?_, ht.listNodup.erase c⟩
    · intro x y hy
      rw [hclients] at hy
      split_ifs at hy with hx
      exact ht.symm x y hy
    · intro x y hy
      rw [hclients] at hy
      split_ifs at hy with hx
      exact ht.keysNodup x y hy
    · intro wk l hl x hx
      have hxc : x ≠ c := fun hxc => hdead wk l hl (hxc ▸ hx)
      rw [hclients, if_neg hxc]
      exact ht.live wk l hl x hx
    · intro x
      show x ∈ t.clientList.erase c ↔ _
      rw [hclients, ht.listNodup.mem_erase_iff, ht.list x]
      by_cases hx : x = c
      · simp [hx]
      · simp [hx]
  · intro x hx
    rw [hclients, if_neg hx]
    exact hst.others x hx
  · intro e he
    rw [List.mem_singleton.mp he]
    exact about_freed c
  · intro _
    unfold Server.tx
    rw [hclients, if_pos rfl]
    exact (if_pos rfl).symm
  · intro _ hx
    exact absurd hx hc

/-- A client selects another database. -/
theorem select_spec (h : TxInv caller b s) (hcl : s.clients c = some cl) (db : DbId) :
    TxInv caller b (s.setClient c { cl with db := db }) := by
  have hclient : (s.setClient c { cl with db := db }).clients c = some { cl with db := db } := if_pos rfl
  refine h.edit (c := c) (h.watch.setClient hcl rfl) (fun x hx => if_neg hx) [] rfl
    (fun e he => absurd he List.not_mem_nil) (fun hc => ⟨_, hclient, fun hb => ?_⟩) (fun _ => ?_) (fun _ _ => rfl)
  · obtain ⟨cl', hcl', hkeys⟩ := h.live c hc
    cases hcl.symm.trans hcl'
    exact hkeys hb
  · rw [tx_eq hclient, List.foldr_nil, tx_eq hcl]
    rfl

/-- The contents of a database are changed. -/
theorem store_spec (h : TxInv caller b s) (db : DbId) (dict : Bytes → Option V) (expires : Bytes → Option Int) :
    TxInv caller b { s with
      dbs := fun d => if d = db then { s.dbs d with dict := dict, expires := expires } else s.dbs d } := by
  have hwatchers : ∀ wk, Server.watchers ({ s with
      dbs := fun d => if d = db then { s.dbs d with dict := dict, expires := expires } else s.dbs d }) wk
      = s.watchers wk := by
    intro wk
    show RedisDb.watchedKeys (if wk.db = db then _ else _) wk.key = _
    split_ifs <;> rfl
  refine ⟨⟨?_, h.watch.keysNodup, ?_, ?_, ?_, h.watch.list, h.watch.listNodup⟩, h.live, h.tracks, h.ended⟩
  · intro c cl hcl wk
    rw [hwatchers]
    exact h.watch.symm c cl hcl wk
  · intro wk l hl
    rw [hwatchers] at hl
    exact h.watch.listsNodup wk l hl
  · intro wk hnil
    rw [hwatchers] at hnil
    exact h.watch.nonempty wk hnil
  · intro wk l hl
    rw [hwatchers] at hl
    exact h.watch.live wk l hl

theorem performAct_spec (h : TxInv caller b s) (a : ServerAct V) :
    Sat (performAct caller s a) (fun t => TxInv caller b t ∧ Calls [] s t) (fun _ => False) := by
  cases a with
  | touch db key =>
    show Sat (touchWatchedKey s db key) _ _
    rw [touchWatchedKey_eq h.watch]
    refine ⟨h.touch fun c cl hcl => ?_, Calls.of_cons rfl rfl rfl⟩
    -- the list of the key has the clients that watch it
    have hsymm := h.watch.symm c cl hcl ⟨key, db⟩
    cases hl : s.watchers ⟨key, db⟩ with
    | none =>
      rw [hl] at hsymm
      have hnot : (⟨key, db⟩ : WatchedKey) ∉ cl.watchedKeys := by simpa using hsymm
      simp only [Option.getD_none, List.not_mem_nil, decide_false]
      rw [eq_comm, List.any_eq_false]
      intro wk hwk heq
      exact hnot (of_decide_eq_true heq ▸ hwk)
    | some l =>
      rw [hl] at hsymm
      simp only [Option.some.injEq, exists_eq_left'] at hsymm
      rw [Option.getD_some, Bool.eq_iff_iff, decide_eq_true_iff, ← hsymm, List.any_eq_true]
      constructor
      · intro hmem
        exact ⟨_, hmem, decide_eq_true rfl⟩
      · intro ⟨wk, hwk, heq⟩
        exact of_decide_eq_true heq ▸ hwk
  | flush dbid =>
    show Sat (touchWatchedKeysOnFlush s dbid) _ _
    rw [touchWatchedKeysOnFlush_eq h.watch]
    refine ⟨h.touch fun c cl hcl => ?_, Calls.of_cons rfl rfl rfl⟩
    rw [hcl]
    rfl
  | store db dict expires => exact ⟨store_spec h db dict expires, Calls.of_eq rfl⟩
  | select db =>
    cases caller with
    | none => exact ⟨h, Calls.of_eq rfl⟩
    | some c =>
      obtain ⟨cl, hcl, -⟩ := h.live c rfl
      refine Sat.bind_ok (getClient_eq hcl) ?_
      exact ⟨select_spec h hcl db, Calls.of_eq rfl⟩
  | free c =>
    refine Sat.ite (fun _ => ⟨h, Calls.of_eq rfl⟩) fun hc => ?_
    obtain ⟨cl, hcl⟩ := Option.ne_none_iff_exists'.mp (not_or.mp hc).2
    exact freeClient_spec h hcl (not_or.mp hc).1

theorem performActs_spec (h : TxInv caller b s) (acts : List (ServerAct V)) :
    Sat (acts.foldlM (performAct caller) s) (fun t => TxInv caller b t ∧ Calls [] s t) (fun _ => False) := by
  refine sat_foldlM (fun _ t => TxInv caller b t ∧ Calls [] s t) acts s ⟨h, Calls.of_eq rfl⟩ ?_
  rintro _ a _ t _ ⟨ht, hst⟩
  refine (performAct_spec ht a).weaken ?_
  rintro u ⟨hu, htu⟩
  exact ⟨hu, hst.trans htu⟩

/-! ### The commands of transactions -/

/-- A client without a transaction. -/
structure Client.Idle (cl : Client) : Prop where
  multi : cl.multi = false
  dirtyCas : cl.dirtyCas = false
  dirtyExec : cl.dirtyExec = false
  watchedKeys : cl.watchedKeys = []
  mstate : cl.mstate = []

theorem Client.Idle.tx (h : cl.Idle) : cl.tx = {} := by
  unfold Client.tx
  rw [h.multi, h.dirtyCas, h.dirtyExec, h.watchedKeys, h.mstate]
  rfl

theorem TxInv.tx_eq_replay (h : TxInv caller false s) (x : ClientId) : s.tx x = replay x s.log :=
  h.tracks x fun hb => Bool.false_ne_true hb.1

theorem TxInv.of_tracks (hw : WatchInv s) (h : ∀ x, s.tx x = replay x s.log) : TxInv none false s := by
  refine ⟨hw, ?_, fun x _ => h x, fun hb => absurd hb Bool.false_ne_true⟩
  intro x hx
  cases hx

/-- A client begins to act. -/
theorem TxInv.act (h : TxInv none false s) (hcl : s.clients c = some cl) : TxInv (some c) false s := by
  refine ⟨h.watch, ?_, fun x _ => h.tx_eq_replay x, fun hb => absurd hb Bool.false_ne_true⟩
  intro x hx
  cases hx
  exact ⟨cl, hcl, fun hb => absurd hb Bool.false_ne_true⟩

theorem TxInv.rest (h : TxInv caller false s) : TxInv none false s := TxInv.of_tracks h.watch h.tx_eq_replay

/-- The end of a transaction. -/
theorem discardTransaction_spec (hw : WatchInv s) (hcl : s.clients c = some cl)
    (hothers : ∀ x, x ≠ c → s.tx x = replay x s.log) (hover : replay c s.log = {}) :
    Sat (discardTransaction s c) (fun t => TxInv none false t ∧ t.log = s.log ∧
      ∃ cl', t.clients c = some cl' ∧ cl'.Idle) (fun _ => False) := by
  unfold discardTransaction
  refine Sat.bind_ok (getClient_eq hcl) ?_
  have hclient : (s.setClient c { cl with mstate := [], multi := false, dirtyCas := false, dirtyExec := false }).clients c
      = some { cl with mstate := [], multi := false, dirtyCas := false, dirtyExec := false } := if_pos rfl
  have hwatch : WatchInv (s.setClient c { cl with mstate := [], multi := false, dirtyCas := false, dirtyExec := false }) :=
    hw.setClient hcl rfl
  refine (unwatchAllKeys_spec hwatch hclient).weaken ?_
  rintro t ⟨ht, hst, hlog, hclt⟩
  have hidle : Client.Idle { cl with mstate := [], multi := false, dirtyCas := false, dirtyExec := false, watchedKeys := [] } :=
    ⟨rfl, rfl, rfl, rfl, rfl⟩
  have hlog : t.log = s.log := hlog
  refine ⟨TxInv.of_tracks ht fun x => ?_, hlog, _, hclt, hidle⟩
  rw [hlog]
  by_cases hx : x = c
  · rw [hx, hover, tx_eq hclt]
    exact hidle.tx
  · have hclients : t.clients x = s.clients x := (hst.others x hx).trans (if_neg hx)
    rw [← hothers x hx]
    unfold Server.tx
    rw [hclients]

/-- A transaction of another client is over. -/
theorem replay_note (x c : ClientId) {e : Happening} (he : e.About c) (hx : x ≠ c) :
    replay x (s.note e).log = replay x s.log := he x hx _

theorem callQueueable_spec (h : TxInv (some c) b s)
    (effect : ServerCommand → List Bytes → ClientId → Server V → List (ServerAct V)) (q : QueuedCommand) :
    Sat (callQueueable effect s c q) (fun t => TxInv (some c) b t ∧ Calls [(c, q)] s t) (fun _ => False) := by
  have hcalled : TxInv (some c) b (s.note (.called c q)) := by
    refine h.edit (c := c) (h.watch.note _) (fun _ _ => rfl) [.called c q] rfl ?_ (h.live c) (fun _ => rfl)
      (fun _ _ => rfl)
    intro e he
    rw [List.mem_singleton.mp he]
    exact about_called c c q
  have hone : Calls [(c, q)] s (s.note (.called c q)) := by
    refine ⟨[.called c q], rfl, rfl, fun e he => ?_⟩
    rw [List.mem_singleton.mp he]
    rfl
  unfold callQueueable
  refine Sat.ite (fun _ => ?_) fun _ => ?_
  · -- UNWATCH
    obtain ⟨cl, hcl, hkeys⟩ := hcalled.live c rfl
    unfold unwatchCommand
    refine Sat.bind (unwatchAllKeys_spec hcalled.watch hcl) ?_
    rintro t ⟨ht, hst, hlog, hclt⟩
    refine Sat.bind_ok (getClient_eq hclt) ?_
    have hclient : ((t.setClient c { cl with watchedKeys := [], dirtyCas := false }).note (.unwatched c)).clients c
        = some { cl with watchedKeys := [], dirtyCas := false } := if_pos rfl
    have hwatch : WatchInv (t.setClient c { cl with watchedKeys := [], dirtyCas := false }) := ht.setClient hclt rfl
    refine ⟨hcalled.edit (c := c) (hwatch.note _) ?_ [.unwatched c] (congrArg _ hlog) ?_
      (fun _ => ⟨_, hclient, fun _ => rfl⟩) (fun _ => ?_) (fun _ _ => if_pos rfl), hone.trans (Calls.of_cons (congrArg _ hlog) rfl rfl)⟩
    · intro x hx
      exact (if_neg hx).trans (hst.others x hx)
    · intro e he
      rw [List.mem_singleton.mp he]
      exact about_unwatched c
    · rw [tx_eq hclient, List.foldr_cons, List.foldr_nil, tx_eq hcl]
      exact (if_pos rfl).symm
  · refine (performActs_spec hcalled _).weaken ?_
    rintro t ⟨ht, hst⟩
    exact ⟨ht, hone.trans hst⟩

section

variable (h : TxInv none false s) (hcl : s.clients c = some cl)

include h hcl

/-- **`EXEC`** of a transaction. -/
theorem execCommand_spec (hmulti : cl.multi = true)
    (effect : ServerCommand → List Bytes → ClientId → Server V → List (ServerAct V)) :
    Sat (execCommand effect s c) (fun t => TxInv none false t ∧
      Calls (if cl.dirtyCas || cl.dirtyExec then [] else cl.mstate.map fun q => (c, q.1)) s t ∧
      ∃ cl', t.clients c = some cl' ∧ cl'.Idle) (fun _ => False) := by
  have hothers : ∀ x, x ≠ c → (s.note (.exec c)).tx x = replay x (s.note (.exec c)).log := by
    intro x hx
    rw [replay_note x c (about_exec c) hx]
    exact h.tx_eq_replay x
  have hover : replay c (s.note (.exec c)).log = {} := if_pos rfl
  unfold execCommand
  refine Sat.bind_ok (getClient_eq hcl) ?_
  refine Sat.ite (fun _ => ?_) fun hno => absurd hmulti hno
  refine Sat.ite (fun hdirty => ?_) fun hclean => ?_
  · refine (discardTransaction_spec (h.watch.note _) hcl hothers hover).weaken ?_
    rintro t ⟨ht, hlog, hidle⟩
    rw [if_pos hdirty]
    exact ⟨ht, Calls.of_cons hlog rfl rfl, hidle⟩
  · refine Sat.bind (unwatchAllKeys_spec (h.watch.note (.exec c)) hcl) ?_
    rintro u ⟨hu, hsu, hlog, hclu⟩
    -- from here on the transaction is over
    have hexec : TxInv (some c) true u := by
      refine ⟨hu, ?_, fun x hx => ?_, ?_⟩
      · intro x hx
        cases hx
        exact ⟨_, hclu, fun _ => rfl⟩
      · have hxc : x ≠ c := fun hxc => hx ⟨rfl, congrArg some hxc.symm⟩
        rw [hlog, ← hothers x hxc]
        unfold Server.tx
        rw [hsu.others x hxc]
      · intro _ x hx
        cases hx
        rw [hlog]
        exact hover
    have hloop : Sat (cl.mstate.foldlM (fun s q => callQueueable effect s c q.1) u)
        (fun t => TxInv (some c) true t ∧ Calls (cl.mstate.map fun q => (c, q.1)) u t) (fun _ => False) := by
      refine sat_foldlM (fun done t => TxInv (some c) true t ∧ Calls (done.map fun q => (c, q.1)) u t) cl.mstate u
        ⟨hexec, Calls.of_eq rfl⟩ ?_
      rintro done q rest t - ⟨ht, hut⟩
      refine (callQueueable_spec ht effect q.1).weaken ?_
      rintro v ⟨hv, htv⟩
      rw [List.map_append]
      exact ⟨hv, hut.trans htv⟩
    refine Sat.bind hloop ?_
    rintro v ⟨hv, huv⟩
    obtain ⟨clv, hclv, -⟩ := hv.live c rfl
    have hvothers : ∀ x, x ≠ c → v.tx x = replay x v.log :=
      fun x hx => hv.tracks x fun hb => hx (Option.some.inj hb.2).symm
    refine (discardTransaction_spec hv.watch hclv hvothers (hv.ended rfl c rfl)).weaken ?_
    rintro t ⟨ht, hlogt, hidle⟩
    rw [if_neg hclean]
    have hbegin : Calls [] s u := Calls.of_cons hlog rfl rfl
    have hend : Calls [] v t := Calls.of_eq hlogt
    have hall := (hbegin.trans huv).trans hend
    rw [List.nil_append, List.append_nil] at hall
    exact ⟨ht, hall, hidle⟩

/-- The client `c` is changed, and `e` is noted. -/
theorem TxInv.change {cl' : Client} {e : Happening} (he : e.About c) (hkeys : cl'.watchedKeys = cl.watchedKeys)
    (htx : cl'.tx = cl.tx.next c e) :
    TxInv none false ((s.setClient c cl').note e) := by
  have hclient : ((s.setClient c cl').note e).clients c = some cl' := if_pos rfl
  refine h.edit (c := c) ((h.watch.setClient hcl hkeys).note e) (fun x hx => if_neg hx) [e] rfl ?_ ?_ ?_ ?_
  · intro x hx
    rw [List.mem_singleton.mp hx]
    exact he
  · intro hx
    cases hx
  · intro _
    rw [tx_eq hclient, htx, List.foldr_cons, List.foldr_nil, tx_eq hcl]
  · intro hb
    cases hb

theorem multiCommand_spec :
    Sat (multiCommand s c) (fun t => TxInv none false t ∧ Calls [] s t) (fun _ => False) := by
  unfold multiCommand
  refine Sat.bind_ok (getClient_eq hcl) ?_
  refine Sat.ite (fun _ => ⟨h, Calls.of_eq rfl⟩) fun _ => ?_
  exact ⟨h.change hcl (about_began c) rfl (if_pos rfl).symm, Calls.of_cons rfl rfl rfl⟩

/-- `DISCARD`, and an `EXEC` that is redirected. -/
theorem discard_spec :
    Sat (discardTransaction (s.note (.discarded c)) c) (fun t => TxInv none false t ∧ Calls [] s t)
      (fun _ => False) := by
  have hover : replay c (s.note (.discarded c)).log = {} := TxState.next_discarded c _
  refine (discardTransaction_spec (h.watch.note _) hcl (fun x hx => ?_) hover).weaken ?_
  · rw [replay_note x c (about_discarded c) hx]
    exact h.tx_eq_replay x
  · rintro t ⟨ht, hlog, -⟩
    exact ⟨ht, Calls.of_cons hlog rfl rfl⟩

theorem discardCommand_spec :
    Sat (discardCommand s c) (fun t => TxInv none false t ∧ Calls [] s t) (fun _ => False) := by
  unfold discardCommand
  refine Sat.bind_ok (getClient_eq hcl) ?_
  exact Sat.ite (fun _ => discard_spec h hcl) fun _ => ⟨h, Calls.of_eq rfl⟩

theorem watchCommand_spec (keys : List Bytes) :
    Sat (watchCommand s c keys) (fun t => TxInv none false t ∧ Calls [] s t) (fun _ => False) := by
  unfold watchCommand
  refine Sat.bind_ok (getClient_eq hcl) ?_
  refine Sat.ite (fun _ => ⟨h, Calls.of_eq rfl⟩) fun _ => ?_
  refine (sat_foldlM (fun _ t => (TxInv none false t ∧ Calls [] s t) ∧ ∃ cl, t.clients c = some cl) keys s
    ⟨⟨h, Calls.of_eq rfl⟩, cl, hcl⟩ ?_).weaken fun t ht => ht.1
  rintro _ key _ t _ ⟨⟨ht, hst⟩, clt, hclt⟩
  refine (watchForKey_spec ht.watch hclt key).weaken ?_
  rintro u ⟨hu, htu, ⟨-, rfl⟩ | ⟨hclu, hlogu⟩⟩
  · exact ⟨⟨ht, hst⟩, clt, hclt⟩
  · have hinv : TxInv none false u := by
      refine ht.edit (c := c) hu htu.others [_] hlogu ?_ ?_ ?_ ?_
      · intro e he
        rw [List.mem_singleton.mp he]
        exact about_watched c _
      · intro hx
        cases hx
      · intro _
        rw [tx_eq hclu, List.foldr_cons, List.foldr_nil, tx_eq hclt]
        exact (if_pos rfl).symm
      · intro hb
        cases hb
    exact ⟨⟨hinv, hst.trans (Calls.of_cons hlogu rfl rfl)⟩, _, hclu⟩

end

/-- What is noted while a command is processed. -/
def Processed (lookupCommand : Bytes → Option ServerCommand) (c : ClientId) (env : RequestEnv) (argv : List Bytes)
    (s t : Server V) : Prop :=
  (∃ qs, Calls qs s t) ∨
    ∃ flags, processCheck lookupCommand env argv = .refuse flags ∧ t.log = .refused c flags :: s.log

theorem refuse_spec (h : TxInv none false s) (hcl : s.clients c = some cl) (flags : Bool) :
    Sat (if flags then flagTransaction (s.note (.refused c flags)) c else return s.note (.refused c flags))
      (fun t => TxInv none false t ∧ t.log = .refused c flags :: s.log) (fun _ => False) := by
  -- without `flagTransaction`, or outside of MULTI, nothing is flagged
  have hsame : (flags && cl.multi) = false → TxInv none false (s.note (.refused c flags)) := by
    intro hno
    refine h.edit (c := c) (h.watch.note _) (fun _ _ => rfl) [.refused c flags] rfl ?_ ?_ ?_ ?_
    · intro e he
      rw [List.mem_singleton.mp he]
      exact about_refused c flags
    · intro hx
      cases hx
    · intro _
      show s.tx c = (s.tx c).next c (.refused c flags)
      rw [tx_eq hcl, TxState.next_refused, show cl.tx.multi = cl.multi from rfl, hno, Bool.or_false]
      rfl
    · intro hb
      cases hb
  refine Sat.ite (fun hflags => ?_) fun hflags => ⟨hsame ?_, rfl⟩
  · unfold flagTransaction
    refine Sat.bind_ok (getClient_eq (s := s.note (.refused c flags)) hcl) ?_
    refine Sat.ite (fun hmulti => ?_) fun hmulti => ⟨hsame ?_, rfl⟩
    · refine ⟨h.change hcl (about_refused c flags) rfl ?_, rfl⟩
      rw [TxState.next_refused, show cl.tx.multi = cl.multi from rfl, hflags, hmulti, Bool.and_true, Bool.or_true]
      rfl
    · rw [Bool.eq_false_iff.mpr hmulti, Bool.and_false]
  · rw [Bool.eq_false_iff.mpr hflags, Bool.false_and]

variable (lookupCommand : Bytes → Option ServerCommand)
  (effect : ServerCommand → List Bytes → ClientId → Server V → List (ServerAct V))

theorem callCommand_spec (h : TxInv none false s) (hcl : s.clients c = some cl) (q : QueuedCommand) :
    Sat (callCommand effect s c q) (fun t => TxInv none false t ∧ ∃ qs, Calls qs s t) (fun _ => False) := by
  have hplain : Sat (callQueueable effect s c q) (fun t => TxInv none false t ∧ ∃ qs, Calls qs s t)
      (fun _ => False) := by
    refine (callQueueable_spec (h.act hcl) effect q).weaken ?_
    rintro t ⟨ht, hst⟩
    exact ⟨ht.rest, _, hst⟩
  have hquiet : ∀ t, TxInv none false t ∧ Calls [] s t → TxInv none false t ∧ ∃ qs, Calls qs s t :=
    fun t ht => ⟨ht.1, _, ht.2⟩
  unfold callCommand
  split
  · exact (multiCommand_spec h hcl).weaken hquiet
  · by_cases hmulti : cl.multi = true
    · refine (execCommand_spec h hcl hmulti effect).weaken ?_
      rintro t ⟨ht, hst, -⟩
      exact ⟨ht, _, hst⟩
    · unfold execCommand
      refine Sat.bind_ok (getClient_eq hcl) ?_
      exact Sat.ite (fun hm => absurd hm hmulti) fun _ => ⟨h, _, Calls.of_eq rfl⟩
  · exact (discardCommand_spec h hcl).weaken hquiet
  · exact (watchCommand_spec h hcl _).weaken hquiet
  · exact hplain

theorem processCommand_spec (h : TxInv none false s) (hcl : s.clients c = some cl) (env : RequestEnv)
    (argv : List Bytes) : Sat (processCommand lookupCommand effect s c env argv)
      (fun t => TxInv none false t ∧ Processed lookupCommand c env argv s t) (fun _ => False) := by
  unfold processCommand
  cases hcheck : processCheck lookupCommand env argv with
  | quit => exact ⟨h, Or.inl ⟨_, Calls.of_eq rfl⟩⟩
  | refuse flags =>
    refine (refuse_spec h hcl flags).weaken ?_
    rintro t ⟨ht, hlog⟩
    exact ⟨ht, Or.inr ⟨flags, hcheck, hlog⟩⟩
  | redirectExec =>
    refine (discard_spec h hcl).weaken ?_
    rintro t ⟨ht, hst⟩
    exact ⟨ht, Or.inl ⟨_, hst⟩⟩
  | accept cmd =>
    refine Sat.bind_ok (getClient_eq hcl) ?_
    split
    · refine ⟨h.change hcl (about_queued c _) rfl ?_, Or.inl ⟨_, Calls.of_cons rfl rfl rfl⟩⟩
      rw [TxState.next_queued]
      unfold Client.tx
      simp
    · refine (callCommand_spec effect h hcl _).weaken ?_
      rintro t ⟨ht, hst⟩
      exact ⟨ht, Or.inl hst⟩

/-- **Step lemma.** -/
theorem serverStep_spec (h : TxInv none false s) (ev : ServerEvent V) :
    Sat (serverStep lookupCommand effect s ev) (fun t => TxInv none false t ∧ ((∃ qs, Calls qs s t) ∨
      ∃ c env argv, ev = .request c env argv ∧ (s.clients c).isSome = true ∧
        Processed lookupCommand c env argv s t)) (fun _ => False) := by
  cases ev with
  | connect c =>
    refine Sat.ite (fun _ => ⟨h, Or.inl ⟨_, Calls.of_eq rfl⟩⟩) fun hnew => ?_
    have hnone : s.clients c = none := Option.not_isSome_iff_eq_none.mp hnew
    refine ⟨TxInv.of_tracks ⟨?_, ?_, h.watch.listsNodup, h.watch.nonempty, ?_, ?_, ?_⟩ ?_, Or.inl ⟨_, Calls.of_eq rfl⟩⟩
    · intro x y hy wk
      replace hy : (if x = c then some createClient else s.clients x) = some y := hy
      split_ifs at hy with hx
      · -- nobody is in a list before it has connected
        cases hy
        refine iff_of_false List.not_mem_nil ?_
        intro ⟨l, hl, hmem⟩
        have hlive := h.watch.live wk l hl x hmem
        rw [hx, hnone] at hlive
        cases hlive
      · exact h.watch.symm x y hy wk
    · intro x y hy
      replace hy : (if x = c then some createClient else s.clients x) = some y := hy
      split_ifs at hy with hx
      · cases hy
        exact List.nodup_nil
      · exact h.watch.keysNodup x y hy
    · intro wk l hl x hx
      show (if x = c then some createClient else s.clients x).isSome = true
      split_ifs
      · rfl
      · exact h.watch.live wk l hl x hx
    · intro x
      show x ∈ s.clientList ++ [c] ↔ (if x = c then some createClient else s.clients x).isSome = true
      by_cases hx : x = c
      · simp [hx]
      · simp [hx, h.watch.list x]
    · have hnot : c ∉ s.clientList := fun hc => hnew ((h.watch.list c).mp hc)
      simpa [List.concat_eq_append] using List.Nodup.concat hnot h.watch.listNodup
    · intro x
      rw [← show s.tx x = _ from h.tx_eq_replay x]
      show ((if x = c then some createClient else s.clients x).map Client.tx).getD {} = _
      unfold Server.tx
      by_cases hx : x = c
      · rw [if_pos hx, hx, hnone]
        rfl
      · rw [if_neg hx]
  | disconnect c =>
    refine Sat.ite (fun hsome => ?_) fun _ => ⟨h, Or.inl ⟨_, Calls.of_eq rfl⟩⟩
    obtain ⟨cl, hcl⟩ := Option.isSome_iff_exists.mp hsome
    refine (freeClient_spec h hcl (Option.some_ne_none c).symm).weaken ?_
    rintro t ⟨ht, hst⟩
    exact ⟨ht, Or.inl ⟨_, hst⟩⟩
  | request c env argv =>
    refine Sat.ite (fun hsome => ?_) fun _ => ⟨h, Or.inl ⟨_, Calls.of_eq rfl⟩⟩
    obtain ⟨cl, hcl⟩ := Option.isSome_iff_exists.mp hsome
    refine (processCommand_spec lookupCommand effect h hcl env argv).weaken ?_
    rintro t ⟨ht, hst⟩
    exact ⟨ht, Or.inr ⟨c, env, argv, rfl, hsome, hst⟩⟩
  | background acts =>
    refine (performActs_spec h acts).weaken ?_
    rintro t ⟨ht, hst⟩
    exact ⟨ht, Or.inl ⟨_, hst⟩⟩

theorem Server.Initial.txInv (h : s.Initial) : TxInv none false s := by
  have hno : ∀ c cl, s.clients c ≠ some cl := by
    intro c cl hcl
    rw [h.clients c] at hcl
    cases hcl
  have hnoList : ∀ wk l, s.watchers wk ≠ some l := by
    intro wk l hl
    rw [h.watchers wk] at hl
    cases hl
  refine TxInv.of_tracks ⟨fun c cl hcl => absurd hcl (hno c cl), fun c cl hcl => absurd hcl (hno c cl),
    fun wk l hl => absurd hl (hnoList wk l), fun wk => hnoList wk [], fun wk l hl => absurd hl (hnoList wk l), ?_, ?_⟩ ?_
  · intro c
    rw [h.clientList, h.clients c]
    exact iff_of_false List.not_mem_nil Bool.false_ne_true
  · rw [h.clientList]
    exact List.nodup_nil
  · intro c
    unfold Server.tx
    rw [h.clients c, h.log]
    rfl

/-- **Run lemma.** -/
theorem ServerReachable.txInv {cond : Server V → ServerEvent V → Prop}
    (h : ServerReachable lookupCommand effect cond s) : TxInv none false s := by
  induction h with
  | init hs => exact hs.txInv
  | step _ _ hstep ih => exact ((serverStep_spec lookupCommand effect ih _).of_eq_ok hstep).1

end Tx

/-! ### What has happened since -/

/-- Something that satisfies `start` has happened, and nothing that satisfies `stop` since. -/
def Since (stop : Happening → Bool) (start : Happening → List Happening → Prop) (log : List Happening) : Prop :=
  ∃ after e before, log = after ++ e :: before ∧ start e before ∧ ∀ x ∈ after, stop x = false

/-- The client no longer watches: `UNWATCH`, `DISCARD`, `EXEC`, or it is gone. -/
def Happening.releases (c : ClientId) : Happening → Bool
  | .unwatched x | .discarded x | .exec x | .freed x => x = c
  | _ => false

/-- The transaction ends. -/
def Happening.ends (c : ClientId) : Happening → Bool
  | .discarded x | .exec x | .freed x => x = c
  | _ => false

/-- The client watches a key. -/
def Watching (c : ClientId) (wk : WatchedKey) : List Happening → Prop :=
  Since (Happening.releases c) fun e _ => e = .watched c wk

/-- A key has been touched, or flushed while it existed, after the client has begun to watch it. -/
def Spoiled (c : ClientId) : List Happening → Prop :=
  Since (Happening.releases c) fun e before => ∃ wks wk, e = .touched wks ∧ wks wk = true ∧ Watching c wk before

/-- The client has sent `MULTI`. -/
def InMulti (c : ClientId) : List Happening → Prop := Since (Happening.ends c) fun e _ => e = .began c

/-- A command was not queued after `MULTI`. -/
def Failed (c : ClientId) : List Happening → Prop :=
  Since (Happening.ends c) fun e before => (∃ flagged, e = .refused c flagged) ∧ InMulti c before

/-- The commands that have been queued, in order. -/
def queueOf (c : ClientId) (log : List Happening) : List QueuedCommand :=
  (log.takeWhile fun e => !e.ends c).reverse.filterMap fun e =>
    match e with
    | .queued x q => if x = c then some q else none
    | _ => none

section Log

variable {c : ClientId} {log : List Happening}

attribute [local simp] TxState.next Happening.releases Happening.ends

variable {start : Happening → List Happening → Prop}

theorem not_since_nil {stop : Happening → Bool} :
    ¬ Since stop start [] := by
  intro ⟨after, e, before, heq, _⟩
  cases after <;> cases heq

theorem since_cons {stop : Happening → Bool} {e : Happening} :
    Since stop start (e :: log) ↔ start e log ∨ (stop e = false ∧ Since stop start log) := by
  constructor
  · intro ⟨after, x, before, heq, hstart, hafter⟩
    cases after with
    | nil =>
      cases heq
      exact Or.inl hstart
    | cons y after =>
      cases heq
      exact Or.inr ⟨hafter e List.mem_cons_self, after, x, before, rfl, hstart,
        fun z hz => hafter z (List.mem_cons_of_mem _ hz)⟩
  · rintro (hstart | ⟨hstop, after, x, before, rfl, hstart, hafter⟩)
    · exact ⟨[], e, log, rfl, hstart, fun _ hx => absurd hx List.not_mem_nil⟩
    · refine ⟨e :: after, x, before, rfl, hstart, fun z hz => ?_⟩
      rcases List.mem_cons.mp hz with rfl | hz
      · exact hstop
      · exact hafter z hz

theorem replay_cons (c : ClientId) (e : Happening) (log : List Happening) :
    replay c (e :: log) = (replay c log).next c e := rfl

/-- The keys that a client watches are those it has begun to watch. -/
theorem mem_watching_replay {wk : WatchedKey} : wk ∈ (replay c log).watching ↔ Watching c wk log := by
  induction log with
  | nil => exact iff_of_false List.not_mem_nil not_since_nil
  | cons e log ih =>
    unfold Watching at ih ⊢
    rw [since_cons, replay_cons, ← ih]
    cases e with
    | watched x wk' =>
      by_cases hx : x = c
      · simp [hx, or_comm, eq_comm]
      · simp [hx]
    | unwatched x | discarded x | exec x | freed x | began x | queued x q | refused x f =>
      by_cases hx : x = c <;> simp [hx]
    | called x q | touched wks => simp

theorem spoiled_replay : (replay c log).spoiled = true ↔ Spoiled c log := by
  induction log with
  | nil => exact iff_of_false Bool.false_ne_true not_since_nil
  | cons e log ih =>
    unfold Spoiled at ih ⊢
    rw [since_cons, replay_cons, ← ih]
    cases e with
    | touched wks => simp [← mem_watching_replay, or_comm, and_comm]
    | watched x wk' | unwatched x | discarded x | exec x | freed x | began x | queued x q
    | refused x f =>
      by_cases hx : x = c <;> simp [hx]
    | called x q => simp

theorem multi_replay : (replay c log).multi = true ↔ InMulti c log := by
  induction log with
  | nil => exact iff_of_false Bool.false_ne_true not_since_nil
  | cons e log ih =>
    unfold InMulti at ih ⊢
    rw [since_cons, replay_cons, ← ih]
    cases e with
    | called x q | touched wks => simp
    | watched x wk' | unwatched x | discarded x | exec x | freed x | began x | queued x q
    | refused x f =>
      by_cases hx : x = c <;> simp [hx]

/-- Every refusal inside of `MULTI` has been flagged. -/
def AllFlagged (log : List Happening) : Prop :=
  ∀ c after before, log = after ++ .refused c false :: before → (replay c before).multi = false

theorem AllFlagged.tail {e : Happening} (h : AllFlagged (e :: log)) : AllFlagged log := by
  intro c after before heq
  exact h c (e :: after) before (by rw [heq]; rfl)

theorem failed_replay (h : AllFlagged log) : (replay c log).failed = true ↔ Failed c log := by
  induction log with
  | nil => exact iff_of_false Bool.false_ne_true not_since_nil
  | cons e log ih =>
    have ih := ih h.tail
    unfold Failed at ih ⊢
    rw [since_cons, replay_cons, ← ih]
    cases e with
    | refused x f =>
      by_cases hx : x = c
      · subst hx
        -- a refusal that is not flagged is outside of MULTI
        have hflag : f = false → (replay x log).multi = false := fun hf => h x [] log (by rw [hf]; rfl)
        rw [TxState.next_refused]
        cases f with
        | true => simp [← multi_replay, or_comm]
        | false => simp [← multi_replay, hflag rfl]
      · simp [hx]
    | called x q | touched wks => simp
    | watched x wk' | unwatched x | discarded x | exec x | freed x | began x | queued x q =>
      by_cases hx : x = c <;> simp [hx]

theorem queue_replay : (replay c log).queue = queueOf c log := by
  induction log with
  | nil => rfl
  | cons e log ih =>
    unfold queueOf at ih ⊢
    rw [replay_cons, List.takeWhile_cons]
    cases e with
    | queued x q => by_cases hx : x = c <;> simp [hx, ih]
    | called x q | touched wks => simp [ih]
    | watched x wk' | unwatched x | discarded x | exec x | freed x | began x | refused x f =>
      by_cases hx : x = c <;> simp [hx, ih]

end Log

/-! ### All or nothing -/

section Exec

variable {V : Type} {s t : Server V} {c : ClientId} {cl : Client} {lookupCommand : Bytes → Option ServerCommand}
  {effect : ServerCommand → List Bytes → ClientId → Server V → List (ServerAct V)}

/-- No command of a client in `MULTI` is refused without a flag. -/
def RefusalsFlagged (lookupCommand : Bytes → Option ServerCommand) (s : Server V) (ev : ServerEvent V) : Prop :=
  ∀ c env argv cl, ev = .request c env argv → s.clients c = some cl → cl.multi = true →
    processCheck lookupCommand env argv ≠ .refuse false

theorem AllFlagged.of_calls {qs : List (ClientId × QueuedCommand)} (h : AllFlagged s.log) (hst : Calls qs s t) :
    AllFlagged t.log := by
  obtain ⟨new, hnew, -, hquiet⟩ := hst
  rw [hnew]
  clear hnew
  induction new with
  | nil => exact h
  | cons e new ih =>
    intro x after before heq
    cases after with
    | nil =>
      obtain ⟨rfl, -⟩ := List.cons.inj heq
      exact Bool.noConfusion (hquiet _ List.mem_cons_self)
    | cons y after =>
      obtain ⟨-, heq⟩ := List.cons.inj heq
      exact ih (fun z hz => hquiet z (List.mem_cons_of_mem _ hz)) x after before heq

/-- **Run lemma** of the refusals. -/
theorem ServerReachable.allFlagged
    (h : ServerReachable lookupCommand effect (RefusalsFlagged lookupCommand) s) : AllFlagged s.log := by
  induction h with
  | init hs =>
    intro x after before heq
    rw [hs.log] at heq
    cases after <;> cases heq
  | @step s t ev hs hcond hstep ih =>
    have htx := hs.txInv lookupCommand effect
    rcases ((serverStep_spec lookupCommand effect htx ev).of_eq_ok hstep).2 with ⟨qs, hst⟩ | ⟨c, env, argv, rfl, hsome, hst⟩
    · exact ih.of_calls hst
    · rcases hst with ⟨qs, hst⟩ | ⟨flags, hcheck, hlog⟩
      · exact ih.of_calls hst
      · rw [hlog]
        intro x after before heq
        cases after with
        | nil =>
          cases heq
          obtain ⟨cl, hcl⟩ := Option.isSome_iff_exists.mp hsome
          -- the flag of the client says whether it is in MULTI
          rw [← htx.tx_eq_replay, tx_eq hcl]
          by_contra hmulti
          exact hcond c env argv cl rfl hcl (Bool.eq_true_of_not_eq_false hmulti) hcheck
        | cons y after =>
          obtain ⟨-, heq⟩ := List.cons.inj heq
          exact ih x after before heq

/-- **A transaction is what its client has done.**  In every reachable state the keys that a client watches, its
    flags and its queue are those that the history of the server tells. -/
theorem transaction_of_history {cond : Server V → ServerEvent V → Prop}
    (h : ServerReachable lookupCommand effect cond s) (hcl : s.clients c = some cl) :
    (∀ wk, wk ∈ cl.watchedKeys ↔ Watching c wk s.log) ∧ (cl.dirtyCas = true ↔ Spoiled c s.log) ∧
      (cl.multi = true ↔ InMulti c s.log) ∧ cl.mstate.map Subtype.val = queueOf c s.log := by
  have hreplay : cl.tx = replay c s.log := by rw [← (h.txInv lookupCommand effect).tx_eq_replay, tx_eq hcl]
  rw [← spoiled_replay, ← multi_replay, ← queue_replay, ← hreplay]
  refine ⟨fun wk => ?_, Iff.rfl, Iff.rfl, rfl⟩
  rw [← mem_watching_replay, ← hreplay]
  rfl

end Exec

/-! ### A client on a read-only slave -/

/-- A command table with four commands. -/
def smallTable (name : Bytes) : Option ServerCommand :=
  if name = [109] then some ⟨.multi, 1, false, false, false, false, false⟩
  else if name = [101] then some ⟨.exec, 1, false, false, false, false, false⟩
  else if name = [115] then some ⟨.other, 3, true, true, false, false, true⟩
  else if name = [103] then some ⟨.other, 2, false, false, false, false, true⟩
  else none

/-- A server that refuses writes. -/
def readonlyEnv : RequestEnv := ⟨false, false, false, false, false, true, false, false, false, false⟩

def noEffect (_ : ServerCommand) (_ : List Bytes) (_ : ClientId) (_ : Server Nat) : List (ServerAct Nat) := []

def emptyServer : Server Nat := ⟨fun _ => ⟨fun _ => none, fun _ => none, fun _ => none⟩, fun _ => none, [], []⟩

/-- The server after some events, or as it was if one of them fails. -/
def serverAfter (evs : List (ServerEvent Nat)) : Server Nat :=
  evs.foldl (fun s ev => match serverStep smallTable noEffect s ev with | .ok t => t | .error _ => s) emptyServer

def requestM : ServerEvent Nat := .request 0 readonlyEnv [[109]]
def requestG : ServerEvent Nat := .request 0 readonlyEnv [[103], [97]]
def requestS : ServerEvent Nat := .request 0 readonlyEnv [[115], [97], [97]]
def requestE : ServerEvent Nat := .request 0 readonlyEnv [[101]]
def queuedG : QueuedCommand := ⟨⟨.other, 2, false, false, false, false, true⟩, [[103], [97]]⟩

theorem initial_emptyServer : emptyServer.Initial := ⟨fun _ => rfl, rfl, fun _ => rfl, rfl⟩

theorem reachable_connect {cond : Server Nat → ServerEvent Nat → Prop} (h : cond emptyServer (.connect 0)) :
    ServerReachable smallTable noEffect cond (serverAfter [.connect 0]) :=
  .step (.init initial_emptyServer) h rfl

/-- A request that is accepted is not refused. -/
theorem refusalsFlagged_of_accept {s : Server Nat} {c : ClientId} {env : RequestEnv} {argv : List Bytes}
    {cmd : ServerCommand} (h : processCheck smallTable env argv = .accept cmd) :
    RefusalsFlagged smallTable s (.request c env argv) := by
  intro x env' argv' cl hev _ _
  obtain ⟨-, rfl, rfl⟩ := ServerEvent.request.inj hev
  rw [h]
  exact CheckResult.noConfusion

theorem reachable_queuedG : ServerReachable smallTable noEffect (RefusalsFlagged smallTable)
    (serverAfter [.connect 0, requestM, requestG]) := by
  have hM : processCheck smallTable readonlyEnv [[109]] = .accept ⟨.multi, 1, false, false, false, false, false⟩ := by
    decide
  have hG : processCheck smallTable readonlyEnv [[103], [97]] = .accept queuedG.cmd := by
    decide
  have hstep : serverStep smallTable noEffect (serverAfter [.connect 0]) requestM
      = .ok (serverAfter [.connect 0, requestM]) := rfl
  have hstep' : serverStep smallTable noEffect (serverAfter [.connect 0, requestM]) requestG
      = .ok (serverAfter [.connect 0, requestM, requestG]) := rfl
  have hconnect : RefusalsFlagged smallTable emptyServer (.connect 0) := by
    intro x env argv cl hev
    cases hev
  have hrun := reachable_connect hconnect
  exact .step (.step hrun (refusalsFlagged_of_accept hM) hstep) (refusalsFlagged_of_accept hG) hstep'

/-- The queue after `MULTI` and a read. -/
theorem transaction_of_history_queued : InMulti 0 [.queued 0 queuedG, .began 0] ∧
    queueOf 0 [.queued 0 queuedG, .began 0] = [queuedG] := by
  have hcl : (serverAfter [.connect 0, requestM, requestG]).clients 0
      = some ⟨0, true, false, false, [], [⟨queuedG, rfl⟩]⟩ := rfl
  obtain ⟨-, -, hmulti, hqueue⟩ := transaction_of_history reachable_queuedG hcl
  exact ⟨hmulti.mp rfl, hqueue.symm⟩

end Redis
