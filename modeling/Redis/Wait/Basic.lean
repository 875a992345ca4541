import Redis.Blocking.Propagate

namespace Redis.Wait

open Blocking

/-!
# Synchronous replication — `WAIT`

A master with the clients of `Redis.Blocking`, its slaves and what they have acknowledged.  The
bytes of a command in the replication stream are counted only.

* `Master` — `woff` of the clients, `server.clients_waiting_acks`, `server.slaves`;
* `replicationFeedSlaves` — the offset grows by the bytes of a command;
* `replicationCountAcksByOffset`, `waitCommand`, `processClientsWaitingReplicas`;
* `Executes`, `ExecCalls` — a command inside `EXEC`;
* `Event`, `Step`, `Steps` — `processCommand`, what slaves and timers do, `beforeSleep`.
-/

variable {C S X : Type}

/-- A client in `server.slaves`. -/
structure Slave (S : Type) where
  id : S
  /-- `replstate == SLAVE_STATE_ONLINE`. -/
  online : Bool
  replAckOff : Int
  deriving DecidableEq, Repr

/-- A client in `server.clients_waiting_acks`, with what `bpop` holds for it. -/
structure Waiting (C : Type) where
  client : C
  timeout : Int
  reploffset : Int
  numreplicas : Int
  deriving DecidableEq, Repr

/-- A reply to a `WAIT`, with what it is to be compared to, for the statements only. -/
structure Answer (C S : Type) where
  client : C
  n : Nat
  /-- The slaves at that moment. -/
  slaves : List (Slave S)
  /-- The offsets after what has been propagated on behalf of the client. -/
  ends : List Int

/-- A command: one that works on the keys, or `WAIT`. -/
inductive Cmd (X : Type)
  | data (cmd : Command X)
  | wait (numreplicas timeout : Int)

/-- What is known of the commands besides what they do: their bytes in the stream, and
    `CMD_READONLY`. -/
structure Table (X : Type) where
  selectBytes : Nat → Nat
  bytes : Propagated X → Nat
  multiBytes : Nat
  execBytes : Nat
  getackBytes : Nat
  readonly : Command X → Bool

/-- The part of the master that `WAIT` depends on. -/
structure Master (C S X : Type) where
  server : Blocking.Server C X
  masterReplOffset : Int
  /-- `server.repl_backlog != NULL`; there are no slaves without it. -/
  backlog : Bool
  slaveseldb : Int
  slaves : List (Slave S)
  /-- `woff` of the clients. -/
  woff : C → Int
  clientsWaitingAcks : List (Waiting C)
  getAckFromSlaves : Bool
  /-- The offsets after what has been propagated on behalf of a client, for the statements only. -/
  ends : C → List Int
  /-- Something has been propagated on behalf of the client since its `woff` was written, for the
      statements only. -/
  late : C → Bool
  answers : List (Answer C S)

/-- `CMD_READONLY`; `WAIT` does not have it. -/
def Cmd.readonly (table : Table X) : Cmd X → Bool
  | .data cmd => table.readonly cmd
  | .wait _ _ => false

namespace Master

variable [DecidableEq C]

/-- `n` bytes for the backlog and the slaves. -/
def grow (m : Master C S X) (n : Nat) : Master C S X :=
  { m with masterReplOffset := m.masterReplOffset + n }

/-- What has been fed was propagated on behalf of a client. -/
def credit (m : Master C S X) (c : C) : Master C S X :=
  { m with
    ends := Function.update m.ends c (m.ends c ++ [m.masterReplOffset])
    late := Function.update m.late c true }

/-- `c->woff = server.master_repl_offset`. -/
def writeWoff (m : Master C S X) (c : C) : Master C S X :=
  { m with
    woff := Function.update m.woff c m.masterReplOffset
    late := Function.update m.late c false }

/-- `addReplyLongLong` for a `WAIT`. -/
def answer (m : Master C S X) (c : C) (n : Nat) : Master C S X :=
  { m with answers := m.answers ++ [⟨c, n, m.slaves, m.ends c⟩] }

end Master

/-! ## Feeding -/

/-- `replicationFeedSlaves`, of a command with `n` bytes. -/
def replicationFeedSlaves (table : Table X) (m : Master C S X) (dictid : Int) (n : Nat) : Master C S X :=
  if m.backlog then
    let m := if m.slaveseldb ≠ dictid then m.grow (table.selectBytes dictid.toNat) else m
    { m.grow n with slaveseldb := dictid }
  else m

variable [DecidableEq C]

/-- The same on behalf of a client. -/
def feedFor (table : Table X) (c : C) (m : Master C S X) (db n : Nat) : Master C S X :=
  if m.backlog then (replicationFeedSlaves table m db n).credit c else m

/-- Commands that were propagated on behalf of a client. -/
def propagateFor (table : Table X) (c : C) (m : Master C S X) (ps : List (Propagated X)) : Master C S X :=
  ps.foldl (fun m a => feedFor table c m a.db (table.bytes a)) m

/-- What the serving loop has propagated, on behalf of the clients that were served in `t`. -/
def propagateServices (table : Table X) (t : Blocking.Server C X) (m : Master C S X) (es : List (Service C)) :
    Master C S X :=
  es.foldl (fun m e => propagateFor table e.client m (e.propagates t)) m

/-! ## `WAIT` -/

/-- `replicationCountAcksByOffset`. -/
def replicationCountAcksByOffset (m : Master C S X) (offset : Int) : Nat :=
  m.slaves.countP (fun s => s.online && decide (offset ≤ s.replAckOff))

/-- `waitCommand`, with `multi` for `CLIENT_MULTI`. -/
def waitCommand (multi : Bool) (m : Master C S X) (c : C) (numreplicas timeout : Int) : Master C S X :=
  let ackreplicas := replicationCountAcksByOffset m (m.woff c)
  if numreplicas ≤ ackreplicas ∨ multi = true then m.answer c ackreplicas
  else
    { m with
      clientsWaitingAcks := m.clientsWaitingAcks ++ [⟨c, timeout, m.woff c, numreplicas⟩]
      getAckFromSlaves := true }

/-- `unblockClientWaitingReplicas`. -/
def unblockClientWaitingReplicas (m : Master C S X) (c : C) : Master C S X :=
  { m with clientsWaitingAcks := m.clientsWaitingAcks.eraseP (fun w => decide (w.client = c)) }

/-- The variables of the loop of `processClientsWaitingReplicas`. -/
structure Loop (C S X : Type) where
  master : Master C S X
  lastOffset : Int
  lastNumreplicas : Nat

/-- One turn of the loop. -/
def processClient (l : Loop C S X) (w : Waiting C) : Loop C S X :=
  -- a client that asks for less than one that is satisfied
  if l.lastOffset ≠ 0 ∧ w.reploffset < l.lastOffset ∧ w.numreplicas < l.lastNumreplicas then
    { l with
      master := (unblockClientWaitingReplicas l.master w.client).answer w.client l.lastNumreplicas }
  else
    let numreplicas := replicationCountAcksByOffset l.master w.reploffset
    if w.numreplicas ≤ numreplicas then
      ⟨(unblockClientWaitingReplicas l.master w.client).answer w.client numreplicas, w.reploffset,
        numreplicas⟩
    else l

/-- `processClientsWaitingReplicas`. -/
def processClientsWaitingReplicas (m : Master C S X) : Master C S X :=
  (m.clientsWaitingAcks.foldl processClient ⟨m, 0, 0⟩).master

/-- `beforeSleep`: slaves are asked for an acknowledgement, and clients are unblocked. -/
def beforeSleep (table : Table X) (m : Master C S X) : Master C S X :=
  let m :=
    if m.getAckFromSlaves then
      { replicationFeedSlaves table m m.slaveseldb table.getackBytes with getAckFromSlaves := false }
    else m
  if m.clientsWaitingAcks.length ≠ 0 then processClientsWaitingReplicas m else m

/-- `clientsCronHandleTimeout` for a client that waits for acknowledgements. -/
def clientsCronHandleTimeout (m : Master C S X) (c : C) (now : Int) : Master C S X :=
  match m.clientsWaitingAcks.find? (fun w => decide (w.client = c)) with
  | none => m
  | some w =>
    if w.timeout ≠ 0 ∧ w.timeout < now then
      -- `replyToBlockedClientTimedOut`, then `unblockClient`
      unblockClientWaitingReplicas (m.answer c (replicationCountAcksByOffset m w.reploffset)) c
    else m

/-! ## Slaves -/

/-- A slave joins; the backlog is created for the first one, and the offset is incremented. -/
def attachSlave (m : Master C S X) (s : S) : Master C S X :=
  let m := { m with slaves := m.slaves ++ [⟨s, false, 0⟩], slaveseldb := -1 }
  if m.backlog then m else { m.grow 1 with backlog := true }

/-- The state of a slave changes to or from `SLAVE_STATE_ONLINE`. -/
def setOnline [DecidableEq S] (m : Master C S X) (s : S) (online : Bool) : Master C S X :=
  { m with slaves := m.slaves.map (fun sl => if sl.id = s then { sl with online := online } else sl) }

/-- `REPLCONF ACK`. -/
def replconfAck [DecidableEq S] (m : Master C S X) (s : S) (offset : Int) : Master C S X :=
  { m with
    slaves := m.slaves.map (fun sl =>
      if sl.id = s ∧ sl.replAckOff < offset then { sl with replAckOff := offset } else sl) }

/-! ## Events -/

/-- The client is blocked neither on lists nor in `WAIT`. -/
def accepts (m : Master C S X) (c : C) : Bool :=
  Blocking.accepts m.server c && m.clientsWaitingAcks.all (fun w => decide (w.client ≠ c))

/-- A command inside `EXEC`. -/
inductive Executes (table : Table X) (c : C) (m : Master C S X) : Cmd X → Master C S X → Prop
  | data {cmd : Command X} {t : Blocking.Server C X} {ps : List (Propagated X)}
      (hcall : Call true m.server c cmd t ps) :
      Executes table c m (.data cmd) (propagateFor table c { m with server := t } ps)
  | wait (numreplicas timeout : Int) :
      Executes table c m (.wait numreplicas timeout) (waitCommand true m c numreplicas timeout)

/-- `execCommandPropagateMulti` before the first command that is not read-only. -/
def propagateMulti (table : Table X) (c : C) (must : Bool) (cmd : Cmd X) (m : Master C S X) :
    Master C S X :=
  if !must && !cmd.readonly table then feedFor table c m (m.server.client c).db table.multiBytes else m

/-- The loop of `execCommand`, with `must_propagate` before and after. -/
inductive ExecCalls (table : Table X) (c : C) :
    Bool → Master C S X → List (Cmd X) → Bool → Master C S X → Prop
  | nil (must : Bool) (m : Master C S X) : ExecCalls table c must m [] must m
  | cons {must must' : Bool} {m t u : Master C S X} {cmd : Cmd X} {cmds : List (Cmd X)}
      (head : Executes table c (propagateMulti table c must cmd m) cmd t)
      (rest : ExecCalls table c (must || !cmd.readonly table) t cmds must' u) :
      ExecCalls table c must m (cmd :: cmds) must' u

/-- What happens to the master. -/
inductive Event (C S X : Type)
  | command (c : C) (cmd : Cmd X)
  | exec (c : C) (cmds : List (Cmd X))
  /-- A script, and the bytes it is propagated with, as a whole or command by command. -/
  | script (c : C) (cmds : List (Command X)) (pieces : List Nat)
  | connect (c : C)
  | disconnect (c : C)
  /-- `clientsCronHandleTimeout`. -/
  | cron (c : C) (now : Int)
  /-- A client that is blocked on lists is unblocked. -/
  | unblock (c : C)
  /-- A key expires, and its `DEL` is propagated. -/
  | expire (p : Place) (bytes : Nat)
  /-- `replicationCron`: a `PING` for the slaves. -/
  | ping (bytes : Nat)
  | beforeSleep
  | attach (s : S)
  | online (s : S) (online : Bool)
  | ack (s : S) (offset : Int)
  | detach (s : S)
  /-- The backlog is freed when there have been no slaves for a while. -/
  | freeBacklog

/-- The serving loop after a command. -/
inductive Serves (table : Table X) (m : Master C S X) : Master C S X → Prop
  | intro {turns : Nat} {u : Blocking.Server C X} {es : List (Service C)}
      (hserve : handleClientsBlockedOnLists turns m.server = .ok u)
      (hes : u.served = m.server.served ++ es) :
      Serves table m (propagateServices table m.server { m with server := u } es)

/-- The state in which a command of the client begins, `c->lastcmd` being known. -/
def Master.begin (m : Master C S X) (c : C) (blpop : Bool) : Master C S X :=
  { m with server := m.server.setClient c { m.server.client c with lastBlpop := blpop } }

variable [DecidableEq S]

/-- An event.  A command is called, then `woff` is written, then clients that are blocked on lists
    are served. -/
inductive Step (table : Table X) (m : Master C S X) : Event C S X → Master C S X → Prop
  | data {c : C} {cmd : Command X} {t : Blocking.Server C X} {ps : List (Propagated X)} {u : Master C S X}
      (haccepts : accepts m c = true)
      (hcall : Call false (m.begin c (isBlpop cmd)).server c cmd t ps)
      (hserves : Serves table ((propagateFor table c { m with server := t } ps).writeWoff c) u) :
      Step table m (.command c (.data cmd)) u
  | wait {c : C} {numreplicas timeout : Int} (haccepts : accepts m c = true) :
      Step table m (.command c (.wait numreplicas timeout))
        ((waitCommand false (m.begin c false) c numreplicas timeout).writeWoff c)
  | exec {c : C} {cmds : List (Cmd X)} {must : Bool} {t u : Master C S X}
      (haccepts : accepts m c = true) (hcalls : ExecCalls table c false (m.begin c false) cmds must t)
      (hserves : Serves table
        ((if must then feedFor table c t (t.server.client c).db table.execBytes else t).writeWoff c) u) :
      Step table m (.exec c cmds) u
  | script {c : C} {cmds : List (Command X)} {pieces : List Nat} {t : Blocking.Server C X} {u : Master C S X}
      (haccepts : accepts m c = true) (hcalls : callExec m.server c cmds = .ok t)
      (hserves : Serves table
        ((pieces.foldl (fun m n => feedFor table c m (m.server.client c).db n)
          { m with server := t }).writeWoff c) u) :
      Step table m (.script c cmds pieces) u
  | refused {c : C} {e : Event C S X} (hrefused : accepts m c = false)
      (he : (∃ cmd, e = .command c cmd) ∨ (∃ cmds, e = .exec c cmds) ∨ ∃ cmds ps, e = .script c cmds ps) :
      Step table m e m
  | connect {c : C} {t : Blocking.Server C X} (hnew : c ∉ m.server.clients)
      (hstep : Blocking.Step m.server (.connect c) t) :
      Step table m (.connect c)
        { m with
          server := t
          woff := Function.update m.woff c 0
          ends := Function.update m.ends c []
          late := Function.update m.late c false }
  | disconnect {c : C} {t : Blocking.Server C X} (hstep : Blocking.Step m.server (.disconnect c) t) :
      Step table m (.disconnect c) (unblockClientWaitingReplicas { m with server := t } c)
  | cron {c : C} {now : Int} {t : Blocking.Server C X} (hstep : Blocking.Step m.server (.cron c now) t) :
      Step table m (.cron c now) (clientsCronHandleTimeout { m with server := t } c now)
  | unblock {c : C} {t : Blocking.Server C X} (hstep : Blocking.Step m.server (.unblock c) t) :
      Step table m (.unblock c) { m with server := t }
  | expire {p : Place} {n : Nat} {t : Blocking.Server C X} (hstep : Blocking.Step m.server (.expire p) t) :
      Step table m (.expire p n) (replicationFeedSlaves table { m with server := t } p.1 n)
  | ping (n : Nat) : Step table m (.ping n) (replicationFeedSlaves table m m.slaveseldb n)
  | beforeSleep : Step table m .beforeSleep (beforeSleep table m)
  | attach {s : S} (hnew : ∀ sl ∈ m.slaves, sl.id ≠ s) : Step table m (.attach s) (attachSlave m s)
  | online (s : S) (online : Bool) : Step table m (.online s online) (setOnline m s online)
  | ack (s : S) (offset : Int) : Step table m (.ack s offset) (replconfAck m s offset)
  | detach (s : S) : Step table m (.detach s) { m with slaves := m.slaves.filter (fun sl => decide (sl.id ≠ s)) }
  | freeBacklog (hslaves : m.slaves = []) : Step table m .freeBacklog { m with backlog := false }

/-- A run whose events all satisfy a condition in the state they find. -/
inductive Steps (table : Table X) (P : Master C S X → Event C S X → Prop) :
    Master C S X → List (Event C S X) → Master C S X → Prop
  | nil (m : Master C S X) : Steps table P m [] m
  | cons {m t u : Master C S X} {e : Event C S X} {es : List (Event C S X)} (cond : P m e)
      (step : Step table m e t) (rest : Steps table P t es u) : Steps table P m (e :: es) u

/-- A master that has just started. -/
structure Start (m : Master C S X) : Prop where
  server : Blocking.Start m.server
  slaves : m.slaves = []
  clientsWaitingAcks : m.clientsWaitingAcks = []
  woff : ∀ c, m.woff c = 0
  ends : ∀ c, m.ends c = []
  answers : m.answers = []

end Redis.Wait
