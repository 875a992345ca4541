import Redis.Sentinel.Basic

namespace Redis.Sentinel

/-!
# Sentinel — votes and elections

How a Sentinel votes, asks for votes, and finds out who won.

* `sentinelVoteLeader` — a vote, or the last one given;
* `sentinelLeaderIncr`, `sentinelGetLeader` — the votes heard of, counted;
* `sentinelReceiveIsMasterDownReply`, `sentinelAskMasterStateToOtherSentinels`;
* `isMasterDownByAddr` — the command on the other side;
* `sentinelStartFailover`, `sentinelStartFailoverIfNeeded`.
-/

variable {M : Type} [DecidableEq M]

/-- A larger epoch is adopted and written (`sentinelVoteLeader`, `sentinelProcessHelloMessage`). -/
def raiseEpoch (s : SentinelState M) (epoch : Nat) : SentinelState M :=
  if s.currentEpoch < epoch then
    SentinelState.sentinelFlushConfig { s with currentEpoch := epoch }
  else s

/-- The vote itself: it is written before it is published. -/
def giveVote (env : Env) (s : SentinelState M) (m : M) (runid : Bytes) : SentinelState M :=
  let master := { s.masters m with leader := some runid, leaderEpoch := s.currentEpoch }
  let s := (s.set m master).sentinelFlushConfig.emit (.voteForLeader m runid s.currentEpoch)
  -- a vote for another Sentinel delays our own attempts
  if strcaseeq runid s.myid then s
  else s.set m { master with failoverStartTime := env.now + env.rand }

/-- `sentinelVoteLeader`: the new state, with the leader and the epoch of the vote. -/
def sentinelVoteLeader (env : Env) (s : SentinelState M) (m : M) (reqEpoch : Nat)
    (reqRunid : Bytes) : SentinelState M × Option Bytes × Nat :=
  let s := raiseEpoch s reqEpoch
  let s :=
    if (s.masters m).leaderEpoch < reqEpoch ∧ s.currentEpoch ≤ reqEpoch
    then giveVote env s m reqRunid else s
  (s, (s.masters m).leader, (s.masters m).leaderEpoch)

/-! ## Counting -/

/-- `sentinelLeaderIncr`: the counters, and the new number of votes. -/
def sentinelLeaderIncr (counters : List (Bytes × Nat)) (runid : Bytes) :
    List (Bytes × Nat) × Nat :=
  match counters.lookup runid with
  | some oldval =>
    (counters.map (fun p => if p.1 = runid then (runid, oldval + 1) else p), oldval + 1)
  | none => ((runid, 1) :: counters, 1)

/-- The votes of the other Sentinels, those of the current epoch only. -/
def countVotes (currentEpoch : Nat) (sentinels : List Peer) : List (Bytes × Nat) :=
  sentinels.foldl (fun counters ri =>
    match ri.leader with
    | some l => if ri.leaderEpoch = currentEpoch then (sentinelLeaderIncr counters l).1 else counters
    | none => counters) []

/-- The first entry with the largest number of votes, and this number. -/
def mostVoted (counters : List (Bytes × Nat)) : Nat × Option Bytes :=
  counters.foldl (fun best p => if best.1 < p.2 then (p.2, some p.1) else best) (0, none)

/-- The best so far, with our own vote counted if it is one of the epoch. -/
def addOwnVote (counters : List (Bytes × Nat)) (epoch : Nat) (best : Nat × Option Bytes)
    (vote : Option Bytes × Nat) : Nat × Option Bytes :=
  match vote.1 with
  | some myvote =>
    if vote.2 = epoch ∧ best.1 < (sentinelLeaderIncr counters myvote).2
    then ((sentinelLeaderIncr counters myvote).2, some myvote) else best
  | none => best

/-- `sentinelGetLeader`. -/
def sentinelGetLeader (env : Env) (s : SentinelState M) (m : M) (epoch : Nat) :
    Except Fault (SentinelState M × Option Bytes) :=
  let master := s.masters m
  if !(master.oDown || master.failoverInProgress) then throw .assertion
  else
    let voters := master.sentinels.length + 1
    let counters := countVotes s.currentEpoch master.sentinels
    let best := mostVoted (env.order counters)
    -- our own vote goes to the winner so far, or to ourselves
    let vote := sentinelVoteLeader env s m epoch (best.2.getD s.myid)
    let best := addOwnVote counters epoch best vote.2
    pure (vote.1, if best.1 < voters / 2 + 1 || best.1 < master.quorum then none else best.2)

/-! ## Asking -/

/-- A reply to `SENTINEL is-master-down-by-addr`; no leader is `*`. -/
structure DownReply where
  isdown : Bool
  leader : Option Bytes
  epoch : Int

/-- `(uint64_t)` of a `long long`. -/
def toUint64 (n : Int) : Nat := (n % 18446744073709551616).toNat

/-- `(long long)` of a `uint64_t`. -/
def toLongLong (n : Nat) : Int := Int.bmod n 18446744073709551616

/-- `sentinelReceiveIsMasterDownReply`. -/
def sentinelReceiveIsMasterDownReply (now : Int) (r : DownReply) (ri : Peer) : Peer :=
  let ri := { ri with lastMasterDownReplyTime := now, masterDown := r.isdown }
  match r.leader with
  | some l => { ri with leader := some l, leaderEpoch := toUint64 r.epoch }
  | none => ri

/-- A Sentinel that has not answered for long loses what it said. -/
def forgetOldReply (now : Int) (ri : Peer) : Peer :=
  if now - ri.lastMasterDownReplyTime > sentinelAskPeriod * 5
  then { ri with masterDown := false, leader := none } else ri

/-- Whether `sentinelAskMasterStateToOtherSentinels` asks this Sentinel. -/
def shouldAsk (now : Int) (forced : Bool) (master : Master) (ri : Peer) : Bool :=
  master.sDown && !ri.link.disconnected &&
    (forced || !(now - ri.lastMasterDownReplyTime < sentinelAskPeriod))

/-- `sentinelAskMasterStateToOtherSentinels`. -/
def sentinelAskMasterStateToOtherSentinels (env : Env) (forced : Bool) (s : SentinelState M)
    (m : M) : SentinelState M :=
  let master := s.masters m
  let runid := if FailoverState.none.code < master.failoverState.code then some s.myid else none
  let asked := master.sentinels.filter (fun ri => shouldAsk env.now forced master (forgetOldReply env.now ri))
  let s := s.set m { master with sentinels := master.sentinels.map (forgetOldReply env.now) }
  { s with
    trace := s.trace ++ asked.map (fun ri => .ask m ri.runid master.addr s.currentEpoch runid) }

/-- A request as it arrives; no run id is `*`. -/
structure DownRequest where
  addr : Addr
  epoch : Int
  runid : Option Bytes

/-- The epoch of a request is a `long long`. -/
def DownRequest.Fits (req : DownRequest) : Prop :=
  -9223372036854775808 ≤ req.epoch ∧ req.epoch < 9223372036854775808

/-- `SENTINEL is-master-down-by-addr`, once the master with the address has been looked up. -/
def isMasterDownByAddr (env : Env) (s : SentinelState M) (ri : Option M) (req : DownRequest) :
    SentinelState M × DownReply :=
  match ri with
  | none => (s, { isdown := false, leader := none, epoch := 0 })
  | some m =>
    let isdown := !s.tilt && (s.masters m).sDown
    match req.runid with
    | none => (s, { isdown := isdown, leader := none, epoch := 0 })
    | some runid =>
      let vote := sentinelVoteLeader env s m (toUint64 req.epoch) runid
      (vote.1.emit (.voteReply m vote.2.1 vote.2.2),
        { isdown := isdown, leader := vote.2.1, epoch := toLongLong vote.2.2 })

/-! ## Starting a failover -/

/-- `++sentinel.current_epoch`. -/
def nextEpoch (epoch : Nat) : Nat := (epoch + 1) % 18446744073709551616

/-- `sentinelStartFailover`. -/
def sentinelStartFailover (env : Env) (s : SentinelState M) (m : M) : SentinelState M :=
  let epoch := nextEpoch s.currentEpoch
  { s with currentEpoch := epoch }.set m { s.masters m with
    failoverState := .waitStart
    failoverInProgress := true
    failoverEpoch := epoch
    failoverStartTime := env.now + env.rand
    failoverStateChangeTime := env.now }

/-- The condition of `sentinelStartFailoverIfNeeded`. -/
def failoverNeeded (now : Int) (master : Master) : Bool :=
  master.oDown && !master.failoverInProgress &&
    !(now - master.failoverStartTime < master.failoverTimeout * 2)

/-- `sentinelStartFailoverIfNeeded`, with the questions that follow it. -/
def sentinelStartFailoverIfNeeded (env : Env) (s : SentinelState M) (m : M) : SentinelState M :=
  if failoverNeeded env.now (s.masters m) then
    sentinelAskMasterStateToOtherSentinels env true (sentinelStartFailover env s m) m
  else s

end Redis.Sentinel
