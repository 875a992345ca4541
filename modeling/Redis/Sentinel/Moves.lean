import Redis.Sentinel.Machine
import Redis.Sentinel.Tally

namespace Redis.Sentinel

/-!
# Sentinel — what one action can do

Every action of a Sentinel is a sequence of small moves, each with at most one visible effect.
What is proved about votes, elections and configurations is proved move by move.

* `Quiet` — a change of a master that touches none of the three;
* `Move` — the moves;
* `step_moves` — every action is a sequence of moves.
-/

open Outcome

variable {M : Type}

/-! ## Quiet changes -/

/-- No vote is heard that was not heard before. -/
def NothingHeard (l l' : List Peer) : Prop :=
  ∀ q ∈ l', ∀ leader, q.leader = some leader →
    ∃ p ∈ l, p.runid = q.runid ∧ p.leader = some leader ∧ p.leaderEpoch = q.leaderEpoch

/-- What the code knows of a Sentinel besides its votes. -/
def Peer.ident (p : Peer) : Bytes × Addr := (p.runid, p.addr)

/-- A change of a master that leaves its configuration alone: a failover may end, but not
    after the promotion, and none begins. -/
structure ConfigQuiet (r r' : Master) : Prop where
  configEpoch : r'.configEpoch = r.configEpoch
  addr : r'.addr = r.addr
  begun : 1 ≤ r'.failoverState.code → 1 ≤ r.failoverState.code
  late : 5 ≤ r'.failoverState.code ↔ 5 ≤ r.failoverState.code
  running : 1 ≤ r'.failoverState.code → r'.failoverInProgress = r.failoverInProgress
  led : 2 ≤ r'.failoverState.code → 2 ≤ r.failoverState.code
  current : sentinelGetCurrentMasterAddress r' = sentinelGetCurrentMasterAddress r

/-- The slaves have different names, and the promoted slave is one of them. -/
structure Master.Tidy (r : Master) : Prop where
  names : (r.slaves.map (·.name)).Nodup
  listed : ∀ name, r.promotedSlave = some name → name ∈ r.slaves.map (·.name)

/-- An address that `anetResolve` has returned: it resolves to itself at any time. -/
def Resolved (R : Resolver) (addr : Addr) : Prop :=
  ∀ now, createSentinelAddr R now addr.ip addr.port = some addr

/-- The slaves are at such addresses. -/
def Master.Located (R : Resolver) (r : Master) : Prop := ∀ slave ∈ r.slaves, Resolved R slave.addr

/-- What an action is expected to keep: the membership, the votes heard, `SRI_FORCE_FAILOVER`,
    the configuration, an epoch that does not wrap; and what may be voted for, adopted, won
    and replied. -/
structure Scope (M : Type) where
  resolver : Resolver
  members : Prop
  heard : Prop
  unforced : Prop
  noReset : Prop
  noWrap : Prop
  candidate : Bytes → Prop
  hello : SentinelState M → Hello M → Prop
  elected : SentinelState M → M → Prop
  reply : M → Nat → Prop

/-- A change of a master that is not about votes, elections and configurations. -/
structure Quiet (sc : Scope M) (r r' : Master) : Prop where
  leaderEpoch : r'.leaderEpoch = r.leaderEpoch
  leader : r'.leader = r.leader ∨ r'.leader = none
  failoverEpoch : r'.failoverEpoch = r.failoverEpoch
  tidy : r.Tidy → r'.Tidy
  located : r.Tidy → r.Located sc.resolver → r'.Located sc.resolver
  force : sc.unforced → r'.forceFailover = true → r.forceFailover = true
  heard : sc.heard → NothingHeard r.sentinels r'.sentinels
  members : sc.members → r'.sentinels.map Peer.ident = r.sentinels.map Peer.ident
  config : sc.noReset → r.Tidy → ConfigQuiet r r'

theorem NothingHeard.refl (l : List Peer) : NothingHeard l l :=
  fun q hq _ h => ⟨q, hq, rfl, h, rfl⟩

/-- Sentinels changed one by one, each losing a vote at most. -/
theorem NothingHeard.map {l : List Peer} {f : Peer → Peer}
    (hf : ∀ p, (f p).runid = p.runid ∧
      (∀ leader, (f p).leader = some leader → p.leader = some leader ∧ p.leaderEpoch = (f p).leaderEpoch)) :
    NothingHeard l (l.map f) := by
  intro q hq leader hleader
  obtain ⟨p, hp, rfl⟩ := List.mem_map.mp hq
  exact ⟨p, hp, (hf p).1.symm, (hf p).2 leader hleader⟩

theorem ConfigQuiet.refl (r : Master) : ConfigQuiet r r :=
  ⟨rfl, rfl, id, Iff.rfl, fun _ => rfl, id, rfl⟩

theorem Quiet.refl (sc : Scope M) (r : Master) : Quiet sc r r :=
  ⟨rfl, .inl rfl, rfl, id, fun _ => id, fun _ => id, fun _ => NothingHeard.refl _, fun _ => rfl,
    fun _ _ => ConfigQuiet.refl r⟩

/-- The name and the address of a slave. -/
def Slave.place (slave : Slave) : Bytes × Addr := (slave.name, slave.addr)

/-- Slaves that stay where they are keep their names. -/
theorem names_of_place {l l' : List Slave} (h : l'.map Slave.place = l.map Slave.place) :
    l'.map (·.name) = l.map (·.name) := by
  have := congrArg (List.map Prod.fst) h
  rwa [List.map_map, List.map_map] at this

variable {r r' : Master}

theorem Master.Tidy.of_place (h : r.Tidy) (hp : r'.promotedSlave = r.promotedSlave ∨ r'.promotedSlave = none)
    (hs : r'.slaves.map Slave.place = r.slaves.map Slave.place) : r'.Tidy := by
  constructor
  · rw [names_of_place hs]
    exact h.names
  · intro name hname
    rw [names_of_place hs]
    rcases hp with hp | hp
    · exact h.listed name (hp ▸ hname)
    · rw [hp] at hname
      cases hname

theorem Master.Located.of_place {R : Resolver} (h : r.Located R)
    (hs : r'.slaves.map Slave.place = r.slaves.map Slave.place) : r'.Located R := by
  intro slave hslave
  have hmem : slave.place ∈ r.slaves.map Slave.place := hs ▸ List.mem_map_of_mem hslave
  obtain ⟨old, hold, hplace⟩ := List.mem_map.mp hmem
  have haddr : slave.addr = old.addr := congrArg Prod.snd hplace.symm
  rw [haddr]
  exact h old hold

/-- Where the promoted slave is depends on names and addresses only. -/
theorem promoted_addr_congr (hp : r'.promotedSlave = r.promotedSlave)
    (hs : r'.slaves.map Slave.place = r.slaves.map Slave.place) :
    r'.promoted.map (·.addr) = r.promoted.map (·.addr) := by
  have hfind : ∀ (l l' : List Slave) (name : Bytes), l'.map Slave.place = l.map Slave.place →
      (l'.find? (·.name = name)).map (·.addr) = (l.find? (·.name = name)).map (·.addr) := by
    intro l
    induction l with
    | nil =>
      intro l' name h
      rw [List.map_eq_nil_iff.mp h]
    | cons a l ih =>
      intro l' name h
      cases l' with
      | nil => cases h
      | cons b l' =>
        rw [List.map_cons, List.map_cons, List.cons.injEq] at h
        obtain ⟨hname, haddr⟩ := Prod.mk.inj h.1
        by_cases hn : a.name = name
        · have hn' : b.name = name := hname.trans hn
          rw [List.find?_cons_of_pos (by simpa using hn'),
            List.find?_cons_of_pos (by simpa using hn)]
          exact congrArg some haddr
        · have hn' : ¬ b.name = name := fun hb => hn (hname.symm.trans hb)
          rw [List.find?_cons_of_neg (by simpa using hn'),
            List.find?_cons_of_neg (by simpa using hn)]
          exact ih l' name h.2
  unfold Master.promoted
  rw [hp]
  cases r.promotedSlave with
  | none => rfl
  | some name => exact hfind r.slaves r'.slaves name hs

/-- The address a master is known under, from where its promoted slave is. -/
theorem currentAddress_eq (r : Master) :
    sentinelGetCurrentMasterAddress r =
      if r.failoverInProgress = true ∧ 5 ≤ r.failoverState.code
      then (r.promoted.map (·.addr)).getD r.addr else r.addr := by
  have hcode : FailoverState.reconfSlaves.code = 5 := rfl
  unfold sentinelGetCurrentMasterAddress
  rw [hcode]
  cases r.promoted with
  | none | some slave => simp

/-- Before the promotion a master is known under its own address. -/
theorem currentAddress_early (h : ¬ 5 ≤ r.failoverState.code) :
    sentinelGetCurrentMasterAddress r = r.addr := by
  rw [currentAddress_eq, if_neg (fun hc => h hc.2)]

/-- A change that touches no name, no address, no vote and no failover. -/
theorem quiet_of_same (sc : Scope M) (hle : r'.leaderEpoch = r.leaderEpoch) (hl : r'.leader = r.leader)
    (hforce : r'.forceFailover = r.forceFailover) (hheard : sc.heard → NothingHeard r.sentinels r'.sentinels)
    (hmembers : sc.members → r'.sentinels.map Peer.ident = r.sentinels.map Peer.ident)
    (hconf : r'.configEpoch = r.configEpoch) (haddr : r'.addr = r.addr)
    (hfe : r'.failoverEpoch = r.failoverEpoch) (hfs : r'.failoverState = r.failoverState)
    (hfp : r'.failoverInProgress = r.failoverInProgress) (hps : r'.promotedSlave = r.promotedSlave)
    (hslaves : r'.slaves.map Slave.place = r.slaves.map Slave.place) : Quiet sc r r' where
  leaderEpoch := hle
  leader := .inl hl
  failoverEpoch := hfe
  tidy := fun h => h.of_place (.inl hps) hslaves
  located := fun _ h => h.of_place hslaves
  force := fun _ h => by rwa [hforce] at h
  heard := hheard
  members := hmembers
  config := fun _ _ =>
    { configEpoch := hconf
      addr := haddr
      begun := by rw [hfs]; exact id
      late := by rw [hfs]
      running := fun _ => hfp
      led := by rw [hfs]; exact id
      current := by
        rw [currentAddress_eq, currentAddress_eq, hfp, hfs, haddr, promoted_addr_congr hps hslaves] }

/-- A change of `failover_start_time` is quiet. -/
theorem quiet_startTime (sc : Scope M) (r : Master) (t : Int) : Quiet sc r { r with failoverStartTime := t } :=
  quiet_of_same sc rfl rfl rfl (fun _ => NothingHeard.refl _) (fun _ => rfl)
    rfl rfl rfl rfl rfl rfl rfl

/-! ## The moves -/

variable [DecidableEq M]

/-- The first half of a vote: it is on disk, and nobody has seen it. -/
def writeVote (s : SentinelState M) (m : M) (runid : Bytes) : SentinelState M :=
  (s.set m { s.masters m with leader := some runid, leaderEpoch := s.currentEpoch }).sentinelFlushConfig

/-- What a Sentinel does at once. -/
inductive Move (sc : Scope M) : SentinelState M → SentinelState M → Prop
  /-- Nothing visible, nothing about votes, elections, configurations. -/
  | quiet {s t : SentinelState M} (hid : t.myid = s.myid) (hepoch : t.currentEpoch = s.currentEpoch)
      (htrace : t.trace = s.trace) (hm : ∀ m, Quiet sc (s.masters m) (t.masters m)) : Move sc s t
  | flush {s : SentinelState M} : Move sc s s.sentinelFlushConfig
  | raise {s : SentinelState M} {epoch : Nat} (h : s.currentEpoch < epoch)
      (hb : epoch < 18446744073709551616 ∨ ∃ m, (s.masters m).failoverEpoch = epoch) :
      Move sc s { s with currentEpoch := epoch }
  | start {s : SentinelState M} {env : Env} {m : M}
      (hidle : (s.masters m).failoverInProgress = false)
      (hwrap : sc.noWrap → s.currentEpoch < 18446744073709551615) :
      Move sc s (sentinelStartFailover env s m)
  /-- A vote, written and published. -/
  | vote {s : SentinelState M} {m : M} {runid : Bytes}
      (hlt : (s.masters m).leaderEpoch < s.currentEpoch) (hc : sc.candidate runid) :
      Move sc s ((writeVote s m runid).emit (.voteForLeader m runid s.currentEpoch))
  | reply {s : SentinelState M} {m : M} (hr : sc.reply m (s.masters m).leaderEpoch) :
      Move sc s (s.emit (.voteReply m (s.masters m).leader (s.masters m).leaderEpoch))
  | elected {s : SentinelState M} {m : M} {now : Int}
      (hstate : (s.masters m).failoverState = .waitStart)
      (h : sc.unforced → (s.masters m).forceFailover = false → sc.elected s m) :
      Move sc s ((s.emit (.electedLeader m (s.masters m).failoverEpoch)).set m
        { s.masters m with failoverState := .selectSlave, failoverStateChangeTime := now })
  /-- The promoted slave acknowledges. -/
  | promote {s : SentinelState M} {m : M} {now : Int}
      (hrunning : (s.masters m).failoverInProgress = true)
      (hstate : (s.masters m).failoverState = .waitPromotion) :
      Move sc s (s.set m { s.masters m with
        configEpoch := (s.masters m).failoverEpoch
        failoverState := .reconfSlaves
        failoverStateChangeTime := now })
  /-- The failover ends: the promoted slave takes the place of the master. -/
  | switch {s : SentinelState M} {m : M} {R : Resolver} {now : Int} {addr : Addr}
      (hR : sc.resolver = R) (hstate : (s.masters m).failoverState = .updateConfig)
      (haddr : createSentinelAddr R now (((s.masters m).promoted.map (·.addr)).getD (s.masters m).addr).ip
        (((s.masters m).promoted.map (·.addr)).getD (s.masters m).addr).port = some addr) :
      Move sc s (s.set m (switchAddress R now (s.masters m) addr))
  /-- A newer configuration that keeps the address, or names one that does not resolve. -/
  | adopt {s : SentinelState M} {h : Hello M} {R : Resolver} {now : Int} (hR : sc.resolver = R)
      (hh : sc.hello s h)
      (hlt : (s.masters h.master).configEpoch < h.masterConfigEpoch)
      (haddr : h.masterAddr = (s.masters h.master).addr ∨
        createSentinelAddr R now h.masterAddr.ip h.masterAddr.port = none) :
      Move sc s (s.set h.master { s.masters h.master with configEpoch := h.masterConfigEpoch })
  /-- A newer configuration with another address. -/
  | adoptSwitch {s : SentinelState M} {h : Hello M} {R : Resolver} {now : Int} {addr : Addr}
      (hR : sc.resolver = R) (hh : sc.hello s h)
      (hlt : (s.masters h.master).configEpoch < h.masterConfigEpoch)
      (hne : h.masterAddr ≠ (s.masters h.master).addr)
      (haddr : createSentinelAddr R now h.masterAddr.ip h.masterAddr.port = some addr) :
      Move sc s (s.set h.master (switchAddress R now
        { s.masters h.master with configEpoch := h.masterConfigEpoch } addr))
  | slaveOf {s : SentinelState M} {m : M} {name : Bytes} {promoted : Bool} {target : Option Addr} :
      Move sc s (s.emit (.slaveOf m name promoted target))
  | ask {s : SentinelState M} {m : M} {sentinel : Bytes} {runid : Option Bytes}
      (h : runid = none ∨ runid = some s.myid) :
      Move sc s (s.emit (.ask m sentinel (s.masters m).addr s.currentEpoch runid))

/-- Moves one after the other. -/
def Moves (sc : Scope M) : SentinelState M → SentinelState M → Prop := Relation.ReflTransGen (Move sc)

namespace Moves

variable {sc : Scope M} {s t u : SentinelState M}

theorem refl : Moves sc s s := Relation.ReflTransGen.refl

theorem trans (h : Moves sc s t) (h' : Moves sc t u) : Moves sc s u := Relation.ReflTransGen.trans h h'

theorem move (h : Moves sc s t) (h' : Move sc t u) : Moves sc s u := Relation.ReflTransGen.tail h h'

theorem single (h : Move sc s t) : Moves sc s t := Relation.ReflTransGen.single h

/-- What every move keeps. -/
theorem invariant (h : Moves sc s t) (I : SentinelState M → Prop) (h0 : I s)
    (hmove : ∀ u v, Move sc u v → I u → I v) : I t := by
  induction h with
  | refl => exact h0
  | tail _ hst ih => exact hmove _ _ hst ih

end Moves

/-- A quiet change of one master. -/
theorem Move.set {sc : Scope M} {s : SentinelState M} {m : M} (h : Quiet sc (s.masters m) r) :
    Move sc s (s.set m r) := by
  refine Move.quiet rfl rfl rfl (fun k => ?_)
  unfold SentinelState.set
  by_cases hk : k = m
  · subst hk
    simpa using h
  · simpa [hk] using Quiet.refl sc (s.masters k)

/-! ## Votes -/

section Votes

variable {sc : Scope M} (env : Env) (s : SentinelState M) (m : M)

theorem raiseEpoch_moves {epoch : Nat}
    (hb : epoch < 18446744073709551616 ∨ ∃ m, (s.masters m).failoverEpoch = epoch) :
    Moves sc s (raiseEpoch s epoch) := by
  unfold raiseEpoch
  by_cases h : s.currentEpoch < epoch
  · rw [if_pos h]
    exact (Moves.single (Move.raise h hb)).move Move.flush
  · rw [if_neg h]
    exact Moves.refl

theorem giveVote_moves {runid : Bytes} (hlt : (s.masters m).leaderEpoch < s.currentEpoch)
    (hc : sc.candidate runid) : Moves sc s (giveVote env s m runid) := by
  have hpublished := Moves.single (Move.vote hlt hc)
  unfold giveVote
  dsimp only
  split
  · exact hpublished
  · refine hpublished.move (Move.set ?_)
    simpa [writeVote, SentinelState.sentinelFlushConfig, SentinelState.emit] using
      quiet_startTime sc _ (env.now + env.rand)

theorem voteLeader_moves {epoch : Nat} {runid : Bytes} (hc : sc.candidate runid)
    (hb : epoch < 18446744073709551616 ∨ ∃ m, (s.masters m).failoverEpoch = epoch) :
    Moves sc s (sentinelVoteLeader env s m epoch runid).1 := by
  have hraise : Moves sc s (raiseEpoch s epoch) := raiseEpoch_moves s hb
  unfold sentinelVoteLeader
  dsimp only
  split
  · rename_i hcond
    refine hraise.trans (giveVote_moves env _ m ?_ hc)
    -- the epoch asked for is the current one by now
    have hge : epoch ≤ (raiseEpoch s epoch).currentEpoch := by
      unfold raiseEpoch
      by_cases h : s.currentEpoch < epoch
      · rw [if_pos h]
        exact le_refl _
      · rw [if_neg h]
        omega
    omega
  · exact hraise

/-- The vote a Sentinel answers with is the last one given, or one of the epoch asked for. -/
theorem voteLeader_epoch (epoch : Nat) (runid : Bytes) :
    ((sentinelVoteLeader env s m epoch runid).1.masters m).leaderEpoch = (s.masters m).leaderEpoch ∨
      ((sentinelVoteLeader env s m epoch runid).1.masters m).leaderEpoch = epoch := by
  have hmasters : (raiseEpoch s epoch).masters = s.masters := by
    unfold raiseEpoch
    split <;> rfl
  unfold sentinelVoteLeader
  dsimp only
  split
  · rename_i hcond
    -- a vote is given in the current epoch, which is the one asked for
    have hcur : (raiseEpoch s epoch).currentEpoch = epoch := by
      unfold raiseEpoch at hcond ⊢
      by_cases h : s.currentEpoch < epoch
      · rw [if_pos h]
        rfl
      · rw [if_neg h] at hcond ⊢
        omega
    refine .inr ?_
    unfold giveVote
    dsimp only
    split <;> simp [SentinelState.emit, SentinelState.sentinelFlushConfig, hcur]
  · rw [hmasters]
    exact .inl rfl

theorem forgetOldReply_quiet (now : Int) (l : List Peer) :
    NothingHeard l (l.map (forgetOldReply now)) ∧
      (l.map (forgetOldReply now)).map Peer.ident = l.map Peer.ident := by
  constructor
  · refine NothingHeard.map (fun p => ?_)
    unfold forgetOldReply
    split
    · exact ⟨rfl, fun leader h => by cases h⟩
    · exact ⟨rfl, fun leader h => ⟨h, rfl⟩⟩
  · rw [List.map_map]
    apply List.map_congr_left
    intro p _
    unfold Function.comp forgetOldReply
    split <;> rfl

/-- Questions are sent one by one. -/
theorem asks_moves {runid : Option Bytes} (hr : runid = none ∨ runid = some s.myid)
    (asked : List Peer) : Moves sc s { s with
      trace := s.trace ++ asked.map (fun ri => .ask m ri.runid (s.masters m).addr s.currentEpoch runid) } := by
  induction asked generalizing s with
  | nil =>
    simp only [List.map_nil, List.append_nil]
    exact Moves.refl
  | cons ri asked ih =>
    have hone : Move sc s (s.emit (.ask m ri.runid (s.masters m).addr s.currentEpoch runid)) := Move.ask hr
    refine (Moves.single hone).trans ?_
    have := ih (s.emit (.ask m ri.runid (s.masters m).addr s.currentEpoch runid)) hr
    simpa [SentinelState.emit] using this

theorem ask_moves (forced : Bool) : Moves sc s (sentinelAskMasterStateToOtherSentinels env forced s m) := by
  have hforget := forgetOldReply_quiet env.now (s.masters m).sentinels
  unfold sentinelAskMasterStateToOtherSentinels
  dsimp only
  refine (Moves.single (Move.set (r := { s.masters m with
    sentinels := (s.masters m).sentinels.map (forgetOldReply env.now) })
    (quiet_of_same sc rfl rfl rfl (fun _ => hforget.1) (fun _ => hforget.2)
      rfl rfl rfl rfl rfl rfl rfl))).trans ?_
  have hrunid : (if FailoverState.none.code < (s.masters m).failoverState.code then some s.myid else none) =
      none ∨ (if FailoverState.none.code < (s.masters m).failoverState.code then some s.myid else none) =
        some (s.set m { s.masters m with
          sentinels := (s.masters m).sentinels.map (forgetOldReply env.now) }).myid := by
    split
    · exact .inr rfl
    · exact .inl rfl
  have := @asks_moves _ _ sc (s.set m { s.masters m with
    sentinels := (s.masters m).sentinels.map (forgetOldReply env.now) }) m _ hrunid
    ((s.masters m).sentinels.filter (fun ri => shouldAsk env.now forced (s.masters m)
      (forgetOldReply env.now ri)))
  simpa [SentinelState.set] using this

theorem startFailoverIfNeeded_moves
    (hwrap : sc.noWrap → failoverNeeded env.now (s.masters m) = true →
      s.currentEpoch < 18446744073709551615) :
    Moves sc s (sentinelStartFailoverIfNeeded env s m) := by
  unfold sentinelStartFailoverIfNeeded
  by_cases hn : failoverNeeded env.now (s.masters m) = true
  · rw [if_pos hn]
    have hb : (s.masters m).failoverInProgress = false := by
      unfold failoverNeeded at hn
      simp only [Bool.and_eq_true, Bool.not_eq_true'] at hn
      exact hn.1.2
    exact (Moves.single (Move.start hb (fun hw => hwrap hw hn))).trans (ask_moves env _ m true)
  · rw [if_neg hn]
    exact Moves.refl

end Votes

/-! ## The states -/

section States

variable {sc : Scope M} (env : Env) (s : SentinelState M) (m : M)

/-- What a vote changes of a master. -/
theorem voteLeader_frame (epoch : Nat) (runid : Bytes) :
    (sentinelVoteLeader env s m epoch runid).1.myid = s.myid ∧
      ∃ l le t, (sentinelVoteLeader env s m epoch runid).1.masters m =
        { s.masters m with leader := l, leaderEpoch := le, failoverStartTime := t } := by
  have hraise : (raiseEpoch s epoch).masters = s.masters ∧ (raiseEpoch s epoch).myid = s.myid := by
    unfold raiseEpoch
    split <;> exact ⟨rfl, rfl⟩
  unfold sentinelVoteLeader
  dsimp only
  split
  · unfold giveVote
    dsimp only
    split
    · simp only [SentinelState.emit, SentinelState.sentinelFlushConfig, set_masters_self, hraise.1]
      exact ⟨hraise.2, _, _, _, rfl⟩
    · simp only [SentinelState.emit, SentinelState.sentinelFlushConfig, set_masters_self, hraise.1]
      exact ⟨hraise.2, _, _, _, rfl⟩
  · rw [hraise.1, hraise.2]
    exact ⟨rfl, _, _, _, rfl⟩

theorem clearPromoted_place (r : Master) : (clearPromoted r).map Slave.place = r.slaves.map Slave.place := by
  unfold clearPromoted
  split
  · exact updateSlave_map _ _ _ (fun _ _ _ => rfl)
  · rfl

omit [DecidableEq M] in
/-- A failover given up is quiet. -/
theorem abort_quiet {now : Int} (h : sentinelAbortFailover now r = .ok r') :
    Quiet sc r r' := by
  unfold sentinelAbortFailover at h
  split at h
  · cases h
  · split at h
    · cases h
    · rename_i hcode
      have h4 : FailoverState.waitPromotion.code = 4 := rfl
      have h0 : FailoverState.none.code = 0 := rfl
      cases h
      refine ⟨rfl, .inl rfl, rfl, fun h => h.of_place (.inr rfl) (clearPromoted_place r),
        fun _ h => h.of_place (clearPromoted_place r), fun _ h => (by cases h), fun _ => NothingHeard.refl _, fun _ => rfl, ?_⟩
      intro _ _
      refine ⟨rfl, rfl, ?_, ?_, ?_, ?_, ?_⟩
      · dsimp only
        omega
      · dsimp only
        omega
      · dsimp only
        omega
      · dsimp only
        omega
      · exact (currentAddress_early (show ¬ 5 ≤ FailoverState.none.code by decide)).trans
          (currentAddress_early (r := r) (by omega)).symm

variable {t : SentinelState M}

theorem abortFailover_moves (h : abortFailover env s m = .ok t) :
    Moves sc s t := by
  unfold abortFailover at h
  obtain ⟨r, hr, ht⟩ := bind_eq_ok.mp h
  cases ht
  exact Moves.single (Move.set (abort_quiet hr))

theorem waitStart_moves (h : sentinelFailoverWaitStart env s m = .ok t)
    (hstate : (s.masters m).failoverState = .waitStart)
    (hcand : ∀ cand, (cand = s.myid ∨ ∃ ri ∈ (s.masters m).sentinels, ri.leader = some cand) →
      sc.candidate cand) (hel : ∀ u w, (u.masters m).sentinels = (s.masters m).sentinels →
      (u.masters m).failoverEpoch = (s.masters m).failoverEpoch → strcaseeq w u.myid = true →
      ((s.masters m).sentinels.length + 1) / 2 + 1 ≤
        votesFor (s.masters m).sentinels s.currentEpoch w +
          ownVote (u.masters m) (s.masters m).failoverEpoch w → sc.elected u m) :
    Moves sc s t := by
  unfold sentinelFailoverWaitStart at h
  obtain ⟨⟨u, leader⟩, hlead, ht⟩ := bind_eq_ok.mp h
  obtain ⟨cand, hc, hu, hmaj⟩ := getLeader_votes env s m _ hlead
  have hmoves : Moves sc s u := hu ▸ voteLeader_moves env s m (hcand cand hc) (.inr ⟨m, rfl⟩)
  obtain ⟨-, l, le, st, hframe⟩ := voteLeader_frame env s m (s.masters m).failoverEpoch cand
  rw [← hu] at hframe
  dsimp only at ht
  split at ht
  · split at ht
    · exact hmoves.trans (abortFailover_moves env u m ht)
    · cases ht
      exact hmoves
  · rename_i hlose
    cases ht
    refine hmoves.move (Move.elected (by rw [hframe]; exact hstate) (fun _ hforce => ?_))
    rw [hforce] at hlose
    simp only [Bool.not_false, Bool.and_true, Bool.not_eq_true, Bool.not_eq_false',
      Option.any_eq_true] at hlose
    obtain ⟨w, hw, hid⟩ := hlose
    exact hel u w (by rw [hframe]) (by rw [hframe]) hid (hmaj w hw)

omit [DecidableEq M] in
/-- An early state exchanged for another one. -/
theorem quiet_early (hle : r'.leaderEpoch = r.leaderEpoch) (hl : r'.leader = r.leader)
    (hforce : r'.forceFailover = r.forceFailover) (hsent : r'.sentinels = r.sentinels)
    (hconf : r'.configEpoch = r.configEpoch) (haddr : r'.addr = r.addr)
    (hfe : r'.failoverEpoch = r.failoverEpoch) (hcode : ¬ 5 ≤ r.failoverState.code)
    (hcode' : ¬ 5 ≤ r'.failoverState.code) (hled : 2 ≤ r.failoverState.code)
    (hfp : r'.failoverInProgress = r.failoverInProgress) (htidy : r.Tidy → r'.Tidy)
    (hslaves : r'.slaves.map Slave.place = r.slaves.map Slave.place) :
    Quiet sc r r' where
  leaderEpoch := hle
  leader := .inl hl
  failoverEpoch := hfe
  tidy := htidy
  located := fun _ h => h.of_place hslaves
  force := fun _ h => by rwa [hforce] at h
  heard := fun _ => hsent ▸ NothingHeard.refl _
  members := fun _ => by rw [hsent]
  config := fun _ _ => ⟨hconf, haddr, fun _ => by omega, iff_of_false hcode' hcode,
    fun _ => hfp, fun _ => hled, by
    rw [currentAddress_early hcode', currentAddress_early hcode, haddr]⟩

theorem selectSlave_moves (h : sentinelFailoverSelectSlave env s m = .ok t)
    (hstate : (s.masters m).failoverState = .selectSlave) : Moves sc s t := by
  unfold sentinelFailoverSelectSlave at h
  dsimp only at h
  split at h
  · exact abortFailover_moves env s m h
  · cases h
    rename_i slave hsel
    have hplace : (updateSlave (s.masters m).slaves slave.name
        (fun slave => { slave with promoted := true })).map Slave.place =
          (s.masters m).slaves.map Slave.place := updateSlave_map _ _ _ (fun _ _ _ => rfl)
    refine Moves.single (Move.set (quiet_early rfl rfl rfl rfl rfl rfl rfl ?_ ?_ ?_ rfl (fun h => ?_) hplace))
    · rw [hstate]
      decide
    · show ¬ 5 ≤ FailoverState.sendSlaveofNoone.code
      decide
    · rw [hstate]
      decide
    · -- the slave chosen is one of the table
      constructor
      · rw [names_of_place hplace]
        exact h.names
      · intro name hname
        cases hname
        rw [names_of_place hplace]
        exact List.mem_map_of_mem (sentinelSelectSlave_mem hsel)

/-- `SLAVEOF` commands and nothing else. -/
def OnlySlaveOf (es : List (Effect M)) : Prop :=
  ∀ e ∈ es, ∃ m name promoted target, e = .slaveOf m name promoted target

omit [DecidableEq M] in
theorem OnlySlaveOf.append {es es' : List (Effect M)} (h : OnlySlaveOf es) (h' : OnlySlaveOf es') :
    OnlySlaveOf (es ++ es') := by
  intro e he
  rcases List.mem_append.mp he with he | he
  · exact h e he
  · exact h' e he

omit [DecidableEq M] in
theorem OnlySlaveOf.nil : OnlySlaveOf ([] : List (Effect M)) := by
  intro e he
  cases he

omit [DecidableEq M] in
theorem sendSlaveOf_only (ri : Slave) (target : Option Addr) :
    OnlySlaveOf (sentinelSendSlaveOf env m ri target).2 := by
  intro e he
  unfold sentinelSendSlaveOf at he
  dsimp only at he
  split at he
  · exact ⟨_, _, _, _, List.mem_singleton.mp he⟩
  · cases he

theorem slaveOf_moves {es : List (Effect M)} (hes : OnlySlaveOf es) :
    Moves sc s { s with trace := s.trace ++ es } := by
  induction es generalizing s with
  | nil =>
    rw [List.append_nil]
    exact Moves.refl
  | cons e es ih =>
    obtain ⟨m, name, promoted, target, rfl⟩ := hes e List.mem_cons_self
    have hone : Move sc s (s.emit (.slaveOf m name promoted target)) := Move.slaveOf
    refine (Moves.single hone).trans ?_
    have := ih (s.emit (.slaveOf m name promoted target))
      (fun e he => hes e (List.mem_cons_of_mem _ he))
    simpa [SentinelState.emit] using this

theorem put_moves {es : List (Effect M)} (hr : Quiet sc (s.masters m) r) (hes : OnlySlaveOf es) :
    Moves sc s (s.put m r es) :=
  (Moves.single (Move.set hr)).trans (slaveOf_moves (s.set m r) hes)

theorem sendSlaveOfNoOne_moves (h : sentinelFailoverSendSlaveOfNoOne env s m = .ok t)
    (hstate : (s.masters m).failoverState = .sendSlaveofNoone) : Moves sc s t := by
  unfold sentinelFailoverSendSlaveOfNoOne at h
  dsimp only at h
  split at h
  · cases h
  · split at h
    · split at h
      · exact abortFailover_moves env s m h
      · cases h
        exact Moves.refl
    · split at h
      · cases h
        refine put_moves s m (quiet_early rfl rfl rfl rfl rfl rfl rfl ?_ ?_ ?_ rfl
          (fun h => ⟨h.names, h.listed⟩) rfl)
          (sendSlaveOf_only env m _ _)
        · rw [hstate]
          decide
        · show ¬ 5 ≤ FailoverState.waitPromotion.code
          decide
        · rw [hstate]
          decide
      · cases h
        exact put_moves s m (Quiet.refl sc _) (sendSlaveOf_only env m _ _)

theorem waitPromotion_moves (h : sentinelFailoverWaitPromotion env s m = .ok t) : Moves sc s t := by
  unfold sentinelFailoverWaitPromotion at h
  dsimp only at h
  split at h
  · exact abortFailover_moves env s m h
  · cases h
    exact Moves.refl

omit [DecidableEq M] in
/-- Reconfiguring moves no slave. -/
theorem reconfNextSlaves_place (target : Option Addr) (parallelSyncs : Int) (slaves : List Slave) :
    ∀ inProgress, Sat (reconfNextSlaves env m target parallelSyncs inProgress slaves)
      (fun p => p.1.map Slave.place = slaves.map Slave.place ∧ OnlySlaveOf p.2) (fun _ => True) := by
  have hplace : ∀ slave : Slave, (reconfTimeout env.now slave).place = slave.place := by
    intro slave
    unfold reconfTimeout
    split <;> rfl
  induction slaves with
  | nil => exact fun _ => ⟨rfl, OnlySlaveOf.nil⟩
  | cons slave slaves ih =>
    intro inProgress
    unfold reconfNextSlaves
    refine Sat.ite (fun _ => ⟨rfl, OnlySlaveOf.nil⟩) (fun _ => ?_)
    refine Sat.ite (fun _ => ?_) (fun _ => ?_)
    · refine (ih inProgress).bind (fun p hp => ⟨?_, hp.2⟩)
      rw [List.map_cons, List.map_cons, hp.1]
    · dsimp only
      refine Sat.ite (fun _ => ?_) (fun _ => ?_)
      · refine (ih inProgress).bind (fun p hp => ⟨?_, hp.2⟩)
        rw [List.map_cons, List.map_cons, hp.1, hplace]
      · cases target with
        | none => trivial
        | some addr =>
          refine (ih _).bind (fun p hp => ⟨?_, (sendSlaveOf_only env m _ _).append hp.2⟩)
          rw [List.map_cons, List.map_cons, hp.1]
          congr 1
          split
          · exact hplace slave
          · exact hplace slave

omit [DecidableEq M] in
theorem reconfAtTimeout_place (target : Addr) (slaves : List Slave) :
    (reconfAtTimeout env m target slaves).1.map Slave.place = slaves.map Slave.place ∧
      OnlySlaveOf (reconfAtTimeout env m target slaves).2 := by
  induction slaves with
  | nil => exact ⟨rfl, OnlySlaveOf.nil⟩
  | cons slave slaves ih =>
    unfold reconfAtTimeout
    dsimp only
    split
    · exact ⟨by rw [List.map_cons, List.map_cons, ih.1], ih.2⟩
    · refine ⟨?_, (sendSlaveOf_only env m _ _).append ih.2⟩
      rw [List.map_cons, List.map_cons, ih.1]
      congr 1
      split <;> rfl

omit [DecidableEq M] in
/-- A late state with the same promoted slave is quiet. -/
theorem quiet_late (hle : r'.leaderEpoch = r.leaderEpoch) (hl : r'.leader = r.leader)
    (hforce : r'.forceFailover = r.forceFailover) (hsent : r'.sentinels = r.sentinels)
    (hconf : r'.configEpoch = r.configEpoch) (haddr : r'.addr = r.addr)
    (hfe : r'.failoverEpoch = r.failoverEpoch) (hcode : 5 ≤ r.failoverState.code)
    (hcode' : 5 ≤ r'.failoverState.code) (hfp : r'.failoverInProgress = r.failoverInProgress)
    (hps : r'.promotedSlave = r.promotedSlave) (hslaves : r'.slaves.map Slave.place = r.slaves.map Slave.place) :
    Quiet sc r r' where
  leaderEpoch := hle
  leader := .inl hl
  failoverEpoch := hfe
  tidy := fun h => h.of_place (.inl hps) hslaves
  located := fun _ h => h.of_place hslaves
  force := fun _ h => by rwa [hforce] at h
  heard := fun _ => hsent ▸ NothingHeard.refl _
  members := fun _ => by rw [hsent]
  config := fun _ _ => ⟨hconf, haddr, fun _ => by omega, iff_of_true hcode' hcode, fun _ => hfp,
    fun _ => by omega, by
    rw [currentAddress_eq, currentAddress_eq, hfp, haddr, promoted_addr_congr hps hslaves]
    simp only [hcode, hcode', and_true]⟩

omit [DecidableEq M] in
/-- `sentinelFailoverDetectEnd`: the slaves stay where they are, and the failover goes on or
    reaches its last state. -/
theorem detectEnd_frame (r : Master) (hstate : r.failoverState = .reconfSlaves) :
    OnlySlaveOf (sentinelFailoverDetectEnd env m r).2 ∧
      ∃ st t slaves, (sentinelFailoverDetectEnd env m r).1 =
          { r with failoverState := st, failoverStateChangeTime := t, slaves := slaves } ∧
        5 ≤ st.code ∧ slaves.map Slave.place = r.slaves.map Slave.place := by
  unfold sentinelFailoverDetectEnd
  cases r.promoted with
  | none =>
    exact ⟨OnlySlaveOf.nil, r.failoverState, r.failoverStateChangeTime, r.slaves, rfl,
      by rw [hstate]; decide, rfl⟩
  | some slave =>
    dsimp only
    by_cases hd : slave.sDown = true
    · rw [if_pos hd]
      exact ⟨OnlySlaveOf.nil, r.failoverState, r.failoverStateChangeTime, r.slaves, rfl,
        by rw [hstate]; decide, rfl⟩
    · rw [if_neg hd]
      by_cases htime : env.now - r.failoverStateChangeTime > r.failoverTimeout
      · rw [if_pos htime, if_pos (Or.inl htime)]
        have hplace := reconfAtTimeout_place env m slave.addr r.slaves
        exact ⟨hplace.2, .updateConfig, env.now, _, rfl, by decide, hplace.1⟩
      · rw [if_neg htime]
        refine ⟨OnlySlaveOf.nil, ?_⟩
        split
        · exact ⟨.updateConfig, env.now, r.slaves, rfl, by decide, rfl⟩
        · exact ⟨r.failoverState, r.failoverStateChangeTime, r.slaves, rfl,
            by rw [hstate]; decide, rfl⟩

theorem reconfNextSlave_moves (h : sentinelFailoverReconfNextSlave env s m = .ok t)
    (hstate : (s.masters m).failoverState = .reconfSlaves) : Moves sc s t := by
  unfold sentinelFailoverReconfNextSlave at h
  dsimp only at h
  obtain ⟨p, hp, ht⟩ := bind_eq_ok.mp h
  have hplace := (reconfNextSlaves_place env m _ _ _ _).of_eq_ok hp
  obtain ⟨honly, st, t', slaves, he, hst, hslaves⟩ :=
    detectEnd_frame env m { s.masters m with slaves := p.1 } hstate
  cases ht
  rw [he]
  refine put_moves s m (quiet_late rfl rfl rfl rfl rfl rfl rfl ?_ hst rfl rfl
    (hslaves.trans hplace.1)) (hplace.2.append honly)
  rw [hstate]
  decide

theorem stateMachine_moves (h : sentinelFailoverStateMachine env s m = .ok t)
    (hcand : ∀ cand, (cand = s.myid ∨ ∃ ri ∈ (s.masters m).sentinels, ri.leader = some cand) →
      sc.candidate cand) (hel : (s.masters m).failoverState = .waitStart → ∀ u w,
      (u.masters m).sentinels = (s.masters m).sentinels →
      (u.masters m).failoverEpoch = (s.masters m).failoverEpoch → strcaseeq w u.myid = true →
      ((s.masters m).sentinels.length + 1) / 2 + 1 ≤
        votesFor (s.masters m).sentinels s.currentEpoch w +
          ownVote (u.masters m) (s.masters m).failoverEpoch w → sc.elected u m) :
    Moves sc s t := by
  unfold sentinelFailoverStateMachine at h
  split at h
  · split at h
    · rename_i hstate
      exact waitStart_moves env s m h hstate hcand (hel hstate)
    · rename_i hstate
      exact selectSlave_moves env s m h hstate
    · rename_i hstate
      exact sendSlaveOfNoOne_moves env s m h hstate
    · exact waitPromotion_moves env s m h
    · rename_i hstate
      exact reconfNextSlave_moves env s m h hstate
    · cases h
      exact Moves.refl
    · cases h
      exact Moves.refl
  · cases h
    exact Moves.refl

end States

/-! ## The timer -/

/-- What makes an election legitimate, seen from the state the action began in: a majority of
    the votes counted, and these are votes of the epoch of the failover or of the epoch that
    was current when the action began. -/
def Election (s₀ s : SentinelState M) (m : M) : Prop :=
  ∃ w epoch, strcaseeq w s.myid = true ∧
    ((s.masters m).sentinels.length + 1) / 2 + 1 ≤
      votesFor (s.masters m).sentinels epoch w +
        ownVote (s.masters m) (s.masters m).failoverEpoch w ∧
    (epoch = (s.masters m).failoverEpoch ∨
      (s₀.masters m).failoverState = .waitStart ∧ epoch = s₀.currentEpoch ∧
        (s.masters m).failoverEpoch = (s₀.masters m).failoverEpoch ∧
        (s.masters m).sentinels = (s₀.masters m).sentinels)

/-- The action starts a failover. -/
def StartsFailover (env : Env) (s : SentinelState M) : Action M → Prop
  | .handleMaster m =>
    (leaveTilt env.now s).tilt = false ∧
      failoverNeeded env.now (sentinelCheckObjectivelyDown env.now { s.masters m with
        toInstance := sentinelCheckSubjectivelyDown env.now true (s.masters m).toInstance }) = true
  | .failover m =>
    (s.masters m).failoverInProgress = false ∧
      (sentinelSelectSlave env.now (s.masters m)).isSome = true
  | _ => False

section Timer

variable {sc : Scope M} (env : Env) (s : SentinelState M) (m : M)

theorem leaveTilt_moves (now : Int) : Moves sc s (leaveTilt now s) := by
  refine Moves.single (Move.quiet ?_ ?_ ?_ ?_)
  · unfold leaveTilt
    split <;> rfl
  · unfold leaveTilt
    split <;> rfl
  · unfold leaveTilt
    split <;> rfl
  · intro k
    rw [leaveTilt_masters]
    exact Quiet.refl sc _

/-- A failover just started: the votes counted are those of its epoch. -/
theorem startFailoverIfNeeded_cases (s : SentinelState M) :
    let t := sentinelStartFailoverIfNeeded env s m
    t.myid = s.myid ∧
      (t = s ∨ (failoverNeeded env.now (s.masters m) = true ∧
        t.currentEpoch = (t.masters m).failoverEpoch ∧
        (t.masters m).sentinels = (s.masters m).sentinels.map (forgetOldReply env.now))) := by
  dsimp only
  unfold sentinelStartFailoverIfNeeded
  by_cases hn : failoverNeeded env.now (s.masters m) = true
  · rw [if_pos hn]
    refine ⟨rfl, .inr ⟨hn, ?_, ?_⟩⟩
    · simp [sentinelAskMasterStateToOtherSentinels, sentinelStartFailover, SentinelState.set]
    · simp [sentinelAskMasterStateToOtherSentinels, sentinelStartFailover, SentinelState.set]
  · rw [if_neg hn]
    exact ⟨rfl, .inl rfl⟩

theorem handleMaster_moves {t : SentinelState M} (h : sentinelHandleMaster env s m = .ok t)
    (hcand : ∀ cand, (cand = s.myid ∨ ∃ ri ∈ (s.masters m).sentinels, ri.leader = some cand) →
      sc.candidate cand)
    (hel : ∀ u, Election s u m → sc.elected u m)
    (hwrap : sc.noWrap → StartsFailover env s (.handleMaster m) →
      s.currentEpoch < 18446744073709551615) : Moves sc s t := by
  have hid : (leaveTilt env.now s).myid = s.myid ∧
      (leaveTilt env.now s).currentEpoch = s.currentEpoch := by
    unfold leaveTilt
    split <;> exact ⟨rfl, rfl⟩
  unfold sentinelHandleMaster at h
  dsimp only at h
  split at h
  · cases h
    exact leaveTilt_moves s env.now
  · rename_i htilt
    rw [leaveTilt_masters] at h
    obtain ⟨i, o, ot, he, haddr⟩ := checks_eq env.now (s.masters m)
    rw [he] at h
    obtain ⟨s₁, hs₁⟩ : ∃ s₁, s₁ = (leaveTilt env.now s).set m
      { s.masters m with toInstance := i, oDown := o, oDownSinceTime := ot } := ⟨_, rfl⟩
    rw [← hs₁] at h
    have hm₁ : s₁.masters m = { s.masters m with toInstance := i, oDown := o, oDownSinceTime := ot } := by
      rw [hs₁, set_masters_self]
    have hid₁ : s₁.myid = s.myid ∧ s₁.currentEpoch = s.currentEpoch := hs₁ ▸ hid
    have hmoves₁ : Moves sc s s₁ := by
      rw [hs₁]
      refine (leaveTilt_moves s env.now).move (Move.set ?_)
      rw [leaveTilt_masters]
      exact quiet_of_same sc rfl rfl rfl (fun _ => NothingHeard.refl _) (fun _ => rfl)
        rfl haddr rfl rfl rfl rfl rfl
    have hmoves₂ : Moves sc s (sentinelStartFailoverIfNeeded env s₁ m) := by
      refine hmoves₁.trans (startFailoverIfNeeded_moves env s₁ m ?_)
      intro hw hn
      rw [hid₁.2]
      refine hwrap hw ⟨by simpa using htilt, ?_⟩
      rw [he, ← hm₁]
      exact hn
    obtain ⟨hid₂, hcases⟩ := startFailoverIfNeeded_cases env m s₁
    obtain ⟨s₂, hs₂⟩ : ∃ s₂, s₂ = sentinelStartFailoverIfNeeded env s₁ m := ⟨_, rfl⟩
    rw [← hs₂] at h hmoves₂ hid₂ hcases
    obtain ⟨u, hu, ht⟩ := bind_eq_ok.mp h
    cases ht
    refine (hmoves₂.trans (stateMachine_moves env s₂ m hu ?_ ?_)).trans (ask_moves env u m false)
    · -- the candidates are those of the state the timer met
      intro cand hc
      refine hcand cand ?_
      rw [hid₂, hid₁.1] at hc
      rcases hc with hc | ⟨ri, hri, hl⟩
      · exact .inl hc
      · refine .inr ?_
        rcases hcases with rfl | ⟨-, -, hsent⟩
        · rw [hm₁] at hri
          exact ⟨ri, hri, hl⟩
        · rw [hsent, hm₁] at hri
          obtain ⟨p, hp, -, hpl, -⟩ :=
            (forgetOldReply_quiet env.now (s.masters m).sentinels).1 ri hri cand hl
          exact ⟨p, hp, hpl⟩
    · intro hstate v w hsent hfe hw hmaj
      refine hel v ⟨w, s₂.currentEpoch, hw, ?_, ?_⟩
      · rw [hsent, hfe]
        exact hmaj
      · rcases hcases with rfl | ⟨-, hepoch, -⟩
        · rw [hm₁] at hstate hfe hsent
          exact .inr ⟨hstate, hid₁.2, hfe, hsent⟩
        · exact .inl (hepoch.trans hfe.symm)

/-- The table of slaves changed, with every slave where it was. -/
theorem Move.setSlaves {slaves : List Slave}
    (h : (s.masters m).Tidy → slaves.map Slave.place = (s.masters m).slaves.map Slave.place) :
    Move sc s (s.set m { s.masters m with slaves := slaves }) := by
  refine Move.set ⟨rfl, .inl rfl, rfl, fun htidy => htidy.of_place (.inl rfl) (h htidy),
    fun htidy hl => hl.of_place (h htidy), fun _ => id, fun _ => NothingHeard.refl _, fun _ => rfl, ?_⟩
  intro _ hinv
  refine ⟨rfl, rfl, id, Iff.rfl, fun _ => rfl, id, ?_⟩
  rw [currentAddress_eq, currentAddress_eq]
  dsimp only
  have hpromoted := @promoted_addr_congr (s.masters m) { s.masters m with slaves := slaves } rfl (h hinv)
  rw [hpromoted]

/-- The table of Sentinels changed, with nothing heard. -/
theorem Move.setPeers {sentinels : List Peer}
    (hheard : sc.heard → NothingHeard (s.masters m).sentinels sentinels)
    (hmembers : sc.members → sentinels.map Peer.ident = (s.masters m).sentinels.map Peer.ident) :
    Move sc s (s.set m { s.masters m with sentinels := sentinels }) :=
  Move.set (quiet_of_same sc rfl rfl rfl hheard hmembers rfl rfl rfl rfl rfl rfl rfl)

theorem updatePeer_heard (sentinels : List Peer) (runid : Bytes) (f : Peer → Peer)
    (hf : ∀ p, (f p).runid = p.runid ∧ (f p).leader = p.leader ∧ (f p).leaderEpoch = p.leaderEpoch) :
    NothingHeard sentinels (updatePeer sentinels runid f) := by
  refine NothingHeard.map (fun p => ?_)
  split
  · refine ⟨(hf p).1, fun leader h => ⟨?_, (hf p).2.2.symm⟩⟩
    rwa [(hf p).2.1] at h
  · exact ⟨rfl, fun leader h => ⟨h, rfl⟩⟩

theorem updatePeer_ident (sentinels : List Peer) (runid : Bytes) (f : Peer → Peer)
    (hf : ∀ p, (f p).ident = p.ident) :
    (updatePeer sentinels runid f).map Peer.ident = sentinels.map Peer.ident := by
  unfold updatePeer
  rw [List.map_map]
  apply List.map_congr_left
  intro p _
  by_cases hp : p.runid = runid
  · simp only [Function.comp_apply, if_pos hp]
    exact hf p
  · simp only [Function.comp_apply, if_neg hp]

theorem handleSlave_moves (name : Bytes) : Moves sc s (sentinelHandleSlave env s m name) := by
  unfold sentinelHandleSlave
  dsimp only
  split
  · exact leaveTilt_moves s env.now
  · refine (leaveTilt_moves s env.now).move (Move.setSlaves _ m ?_)
    intro _
    refine updateSlave_map _ _ _ (fun slave _ _ => ?_)
    exact congrArg (Prod.mk slave.name) (checkSubjectivelyDown_addr env.now false slave.toInstance)

theorem handlePeer_moves (runid : Bytes) : Moves sc s (sentinelHandlePeer env s m runid) := by
  unfold sentinelHandlePeer
  dsimp only
  split
  · exact leaveTilt_moves s env.now
  · refine (leaveTilt_moves s env.now).move (Move.setPeers _ m ?_ ?_)
    · exact fun _ => updatePeer_heard _ _ _ (fun p => ⟨rfl, rfl, rfl⟩)
    · refine fun _ => updatePeer_ident _ _ _ (fun p => ?_)
      exact congrArg (Prod.mk p.runid) (checkSubjectivelyDown_addr env.now false p.toInstance)

end Timer

/-! ## INFO -/

section Info

variable {sc : Scope M} (R : Resolver) (env : Env) (s : SentinelState M) (m : M)

theorem resolved_of_create {R : Resolver} {now : Int} {host : Bytes} {port : Int} {addr : Addr}
    (h : createSentinelAddr R now host port = some addr) : Resolved R addr := by
  intro now'
  unfold createSentinelAddr at h ⊢
  split at h
  · cases h
  · rename_i hport
    obtain ⟨ip, hip, rfl⟩ := Option.map_eq_some_iff.mp h
    rw [if_neg hport, R.resolve_numeric now host ip hip now']
    rfl

omit [DecidableEq M] in
/-- A new slave is never the promoted one. -/
theorem createSlave_quiet (hR : sc.resolver = R) (now : Int) (r : Master) (host : Bytes) (port : Int) :
    Quiet sc r (createSlave R now r host port) := by
  unfold createSlave
  cases hcreate : createSentinelAddr R now host port with
  | none => exact Quiet.refl sc r
  | some addr =>
    dsimp only
    split
    · exact Quiet.refl sc r
    · rename_i hfresh
      refine ⟨rfl, .inl rfl, rfl, fun h => ?_, fun _ h => ?_, fun _ => id, fun _ => NothingHeard.refl _,
        fun _ => rfl, ?_⟩
      · refine ⟨?_, fun name hname => ?_⟩
        · rw [List.map_append, List.nodup_append]
          refine ⟨h.names, List.nodup_singleton _, ?_⟩
          intro a ha b hb heq
          obtain ⟨slave, hslave, rfl⟩ := List.mem_map.mp ha
          refine hfresh (List.any_eq_true.mpr ⟨slave, hslave, decide_eq_true ?_⟩)
          exact heq.trans (List.mem_singleton.mp hb)
        · rw [List.map_append]
          exact List.mem_append_left _ (h.listed name hname)
      · intro slave hslave
        rcases List.mem_append.mp hslave with hslave | hslave
        · exact h slave hslave
        · rw [List.mem_singleton.mp hslave, hR]
          exact resolved_of_create hcreate
      · intro _ htidy
        refine ⟨rfl, rfl, id, Iff.rfl, fun _ => rfl, id, ?_⟩
        rw [currentAddress_eq, currentAddress_eq]
        dsimp only
        have hpromoted : Master.promoted { r with slaves :=
            r.slaves ++ [newSlave now (anetFormatAddr host port) addr r] } = r.promoted := by
          unfold Master.promoted
          dsimp only
          cases hname : r.promotedSlave with
          | none => rfl
          | some name =>
            -- the promoted slave is found before the new one
            obtain ⟨slave, hslave, hn⟩ := List.mem_map.mp (htidy.listed name hname)
            have hsome : (r.slaves.find? (·.name = name)).isSome = true :=
              List.find?_isSome.mpr ⟨slave, hslave, decide_eq_true hn⟩
            obtain ⟨found, hfound⟩ := Option.isSome_iff_exists.mp hsome
            rw [Option.bind_some, Option.bind_some, List.find?_append, hfound]
            rfl
        rw [hpromoted]

theorem masterInfo_moves (hR : sc.resolver = R) (info : List InfoLine) :
    Moves sc s (sentinelRefreshMasterInfo R env s m info) := by
  have hlines : Moves sc s (info.foldl (masterInfoLine R env.now m) s) := by
    induction info generalizing s with
    | nil => exact Moves.refl
    | cons line info ih =>
      refine Moves.trans ?_ (ih _)
      cases line with
      | slave ip port =>
        unfold masterInfoLine
        dsimp only
        split
        · exact Moves.refl
        · split
          · exact (Moves.single (Move.set (createSlave_quiet R hR env.now _ ip port))).move Move.flush
          · exact Moves.refl
      | _ => exact Moves.refl
  refine hlines.move (Move.set (quiet_of_same sc rfl rfl rfl (fun _ => NothingHeard.refl _)
    (fun _ => rfl) rfl ?_ rfl rfl rfl rfl rfl))
  show (roleChange _ _ _).addr = _
  unfold roleChange
  split <;> rfl

theorem slaveAfterInfo_place (now : Int) (slave : Slave) (info : List InfoLine) :
    (slaveAfterInfo now slave info).1.place = slave.place := by
  have hline : ∀ (p : Slave × Role) (line : InfoLine), (slaveInfoLine now p line).1.place = p.1.place := by
    intro p line
    unfold slaveInfoLine
    dsimp only
    split <;> (try split) <;> rfl
  have hlines : ∀ p : Slave × Role, (info.foldl (slaveInfoLine now) p).1.place = p.1.place := by
    induction info with
    | nil => exact fun _ => rfl
    | cons line info ih => exact fun p => (ih _).trans (hline p line)
  refine Eq.trans ?_ (hlines ({ slave with masterLinkDownTime := 0 }, .unknown))
  unfold slaveAfterInfo Slave.place
  dsimp only
  congr 1
  unfold roleChange
  split <;> rfl

/-- A slave of the table replaced by what became of it. -/
theorem replaceSlave_moves {ri slave : Slave} (hri : ri ∈ (s.masters m).slaves)
    (hplace : slave.place = ri.place) : Move sc s (s.set m { s.masters m with
      slaves := updateSlave (s.masters m).slaves ri.name (fun _ => slave) }) := by
  refine Move.setSlaves s m (fun htidy => updateSlave_map _ _ _ ?_)
  intro other hother hname
  rw [List.inj_on_of_nodup_map htidy.names hother hri hname]
  exact hplace

theorem reportsMaster_moves (ri : Slave) : Moves sc s (slaveReportsMaster env s m ri) := by
  unfold slaveReportsMaster
  dsimp only
  split
  · rename_i hprom
    simp only [Bool.and_eq_true, decide_eq_true_eq] at hprom
    exact (Moves.single (Move.promote hprom.1.2 hprom.2)).move Move.flush
  · split
    · exact put_moves s m (Quiet.refl sc _) (sendSlaveOf_only env m _ _)
    · exact Moves.refl

theorem reportsSlave_moves {ri : Slave} (hri : ri ∈ (s.masters m).slaves) {t : SentinelState M}
    (h : slaveReportsSlave env s m ri = .ok t) : Moves sc s t := by
  unfold slaveReportsSlave at h
  obtain ⟨es, hes, ht⟩ := bind_eq_ok.mp h
  have honly : OnlySlaveOf es := by
    unfold fixSlaveConfig at hes
    obtain ⟨b, -, hb⟩ := bind_eq_ok.mp hes
    split at hb
    · cases hb
      exact sendSlaveOf_only env m _ _
    · cases hb
      exact OnlySlaveOf.nil
  split at ht
  · obtain ⟨ri', hri', ht'⟩ := bind_eq_ok.mp ht
    have hplace : ri'.place = ri.place := by
      unfold reconfInprogress at hri'
      split at hri'
      · split at hri'
        · cases hri'
        · cases hri'
          split <;> rfl
      · cases hri'
        rfl
    have hplace' : (reconfFinished ri').place = ri.place := by
      rw [← hplace]
      unfold reconfFinished
      split <;> rfl
    cases ht'
    have hname : ri'.name = ri.name := congrArg Prod.fst hplace
    rw [hname]
    exact (Moves.single (replaceSlave_moves s m hri hplace')).trans (slaveOf_moves _ honly)
  · cases ht
    exact put_moves s m (Quiet.refl sc _) honly

theorem slaveInfo_moves {ri : Slave} (hri : ri ∈ (s.masters m).slaves) (info : List InfoLine)
    {t : SentinelState M} (h : sentinelRefreshSlaveInfo env s m ri info = .ok t) : Moves sc s t := by
  have hset := @replaceSlave_moves _ _ sc s m _ _ hri (slaveAfterInfo_place env.now ri info)
  unfold sentinelRefreshSlaveInfo at h
  dsimp only at h
  split at h
  · cases h
    exact Moves.single hset
  · split at h
    · cases h
      exact (Moves.single hset).trans (reportsMaster_moves env _ m _)
    · refine (Moves.single hset).trans (reportsSlave_moves env _ m ?_ h)
      rw [set_masters_self]
      refine List.mem_map.mpr ⟨ri, hri, ?_⟩
      rw [if_pos rfl]
    · cases h
      exact Moves.single hset

end Info

/-! ## Hello messages -/

section Hello

variable {sc : Scope M} (R : Resolver) (env : Env) (s : SentinelState M)

section

variable (hmembers : ¬ sc.members)

include hmembers

omit [DecidableEq M] in
/-- An address changed wherever a Sentinel is known. -/
theorem updatePeers_quiet (runid : Bytes) (addr : Addr) (k : M) :
    Quiet sc (s.masters k) ((sentinelUpdateSentinelAddressInAllMasters s runid addr).masters k) := by
  refine quiet_of_same sc rfl rfl rfl (fun _ => ?_) (fun h => absurd h hmembers) rfl rfl rfl rfl rfl
    rfl rfl
  exact updatePeer_heard _ _ _ (fun p => ⟨rfl, rfl, rfl⟩)

theorem updatePeers_move (runid : Bytes) (addr : Addr) :
    Move sc s (sentinelUpdateSentinelAddressInAllMasters s runid addr) :=
  Move.quiet rfl rfl rfl (updatePeers_quiet s hmembers runid addr)

theorem removeMatching_move (m : M) (runid : Bytes) :
    Move sc s (removeMatchingSentinelFromMaster s m runid) := by
  refine Move.setPeers s m (fun _ => ?_) (fun h => absurd h hmembers)
  intro q hq leader hl
  exact ⟨q, List.mem_of_mem_filter hq, rfl, hl, rfl⟩

theorem insertPeer_move (now : Int) (m : M) (runid : Bytes) (addr : Addr) :
    Move sc s (insertPeer now s m runid addr) := by
  refine Move.setPeers s m (fun _ => ?_) (fun h => absurd h hmembers)
  intro q hq leader hl
  rcases List.mem_append.mp hq with hq | hq
  · exact ⟨q, hq, rfl, hl, rfl⟩
  · -- a Sentinel just met has said nothing
    obtain rfl := List.mem_singleton.mp hq
    cases hl

theorem invalidateOther_moves (m : M) (addr : Addr) :
    Moves sc s (invalidateOther s m addr) := by
  unfold invalidateOther
  split
  · exact Moves.single (updatePeers_move s hmembers _ _)
  · exact Moves.refl

theorem addPeer_moves (now : Int) (h : Hello M) :
    Moves sc s (addPeer R now s h).2 := by
  have hkept := Moves.single (removeMatching_move s hmembers h.master h.runid)
  unfold addPeer
  dsimp only
  cases (s.masters h.master).sentinels.any (·.runid = h.runid) with
  | true =>
    rw [if_pos rfl]
    split
    · exact hkept
    · exact ((hkept.move (insertPeer_move _ hmembers now h.master h.runid _)).move
        (updatePeers_move _ hmembers _ _)).move Move.flush
  | false =>
    rw [if_neg Bool.false_ne_true]
    have hother := hkept.trans (invalidateOther_moves _ hmembers h.master h.addr)
    split
    · exact hother
    · exact (hother.move (insertPeer_move _ hmembers now h.master h.runid _)).move Move.flush

end

theorem set_set (m : M) (r r' : Master) : (s.set m r).set m r' = s.set m r' := by
  unfold SentinelState.set
  congr 1
  funext k
  by_cases hk : k = m
  · simp [hk]
  · simp [hk]

theorem configUpdateFrom_moves (hR : sc.resolver = R) {h : Hello M} (hh : sc.hello s h) :
    Moves sc s (configUpdateFrom R env s h) := by
  unfold configUpdateFrom
  dsimp only
  split
  · rename_i hlt
    by_cases haddr : h.masterAddr = (s.masters h.master).addr
    · rw [if_pos haddr]
      exact Moves.single (@Move.adopt _ _ sc s h R env.now hR hh hlt (.inl haddr))
    · rw [if_neg haddr]
      unfold sentinelResetMasterAndChangeAddress
      cases hc : createSentinelAddr R env.now h.masterAddr.ip h.masterAddr.port with
      | none => exact Moves.single (Move.adopt hR hh hlt (.inr hc))
      | some addr =>
        dsimp only
        rw [set_set, set_masters_self]
        exact (Moves.single (Move.adoptSwitch hR hh hlt haddr hc)).move Move.flush
  · exact Moves.refl

/-- Only the tables of Sentinels differ. -/
def PeersOnly (s t : SentinelState M) : Prop :=
  ∀ k, ∃ peers, t.masters k = { s.masters k with sentinels := peers }

omit [DecidableEq M] in
theorem PeersOnly.trans {s t u : SentinelState M} (h : PeersOnly s t) (h' : PeersOnly t u) :
    PeersOnly s u := by
  intro k
  obtain ⟨peers, hk⟩ := h k
  obtain ⟨peers', hk'⟩ := h' k
  exact ⟨peers', by rw [hk', hk]⟩

theorem PeersOnly.setPeers (s : SentinelState M) (m : M) (peers : List Peer) :
    PeersOnly s (s.set m { s.masters m with sentinels := peers }) := by
  intro k
  by_cases hk : k = m
  · subst hk
    exact ⟨peers, set_masters_self _ _ _⟩
  · exact ⟨(s.masters k).sentinels, by simp [SentinelState.set, hk]⟩

theorem helloPeer_peersOnly (now : Int) (h : Hello M) : PeersOnly s (helloPeer R now s h).2 := by
  have hall : ∀ (s : SentinelState M) runid addr,
      PeersOnly s (sentinelUpdateSentinelAddressInAllMasters s runid addr) := fun _ _ _ _ => ⟨_, rfl⟩
  have hother : ∀ s : SentinelState M, PeersOnly s (invalidateOther s h.master h.addr) := by
    intro s
    unfold invalidateOther
    split
    · exact hall _ _ _
    · exact fun k => ⟨_, rfl⟩
  unfold helloPeer
  split
  · exact fun k => ⟨_, rfl⟩
  · unfold addPeer
    dsimp only
    have hremoved := PeersOnly.setPeers s h.master
      ((s.masters h.master).sentinels.filter (fun ri => !(ri.runid = h.runid)))
    cases (s.masters h.master).sentinels.any (·.runid = h.runid) with
    | true =>
      rw [if_pos rfl]
      split
      · exact hremoved
      · exact (hremoved.trans (PeersOnly.setPeers _ _ _)).trans (hall _ _ _)
    | false =>
      rw [if_neg Bool.false_ne_true]
      split
      · exact hremoved.trans (hother _)
      · exact (hremoved.trans (hother _)).trans (PeersOnly.setPeers _ _ _)

theorem hello_moves (hR : sc.resolver = R) {h : Hello M}
    (hh : ∀ u, PeersOnly s u → h.currentEpoch ≤ u.currentEpoch → sc.hello u h) (hb : h.currentEpoch < 18446744073709551616)
    (hmembers : sc.members → (s.masters h.master).sentinels.any
      (fun ri => ri.runid = h.runid && ri.addr = h.addr) = true) :
    Moves sc s (sentinelProcessHelloMessage R env s h) := by
  have hp : Moves sc s (helloPeer R env.now s h).2 := by
    unfold helloPeer
    by_cases hknown : (s.masters h.master).sentinels.any
        (fun ri => ri.runid = h.runid && ri.addr = h.addr) = true
    · rw [if_pos hknown]
      exact Moves.refl
    · rw [if_neg hknown]
      exact addPeer_moves R s (fun hm => hknown (hmembers hm)) env.now h
  have hraise := hp.trans (raiseEpoch_moves (helloPeer R env.now s h).2 (.inl hb))
  unfold sentinelProcessHelloMessage
  dsimp only
  split
  · have hmasters : (raiseEpoch (helloPeer R env.now s h).2 h.currentEpoch).masters =
        (helloPeer R env.now s h).2.masters := by
      unfold raiseEpoch
      split <;> rfl
    have hknown : sc.hello (raiseEpoch (helloPeer R env.now s h).2 h.currentEpoch) h := by
      refine hh _ (fun k => ?_) ?_
      · rw [hmasters]
        exact helloPeer_peersOnly R s env.now h k
      · unfold raiseEpoch
        split
        · exact le_refl _
        · omega
    refine (hraise.trans (configUpdateFrom_moves R env _ hR hknown)).move (Move.setPeers _ _ ?_ ?_)
    · exact fun _ => updatePeer_heard _ _ _ (fun p => ⟨rfl, rfl, rfl⟩)
    · exact fun _ => updatePeer_ident _ _ _ (fun p => rfl)
  · exact hraise

end Hello

/-! ## Every action -/

/-- What each kind of action is expected to keep. -/
def actionScope (R : Resolver) (s : SentinelState M) (noWrap : Prop) (a : Action M) : Scope M where
  resolver := R
  members :=
    match a with
    | .reset _ => False
    | .hello h => (s.masters h.master).sentinels.any
        (fun ri => ri.runid = h.runid && ri.addr = h.addr) = true
    | _ => True
  heard :=
    match a with
    | .downReply _ _ _ => False
    | _ => True
  unforced :=
    match a with
    | .failover _ => False
    | _ => True
  noReset :=
    match a with
    | .reset _ => False
    | _ => True
  noWrap := noWrap
  candidate := fun w =>
    w = s.myid ∨ (∃ m, ∃ ri ∈ (s.masters m).sentinels, ri.leader = some w) ∨
      ∃ ri req, a = .downRequest ri req ∧ req.runid = some w
  hello := fun u h => a = .hello h ∧ PeersOnly s u ∧ h.currentEpoch ≤ u.currentEpoch
  elected := fun t m => a = .handleMaster m ∧ Election s t m
  reply := fun m epoch => ∃ req, a = .downRequest (some m) req ∧
    (epoch = (s.masters m).leaderEpoch ∨ epoch = toUint64 req.epoch)

/-- Every action is a sequence of moves. -/
theorem step_moves (R : Resolver) (env : Env) {s t : SentinelState M} {a : Action M} {noWrap : Prop}
    (ha : a.Enabled s) (h : step R env s a = .ok t)
    (hwrap : noWrap → StartsFailover env s a → s.currentEpoch < 18446744073709551615) :
    Moves (actionScope R s noWrap a) s t := by
  cases a with
  | masterLink m link =>
    cases h
    exact Moves.single (Move.set (quiet_of_same _ rfl rfl rfl (fun _ => NothingHeard.refl _)
      (fun _ => rfl) rfl rfl rfl rfl rfl rfl rfl))
  | slaveLink m name link =>
    cases h
    exact Moves.single (Move.setSlaves s m (fun _ => updateSlave_map _ _ _ (fun _ _ _ => rfl)))
  | peerLink m runid link =>
    cases h
    exact Moves.single (Move.setPeers s m
      (fun _ => updatePeer_heard _ _ _ (fun p => ⟨rfl, rfl, rfl⟩))
      (fun _ => updatePeer_ident _ _ _ (fun p => rfl)))
  | checkTilt =>
    cases h
    refine Moves.single (Move.quiet ?_ ?_ ?_ (fun k => ?_))
    · unfold sentinelCheckTiltCondition
      dsimp only
      split <;> rfl
    · unfold sentinelCheckTiltCondition
      dsimp only
      split <;> rfl
    · unfold sentinelCheckTiltCondition
      dsimp only
      split <;> rfl
    · have : (sentinelCheckTiltCondition env.now s).masters = s.masters := by
        unfold sentinelCheckTiltCondition
        dsimp only
        split <;> rfl
      rw [this]
      exact Quiet.refl _ _
  | handleMaster m =>
    refine handleMaster_moves env s m h ?_ (fun u hu => ⟨rfl, hu⟩) hwrap
    intro cand hc
    rcases hc with hc | ⟨ri, hri, hl⟩
    · exact .inl hc
    · exact .inr (.inl ⟨m, ri, hri, hl⟩)
  | handleSlave m name =>
    cases h
    exact handleSlave_moves env s m name
  | handlePeer m runid =>
    cases h
    exact handlePeer_moves env s m runid
  | switchToPromoted m =>
    cases h
    unfold sentinelFailoverSwitchToPromotedSlave sentinelResetMasterAndChangeAddress
    dsimp only
    split
    · exact Moves.refl
    · rename_i addr haddr
      exact (Moves.single (Move.switch rfl ha haddr)).move Move.flush
  | masterInfo m info =>
    cases h
    exact masterInfo_moves R env s m rfl info
  | slaveInfo m ri info => exact slaveInfo_moves env s m ha info h
  | downReply m runid r =>
    cases h
    refine Moves.single (Move.setPeers s m (fun hf => hf.elim) (fun _ => ?_))
    refine updatePeer_ident _ _ _ (fun p => ?_)
    unfold sentinelReceiveIsMasterDownReply
    dsimp only
    split <;> rfl
  | hello hello =>
    cases h
    exact hello_moves R env s rfl (fun u hu hcur => ⟨rfl, hu, hcur⟩) ha.1 id
  | downRequest ri req =>
    cases h
    unfold isMasterDownByAddr
    cases ri with
    | none => exact Moves.refl
    | some m =>
      cases hr : req.runid with
      | none => exact Moves.refl
      | some runid =>
        have hc : (actionScope R s noWrap (.downRequest (some m) req)).candidate runid :=
          .inr (.inr ⟨some m, req, rfl, hr⟩)
        have hb : toUint64 req.epoch < 18446744073709551616 := by
          unfold toUint64
          omega
        exact (voteLeader_moves env s m hc (.inl hb)).move
          (Move.reply ⟨req, rfl, voteLeader_epoch env s m _ runid⟩)
  | failover m =>
    cases h
    unfold failoverCommand
    dsimp only
    by_cases hb : (s.masters m).failoverInProgress = true
    · rw [if_pos hb]
      exact Moves.refl
    · rw [if_neg hb]
      by_cases hs : (sentinelSelectSlave env.now (s.masters m)).isNone = true
      · rw [if_pos hs]
        exact Moves.refl
      · rw [if_neg hs]
        have hb' : (s.masters m).failoverInProgress = false := by simpa using hb
        refine (Moves.single (@Move.start _ _ _ s env m hb' (fun hw => hwrap hw ⟨hb', ?_⟩))).move
          (Move.set ?_)
        · rwa [← Option.not_isSome, Bool.not_eq_true', Bool.not_eq_false] at hs
        · exact ⟨rfl, .inl rfl, rfl, fun h => ⟨h.names, h.listed⟩, fun _ => id, fun hf => hf.elim,
            fun _ => NothingHeard.refl _, fun _ => rfl,
            fun _ _ => ⟨rfl, rfl, id, Iff.rfl, fun _ => rfl, id, rfl⟩⟩
  | reset pattern =>
    cases h
    refine Moves.single (Move.quiet rfl rfl rfl (fun k => ?_))
    unfold resetCommand
    dsimp only
    split
    · refine ⟨rfl, .inr rfl, rfl, fun _ => ⟨List.nodup_nil, fun _ h => (by cases h)⟩,
        fun _ _ _ h => (by cases h), fun _ h => (by cases h), fun _ => ?_, fun hf => hf.elim, fun hf => hf.elim⟩
      intro q hq
      cases hq
    · exact Quiet.refl _ _

/-! ## What every move keeps -/

section Kept

variable {sc : Scope M} {s t : SentinelState M}

/-- Slaves put into the table change nothing else. -/
theorem createSlaves_eq (R : Resolver) (now : Int) (addrs : List Addr) (r : Master) :
    ∃ slaves, addrs.foldl (fun r a => createSlave R now r a.ip a.port) r = { r with slaves := slaves } := by
  induction addrs generalizing r with
  | nil => exact ⟨r.slaves, rfl⟩
  | cons a addrs ih =>
    have hone : ∃ slaves, createSlave R now r a.ip a.port = { r with slaves := slaves } := by
      unfold createSlave
      split
      · exact ⟨r.slaves, rfl⟩
      · dsimp only
        split
        · exact ⟨r.slaves, rfl⟩
        · exact ⟨_, rfl⟩
    obtain ⟨slaves, hslaves⟩ := hone
    obtain ⟨slaves', hslaves'⟩ := ih (createSlave R now r a.ip a.port)
    refine ⟨slaves', ?_⟩
    rw [List.foldl_cons, hslaves', hslaves]

/-- A master after a switch of address: reset, at the new address, with slaves of its own. -/
theorem switchAddress_eq (R : Resolver) (now : Int) (r : Master) (addr : Addr) :
    ∃ slaves, switchAddress R now r addr = { sentinelResetMaster now true r with
      addr := addr, oDownSinceTime := 0, sDownSinceTime := 0, slaves := slaves } :=
  createSlaves_eq R now _ _

theorem createSlaves_tidy (R : Resolver) (now : Int) (addrs : List Addr) (h : r.Tidy) :
    (addrs.foldl (fun r a => createSlave R now r a.ip a.port) r).Tidy := by
  induction addrs generalizing r with
  | nil => exact h
  | cons a addrs ih =>
    -- any scope will do
    let sc : Scope Unit := ⟨R, True, True, True, True, True, fun _ => True, fun _ _ => True,
      fun _ _ => True, fun _ _ => True⟩
    exact ih ((@createSlave_quiet _ sc R rfl now r a.ip a.port).tidy h)

theorem switchAddress_tidy (R : Resolver) (now : Int) (r : Master) (addr : Addr) :
    (switchAddress R now r addr).Tidy :=
  createSlaves_tidy R now _ ⟨List.nodup_nil, fun _ h => by cases h⟩

theorem createSlaves_located (R : Resolver) (now : Int) (addrs : List Addr) (h : r.Tidy) (hl : r.Located R) :
    (addrs.foldl (fun r a => createSlave R now r a.ip a.port) r).Located R := by
  induction addrs generalizing r with
  | nil => exact hl
  | cons a addrs ih =>
    let sc : Scope Unit := ⟨R, True, True, True, True, True, fun _ => True, fun _ _ => True,
      fun _ _ => True, fun _ _ => True⟩
    have hq := @createSlave_quiet _ sc R rfl now r a.ip a.port
    exact ih (hq.tidy h) (hq.located h hl)

theorem switchAddress_located (R : Resolver) (now : Int) (r : Master) (addr : Addr) :
    (switchAddress R now r addr).Located R :=
  createSlaves_located R now _ ⟨List.nodup_nil, fun _ h => by cases h⟩ (fun _ h => by cases h)

/-- What one master is replaced by decides what becomes of all. -/
theorem forall_set {p : Master → Prop} (h : ∀ m, p (s.masters m)) {m : M} (hr : p r) :
    ∀ k, p ((s.set m r).masters k) := by
  intro k
  unfold SentinelState.set
  by_cases hk : k = m
  · simpa [hk] using hr
  · simpa [hk] using h k

theorem Move.tidy (h : Move sc s t) (hs : ∀ m, (s.masters m).Tidy) : ∀ m, (t.masters m).Tidy := by
  cases h with
  | quiet _ _ _ hm => exact fun m => (hm m).tidy (hs m)
  | flush | raise _ _ => exact hs
  | @start env m _ _ => exact forall_set (s := { s with currentEpoch := _ }) hs ⟨(hs m).names, (hs m).listed⟩
  | @vote m _ _ _ => exact forall_set hs ⟨(hs m).names, (hs m).listed⟩
  | reply _ => exact hs
  | @elected m _ _ _ => exact forall_set (s := s.emit _) hs ⟨(hs m).names, (hs m).listed⟩
  | @promote m _ _ _ => exact forall_set hs ⟨(hs m).names, (hs m).listed⟩
  | switch _ _ _ => exact forall_set hs (switchAddress_tidy _ _ _ _)
  | @adopt h _ _ _ _ _ _ => exact forall_set hs ⟨(hs h.master).names, (hs h.master).listed⟩
  | adoptSwitch _ _ _ _ _ => exact forall_set hs (switchAddress_tidy _ _ _ _)
  | slaveOf | ask _ => exact hs

/-- A move has at most one visible effect, but for a vote: that is written, then published. -/
theorem Move.trace (h : Move sc s t) :
    t.trace = s.trace ∨ (∃ e, t.trace = s.trace ++ [e]) ∨
      ∃ m runid e, (s.masters m).leaderEpoch < s.currentEpoch ∧
        t.trace = (writeVote s m runid).trace ++ [e] := by
  cases h with
  | quiet _ _ htrace _ => exact .inl htrace
  | flush => exact .inr (.inl ⟨_, rfl⟩)
  | raise _ _ | start _ _ => exact .inl rfl
  | vote hlt _ => exact .inr (.inr ⟨_, _, _, hlt, rfl⟩)
  | reply _ | elected _ _ => exact .inr (.inl ⟨_, rfl⟩)
  | promote _ _ | switch _ _ _ | adopt _ _ _ _ | adoptSwitch _ _ _ _ _ => exact .inl rfl
  | slaveOf | ask _ => exact .inr (.inl ⟨_, rfl⟩)

/-- What has been made visible stays so. -/
theorem Moves.trace_grows (h : Moves sc s t) : s.trace <+: t.trace := by
  refine h.invariant (fun u => s.trace <+: u.trace) (List.prefix_refl _) (fun u v hmove hu => hu.trans ?_)
  rcases hmove.trace with he | ⟨e, he⟩ | ⟨m, runid, e, -, he⟩
  · rw [he]
  · rw [he]
    exact List.prefix_append _ _
  · rw [he]
    exact (List.prefix_append _ _).trans (List.prefix_append _ _)

end Kept

end Redis.Sentinel
