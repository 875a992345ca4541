import Redis.Sentinel.Moves

namespace Redis.Sentinel

/-!
# Sentinel — votes are durable

One Sentinel, with crashes at any moment: an action may be cut short after any of its visible
effects, and the Sentinel comes back from the last configuration it wrote.

* `lastConfig`, `CrashStep`, `CrashSteps` — the runs;
* `VoteInv` — the votes given, the leader in memory and the configuration on disk agree;
* `CrashSteps.voteInv` — it holds at every moment of every run;
* `votes_durable` — one vote an epoch, epochs that never decrease, and a current epoch that
  never falls below a vote unless an election wraps it.
-/

variable {M : Type}

/-! ## Crashes -/

/-- The last configuration written. -/
def lastConfig (es : List (Effect M)) : Option (Config M) :=
  es.foldl (fun last e =>
    match e with
    | .flushed c => some c
    | _ => last) none

theorem lastConfig_append (es : List (Effect M)) (e : Effect M) :
    lastConfig (es ++ [e]) =
      match e with
      | .flushed c => some c
      | _ => lastConfig es := by
  unfold lastConfig
  rw [List.foldl_append]
  cases e <;> rfl

section Runs

variable [DecidableEq M] [Fintype M]

/-- An action, or a crash after any part of an action and the restart that follows. -/
inductive CrashStep (R : Resolver) (P : Env → SentinelState M → Action M → Prop) :
    SentinelState M → SentinelState M → Prop
  | act {s t : SentinelState M} {env : Env} {a : Action M} (ha : a.Enabled s) (hp : P env s a)
      (h : step R env s a = .ok t) : CrashStep R P s t
  | crash {s t : SentinelState M} {env : Env} {a : Action M} {now : Int} {c : Config M}
      {trace : List (Effect M)} (ha : a.Enabled s) (hp : P env s a) (h : step R env s a = .ok t)
      (hs : s.trace <+: trace) (ht : trace <+: t.trace) (hc : lastConfig trace = some c) :
      CrashStep R P s (sentinelHandleConfiguration R now c trace)

/-- Runs with crashes. -/
def CrashSteps (R : Resolver) (P : Env → SentinelState M → Action M → Prop) :
    SentinelState M → SentinelState M → Prop :=
  Relation.ReflTransGen (CrashStep R P)

end Runs

/-! ## The invariant -/

/-- A vote that has left the process: published, or sent in a reply. -/
def Given (es : List (Effect M)) (m : M) (leader : Bytes) (epoch : Nat) : Prop :=
  .voteForLeader m leader epoch ∈ es ∨ .voteReply m (some leader) epoch ∈ es

/-- The epochs of the vote replies about a master, in order. -/
def replyEpochs [DecidableEq M] (m : M) (es : List (Effect M)) : List Nat :=
  es.filterMap (fun e =>
    match e with
    | .voteReply m' _ epoch => if m' = m then some epoch else none
    | _ => none)

theorem mem_replyEpochs [DecidableEq M] {m : M} {es : List (Effect M)} {epoch : Nat} :
    epoch ∈ replyEpochs m es ↔ ∃ leader, .voteReply m leader epoch ∈ es := by
  unfold replyEpochs
  rw [List.mem_filterMap]
  constructor
  · rintro ⟨e, he, hsome⟩
    cases e with
    | voteReply m' leader epoch' =>
      by_cases hm : m' = m
      · subst hm
        simp only [if_true, Option.some.injEq] at hsome
        subst hsome
        exact ⟨leader, he⟩
      · simp [hm] at hsome
    | _ => cases hsome
  · rintro ⟨leader, hmem⟩
    exact ⟨_, hmem, by simp⟩

/-- What the last configuration written knows about the votes; the second half holds as long
    as no epoch wraps. -/
structure Written (w : Prop) (s : SentinelState M) (c : Config M) : Prop where
  last : lastConfig s.trace = some c
  leaderEpoch : ∀ m, (c.masters m).leaderEpoch = (s.masters m).leaderEpoch
  given : w → ∀ m leader epoch, Given s.trace m leader epoch → epoch ≤ c.currentEpoch
  leader : w → ∀ m, (s.masters m).leader ≠ none → (s.masters m).leaderEpoch ≤ c.currentEpoch
  currentEpoch : w → c.currentEpoch ≤ s.currentEpoch

/-- The votes given, the leader in memory and the configuration on disk agree. -/
structure VoteInv [DecidableEq M] (w : Prop) (s : SentinelState M) : Prop where
  unique : ∀ m leader leader' epoch, Given s.trace m leader epoch → Given s.trace m leader' epoch →
    leader = leader'
  bound : ∀ m leader epoch, Given s.trace m leader epoch → epoch ≤ (s.masters m).leaderEpoch ∧
    (epoch = (s.masters m).leaderEpoch →
      (s.masters m).leader = some leader ∨ (s.masters m).leader = none)
  sorted : ∀ m, (replyEpochs m s.trace).Pairwise (· ≤ ·)
  replied : ∀ m, ∀ epoch ∈ replyEpochs m s.trace, epoch ≤ (s.masters m).leaderEpoch
  written : ∃ c, Written w s c

theorem given_append (es : List (Effect M)) (e : Effect M) (m : M) (leader : Bytes) (epoch : Nat) :
    Given (es ++ [e]) m leader epoch ↔
      Given es m leader epoch ∨ e = .voteForLeader m leader epoch ∨
        e = .voteReply m (some leader) epoch := by
  unfold Given
  simp only [List.mem_append, List.mem_singleton]
  constructor
  · rintro ((h | h) | (h | h))
    · exact .inl (.inl h)
    · exact .inr (.inl h.symm)
    · exact .inl (.inr h)
    · exact .inr (.inr h.symm)
  · rintro ((h | h) | (h | h))
    · exact .inl (.inl h)
    · exact .inr (.inl h)
    · exact .inl (.inr h.symm)
    · exact .inr (.inr h.symm)

namespace VoteInv

variable [DecidableEq M] {w : Prop} {s t : SentinelState M}

/-- A change without a visible effect: no vote is given, a leader is forgotten at most, and
    the current epoch does not fall below the one written. -/
theorem of_silent (h : VoteInv w s) (htrace : t.trace = s.trace)
    (hepoch : w → ∀ c, lastConfig s.trace = some c → c.currentEpoch ≤ s.currentEpoch →
      c.currentEpoch ≤ t.currentEpoch)
    (hm : ∀ m, (t.masters m).leaderEpoch = (s.masters m).leaderEpoch ∧
      ((t.masters m).leader = (s.masters m).leader ∨ (t.masters m).leader = none)) :
    VoteInv w t where
  unique := by
    rw [htrace]
    exact h.unique
  bound := by
    intro m leader epoch hg
    rw [htrace] at hg
    obtain ⟨hle, heq⟩ := h.bound m leader epoch hg
    rw [(hm m).1]
    refine ⟨hle, fun he => ?_⟩
    rcases (hm m).2 with hl | hl
    · rw [hl]
      exact heq he
    · exact .inr hl
  sorted := by
    rw [htrace]
    exact h.sorted
  replied := by
    intro m epoch he
    rw [htrace] at he
    rw [(hm m).1]
    exact h.replied m epoch he
  written := by
    obtain ⟨c, hc⟩ := h.written
    refine ⟨c, ?_, ?_, ?_, ?_, fun hw => hepoch hw c hc.last (hc.currentEpoch hw)⟩
    · rw [htrace]
      exact hc.last
    · intro m
      rw [(hm m).1]
      exact hc.leaderEpoch m
    · intro hw m leader epoch hg
      rw [htrace] at hg
      exact hc.given hw m leader epoch hg
    · intro hw m hne
      rw [(hm m).1]
      refine hc.leader hw m (fun hnone => hne ?_)
      rcases (hm m).2 with hl | hl
      · rw [hl, hnone]
      · exact hl

/-- A change of one master that forgets its leader at most. -/
theorem of_set (h : VoteInv w s) {m : M} {r : Master}
    (hle : r.leaderEpoch = (s.masters m).leaderEpoch)
    (hl : r.leader = (s.masters m).leader ∨ r.leader = none) : VoteInv w (s.set m r) := by
  refine h.of_silent rfl (fun _ _ _ => id) (fun k => ?_)
  unfold SentinelState.set
  by_cases hk : k = m
  · subst hk
    simpa using ⟨hle, hl⟩
  · simp [hk]

/-- An effect that is no configuration: a vote that leaves the process is the one in memory. -/
theorem of_emit (h : VoteInv w s) {e : Effect M} (hflush : ∀ c, e ≠ .flushed c)
    (hvote : ∀ m leader epoch, e = .voteForLeader m leader epoch ∨ e = .voteReply m (some leader) epoch →
      (s.masters m).leader = some leader ∧ (s.masters m).leaderEpoch = epoch)
    (hreply : ∀ m leader epoch, e = .voteReply m leader epoch → (s.masters m).leaderEpoch = epoch) :
    VoteInv w (s.emit e) := by
  have hgiven : ∀ m leader epoch, Given (s.emit e).trace m leader epoch →
      Given s.trace m leader epoch ∨
        (s.masters m).leader = some leader ∧ (s.masters m).leaderEpoch = epoch := by
    intro m leader epoch hg
    rcases (given_append _ _ _ _ _).mp hg with hg | hg
    · exact .inl hg
    · exact .inr (hvote _ _ _ hg)
  have hreplies : ∀ m, replyEpochs m (s.emit e).trace = replyEpochs m s.trace ∨
      replyEpochs m (s.emit e).trace = replyEpochs m s.trace ++ [(s.masters m).leaderEpoch] := by
    intro m
    unfold SentinelState.emit replyEpochs
    rw [List.filterMap_append]
    cases e with
    | voteReply m' leader epoch =>
      by_cases hm : m' = m
      · subst hm
        simp [hreply m' leader epoch rfl]
      · simp [hm]
    | _ => simp
  have hlast : lastConfig (s.emit e).trace = lastConfig s.trace := by
    unfold SentinelState.emit
    rw [lastConfig_append]
    cases e with
    | flushed c => exact absurd rfl (hflush c)
    | _ => rfl
  obtain ⟨c, hc⟩ := h.written
  exact
    { unique := by
        intro m l l' epoch hg hg'
        -- a vote in memory and one given in the same epoch name the same leader
        have hold : ∀ a b, Given s.trace m a epoch → (s.masters m).leader = some b →
            (s.masters m).leaderEpoch = epoch → a = b := by
          intro a b ha hb he
          rcases (h.bound m a epoch ha).2 he.symm with hl | hl
          · rw [hb] at hl
            exact (Option.some.inj hl).symm
          · rw [hb] at hl
            cases hl
        rcases hgiven m l epoch hg with hg | ⟨hl, he⟩
        · rcases hgiven m l' epoch hg' with hg' | ⟨hl', he'⟩
          · exact h.unique m l l' epoch hg hg'
          · exact hold l l' hg hl' he'
        · rcases hgiven m l' epoch hg' with hg' | ⟨hl', -⟩
          · exact (hold l' l hg' hl he).symm
          · rw [hl] at hl'
            exact Option.some.inj hl'
      bound := by
        intro m l epoch hg
        rcases hgiven m l epoch hg with hg | ⟨hl, he⟩
        · exact h.bound m l epoch hg
        · exact ⟨he.ge, fun _ => .inl hl⟩
      sorted := by
        intro m
        rcases hreplies m with heq | heq
        · rw [heq]
          exact h.sorted m
        · rw [heq, List.pairwise_append]
          refine ⟨h.sorted m, List.pairwise_singleton _ _, ?_⟩
          intro a ha b hb
          rw [List.mem_singleton.mp hb]
          exact h.replied m a ha
      replied := by
        intro m epoch he
        rcases hreplies m with heq | heq
        · rw [heq] at he
          exact h.replied m epoch he
        · rw [heq] at he
          rcases List.mem_append.mp he with he | he
          · exact h.replied m epoch he
          · exact (List.mem_singleton.mp he).le
      written := by
        refine ⟨c, hlast.trans hc.last, hc.leaderEpoch, ?_, hc.leader, hc.currentEpoch⟩
        intro hw m l epoch hg
        rcases hgiven m l epoch hg with hg | ⟨hl, he⟩
        · exact hc.given hw m l epoch hg
        · rw [← he]
          exact hc.leader hw m (by rw [hl]; exact Option.some_ne_none l) }

/-- The current epoch bounds the votes given and the leader in memory. -/
theorem epochs_le (h : VoteInv w s) (hw : w) :
    (∀ m l epoch, Given s.trace m l epoch → epoch ≤ s.currentEpoch) ∧
      ∀ m, (s.masters m).leader ≠ none → (s.masters m).leaderEpoch ≤ s.currentEpoch := by
  obtain ⟨c, hc⟩ := h.written
  exact ⟨fun m l epoch hg => (hc.given hw m l epoch hg).trans (hc.currentEpoch hw),
    fun m hne => (hc.leader hw m hne).trans (hc.currentEpoch hw)⟩

/-- The whole state is written, after votes in epochs later than all before. -/
theorem of_flush (h : VoteInv w s) (htrace : t.trace = s.trace)
    (hm : ∀ m, (t.masters m).leaderEpoch = (s.masters m).leaderEpoch ∧
      (t.masters m).leader = (s.masters m).leader ∨
        (s.masters m).leaderEpoch < (t.masters m).leaderEpoch)
    (hleader : w → ∀ m, (t.masters m).leader ≠ none → (t.masters m).leaderEpoch ≤ t.currentEpoch)
    (hepoch : w → s.currentEpoch ≤ t.currentEpoch) : VoteInv w t.sentinelFlushConfig := by
  have hg : ∀ m l epoch, Given t.sentinelFlushConfig.trace m l epoch → Given s.trace m l epoch := by
    intro m l epoch hg
    rw [← htrace]
    rcases (given_append _ _ _ _ _).mp hg with hg | hg | hg
    · exact hg
    · cases hg
    · cases hg
  have hreplies : ∀ m, replyEpochs m t.sentinelFlushConfig.trace = replyEpochs m s.trace := by
    intro m
    rw [← htrace]
    unfold SentinelState.sentinelFlushConfig SentinelState.emit replyEpochs
    rw [List.filterMap_append]
    simp
  have hmasters : t.sentinelFlushConfig.masters = t.masters := rfl
  exact
    { unique := fun m l l' epoch h₁ h₂ => h.unique m l l' epoch (hg _ _ _ h₁) (hg _ _ _ h₂)
      bound := by
        intro m l epoch h₁
        obtain ⟨hle, heq⟩ := h.bound m l epoch (hg _ _ _ h₁)
        rw [hmasters]
        rcases hm m with ⟨hse, hsl⟩ | hlt
        · rw [hse, hsl]
          exact ⟨hle, heq⟩
        · exact ⟨by omega, fun he => by omega⟩
      sorted := fun m => by
        rw [hreplies]
        exact h.sorted m
      replied := by
        intro m epoch he
        rw [hreplies] at he
        have hle := h.replied m epoch he
        rw [hmasters]
        rcases hm m with ⟨hse, -⟩ | hlt
        · rw [hse]
          exact hle
        · omega
      written := by
        refine ⟨rewriteConfigSentinelOption t, lastConfig_append _ _, fun _ => rfl, ?_, hleader,
          fun _ => le_refl _⟩
        intro hw m l epoch h₁
        exact ((h.epochs_le hw).1 m l epoch (hg _ _ _ h₁)).trans (hepoch hw) }

end VoteInv

/-! ## Every move -/

/-- A switch of address forgets the leader and keeps its epoch. -/
theorem switchAddress_vote (R : Resolver) (now : Int) (r : Master) (addr : Addr) :
    (switchAddress R now r addr).leaderEpoch = r.leaderEpoch ∧
      (switchAddress R now r addr).leader = none := by
  obtain ⟨slaves, hslaves⟩ := switchAddress_eq R now r addr
  rw [hslaves]
  exact ⟨rfl, rfl⟩

/-- The configuration file says in which epoch the last vote was, not for whom. -/
theorem loadMaster_vote (R : Resolver) (now : Int) (c : MasterConfig) :
    (loadMaster R now c).leaderEpoch = c.leaderEpoch ∧ (loadMaster R now c).leader = none := by
  unfold loadMaster
  obtain ⟨slaves, hslaves⟩ := createSlaves_eq R now c.knownSlaves (loadMonitor now c)
  rw [hslaves]
  exact ⟨rfl, rfl⟩

variable [DecidableEq M]

/-- A vote on disk is of an epoch later than all before. -/
theorem VoteInv.writeVote {w : Prop} {s : SentinelState M} (hi : VoteInv w s) {m : M}
    (hlt : (s.masters m).leaderEpoch < s.currentEpoch) (runid : Bytes) :
    VoteInv w (writeVote s m runid) := by
  have hcur : (s.set m { s.masters m with
    leader := some runid, leaderEpoch := s.currentEpoch }).currentEpoch = s.currentEpoch := rfl
  refine hi.of_flush rfl (fun k => ?_) (fun hw k hne => ?_) (fun _ => le_refl _)
  · by_cases hk : k = m
    · subst hk
      rw [set_masters_self]
      exact .inr hlt
    · exact .inl (by simp [SentinelState.set, hk])
  · rw [hcur]
    by_cases hk : k = m
    · subst hk
      rw [set_masters_self]
    · simp only [SentinelState.set, hk, if_false] at hne ⊢
      exact (hi.epochs_le hw).2 k hne

variable {s t : SentinelState M}

/-- Every move keeps the invariant. -/
theorem Move.voteInv {sc : Scope M} (h : Move sc s t) (hi : VoteInv sc.noWrap s) : VoteInv sc.noWrap t := by
  cases h with
  | quiet hid hepoch htrace hm =>
    exact hi.of_silent htrace (fun _ _ _ hle => hepoch ▸ hle) (fun m => ⟨(hm m).leaderEpoch, (hm m).leader⟩)
  | flush => exact hi.of_flush rfl (fun _ => .inl ⟨rfl, rfl⟩) (fun hw => (hi.epochs_le hw).2) (fun _ => le_refl _)
  | raise hlt _ => exact hi.of_silent rfl (fun _ _ _ hle => hle.trans hlt.le) (fun m => ⟨rfl, .inl rfl⟩)
  | @start env m hidle hwrap =>
    refine hi.of_silent rfl ?_ (fun k => ?_)
    · -- the next epoch, unless it wraps
      intro hw c _ hle
      have hlt := hwrap hw
      show c.currentEpoch ≤ nextEpoch s.currentEpoch
      unfold nextEpoch
      omega
    · unfold sentinelStartFailover SentinelState.set
      by_cases hk : k = m
      · subst hk
        simp
      · simp [hk]
  | @vote m runid hlt hc =>
    refine (hi.writeVote hlt runid).of_emit (fun c hc => by cases hc) ?_ (fun _ _ _ he => by cases he)
    intro k l epoch he
    rcases he with he | he
    · cases he
      simp [Sentinel.writeVote, SentinelState.sentinelFlushConfig, SentinelState.emit]
    · cases he
  | reply hr =>
    refine hi.of_emit (fun c hc => by cases hc) ?_ ?_
    · intro k l epoch he
      rcases he with he | he
      · cases he
      · injection he with hm hl he
        subst hm
        exact ⟨hl, he⟩
    · intro k l epoch he
      cases he
      rfl
  | @elected m now hstate hel =>
    refine VoteInv.of_set (hi.of_emit (fun c hc => by cases hc) ?_ (fun _ _ _ he => by cases he)) rfl (.inl rfl)
    intro k l epoch he
    rcases he with he | he <;> cases he
  | promote _ _ => exact hi.of_set rfl (.inl rfl)
  | @switch m R now addr _ hstate haddr =>
    obtain ⟨hle, hl⟩ := switchAddress_vote R now (s.masters m) addr
    exact hi.of_set hle (.inr hl)
  | adopt _ _ _ _ => exact hi.of_set rfl (.inl rfl)
  | @adoptSwitch hello R now addr _ hh hlt hne haddr =>
    obtain ⟨hle, hl⟩ := switchAddress_vote R now
      { s.masters hello.master with configEpoch := hello.masterConfigEpoch } addr
    exact hi.of_set hle (.inr hl)
  | slaveOf | ask _ =>
    refine hi.of_emit (fun c hc => by cases hc) ?_ (fun _ _ _ he => by cases he)
    intro k l epoch he
    rcases he with he | he <;> cases he

/-- A crash inside an action falls between two of its moves, or in the middle of a vote. -/
theorem Moves.cut {sc : Scope M} (h : Moves sc s t) {trace : List (Effect M)} (hs : s.trace <+: trace)
    (ht : trace <+: t.trace) :
    ∃ u, Moves sc s u ∧ (u.trace = trace ∨
      ∃ m runid, (u.masters m).leaderEpoch < u.currentEpoch ∧ (writeVote u m runid).trace = trace) := by
  -- the part of a trace up to its last effect
  have hcut : ∀ {a b : List (Effect M)} {e : Effect M}, b = a ++ [e] → trace <+: b →
      trace <+: a ∨ trace = b := by
    intro a b e hb htb
    by_cases hlen : trace.length ≤ a.length
    · refine .inl (List.prefix_of_prefix_length_le htb ?_ hlen)
      rw [hb]
      exact List.prefix_append _ _
    · refine .inr (htb.eq_of_length_le ?_)
      rw [hb, List.length_append, List.length_singleton]
      omega
  induction h with
  | refl => exact ⟨s, Moves.refl, .inl (hs.eq_of_length_le ht.length_le)⟩
  | @tail u v hu hmove ih =>
    rcases hmove.trace with he | ⟨e, he⟩ | ⟨m, runid, e, hlt, he⟩
    · exact ih (he ▸ ht)
    · rcases hcut he ht with ht | ht
      · exact ih ht
      · exact ⟨v, Moves.move hu hmove, .inl ht.symm⟩
    · rcases hcut he ht with ht | ht
      · rcases hcut rfl ht with ht | ht
        · exact ih ht
        · exact ⟨u, hu, .inr ⟨m, runid, hlt, ht.symm⟩⟩
      · exact ⟨v, Moves.move hu hmove, .inl ht.symm⟩

/-- The replies sent so far are of epochs below `2^63`: what they say is what the code means. -/
def RepliesFit (es : List (Effect M)) : Prop :=
  ∀ m leader epoch, .voteReply m leader epoch ∈ es → epoch < 9223372036854775808

omit [DecidableEq M] in
/-- A configuration written is no reply. -/
theorem RepliesFit.flush {s : SentinelState M} (h : RepliesFit s.trace) :
    RepliesFit s.sentinelFlushConfig.trace := by
  intro m l epoch hmem
  rcases List.mem_append.mp hmem with hmem | hmem
  · exact h m l epoch hmem
  · cases List.mem_singleton.mp hmem

theorem Moves.repliesFit {sc : Scope M} (h : Moves sc s t)
    (hr : ∀ m epoch, sc.reply m epoch → epoch < 9223372036854775808) (hs : RepliesFit s.trace) :
    RepliesFit t.trace := by
  refine h.invariant (fun u => RepliesFit u.trace) hs ?_
  intro u v hmove hu
  have hold : v.trace = u.trace → RepliesFit v.trace := fun he => he ▸ hu
  have hnew : ∀ e, v.trace = u.trace ++ [e] → (∀ m l epoch, e ≠ .voteReply m l epoch) →
      RepliesFit v.trace := by
    intro e he hne m l epoch hmem
    rw [he] at hmem
    rcases List.mem_append.mp hmem with hmem | hmem
    · exact hu m l epoch hmem
    · exact absurd (List.mem_singleton.mp hmem).symm (hne m l epoch)
  cases hmove with
  | quiet _ _ htrace _ => exact hold htrace
  | flush => exact RepliesFit.flush hu
  | raise _ _ | start _ _ => exact hold rfl
  | vote _ _ =>
    intro k l epoch hmem
    rcases List.mem_append.mp hmem with hmem | hmem
    · exact RepliesFit.flush (s := u.set _ _) hu k l epoch hmem
    · cases List.mem_singleton.mp hmem
  | reply hreply =>
    intro k l epoch hmem
    rcases List.mem_append.mp hmem with hmem | hmem
    · exact hu k l epoch hmem
    · cases List.mem_singleton.mp hmem
      exact hr _ _ hreply
  | elected _ _ => exact hnew _ rfl (fun _ _ _ he => by cases he)
  | promote _ _ | switch _ _ _ | adopt _ _ _ _ | adoptSwitch _ _ _ _ _ => exact hold rfl
  | slaveOf | ask _ => exact hnew _ rfl (fun _ _ _ he => by cases he)

/-! ## Every run -/

/-- No election starts in the last epoch there is. -/
def ElectionFits (env : Env) (s : SentinelState M) (a : Action M) : Prop :=
  StartsFailover env s a → s.currentEpoch < 18446744073709551615

/-- A request for a vote is not of a negative epoch, and finds no vote of an epoch from `2^63`
    on. -/
def RequestFits (s : SentinelState M) : Action M → Prop
  | .downRequest (some m) req => 0 ≤ req.epoch ∧ (s.masters m).leaderEpoch < 9223372036854775808
  | _ => True

section Runs

variable [Fintype M] {R : Resolver} {P : Env → SentinelState M → Action M → Prop}

/-- A restart keeps the invariant: the leader is forgotten, its epoch is not. -/
theorem VoteInv.restart {w : Prop} {s : SentinelState M} (h : VoteInv w s) {c : Config M}
    (hc : lastConfig s.trace = some c) (now : Int) :
    VoteInv w (sentinelHandleConfiguration R now c s.trace) := by
  refine h.of_silent rfl ?_ (fun m => ?_)
  · intro _ c' hc' _
    rw [hc] at hc'
    cases hc'
    exact le_max_left _ _
  · obtain ⟨d, hd⟩ := h.written
    have hcd := hd.last
    rw [hc] at hcd
    cases hcd
    have hload := loadMaster_vote R now (c.masters m)
    exact ⟨hload.1.trans (hd.leaderEpoch m), .inr hload.2⟩

variable {s t : SentinelState M}

/-- What is kept by moves, by half a vote and by restarts is kept by every step. -/
theorem CrashStep.invariant (h : CrashStep R P s t) (noWrap : Prop)
    (hP : ∀ env u a, P env u a → noWrap → ElectionFits env u a) (I : SentinelState M → Prop)
    (hmoves : ∀ env a u, a.Enabled s → P env s a → Moves (actionScope R s noWrap a) s u → I u)
    (hwrite : ∀ u m runid, (u.masters m).leaderEpoch < u.currentEpoch → I u → I (writeVote u m runid))
    (hrestart : ∀ now c u, lastConfig u.trace = some c → I u →
      I (sentinelHandleConfiguration R now c u.trace)) : I t := by
  cases h with
  | act ha hp hstep => exact hmoves _ _ _ ha hp (step_moves R _ ha hstep (hP _ _ _ hp))
  | crash ha hp hstep hs ht hc =>
    -- the moves up to the crash, then the restart
    obtain ⟨u, hu, hut | ⟨m, runid, hlt, hut⟩⟩ :=
      (step_moves R _ ha hstep (hP _ _ _ hp)).cut hs ht
    · rw [← hut] at hc ⊢
      exact hrestart _ _ u hc (hmoves _ _ u ha hp hu)
    · rw [← hut] at hc ⊢
      exact hrestart _ _ _ hc (hwrite u m runid hlt (hmoves _ _ u ha hp hu))

theorem CrashSteps.voteInv {w : Prop} (hP : ∀ env u a, P env u a → w → ElectionFits env u a)
    (h : CrashSteps R P s t) (hi : VoteInv w s) : VoteInv w t := by
  induction h with
  | refl => exact hi
  | tail _ hstep ih =>
    refine hstep.invariant w hP (VoteInv w) ?_ ?_ ?_
    · intro env a u _ _ hmoves
      exact hmoves.invariant (VoteInv w) ih (fun _ _ hm hv => hm.voteInv hv)
    · intro u m runid hlt hu
      exact hu.writeVote hlt runid
    · intro now c u hc hu
      exact hu.restart hc now

theorem CrashSteps.repliesFit (hP : ∀ env u a, P env u a → RequestFits u a) (h : CrashSteps R P s t)
    (hs : RepliesFit s.trace) :
    RepliesFit t.trace := by
  induction h with
  | refl => exact hs
  | tail _ hstep ih =>
    refine hstep.invariant False (fun _ _ _ _ hf => hf.elim) (fun u => RepliesFit u.trace) ?_ ?_ ?_
    · intro env a u ha hp hmoves
      refine hmoves.repliesFit (fun m epoch hr => ?_) ih
      obtain ⟨req, rfl, hepoch⟩ := hr
      obtain ⟨hpos, hold⟩ := hP _ _ _ hp
      have hfits := ha.1
      rcases hepoch with he | he
      · rw [he]
        exact hold
      · unfold DownRequest.Fits at hfits
        unfold toUint64 at he
        omega
    · exact fun u m runid _ hu => RepliesFit.flush (s := u.set _ _) hu
    · exact fun _ _ _ _ hu => hu

/-- A Sentinel that starts from a configuration has given no votes. -/
theorem voteInv_init (w : Prop) (now : Int) (c : Config M) :
    VoteInv w (sentinelHandleConfiguration R now c [.flushed c]) := by
  have hnone : ∀ m l epoch, ¬ Given [Effect.flushed c] m l epoch := by
    intro m l epoch hg
    rcases hg with hg | hg
    · cases List.mem_singleton.mp hg
    · cases List.mem_singleton.mp hg
  have hleader := fun m => loadMaster_vote R now (c.masters m)
  exact
    { unique := fun m l l' epoch hg _ => absurd hg (hnone m l epoch)
      bound := fun m l epoch hg => absurd hg (hnone m l epoch)
      sorted := fun m => List.Pairwise.nil
      replied := fun m epoch he => by cases he
      written := ⟨c, rfl, fun m => (hleader m).1.symm, fun _ m l epoch hg => absurd hg (hnone m l epoch),
        fun _ m hne => absurd (hleader m).2 hne, fun _ => le_max_left _ _⟩ }

/-- An epoch below `2^63` is sent as it is. -/
theorem toLongLong_of_lt {n : Nat} (h : n < 9223372036854775808) : toLongLong n = n := by
  unfold toLongLong
  rw [Int.bmod_eq_of_le] <;> omega

/-- Votes are durable and unique. In every run with crashes, two vote replies about a master
    that a receiver reads as of the same epoch name the same leader, and the epochs it reads
    never decrease. If no election starts in the last epoch there is, the current epoch never
    falls below that of a vote given; if no request is of a negative epoch or finds a vote from
    `2^63` on, the same holds of the numbers as they are sent. -/
theorem votes_durable (R : Resolver) (now : Int) (c : Config M) (s : SentinelState M) :
    (CrashSteps R (fun _ _ _ => True) (sentinelHandleConfiguration R now c [.flushed c]) s →
      (∀ m leader leader' epoch, .voteReply m (some leader) epoch ∈ s.trace →
        .voteReply m (some leader') epoch ∈ s.trace → leader = leader') ∧
      ∀ m, (replyEpochs m s.trace).Pairwise (· ≤ ·)) ∧
    (CrashSteps R (fun env u a => ElectionFits env u a ∧ RequestFits u a)
        (sentinelHandleConfiguration R now c [.flushed c]) s →
      (∀ m leader leader' epoch epoch', .voteReply m (some leader) epoch ∈ s.trace →
        .voteReply m (some leader') epoch' ∈ s.trace → toLongLong epoch = toLongLong epoch' →
        leader = leader') ∧
      (∀ m, ((replyEpochs m s.trace).map toLongLong).Pairwise (· ≤ ·)) ∧
      ∀ m leader epoch, Given s.trace m leader epoch → epoch ≤ s.currentEpoch) := by
  constructor
  · intro h
    have hi := h.voteInv (w := False) (fun _ _ _ _ hf => hf.elim) (voteInv_init False now c)
    exact ⟨fun m l l' epoch h₁ h₂ => hi.unique m l l' epoch (.inr h₁) (.inr h₂), hi.sorted⟩
  · intro h
    have hi := h.voteInv (w := True) (fun _ _ _ hp _ => hp.1) (voteInv_init True now c)
    have hfit : RepliesFit s.trace := by
      refine h.repliesFit (fun _ _ _ hp => hp.2) (fun m l epoch hmem => ?_)
      cases List.mem_singleton.mp hmem
    refine ⟨?_, ?_, (hi.epochs_le trivial).1⟩
    · intro m l l' epoch epoch' h₁ h₂ he
      rw [toLongLong_of_lt (hfit _ _ _ h₁), toLongLong_of_lt (hfit _ _ _ h₂)] at he
      have he' : epoch = epoch' := by omega
      subst he'
      exact hi.unique m l l' epoch (.inr h₁) (.inr h₂)
    · intro m
      rw [List.pairwise_map]
      refine (hi.sorted m).imp_of_mem ?_
      intro a b ha hb hab
      obtain ⟨l, hl⟩ := mem_replyEpochs.mp ha
      obtain ⟨l', hl'⟩ := mem_replyEpochs.mp hb
      rw [toLongLong_of_lt (hfit _ _ _ hl), toLongLong_of_lt (hfit _ _ _ hl')]
      omega

end Runs

/-- A run without crashes. -/
theorem Steps.crashSteps [Fintype M] {R : Resolver} {P : Env → SentinelState M → Action M → Prop}
    (h : Steps R P s t) : CrashSteps R P s t :=
  Relation.ReflTransGen.mono (fun _ _ ⟨_, _, ha, hp, hv⟩ => CrashStep.act ha hp hv) _ _ h

/-! ## A request of a negative epoch -/

/-- One master, no slaves, and no other Sentinel. -/
def lonelyConfig : Config Unit where
  myid := [97]
  masters := fun _ =>
    { addr := ⟨[109], 1⟩, quorum := 1, downAfterPeriod := 30000, failoverTimeout := 1000,
      parallelSyncs := 1, configEpoch := 0, leaderEpoch := 0, knownSlaves := [],
      knownSentinels := [] }
  currentEpoch := 0

/-- Another Sentinel asks for a vote. -/
def requestVote (epoch : Int) (s : SentinelState Unit) : Action Unit :=
  .downRequest (some ()) { addr := (s.masters ()).addr, epoch := epoch, runid := some [98] }

theorem requestVote_enabled {epoch : Int} (hlo : -9223372036854775808 ≤ epoch)
    (hhi : epoch < 9223372036854775808) (s : SentinelState Unit) : (requestVote epoch s).Enabled s :=
  ⟨⟨hlo, hhi⟩, rfl⟩

/-- The state this configuration is read into. -/
def lonelyStart : SentinelState Unit :=
  sentinelHandleConfiguration literalResolver 0 lonelyConfig [.flushed lonelyConfig]

theorem votes_durable_requested :
    ∃ s, CrashSteps literalResolver (fun env u a => ElectionFits env u a ∧ RequestFits u a)
        lonelyStart s ∧
      replyEpochs () s.trace = [5] ∧
      ∀ m leader epoch, Given s.trace m leader epoch → epoch ≤ s.currentEpoch := by
  obtain ⟨s, hs, hreplies⟩ : ∃ s, step literalResolver (envAt 100) lonelyStart
      (requestVote 5 lonelyStart) = .ok s ∧ replyEpochs () s.trace = [5] := ⟨_, rfl, by rfl⟩
  have helection : ElectionFits (envAt 100) lonelyStart (requestVote 5 lonelyStart) := fun hf => hf.elim
  have hrequest : RequestFits lonelyStart (requestVote 5 lonelyStart) := ⟨by decide, by decide⟩
  have hrun : CrashSteps literalResolver (fun env u a => ElectionFits env u a ∧ RequestFits u a)
      lonelyStart s := Relation.ReflTransGen.single
    (CrashStep.act (requestVote_enabled (by decide) (by decide) _) ⟨helection, hrequest⟩ hs)
  have h := votes_durable literalResolver 0 lonelyConfig s
  exact ⟨s, hrun, hreplies, (h.2 hrun).2.2⟩

/-- A vote in epoch 5, one in epoch -1, and an election of our own. -/
def wrapRun : List (Env × (SentinelState Unit → Action Unit)) :=
  [(envAt 100, requestVote 5),
   (envAt 200, requestVote (-1)),
   (envAt 31000, fun _ => .handleMaster ())]

/-- The vote of epoch -1. -/
def isWrappedReply : Effect Unit → Bool
  | .voteReply () (some l) epoch => l = [98] && epoch = 18446744073709551615
  | _ => false

theorem mem_of_isWrappedReply {trace : List (Effect Unit)} (h : trace.any isWrappedReply = true) :
    .voteReply () (some [98]) 18446744073709551615 ∈ trace := by
  obtain ⟨e, he, hreply⟩ := List.any_eq_true.mp h
  unfold isWrappedReply at hreply
  split at hreply
  · simp only [Bool.and_eq_true, decide_eq_true_eq] at hreply
    obtain ⟨rfl, rfl⟩ := hreply
    exact he
  · cases hreply

/-- The epochs sent are 5 and -1, and the election starts in epoch 0: the increment has
    wrapped. -/
theorem votes_wrap :
    ∃ s, CrashSteps literalResolver (fun _ _ _ => True) lonelyStart s ∧
      (replyEpochs () s.trace).map toLongLong = [5, -1] ∧
      .voteReply () (some [98]) 18446744073709551615 ∈ s.trace ∧ s.currentEpoch = 0 := by
  obtain ⟨s, hs⟩ : ∃ s, exec literalResolver wrapRun lonelyStart = .ok s := ⟨_, rfl⟩
  have hfinal : ∀ t, exec literalResolver wrapRun lonelyStart = .ok t →
      (replyEpochs () t.trace).map toLongLong = [5, -1] ∧ t.currentEpoch = 0 ∧
        t.trace.any isWrappedReply = true := by
    have hb : (match exec literalResolver wrapRun lonelyStart with
        | .ok t => decide ((replyEpochs () t.trace).map toLongLong = [5, -1] ∧ t.currentEpoch = 0 ∧
            t.trace.any isWrappedReply = true)
        | .error _ => true) = true := by rfl
    intro t ht
    rw [ht] at hb
    exact of_decide_eq_true hb
  obtain ⟨hreplies, hepoch, hany⟩ := hfinal s hs
  refine ⟨s, Steps.crashSteps (steps_of_exec hs ?_), hreplies, ?_, hepoch⟩
  · intro p hp u
    simp only [wrapRun, List.mem_cons, List.not_mem_nil, or_false] at hp
    rcases hp with rfl | rfl | rfl
    · exact ⟨requestVote_enabled (by decide) (by decide) u, trivial⟩
    · exact ⟨requestVote_enabled (by decide) (by decide) u, trivial⟩
    · exact ⟨trivial, trivial⟩
  · exact mem_of_isWrappedReply hany

end Redis.Sentinel
