import Mathlib.Data.Fintype.Card
import Redis.Sentinel.Net

namespace Redis.Sentinel

/-!
# Sentinel — leaders are unique

Sentinels that all know each other, never restart, and lead failovers nobody forces.

* `NodeInv` — what one Sentinel keeps by itself: the others it knows, one vote an epoch, and
  every vote in memory published;
* `NetInv` — what the votes heard and the elections won rest on: votes given elsewhere;
* `leader_unique` — **at most one Sentinel wins an epoch, by a majority**, as long as the votes
  it counts are of the epoch it counts them for;
* `two_leaders` — they need not be: `sentinelGetLeader` compares the votes of the others with
  the current epoch, which another election may have raised.
-/

variable {I M : Type}

/-- Fixed membership: ids that are different in any case, and all the others in every
    configuration; epochs are read by `strtoull`. -/
structure Group.Mutual (G : Group I M) : Prop where
  distinct : ∀ i j, strcaseeq (G.id i) (G.id j) = true → i = j
  myid : ∀ i, (G.conf i).myid = G.id i
  once : ∀ i m, (((G.conf i).masters m).knownSentinels.map (·.2)).Nodup
  known : ∀ i m p, p ∈ ((G.conf i).masters m).knownSentinels ↔
    ∃ j, j ≠ i ∧ p = (G.announce j, G.id j)
  fits : ∀ i, (G.conf i).currentEpoch < 18446744073709551616 ∧
    ∀ m, ((G.conf i).masters m).configEpoch < 18446744073709551616 ∧
      ((G.conf i).masters m).leaderEpoch < 18446744073709551616

variable [DecidableEq M]

/-- The votes a Sentinel counts are those of the epoch it stands for: while it waits for
    votes, its failover is of the current epoch, or the stored votes for it in the current
    epoch are none or too few.  A request finds the master it is about, and nobody forces or
    resets anything. -/
def VotesMatch (_ : Env) (s : SentinelState M) (asked : Option M) : Action M → Prop
  | .handleMaster m =>
    (s.masters m).failoverState = .waitStart → s.currentEpoch = (s.masters m).failoverEpoch ∨
      votesFor (s.masters m).sentinels s.currentEpoch s.myid = 0 ∨
      votesFor (s.masters m).sentinels s.currentEpoch s.myid < ((s.masters m).sentinels.length + 1) / 2
  | .downRequest (some m) _ => asked = some m
  | .failover _ => False
  | .reset _ => False
  | _ => True

/-! ## One Sentinel -/

/-- What a Sentinel keeps by itself. -/
structure NodeInv (G : Group I M) (i : I) (s : SentinelState M) : Prop where
  myid : s.myid = G.id i
  members : ∀ m, (s.masters m).sentinels.map Peer.ident =
    ((G.conf i).masters m).knownSentinels.map Prod.swap
  unforced : ∀ m, (s.masters m).forceFailover = false
  votes : VoteInv False s
  /-- A vote in memory has been published. -/
  backed : ∀ m leader, (s.masters m).leader = some leader →
    .voteForLeader m leader (s.masters m).leaderEpoch ∈ s.trace
  named : ∀ m leader epoch, .voteForLeader m leader epoch ∈ s.trace → ∃ k, leader = G.id k
  fits : s.currentEpoch < 18446744073709551616 ∧
    ∀ m, (s.masters m).leaderEpoch < 18446744073709551616 ∧
      (s.masters m).failoverEpoch < 18446744073709551616
  asks : ∀ m sentinel addr epoch runid, .ask m sentinel addr epoch (some runid) ∈ s.trace →
    runid = G.id i
  tidy : ∀ m, (s.masters m).Tidy
  /-- Past the election there has been one. -/
  led : ∀ m, 2 ≤ (s.masters m).failoverState.code →
    .electedLeader m (s.masters m).failoverEpoch ∈ s.trace

namespace NodeInv

variable {G : Group I M} {i : I} {s t : SentinelState M}

/-- An effect that is no vote and no request for one. -/
theorem emit (h : NodeInv G i s) {e : Effect M} (hv : VoteInv False (s.emit e))
    (hvote : ∀ m leader epoch, e ≠ .voteForLeader m leader epoch)
    (hask : ∀ m sentinel addr epoch runid, e = .ask m sentinel addr epoch (some runid) →
      runid = G.id i) : NodeInv G i (s.emit e) where
  myid := h.myid
  members := h.members
  unforced := h.unforced
  votes := hv
  backed := fun m leader hl => List.mem_append_left _ (h.backed m leader hl)
  named := by
    intro m leader epoch hmem
    rcases List.mem_append.mp hmem with hmem | hmem
    · exact h.named m leader epoch hmem
    · exact absurd (List.mem_singleton.mp hmem).symm (hvote m leader epoch)
  fits := h.fits
  asks := by
    intro m sentinel addr epoch runid hmem
    rcases List.mem_append.mp hmem with hmem | hmem
    · exact h.asks m sentinel addr epoch runid hmem
    · exact hask m sentinel addr epoch runid (List.mem_singleton.mp hmem).symm
  tidy := h.tidy
  led := fun m hcode => List.mem_append_left _ (h.led m hcode)

/-- A change without a visible effect. -/
theorem silent (h : NodeInv G i s) (hv : VoteInv False t) (htidy : ∀ m, (t.masters m).Tidy)
    (hid : t.myid = s.myid) (htrace : t.trace = s.trace)
    (hcur : t.currentEpoch < 18446744073709551616)
    (hm : ∀ m, (t.masters m).sentinels.map Peer.ident = (s.masters m).sentinels.map Peer.ident ∧
      (t.masters m).forceFailover = false ∧ (t.masters m).leaderEpoch = (s.masters m).leaderEpoch ∧
      ((t.masters m).leader = (s.masters m).leader ∨ (t.masters m).leader = none) ∧
      (t.masters m).failoverEpoch < 18446744073709551616 ∧
      (2 ≤ (t.masters m).failoverState.code →
        .electedLeader m (t.masters m).failoverEpoch ∈ s.trace)) : NodeInv G i t where
  myid := hid.trans h.myid
  members := fun m => (hm m).1.trans (h.members m)
  unforced := fun m => (hm m).2.1
  votes := hv
  backed := by
    intro m leader hl
    obtain ⟨-, -, hle, hleader, -⟩ := hm m
    rw [htrace, hle]
    rcases hleader with hleader | hleader
    · exact h.backed m leader (hleader ▸ hl)
    · rw [hleader] at hl
      cases hl
  named := by
    rw [htrace]
    exact h.named
  fits := by
    refine ⟨hcur, fun m => ⟨?_, (hm m).2.2.2.2.1⟩⟩
    rw [(hm m).2.2.1]
    exact (h.fits.2 m).1
  asks := by
    rw [htrace]
    exact h.asks
  tidy := htidy
  led := by
    intro m hcode
    rw [htrace]
    exact (hm m).2.2.2.2.2 hcode

/-- A silent change of one master. -/
theorem set (h : NodeInv G i s) {m : M} {r : Master} (hv : VoteInv False (s.set m r))
    (htidy : ∀ k, ((s.set m r).masters k).Tidy)
    (hpeers : r.sentinels.map Peer.ident = (s.masters m).sentinels.map Peer.ident)
    (hforce : r.forceFailover = false) (hle : r.leaderEpoch = (s.masters m).leaderEpoch)
    (hl : r.leader = (s.masters m).leader ∨ r.leader = none)
    (hfe : r.failoverEpoch < 18446744073709551616)
    (hled : 2 ≤ r.failoverState.code → .electedLeader m r.failoverEpoch ∈ s.trace) :
    NodeInv G i (s.set m r) := by
  refine h.silent hv htidy rfl rfl h.fits.1 (fun k => ?_)
  unfold SentinelState.set
  by_cases hk : k = m
  · subst hk
    simpa using ⟨hpeers, hforce, hle, hl, hfe, hled⟩
  · simpa [hk] using ⟨h.unforced k, (h.fits.2 k).2, h.led k⟩

theorem vote (h : NodeInv G i s) {m : M} {runid : Bytes}
    (hv : VoteInv False ((writeVote s m runid).emit (.voteForLeader m runid s.currentEpoch)))
    (htidy : ∀ k, ((writeVote s m runid).masters k).Tidy) (hc : ∃ k, runid = G.id k) :
    NodeInv G i ((writeVote s m runid).emit (.voteForLeader m runid s.currentEpoch)) := by
  obtain ⟨t, ht⟩ : ∃ t, t = (writeVote s m runid).emit (.voteForLeader m runid s.currentEpoch) := ⟨_, rfl⟩
  have htrace : t.trace = s.trace ++ [.flushed (rewriteConfigSentinelOption (s.set m { s.masters m with
      leader := some runid, leaderEpoch := s.currentEpoch }))] ++ [.voteForLeader m runid s.currentEpoch] := by
    rw [ht]
    rfl
  have hmem : ∀ {e}, e ∈ s.trace → e ∈ t.trace := by
    intro e he
    rw [htrace]
    exact List.mem_append_left _ (List.mem_append_left _ he)
  have hinv : ∀ {e}, e ∈ t.trace → e ∈ s.trace ∨ (∃ c, e = .flushed c) ∨ e = .voteForLeader m runid s.currentEpoch := by
    intro e he
    rw [htrace, List.mem_append, List.mem_append, List.mem_singleton, List.mem_singleton] at he
    rcases he with (he | he) | he
    · exact .inl he
    · exact .inr (.inl ⟨_, he⟩)
    · exact .inr (.inr he)
  have hself : t.masters m = { s.masters m with leader := some runid, leaderEpoch := s.currentEpoch } := by
    rw [ht]
    exact set_masters_self _ _ _
  have hother : ∀ k, k ≠ m → t.masters k = s.masters k := by
    intro k hk
    rw [ht]
    exact if_neg hk
  have hid : t.myid = s.myid := by rw [ht]; rfl
  have hcur : t.currentEpoch = s.currentEpoch := by rw [ht]; rfl
  have hsame : ∀ k, (t.masters k).sentinels = (s.masters k).sentinels ∧
      (t.masters k).forceFailover = (s.masters k).forceFailover ∧
      (t.masters k).failoverEpoch = (s.masters k).failoverEpoch ∧
      (t.masters k).failoverState = (s.masters k).failoverState := by
    intro k
    by_cases hk : k = m
    · subst hk
      rw [hself]
      exact ⟨rfl, rfl, rfl, rfl⟩
    · rw [hother k hk]
      exact ⟨rfl, rfl, rfl, rfl⟩
  rw [← ht] at hv ⊢
  exact
    { myid := hid.trans h.myid
      members := fun k => by
        rw [(hsame k).1]
        exact h.members k
      unforced := fun k => (hsame k).2.1.trans (h.unforced k)
      votes := hv
      backed := by
        intro k leader hl
        by_cases hk : k = m
        · subst hk
          rw [hself] at hl ⊢
          cases hl
          rw [htrace]
          exact List.mem_append_right _ (List.mem_singleton_self _)
        · rw [hother k hk] at hl ⊢
          exact hmem (h.backed k leader hl)
      named := by
        intro k leader epoch he
        rcases hinv he with he | ⟨c, he⟩ | he
        · exact h.named k leader epoch he
        · cases he
        · cases he
          exact hc
      fits := by
        refine ⟨hcur ▸ h.fits.1, fun k => ⟨?_, (hsame k).2.2.1 ▸ (h.fits.2 k).2⟩⟩
        by_cases hk : k = m
        · subst hk
          rw [hself]
          exact h.fits.1
        · rw [hother k hk]
          exact (h.fits.2 k).1
      asks := by
        intro k sentinel addr epoch runid' he
        rcases hinv he with he | ⟨c, he⟩ | he
        · exact h.asks k sentinel addr epoch runid' he
        · cases he
        · cases he
      tidy := by
        rw [ht]
        exact htidy
      led := by
        intro k hcode
        rw [(hsame k).2.2.1]
        rw [(hsame k).2.2.2] at hcode
        exact hmem (h.led k hcode) }

/-- Every move keeps the invariant, where nothing is forced or reset. -/
theorem move {sc : Scope M} (hmembers : sc.members) (hforce : sc.unforced) (hreset : sc.noReset)
    (hwrap : sc.noWrap = False) (hcand : ∀ runid, sc.candidate runid → ∃ k, runid = G.id k)
    (h : Move sc s t) (hi : NodeInv G i s) : NodeInv G i t := by
  have hv : VoteInv False t := by
    have := h.voteInv (hwrap.symm ▸ hi.votes)
    rwa [hwrap] at this
  have htidy := h.tidy hi.tidy
  have hnone : ¬ 2 ≤ FailoverState.none.code := by decide
  have hwait : ¬ 2 ≤ FailoverState.waitStart.code := by decide
  cases h with
  | quiet hid hepoch htrace hm =>
    refine hi.silent hv htidy hid htrace (hepoch ▸ hi.fits.1) (fun m => ?_)
    have hq := hm m
    refine ⟨hq.members hmembers, ?_, hq.leaderEpoch, hq.leader, ?_, ?_⟩
    · by_contra hne
      have := hq.force hforce (by simpa using hne)
      rw [hi.unforced m] at this
      cases this
    · rw [hq.failoverEpoch]
      exact (hi.fits.2 m).2
    · intro hcode
      rw [hq.failoverEpoch]
      exact hi.led m ((hq.config hreset (hi.tidy m)).led hcode)
  | flush | reply _ | slaveOf =>
    exact hi.emit hv (fun _ _ _ he => by cases he) (fun _ _ _ _ _ he => by cases he)
  | raise hlt hb =>
    refine hi.silent hv htidy rfl rfl ?_ (fun m => ?_)
    · rcases hb with hb | ⟨m, hm⟩
      · exact hb
      · show _ < _
        rw [← hm]
        exact (hi.fits.2 m).2
    · exact ⟨rfl, hi.unforced m, rfl, .inl rfl, (hi.fits.2 m).2, hi.led m⟩
  | @start env m hidle _ =>
    have hnext : nextEpoch s.currentEpoch < 18446744073709551616 := Nat.mod_lt _ (by decide)
    refine hi.silent hv htidy rfl rfl hnext (fun k => ?_)
    by_cases hk : k = m
    · subst hk
      unfold sentinelStartFailover
      rw [set_masters_self]
      refine ⟨rfl, hi.unforced k, rfl, .inl rfl, hnext, fun hcode => ?_⟩
      exact absurd hcode hwait
    · have hother : (sentinelStartFailover env s m).masters k = s.masters k := if_neg hk
      rw [hother]
      exact ⟨rfl, hi.unforced k, rfl, .inl rfl, (hi.fits.2 k).2, hi.led k⟩
  | vote _ hc => exact hi.vote hv htidy (hcand _ hc)
  | @elected m now hstate _ =>
    have hemit : NodeInv G i (s.emit (.electedLeader m (s.masters m).failoverEpoch)) := by
      refine hi.emit ?_ (fun _ _ _ he => by cases he) (fun _ _ _ _ _ he => by cases he)
      refine hi.votes.of_emit (fun c hc => by cases hc) ?_ (fun _ _ _ he => by cases he)
      intro k l epoch he
      rcases he with he | he <;> cases he
    refine hemit.set hv htidy rfl (hi.unforced m) rfl (.inl rfl) (hi.fits.2 m).2 (fun _ => ?_)
    exact List.mem_append_right _ (List.mem_singleton_self _)
  | @promote m now _ hstate =>
    refine hi.set hv htidy rfl (hi.unforced m) rfl (.inl rfl) (hi.fits.2 m).2 (fun _ => ?_)
    refine hi.led m ?_
    rw [hstate]
    decide
  | @switch m R now addr _ _ _ =>
    obtain ⟨slaves, hslaves⟩ := switchAddress_eq R now (s.masters m) addr
    rw [hslaves] at hv htidy ⊢
    exact hi.set hv htidy rfl rfl rfl (.inr rfl) (hi.fits.2 m).2 (fun hcode => absurd hcode hnone)
  | @adopt h R now _ _ _ _ =>
    exact hi.set hv htidy rfl (hi.unforced h.master) rfl (.inl rfl) (hi.fits.2 h.master).2
      (hi.led h.master)
  | @adoptSwitch h R now addr _ _ _ _ _ =>
    obtain ⟨slaves, hslaves⟩ := switchAddress_eq R now
      { s.masters h.master with configEpoch := h.masterConfigEpoch } addr
    rw [hslaves] at hv htidy ⊢
    exact hi.set hv htidy rfl rfl rfl (.inr rfl) (hi.fits.2 h.master).2
      (fun hcode => absurd hcode hnone)
  | @ask m sentinel runid hr =>
    refine hi.emit hv (fun _ _ _ he => by cases he) (fun _ _ _ _ r he => ?_)
    injection he with _ _ _ _ hrunid
    rcases hr with hr | hr
    · rw [hr] at hrunid
      cases hrunid
    · rw [hr] at hrunid
      exact (Option.some.inj hrunid).symm.trans hi.myid

end NodeInv

/-! ## Votes heard and elections won -/

theorem NothingHeard.trans {l l' l'' : List Peer} (h : NothingHeard l l') (h' : NothingHeard l' l'') :
    NothingHeard l l'' := by
  intro q hq leader hl
  obtain ⟨p, hp, hrunid, hleader, hepoch⟩ := h' q hq leader hl
  obtain ⟨o, ho, hrunid', hleader', hepoch'⟩ := h p hp leader hleader
  exact ⟨o, ho, hrunid'.trans hrunid, hleader', hepoch'.trans hepoch⟩

/-- A move hears nothing, where nothing is to be heard. -/
theorem Move.heard {sc : Scope M} {s t : SentinelState M} (h : Move sc s t) (hh : sc.heard) (m : M) :
    NothingHeard (s.masters m).sentinels (t.masters m).sentinels := by
  -- all moves but the quiet ones leave the tables of Sentinels alone
  have hset : ∀ {u : SentinelState M} {k : M} {r : Master}, u.masters = s.masters →
      r.sentinels = (s.masters k).sentinels →
      NothingHeard (s.masters m).sentinels ((u.set k r).masters m).sentinels := by
    intro u k r hu hr
    unfold SentinelState.set
    by_cases hm : m = k
    · subst hm
      simp only [if_true, hr]
      exact NothingHeard.refl _
    · simp only [hm, if_false, hu]
      exact NothingHeard.refl _
  cases h with
  | quiet _ _ _ hm => exact (hm m).heard hh
  | flush | raise _ _ => exact NothingHeard.refl _
  | start _ _ => exact hset (u := { s with currentEpoch := _ }) rfl rfl
  | vote _ _ => exact hset rfl rfl
  | reply _ => exact NothingHeard.refl _
  | elected _ _ => exact hset (u := s.emit _) rfl rfl
  | promote _ _ => exact hset rfl rfl
  | @switch k R now addr _ _ _ =>
    obtain ⟨slaves, hslaves⟩ := switchAddress_eq R now (s.masters k) addr
    rw [hslaves]
    exact hset rfl rfl
  | adopt _ _ _ _ => exact hset rfl rfl
  | @adoptSwitch h R now addr _ _ _ _ _ =>
    obtain ⟨slaves, hslaves⟩ := switchAddress_eq R now
      { s.masters h.master with configEpoch := h.masterConfigEpoch } addr
    rw [hslaves]
    exact hset rfl rfl
  | slaveOf | ask _ => exact NothingHeard.refl _

variable {m : M} {i : I} {s : SentinelState M} {env : Env} {asked : Option M} {t : SentinelState M}

/-- An election won is one of before, or this move is the election. -/
theorem Move.won {sc : Scope M} {s t : SentinelState M} (h : Move sc s t) {epoch : Nat}
    (he : .electedLeader m epoch ∈ t.trace) :
    .electedLeader m epoch ∈ s.trace ∨ (s.masters m).failoverState = .waitStart ∧
      (s.masters m).failoverEpoch = epoch ∧
      (sc.unforced → (s.masters m).forceFailover = false → sc.elected s m) := by
  have hnew : ∀ {l : List (Effect M)} {e : Effect M}, t.trace = l ++ [e] →
      (∀ m epoch, e ≠ .electedLeader m epoch) → .electedLeader m epoch ∈ l := by
    intro l e ht hne
    rw [ht] at he
    rcases List.mem_append.mp he with he | he
    · exact he
    · exact absurd (List.mem_singleton.mp he).symm (hne m epoch)
  cases h with
  | quiet _ _ htrace _ => exact .inl (htrace ▸ he)
  | flush => exact .inl (hnew rfl (fun _ _ he => by cases he))
  | raise _ _ | start _ _ => exact .inl he
  | vote _ _ =>
    have hwritten := hnew rfl (fun _ _ he => by cases he)
    rcases List.mem_append.mp hwritten with he | he
    · exact .inl he
    · cases List.mem_singleton.mp he
  | reply _ => exact .inl (hnew rfl (fun _ _ he => by cases he))
  | elected hstate hel =>
    rcases List.mem_append.mp he with he | he
    · exact .inl he
    · cases List.mem_singleton.mp he
      exact .inr ⟨hstate, rfl, hel⟩
  | promote _ _ | switch _ _ _ | adopt _ _ _ _ | adoptSwitch _ _ _ _ _ => exact .inl he
  | slaveOf | ask _ => exact .inl (hnew rfl (fun _ _ he => by cases he))

variable [DecidableEq I] [Fintype I] {G : Group I M} {net : Net I M}

/-- A majority of the Sentinels has voted for one of them. -/
def Majority (G : Group I M) (nodes : I → SentinelState M) (i : I) (m : M) (epoch : Nat) : Prop :=
  ∃ V : Finset I, Fintype.card I / 2 + 1 ≤ V.card ∧
    ∀ j ∈ V, .voteForLeader m (G.id i) epoch ∈ (nodes j).trace

/-- Votes heard were given, replies on their way say what was voted, and elections are won by
    majorities. -/
structure NetInv (G : Group I M) (net : Net I M) : Prop where
  node : ∀ i, NodeInv G i (net.nodes i)
  stored : ∀ i m, ∀ p ∈ ((net.nodes i).masters m).sentinels, ∀ leader, p.leader = some leader →
    ∃ j, p.runid = G.id j ∧ .voteForLeader m leader p.leaderEpoch ∈ (net.nodes j).trace
  replies : ∀ i j m r, (i, j, m, r) ∈ net.replies → ∀ leader, r.leader = some leader →
    .voteForLeader m leader (toUint64 r.epoch) ∈ (net.nodes j).trace
  hellos : ∀ i h, (i, h) ∈ net.hellos → h.runid = G.id i ∧ h.addr = G.announce i
  won : ∀ i m epoch, .electedLeader m epoch ∈ (net.nodes i).trace → Majority G net.nodes i m epoch

omit [DecidableEq M] [DecidableEq I] in
/-- Votes stay given. -/
theorem Majority.mono {nodes nodes' : I → SentinelState M} {epoch : Nat} (h : Majority G nodes i m epoch)
    (hgrow : ∀ k, (nodes k).trace <+: (nodes' k).trace) :
    Majority G nodes' i m epoch := by
  obtain ⟨V, hV, hvotes⟩ := h
  exact ⟨V, hV, fun j hj => (hgrow j).subset (hvotes j hj)⟩

/-- The table of a master holds all the others. -/
theorem NodeInv.length (hG : G.Mutual) (h : NodeInv G i s) (m : M) :
    (s.masters m).sentinels.length + 1 = Fintype.card I := by
  classical
  have hnodup : ((((G.conf i).masters m).knownSentinels.map (·.2))).Nodup := hG.once i m
  have hset : ((((G.conf i).masters m).knownSentinels.map (·.2))).toFinset =
      (Finset.univ.erase i).image G.id := by
    ext b
    rw [List.mem_toFinset, List.mem_map, Finset.mem_image]
    constructor
    · rintro ⟨p, hp, rfl⟩
      obtain ⟨j, hj, rfl⟩ := (hG.known i m p).mp hp
      exact ⟨j, Finset.mem_erase.mpr ⟨hj, Finset.mem_univ j⟩, rfl⟩
    · rintro ⟨j, hj, rfl⟩
      exact ⟨_, (hG.known i m _).mpr ⟨j, (Finset.mem_erase.mp hj).1, rfl⟩, rfl⟩
  have hinj : Function.Injective G.id := by
    intro a b hab
    refine hG.distinct a b ?_
    rw [hab]
    simp [strcaseeq]
  have hlen := congrArg List.length (h.members m)
  rw [List.length_map, List.length_map] at hlen
  have hcard := List.toFinset_card_of_nodup hnodup
  rw [hset, Finset.card_image_of_injective _ hinj, Finset.card_erase_of_mem (Finset.mem_univ i),
    Finset.card_univ, List.length_map] at hcard
  have hpos : 0 < Fintype.card I := Fintype.card_pos_iff.mpr ⟨i⟩
  omega

omit [DecidableEq I] in
/-- The Sentinels behind the votes heard: as many as there are votes. -/
theorem votesFor_voters (hG : G.Mutual) (h : NodeInv G i s) (m : M) (epoch : Nat) (w : Bytes) :
    ∃ V : Finset I, votesFor (s.masters m).sentinels epoch w = V.card ∧ ∀ j ∈ V, j ≠ i ∧
      ∃ p ∈ (s.masters m).sentinels, p.runid = G.id j ∧ p.leader = some w ∧ p.leaderEpoch = epoch := by
  classical
  -- the peers whose vote is counted, and the Sentinels they stand for
  obtain ⟨ps, hps⟩ : ∃ ps, ps = (s.masters m).sentinels.filter
    (fun ri => ri.leader = some w && ri.leaderEpoch = epoch) := ⟨_, rfl⟩
  have hid : ∀ p ∈ (s.masters m).sentinels, ∃ j, j ≠ i ∧ p.runid = G.id j := by
    intro p hp
    have hmem : p.ident ∈ ((G.conf i).masters m).knownSentinels.map Prod.swap := by
      rw [← h.members m]
      exact List.mem_map_of_mem hp
    obtain ⟨q, hq, hqp⟩ := List.mem_map.mp hmem
    obtain ⟨j, hj, rfl⟩ := (hG.known i m q).mp hq
    exact ⟨j, hj, (congrArg Prod.fst hqp).symm⟩
  have hrunids : ((s.masters m).sentinels.map (·.runid)).Nodup := by
    have hmap : (s.masters m).sentinels.map (·.runid) =
        ((G.conf i).masters m).knownSentinels.map (·.2) := by
      have := congrArg (List.map Prod.fst) (h.members m)
      rwa [List.map_map, List.map_map] at this
    rw [hmap]
    exact hG.once i m
  have hnodup : (ps.map (·.runid)).Nodup := by
    rw [hps]
    exact hrunids.sublist (List.filter_sublist.map _)
  obtain ⟨V, hV⟩ : ∃ V : Finset I, V = Finset.univ.filter (fun j => G.id j ∈ ps.map (·.runid)) := ⟨_, rfl⟩
  have himage : V.image G.id = (ps.map (·.runid)).toFinset := by
    ext b
    rw [Finset.mem_image, List.mem_toFinset, hV]
    constructor
    · rintro ⟨j, hj, rfl⟩
      exact (Finset.mem_filter.mp hj).2
    · intro hb
      obtain ⟨p, hp, rfl⟩ := List.mem_map.mp hb
      obtain ⟨j, -, hj⟩ := hid p (List.mem_of_mem_filter (hps ▸ hp))
      exact ⟨j, Finset.mem_filter.mpr ⟨Finset.mem_univ j, hj ▸ hb⟩, hj.symm⟩
  have hinj : Function.Injective G.id := by
    intro a b hab
    refine hG.distinct a b ?_
    rw [hab]
    simp [strcaseeq]
  refine ⟨V, ?_, fun j hj => ?_⟩
  · have hcard := List.toFinset_card_of_nodup hnodup
    rw [← himage, Finset.card_image_of_injective _ hinj, List.length_map] at hcard
    rw [hcard, hps]
    rfl
  · rw [hV] at hj
    obtain ⟨p, hp, hpj⟩ := List.mem_map.mp (Finset.mem_filter.mp hj).2
    have hp' : p ∈ (s.masters m).sentinels := List.mem_of_mem_filter (hps ▸ hp)
    have hcond := (List.mem_filter.mp (hps ▸ hp)).2
    simp only [Bool.and_eq_true, decide_eq_true_eq] at hcond
    obtain ⟨k, hk, hpk⟩ := hid p hp'
    refine ⟨?_, p, hp', hpj, hcond.1, hcond.2⟩
    rw [← hinj (hpk.symm.trans hpj)]
    exact hk

/-- A Sentinel that finds itself elected has a majority, if the votes it counts are those of
    the epoch it stands for. -/
theorem NetInv.election (hG : G.Mutual) (h : NetInv G net) {u : SentinelState M} (hu : NodeInv G i u)
    (hheard : NothingHeard ((net.nodes i).masters m).sentinels (u.masters m).sentinels)
    (hp : VotesMatch env (net.nodes i) asked (.handleMaster m)) (hel : Election (net.nodes i) u m) :
    Majority G (net.setNode i u).nodes i m (u.masters m).failoverEpoch := by
  obtain ⟨w, epoch, hw, hmaj, hepoch⟩ := hel
  rw [hu.length hG m] at hmaj
  obtain ⟨V, hcard, hV⟩ := votesFor_voters hG hu m epoch w
  -- the others have voted for `w`
  have hgiven : ∀ j ∈ V, .voteForLeader m w epoch ∈ (net.nodes j).trace := by
    intro j hj
    obtain ⟨-, p, hp, hrunid, hleader, hle⟩ := hV j hj
    obtain ⟨q, hq, hqrunid, hqleader, hqepoch⟩ := hheard p hp w hleader
    obtain ⟨k, hk, hvote⟩ := h.stored i m q hq w hqleader
    have hjk : j = k := by
      refine hG.distinct j k ?_
      rw [← hrunid, ← hqrunid, hk]
      simp [strcaseeq]
    rw [hjk, ← hle, ← hqepoch]
    exact hvote
  -- so have we, if our own vote is counted
  have hown : ownVote (u.masters m) (u.masters m).failoverEpoch w ≤ 1 ∧
      (0 < ownVote (u.masters m) (u.masters m).failoverEpoch w →
        .voteForLeader m w (u.masters m).failoverEpoch ∈ u.trace) := by
    unfold ownVote
    split
    · rename_i hvote
      refine ⟨le_refl _, fun _ => ?_⟩
      have := hu.backed m w hvote.1
      rwa [hvote.2] at this
    · exact ⟨Nat.zero_le _, fun hpos => absurd hpos (lt_irrefl 0)⟩
  have hname : w = G.id i := by
    have hvoted : ∃ k, w = G.id k := by
      by_cases hempty : V = ∅
      · have hV0 : V.card = 0 := by rw [hempty, Finset.card_empty]
        exact hu.named m w _ (hown.2 (by omega))
      · obtain ⟨j, hj⟩ := Finset.nonempty_iff_ne_empty.mpr hempty
        exact (h.node j).named m w epoch (hgiven j hj)
    obtain ⟨k, hk⟩ := hvoted
    rw [hu.myid, hk] at hw
    rw [hk, hG.distinct k i hw]
  subst hname
  have hnotin : i ∉ V := fun hi => (hV i hi).1 rfl
  have hother : ∀ j ∈ V, (net.setNode i u).nodes j = net.nodes j :=
    fun j hj => setNode_other (hV j hj).1 u
  -- the voters, ourselves included
  have hfinish : epoch = (u.masters m).failoverEpoch ∨ V.card = 0 →
      Majority G (net.setNode i u).nodes i m (u.masters m).failoverEpoch := by
    intro hcase
    have hvotes : ∀ j ∈ V, .voteForLeader m (G.id i) (u.masters m).failoverEpoch ∈
        ((net.setNode i u).nodes j).trace := by
      intro j hj
      rcases hcase with he | h0
      · rw [hother j hj, ← he]
        exact hgiven j hj
      · rw [Finset.card_eq_zero.mp h0] at hj
        exact absurd hj (Finset.notMem_empty j)
    by_cases hpos : 0 < ownVote (u.masters m) (u.masters m).failoverEpoch (G.id i)
    · refine ⟨insert i V, ?_, ?_⟩
      · rw [Finset.card_insert_of_notMem hnotin]
        omega
      · intro j hj
        rcases Finset.mem_insert.mp hj with rfl | hj
        · rw [setNode_self]
          exact hown.2 hpos
        · exact hvotes j hj
    · exact ⟨V, by omega, hvotes⟩
  rcases hepoch with he | ⟨hstate, he, hfe, hsent⟩
  · exact hfinish (.inl he)
  · -- the votes are of the current epoch: they are of the right one, or none, or too few
    have hmatch := hp hstate
    rw [(h.node i).myid, ← hsent, ← he, hcard] at hmatch
    rcases hmatch with hmatch | hmatch | hmatch
    · exact hfinish (.inl (hmatch.trans hfe.symm))
    · exact hfinish (.inr hmatch)
    · rw [hu.length hG m] at hmatch
      omega

omit [DecidableEq M] [Fintype I] in
/-- Traces grow with the Sentinel that acts. -/
theorem setNode_grow (hgrow : (net.nodes i).trace <+: t.trace) (k : I) :
    (net.nodes k).trace <+: ((net.setNode i t).nodes k).trace := by
  by_cases hk : k = i
  · rw [hk, setNode_self]
    exact hgrow
  · rw [setNode_other hk]

/-- The invariant of the group from what one Sentinel has done. -/
theorem NetInv.setNode (h : NetInv G net) (hnode : NodeInv G i t) (hgrow : (net.nodes i).trace <+: t.trace)
    (hwon : ∀ m epoch, .electedLeader m epoch ∈ t.trace →
      Majority G (net.setNode i t).nodes i m epoch)
    (hstored : ∀ m, ∀ p ∈ (t.masters m).sentinels, ∀ leader, p.leader = some leader →
      ∃ j, p.runid = G.id j ∧ .voteForLeader m leader p.leaderEpoch ∈ (net.nodes j).trace) :
    NetInv G (net.setNode i t) where
  node := forall_setNode h.node hnode
  stored := by
    intro k m p hp leader hl
    have hold : ∃ j, p.runid = G.id j ∧ .voteForLeader m leader p.leaderEpoch ∈ (net.nodes j).trace := by
      by_cases hk : k = i
      · rw [hk, setNode_self] at hp
        exact hstored m p hp leader hl
      · rw [setNode_other hk] at hp
        exact h.stored k m p hp leader hl
    obtain ⟨j, hj, hvote⟩ := hold
    exact ⟨j, hj, (setNode_grow hgrow j).subset hvote⟩
  replies := fun k j m r hr leader hl => (setNode_grow hgrow j).subset (h.replies k j m r hr leader hl)
  hellos := h.hellos
  won := by
    intro k m epoch he
    by_cases hk : k = i
    · rw [hk, setNode_self] at he
      rw [hk]
      exact hwon m epoch he
    · rw [setNode_other hk] at he
      exact (h.won k m epoch he).mono (setNode_grow hgrow)

section

variable (hG : G.Mutual) (h : NetInv G net) {R : Resolver} {a : Action M}
  (ha : a.Enabled (net.nodes i)) (hp : VotesMatch env (net.nodes i) asked a)
  (hstep : step R env (net.nodes i) a = .ok t)
  (hhello : ∀ msg, a = .hello msg → ((net.nodes i).masters msg.master).sentinels.any
    (fun ri => ri.runid = msg.runid && ri.addr = msg.addr) = true)
  (hreq : ∀ ri req runid, a = .downRequest ri req → req.runid = some runid → ∃ k, runid = G.id k)

include hG h ha hp hstep hhello hreq

/-- What an action of one Sentinel comes to. -/
theorem NetInv.acted :
    NodeInv G i t ∧ (net.nodes i).trace <+: t.trace ∧
      (∀ m epoch, .electedLeader m epoch ∈ t.trace → Majority G (net.setNode i t).nodes i m epoch) ∧
      ((∀ m runid r, a ≠ .downReply m runid r) →
        ∀ m, NothingHeard ((net.nodes i).masters m).sentinels (t.masters m).sentinels) := by
  have hmoves : Moves (actionScope R (net.nodes i) False a) (net.nodes i) t :=
    step_moves R env ha hstep (fun hf => hf.elim)
  have hmembers : (actionScope R (net.nodes i) False a).members := by
    cases a with
    | reset pattern => exact hp.elim
    | hello msg => exact hhello msg rfl
    | _ => trivial
  have hforce : (actionScope R (net.nodes i) False a).unforced := by
    cases a with
    | failover m => exact hp.elim
    | _ => trivial
  have hreset : (actionScope R (net.nodes i) False a).noReset := by
    cases a with
    | reset pattern => exact hp.elim
    | _ => trivial
  have hcand : ∀ runid, (actionScope R (net.nodes i) False a).candidate runid → ∃ k, runid = G.id k := by
    intro runid hc
    rcases hc with hc | ⟨m, ri, hri, hl⟩ | ⟨ri, req, rfl, hr⟩
    · exact ⟨i, hc.trans (h.node i).myid⟩
    · obtain ⟨j, -, hvote⟩ := h.stored i m ri hri runid hl
      exact (h.node j).named m runid _ hvote
    · exact hreq ri req runid rfl hr
  have hheard : (∀ m runid r, a ≠ .downReply m runid r) → (actionScope R (net.nodes i) False a).heard := by
    intro hne
    cases a with
    | downReply m runid r => exact absurd rfl (hne m runid r)
    | _ => trivial
  refine hmoves.invariant (fun u => NodeInv G i u ∧
      (net.nodes i).trace <+: u.trace ∧
      (∀ m epoch, .electedLeader m epoch ∈ u.trace → Majority G (net.setNode i u).nodes i m epoch) ∧
      ((∀ m runid r, a ≠ .downReply m runid r) →
        ∀ m, NothingHeard ((net.nodes i).masters m).sentinels (u.masters m).sentinels)) ?_ ?_
  · refine ⟨h.node i, List.prefix_refl _, fun m epoch he => ?_, fun _ m => NothingHeard.refl _⟩
    exact (h.won i m epoch he).mono (fun k => by
      by_cases hk : k = i
      · rw [hk, setNode_self]
      · rw [setNode_other hk])
  · rintro u v hmove ⟨hu, hgrow, hwon, hh⟩
    have hv := hu.move hmembers hforce hreset rfl hcand hmove
    have huv := (Moves.single hmove).trace_grows
    have hlate : ∀ k, ((net.setNode i u).nodes k).trace <+: ((net.setNode i v).nodes k).trace := by
      intro k
      by_cases hk : k = i
      · rw [hk, setNode_self, setNode_self]
        exact huv
      · rw [setNode_other hk, setNode_other hk]
    refine ⟨hv, hgrow.trans huv, fun m epoch he => ?_,
      fun hne m => (hh hne m).trans (hmove.heard (hheard hne) m)⟩
    rcases hmove.won he with he | ⟨-, hepoch, hel⟩
    · exact (hwon m epoch he).mono hlate
    · obtain ⟨rfl, helection⟩ := hel hforce (hu.unforced m)
      rw [← hepoch]
      exact (h.election hG hu (hh (fun _ _ _ he => by cases he) m) hp helection).mono hlate

/-- An action that hears nothing. -/
theorem NetInv.actedQuietly
    (hne : ∀ m runid r, a ≠ .downReply m runid r) : NetInv G (net.setNode i t) := by
  obtain ⟨hnode, hgrow, hwon, hheard⟩ := h.acted hG ha hp hstep hhello hreq
  refine h.setNode hnode hgrow hwon (fun m p hp leader hl => ?_)
  obtain ⟨q, hq, hrunid, hleader, hepoch⟩ := hheard hne m p hp leader hl
  obtain ⟨j, hj, hvote⟩ := h.stored i m q hq leader hleader
  exact ⟨j, hrunid.symm.trans hj, hepoch ▸ hvote⟩

end

omit [DecidableEq I] in
/-- A reply that says what its sender has voted. -/
theorem NetInv.addReply (h : NetInv G net) {i j : I} {r : DownReply} (hr : ∀ leader, r.leader = some leader →
      .voteForLeader m leader (toUint64 r.epoch) ∈ (net.nodes j).trace) :
    NetInv G { net with replies := net.replies ++ [(i, j, m, r)] } where
  node := h.node
  stored := h.stored
  replies := by
    intro i' j' m' r' hmem leader hl
    rcases List.mem_append.mp hmem with hmem | hmem
    · exact h.replies i' j' m' r' hmem leader hl
    · cases List.mem_singleton.mp hmem
      exact hr leader hl
  hellos := h.hellos
  won := h.won

/-- An epoch survives the way through a `long long`. -/
theorem toUint64_toLongLong {n : Nat} (h : n < 18446744073709551616) : toUint64 (toLongLong n) = n := by
  have hmod : ((n : Int).bmod 18446744073709551616) % (18446744073709551616 : Int) =
      (n : Int) % 18446744073709551616 := Int.bmod_emod
  unfold toUint64 toLongLong
  rw [hmod]
  omega

omit [DecidableEq I] [Fintype I] in
/-- The answer to a request is the vote in memory, and that has been published. -/
theorem NodeInv.reply {ri : Option M} {req : DownRequest} (h : NodeInv G i (isMasterDownByAddr env s ri req).1)
    (hri : ∀ k, ri = some k → k = m) {leader : Bytes}
    (hl : (isMasterDownByAddr env s ri req).2.leader = some leader) :
    .voteForLeader m leader (toUint64 (isMasterDownByAddr env s ri req).2.epoch) ∈
      (isMasterDownByAddr env s ri req).1.trace := by
  cases ri with
  | none => cases hl
  | some k =>
    obtain rfl := hri k rfl
    unfold isMasterDownByAddr at h hl ⊢
    cases hrunid : req.runid with
    | none =>
      rw [hrunid] at hl
      cases hl
    | some runid =>
      rw [hrunid] at h hl
      obtain ⟨v, hv⟩ : ∃ v, v = sentinelVoteLeader env s k (toUint64 req.epoch) runid := ⟨_, rfl⟩
      have hpair : v.2 = ((v.1.masters k).leader, (v.1.masters k).leaderEpoch) := by
        rw [hv]
        rfl
      dsimp only at h hl ⊢
      rw [← hv] at h hl ⊢
      have hfits : (v.1.masters k).leaderEpoch < 18446744073709551616 := (h.fits.2 k).1
      rw [hpair] at h hl ⊢
      dsimp only at h hl ⊢
      rw [toUint64_toLongLong hfits]
      exact h.backed k leader hl

/-- Every step keeps the invariant of the group. -/
theorem NetInv.step (hG : G.Mutual) (h : NetInv G net) {R : Resolver} {net' : Net I M}
    (hstep : NetStep G R VotesMatch net net') : NetInv G net' := by
  cases hstep with
  | act hl ha hp hstep =>
    refine h.actedQuietly hG ha hp hstep ?_ ?_ ?_
    · rintro msg rfl
      cases hl
    · rintro ri req runid rfl
      cases hl
    · rintro m runid r rfl
      cases hl
  | @request i j env m addr epoch runid ri hsent ha hp =>
    have hnet : NetInv G (net.setNode j (isMasterDownByAddr env (net.nodes j) ri
        { addr := addr, epoch := epoch, runid := runid }).1) := by
      refine h.actedQuietly hG (R := R) ha hp rfl (fun _ he => by cases he) ?_
        (fun _ _ _ he => by cases he)
      rintro ri' req r he hr
      cases he
      -- the run id in a request is that of its sender
      exact ⟨i, (h.node i).asks m (G.id j) addr epoch r (hr ▸ hsent)⟩
    refine hnet.addReply (fun leader hl => ?_)
    rw [setNode_self]
    have hnode := hnet.node j
    rw [setNode_self] at hnode
    refine hnode.reply ?_ hl
    rintro k rfl
    exact (Option.some.inj hp).symm
  | @reply i j env m r t hsent hp hstep =>
    obtain ⟨hnode, hgrow, hwon, -⟩ := h.acted hG (a := .downReply m (G.id j) r) trivial hp hstep
      (fun _ he => by cases he) (fun _ _ _ he => by cases he)
    refine h.setNode hnode hgrow hwon (fun k p hpmem leader hl => ?_)
    cases hstep
    by_cases hk : k = m
    · subst hk
      rw [set_masters_self] at hpmem
      obtain ⟨q, hq, hqp⟩ := List.mem_map.mp hpmem
      by_cases hq' : q.runid = G.id j
      · rw [if_pos hq'] at hqp
        unfold sentinelReceiveIsMasterDownReply at hqp
        cases hr : r.leader with
        | none =>
          rw [hr] at hqp
          subst hqp
          exact h.stored i k q hq leader hl
        | some l =>
          rw [hr] at hqp
          subst hqp
          cases hl
          exact ⟨j, hq', h.replies i j k r hsent leader hr⟩
      · rw [if_neg hq'] at hqp
        subst hqp
        exact h.stored i k q hq leader hl
    · have hother : ((net.nodes i).set m { (net.nodes i).masters m with
          sentinels := updatePeer ((net.nodes i).masters m).sentinels (G.id j)
            (sentinelReceiveIsMasterDownReply env.now r) }).masters k = (net.nodes i).masters k :=
        if_neg hk
      rw [hother] at hpmem
      exact h.stored i k p hpmem leader hl
  | @publish i m =>
    exact
      { node := h.node
        stored := h.stored
        replies := h.replies
        hellos := by
          intro i' msg hmem
          rcases List.mem_append.mp hmem with hmem | hmem
          · exact h.hellos i' msg hmem
          · cases List.mem_singleton.mp hmem
            exact ⟨(h.node i).myid, rfl⟩
        won := h.won }
  | @hello i j env msg t hsent hother ha hp hstep =>
    refine h.actedQuietly hG ha hp hstep ?_ (fun _ _ _ he => by cases he) (fun _ _ _ he => by cases he)
    rintro msg' he
    cases he
    -- its sender is known under the address it announces
    obtain ⟨hrunid, haddr⟩ := h.hellos i msg hsent
    have hknown : (G.id i, G.announce i) ∈ ((net.nodes j).masters msg.master).sentinels.map Peer.ident := by
      rw [(h.node j).members]
      exact List.mem_map.mpr ⟨_, (hG.known j _ _).mpr ⟨i, hother.symm, rfl⟩, rfl⟩
    obtain ⟨p, hp', hident⟩ := List.mem_map.mp hknown
    obtain ⟨hpid, hpaddr⟩ := Prod.mk.inj hident
    rw [List.any_eq_true]
    exact ⟨p, hp', by simp [hpid, hpaddr, hrunid, haddr]⟩

/-- A master read from a configuration: slaves and Sentinels, no votes, no failover. -/
theorem loadMaster_eq (R : Resolver) (now : Int) (c : MasterConfig) :
    ∃ slaves, loadMaster R now c = { loadMonitor now c with
      slaves := slaves
      sentinels := c.knownSentinels.map (fun p =>
        newPeer now p.2 p.1 { loadMonitor now c with slaves := slaves }) } := by
  obtain ⟨slaves, hslaves⟩ := createSlaves_eq R now c.knownSlaves (loadMonitor now c)
  refine ⟨slaves, ?_⟩
  unfold loadMaster
  rw [hslaves]

theorem loadMaster_tidy (R : Resolver) (now : Int) (c : MasterConfig) : (loadMaster R now c).Tidy := by
  have h := createSlaves_tidy R now c.knownSlaves (r := loadMonitor now c)
    ⟨List.nodup_nil, fun _ h => by cases h⟩
  exact ⟨h.names, h.listed⟩

omit [DecidableEq I] [Fintype I] in
/-- A Sentinel that has just read its configuration. -/
theorem nodeInv_start [Fintype M] (hG : G.Mutual) (R : Resolver) (now : Int) (i : I) :
    NodeInv G i (sentinelHandleConfiguration R now (G.conf i) [.flushed (G.conf i)]) where
  myid := hG.myid i
  members := by
    intro m
    obtain ⟨slaves, hslaves⟩ := loadMaster_eq R now ((G.conf i).masters m)
    show (loadMaster R now _).sentinels.map Peer.ident = _
    rw [hslaves, List.map_map]
    rfl
  unforced := by
    intro m
    obtain ⟨slaves, hslaves⟩ := loadMaster_eq R now ((G.conf i).masters m)
    show (loadMaster R now _).forceFailover = _
    rw [hslaves]
    rfl
  votes := voteInv_init False now (G.conf i)
  backed := by
    intro m leader hl
    rw [show ((sentinelHandleConfiguration R now (G.conf i) [.flushed (G.conf i)]).masters m).leader = none
      from (loadMaster_vote R now _).2] at hl
    cases hl
  named := by
    intro m leader epoch hmem
    cases List.mem_singleton.mp hmem
  fits := by
    refine ⟨?_, fun m => ⟨?_, ?_⟩⟩
    · refine max_lt (hG.fits i).1 ?_
      rw [Finset.sup_lt_iff (by decide)]
      exact fun m _ => ((hG.fits i).2 m).1
    · show (loadMaster R now _).leaderEpoch < _
      rw [(loadMaster_vote R now _).1]
      exact ((hG.fits i).2 m).2
    · obtain ⟨slaves, hslaves⟩ := loadMaster_eq R now ((G.conf i).masters m)
      show (loadMaster R now _).failoverEpoch < _
      rw [hslaves]
      exact (by decide : 0 < 18446744073709551616)
  asks := by
    intro m sentinel addr epoch runid hmem
    cases List.mem_singleton.mp hmem
  tidy := fun m => loadMaster_tidy R now _
  led := by
    intro m hcode
    obtain ⟨slaves, hslaves⟩ := loadMaster_eq R now ((G.conf i).masters m)
    have hstate : (loadMaster R now ((G.conf i).masters m)).failoverState = .none := by
      rw [hslaves]
      rfl
    rw [show ((sentinelHandleConfiguration R now (G.conf i) [.flushed (G.conf i)]).masters m).failoverState =
      .none from hstate] at hcode
    exact absurd hcode (by decide)

omit [DecidableEq I] in
theorem netInv_start [Fintype M] (hG : G.Mutual) (R : Resolver) (now : I → Int) :
    NetInv G (Net.start G R now) where
  node := fun i => nodeInv_start hG R (now i) i
  stored := by
    intro i m p hp leader hl
    obtain ⟨slaves, hslaves⟩ := loadMaster_eq R (now i) ((G.conf i).masters m)
    have hmem : p ∈ (loadMaster R (now i) ((G.conf i).masters m)).sentinels := hp
    rw [hslaves] at hmem
    obtain ⟨q, -, rfl⟩ := List.mem_map.mp hmem
    cases hl
  replies := fun i j m r hmem => by cases hmem
  hellos := fun i msg hmem => by cases hmem
  won := by
    intro i m epoch he
    cases List.mem_singleton.mp he

/-- **Leaders are unique.**  In every run whose Sentinels count votes of the epoch they stand
    for, at most one of them leaves `SENTINEL_FAILOVER_STATE_WAIT_START` as the leader of a
    master's failover in an epoch, and a majority of all, in that epoch, has voted for it. -/
theorem leader_unique [Fintype M] (hG : G.Mutual) (R : Resolver) (now : I → Int) {net : Net I M}
    (hrun : NetSteps G R VotesMatch (Net.start G R now) net) :
    (∀ i j m epoch, .electedLeader m epoch ∈ (net.nodes i).trace →
      .electedLeader m epoch ∈ (net.nodes j).trace → i = j) ∧
    (∀ i m epoch, .electedLeader m epoch ∈ (net.nodes i).trace →
      ∃ V : Finset I, Fintype.card I / 2 + 1 ≤ V.card ∧
        ∀ j ∈ V, .voteForLeader m (G.id i) epoch ∈ (net.nodes j).trace) ∧
    ∀ i m, FailoverState.waitStart.code < ((net.nodes i).masters m).failoverState.code →
      .electedLeader m ((net.nodes i).masters m).failoverEpoch ∈ (net.nodes i).trace := by
  have h : NetInv G net := by
    induction hrun with
    | refl => exact netInv_start hG R now
    | tail _ hstep ih => exact ih.step hG hstep
  refine ⟨?_, h.won, fun i m hcode => (h.node i).led m hcode⟩
  intro i j m epoch hi hj
  obtain ⟨V, hV, hvotes⟩ := h.won i m epoch hi
  obtain ⟨W, hW, hvotes'⟩ := h.won j m epoch hj
  -- two majorities share a voter, and it has voted once
  have hcard : (Finset.univ : Finset I).card < V.card + W.card := by
    rw [Finset.card_univ]
    omega
  obtain ⟨k, hk⟩ := Finset.inter_nonempty_of_card_lt_card_add_card (Finset.subset_univ V)
    (Finset.subset_univ W) hcard
  obtain ⟨hkV, hkW⟩ := Finset.mem_inter.mp hk
  have hsame := (h.node k).votes.unique m _ _ epoch (.inl (hvotes k hkV)) (.inl (hvotes' k hkW))
  refine hG.distinct i j ?_
  rw [hsame]
  simp [strcaseeq]

/-! ## Three Sentinels, two masters -/

instance (env : Env) (s : SentinelState M) (asked : Option M) :
    (a : Action M) → Decidable (VotesMatch env s asked a)
  | .handleMaster m => inferInstanceAs (Decidable ((s.masters m).failoverState = .waitStart →
      s.currentEpoch = (s.masters m).failoverEpoch ∨
      votesFor (s.masters m).sentinels s.currentEpoch s.myid = 0 ∨
      votesFor (s.masters m).sentinels s.currentEpoch s.myid < ((s.masters m).sentinels.length + 1) / 2))
  | .downRequest (some m) _ => inferInstanceAs (Decidable (asked = some m))
  | .failover _ | .reset _ => inferInstanceAs (Decidable False)
  | .downRequest none _ | .masterLink _ _ | .slaveLink _ _ _ | .peerLink _ _ _ | .checkTilt
  | .handleSlave _ _ | .handlePeer _ _ | .switchToPromoted _ | .masterInfo _ _ | .slaveInfo _ _ _
  | .downReply _ _ _ | .hello _ => inferInstanceAs (Decidable True)

/-- Nobody forces or resets anything, and a request finds the master it is about. -/
def Unforced (_ : Env) (_ : SentinelState M) (asked : Option M) : Action M → Prop
  | .downRequest (some m) _ => asked = some m
  | .failover _ => False
  | .reset _ => False
  | _ => True

instance (env : Env) (s : SentinelState M) (asked : Option M) :
    (a : Action M) → Decidable (Unforced env s asked a)
  | .downRequest (some m) _ => inferInstanceAs (Decidable (asked = some m))
  | .failover _ | .reset _ => inferInstanceAs (Decidable False)
  | .handleMaster _ | .downRequest none _ | .masterLink _ _ | .slaveLink _ _ _ | .peerLink _ _ _
  | .checkTilt | .handleSlave _ _ | .handlePeer _ _ | .switchToPromoted _ | .masterInfo _ _
  | .slaveInfo _ _ _ | .downReply _ _ _ | .hello _ => inferInstanceAs (Decidable True)

/-- The file of one of the three. -/
def trioConf (me : Bytes) (others : List Bytes) : Config Bool where
  myid := me
  masters := fun m =>
    { addr := ⟨[if m then 121 else 120], 1⟩, quorum := 1, downAfterPeriod := 30000,
      failoverTimeout := 10000, parallelSyncs := 1, configEpoch := 0, leaderEpoch := 0,
      knownSlaves := [], knownSentinels := others.map (fun runid => (⟨runid, 26379⟩, runid)) }
  currentEpoch := 0

def trioId (i : Fin 3) : Bytes := if i = 0 then [97] else if i = 1 then [98] else [99]

def trio : Group (Fin 3) Bool where
  id := trioId
  announce := fun i => ⟨trioId i, 26379⟩
  conf := fun i => trioConf (trioId i) (([0, 1, 2].filter (fun j => j ≠ i)).map trioId)

theorem trio_mutual : trio.Mutual where
  distinct := by decide
  myid := fun _ => rfl
  once := by decide
  known := by
    intro i m p
    show p ∈ ((([0, 1, 2].filter (fun j => j ≠ i)).map trioId).map
      (fun runid => ((⟨runid, 26379⟩ : Addr), runid))) ↔ _
    rw [List.map_map, List.mem_map]
    constructor
    · rintro ⟨j, hj, rfl⟩
      exact ⟨j, by simpa using (List.mem_filter.mp hj).2, rfl⟩
    · rintro ⟨j, hj, rfl⟩
      have hall : ∀ k : Fin 3, k ∈ [0, 1, 2] := by decide
      exact ⟨j, List.mem_filter.mpr ⟨hall j, by simpa using hj⟩, rfl⟩
  fits := by
    have hzero : 0 < 18446744073709551616 := by decide
    exact fun _ => ⟨hzero, fun _ => ⟨hzero, hzero⟩⟩

/-- Both the first and the second Sentinel stand for the leader of the first master in epoch 1;
    the third votes for the second, which is elected. -/
def firstElection : List (NetEvent (Fin 3) Bool) :=
  [.act 0 (envAt 30900) (fun _ => .peerLink false [98] (connectedLink 30900)),
   .act 1 (envAt 30900) (fun _ => .peerLink false [99] (connectedLink 30900)),
   .act 0 (envAt 31000) (fun _ => .handleMaster false),
   .act 1 (envAt 31000) (fun _ => .handleMaster false),
   .request 1 2 (envAt 31010) false ⟨[120], 1⟩ 1 (some [98]) (some false),
   .reply 0 (envAt 31020),
   .act 1 (envAt 31100) (fun _ => .handleMaster false)]

/-- The first starts a failover of the other master in epoch 2, asks the second again about
    the first master, now in epoch 2, and counts the vote it gets for epoch 1. -/
def secondElection : List (NetEvent (Fin 3) Bool) :=
  [.act 0 (envAt 31200) (fun _ => .handleMaster true),
   .act 0 (envAt 32500) (fun _ => .handleMaster false),
   .request 0 1 (envAt 32510) false ⟨[120], 1⟩ 2 (some [97]) (some false),
   .reply 1 (envAt 32520),
   .act 0 (envAt 32600) (fun _ => .handleMaster false)]

/-- The elections a Sentinel has won. -/
def elections (es : List (Effect M)) : List (M × Nat) :=
  es.filterMap (fun e =>
    match e with
    | .electedLeader m epoch => some (m, epoch)
    | _ => none)

omit [DecidableEq M] in
theorem mem_elections {es : List (Effect M)} {epoch : Nat} :
    (m, epoch) ∈ elections es ↔ .electedLeader m epoch ∈ es := by
  unfold elections
  rw [List.mem_filterMap]
  constructor
  · rintro ⟨e, he, hsome⟩
    cases e with
    | electedLeader m' epoch' =>
      simp only [Option.some.injEq, Prod.mk.injEq] at hsome
      obtain ⟨rfl, rfl⟩ := hsome
      exact he
    | _ => cases hsome
  · intro he
    exact ⟨_, he, rfl⟩

theorem leader_unique_trio :
    ∃ net, NetSteps trio literalResolver VotesMatch (Net.start trio literalResolver (fun _ => 0)) net ∧
      .electedLeader false 1 ∈ (net.nodes 1).trace ∧
      (∀ i, .electedLeader false 1 ∈ (net.nodes i).trace → i = 1) ∧
      ∃ V : Finset (Fin 3), 2 ≤ V.card ∧
        ∀ j ∈ V, .voteForLeader false [98] 1 ∈ (net.nodes j).trace := by
  have hb : (netExec trio literalResolver VotesMatch firstElection
      (Net.start trio literalResolver (fun _ => 0))).any
        (fun net => (false, 1) ∈ elections (net.nodes 1).trace) = true := by rfl
  obtain ⟨net, hnet, hel⟩ := (Option.any_eq_true _ _).mp hb
  have hrun := netSteps_of_netExec hnet
  have hwon := mem_elections.mp (of_decide_eq_true hel)
  obtain ⟨hunique, hmajority, -⟩ := leader_unique trio_mutual literalResolver (fun _ => 0) hrun
  exact ⟨net, hrun, hwon, fun i hi => hunique i 1 false 1 hi hwon, hmajority 1 false 1 hwon⟩

/-- Two Sentinels lead a failover of the same master in the same epoch. -/
theorem two_leaders :
    trio.Mutual ∧ ∃ net, NetSteps trio literalResolver Unforced
        (Net.start trio literalResolver (fun _ => 0)) net ∧
      .electedLeader false 1 ∈ (net.nodes 0).trace ∧ .electedLeader false 1 ∈ (net.nodes 1).trace := by
  have hb : (netExec trio literalResolver Unforced (firstElection ++ secondElection)
      (Net.start trio literalResolver (fun _ => 0))).any
        (fun net => (false, 1) ∈ elections (net.nodes 0).trace &&
          (false, 1) ∈ elections (net.nodes 1).trace) = true := by rfl
  obtain ⟨net, hnet, hel⟩ := (Option.any_eq_true _ _).mp hb
  rw [Bool.and_eq_true] at hel
  exact ⟨trio_mutual, net, netSteps_of_netExec hnet, mem_elections.mp (of_decide_eq_true hel.1),
    mem_elections.mp (of_decide_eq_true hel.2)⟩

end Redis.Sentinel
