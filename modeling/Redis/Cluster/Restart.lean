import Redis.Cluster.Config
import Redis.Cluster.Election

namespace Redis

open Outcome Simulation Transition

/-!
# Votes across restarts

A process may be killed at the end of an iteration of the event loop and is started again
with the file it has written last.  A vote is remembered in `lastVoteEpoch`, but granting it does not
schedule a write of the file: a process that is killed after a vote may vote again in the same epoch.
If the file holds the last vote whenever the process is killed, it votes once in each epoch.

* `Voting` — the runs, with the epochs of the requests that got a vote;
* `VotingInv` — the invariant;
* `votes_once_of_durable` — **at most one vote in each epoch**;
* `votes_twice_after_restart` — a run with two votes in one epoch;
* `comes_back` — a process that is killed is always started again.
-/

/-- The epoch of the request an event may answer. -/
def ClusterEvent.requestEpoch : ClusterEvent → Option Nat
  | .packet _ hdr => some hdr.currentEpoch
  | _ => none

/-- The votes that are queued between two states. -/
def newVotes (s t : ClusterState) : List ClusterOutgoing :=
  (t.outbox.drop s.outbox.length).filter fun o => o.msg.data.isAck

/-- The file holds the last vote. -/
def VoteDurable (s : ClusterState) : Prop := ∀ c, s.saved = some c → c.lastVoteEpoch = s.lastVoteEpoch

/-- A process with its file, before its first vote. -/
structure Booted (s : ClusterState) : Prop where
  wf : s.view.WellFormed
  outbox : s.outbox = []
  election : s.failoverAuthEpoch ≤ s.currentEpoch
  vote : s.lastVoteEpoch ≤ s.currentEpoch
  saved : ∃ c, s.saved = some c ∧ c.WellFormed ∧ c.lastVoteEpoch ≤ c.currentEpoch

/-- The runs of a process, with the epochs of the requests that got a vote; `cond` is a condition on the state in
    which the process is killed.  No packet carries the random name of a node in handshake, and there is
    no `RESET HARD`. -/
inductive Voting (cond : ClusterState → Prop) : ClusterState → List (Option Nat) → Prop
  | init {s : ClusterState} : Booted s → Voting cond s []
  | event {s t : ClusterState} {votes : List (Option Nat)} {env : ClusterEnv} {ev : ClusterEvent}
      {o : FailoverOutcome} : Voting cond s votes → ev.Possible env s → ev ≠ .command (.reset true) →
      (∀ link hdr, ev = .packet link hdr → ¬ s.view.InHandshake hdr.sender) →
      (clusterHandle env ev).run s = .ok (o, t) →
      Voting cond t ((newVotes s t).map (fun _ => ev.requestEpoch) ++ votes)
  /-- The process is killed at the end of an iteration and started again. -/
  | restart {s t u : ClusterState} {votes : List (Option Nat)} {env env' : ClusterEnv}
      {o : FailoverOutcome} {c : SavedConfig} : Voting cond s votes →
      (clusterHandle env .beforeSleep).run s = .ok (o, t) → cond t → t.saved = some c →
      (clusterRestart env' c).run emptyClusterState = .ok ((), u) →
      Voting cond u ((newVotes s t).map (fun _ => none) ++ votes)

/-- The epochs that got a vote are below the last vote. -/
structure VotingInv (s : ClusterState) (votes : List (Option Nat)) : Prop where
  wf : s.view.WellFormed
  inv : VoteInv s.view
  saved : ∃ c, s.saved = some c ∧ c.WellFormed ∧ c.lastVoteEpoch ≤ c.currentEpoch
  past : ∀ e ∈ votes, ∃ k, e = some k ∧ k ≤ s.lastVoteEpoch
  nodup : votes.Nodup

section Inv

variable {s t : ClusterState} {env : ClusterEnv} {ev : ClusterEvent} {o : FailoverOutcome}
  {votes : List (Option Nat)} {A : ClusterAction → Prop}

theorem Booted.inv (h : Booted s) : VotingInv s [] where
  wf := h.wf
  inv := by
    have hout : s.view.outbox = [] := h.outbox
    refine ⟨h.election, h.vote, ?_, ?_, ?_⟩
    · rw [hout]
      exact fun _ ho => absurd ho List.not_mem_nil
    · rw [hout]
      exact fun _ ho => absurd ho List.not_mem_nil
    · rw [hout]
      exact List.Pairwise.nil
  saved := h.saved
  past := by simp
  nodup := List.nodup_nil

/-- The file after some actions: it holds a vote that has been cast. -/
theorem saved_of_steps {v w : ClusterView} (hs : Steps A v w) (hwf : v.WellFormed) (hinv : VoteInv v)
    (hA : ∀ name, ¬ A (.hardReset name))
    (h : ∃ c, v.saved = some c ∧ c.WellFormed ∧ c.lastVoteEpoch ≤ c.currentEpoch) :
    ∃ c, w.saved = some c ∧ c.WellFormed ∧ c.lastVoteEpoch ≤ c.currentEpoch := by
  refine hs.invariant_and (fun u => u.WellFormed ∧ VoteInv u)
    (fun u => ∃ c, u.saved = some c ∧ c.WellFormed ∧ c.lastVoteEpoch ≤ c.currentEpoch) ⟨hwf, hinv⟩ h ?_ ?_
  · intro a u ha he hu
    refine ⟨hu.1.apply he, hu.2.apply hu.1 he ?_⟩
    rintro name rfl
    exact hA name ha
  · intro a u ha he hu hc
    have htable : a.IsTable → (a.apply u).saved = u.saved :=
      fun hat => congrArg ClusterView.Vars.saved (u.apply_vars hat)
    cases a with
    | save c =>
      obtain ⟨hcwf, hcur, hlast⟩ := he
      refine ⟨c, rfl, hcwf, ?_⟩
      rw [hcur, hlast]
      exact hu.2.vote
    | hardReset name => exact (hA name ha).elim
    | _ => first | exact hc | exact (htable trivial).symm ▸ hc

/-- The votes of an event: none, or one for the request that is processed, in a new epoch. -/
def VotesOf (ev : ClusterEvent) (s t : ClusterState) : Prop :=
  (newVotes s t = [] ∧ s.lastVoteEpoch ≤ t.lastVoteEpoch) ∨
    ∃ x k, newVotes s t = [x] ∧ ev.requestEpoch = some k ∧ s.lastVoteEpoch < k ∧ t.lastVoteEpoch = k

theorem newVotes_eq {l : List ClusterOutgoing} (h : t.outbox = s.outbox ++ l) :
    newVotes s t = l.filter fun o => o.msg.data.isAck := by
  rw [newVotes, h, List.drop_left]

/-- A name is in handshake as long as epochs are taken over and votes are granted. -/
theorem inHandshake_of_request {hdr : ClusterMsg} {v u : ClusterView} (hs : Steps (requestAllows v hdr) v u)
    (name : NodeName) (h : u.InHandshake name) : v.InHandshake name := by
  have hsame : u.nodes = v.nodes ∧ ∀ r, (u.heap r).map NodeView.handshake = (v.heap r).map NodeView.handshake := by
    refine hs.invariant (fun u => u.nodes = v.nodes ∧
      ∀ r, (u.heap r).map NodeView.handshake = (v.heap r).map NodeView.handshake) ⟨rfl, fun _ => rfl⟩ ?_
    rintro a u (ha | ⟨os, rfl⟩) - hu
    · cases a with
      | learn r h =>
        refine ⟨hu.1, fun x => ?_⟩
        rw [← hu.2 x]
        show ((ClusterView.updateNode _ r _).heap x).map _ = _
        rw [ClusterView.updateNode_heap, Option.map_map]
        congr 1
        funext n
        simp only [Function.comp]
        split_ifs <;> rfl
      | _ => exact ha.elim
    · exact hu
  obtain ⟨r, n, hlookup, hn, hhs⟩ := h
  have hheap := hsame.2 r
  rw [hn] at hheap
  obtain ⟨n', hn', heq⟩ := Option.map_eq_some_iff.mp hheap.symm
  refine ⟨r, n', ?_, hn', heq.trans hhs⟩
  rw [ClusterView.lookup, ← hsame.1]
  exact hlookup

/-- A request. -/
theorem votesOf_request {link : Option Ref} {hdr : ClusterMsg} (hwf : s.view.WellFormed) (hinv : VoteInv s.view)
    (hdata : hdr.data = .failoverAuthRequest) (hname : ¬ s.view.InHandshake hdr.sender)
    (hrun : (clusterHandle env (.packet link hdr)).run s = .ok (o, t)) : VotesOf (.packet link hdr) s t := by
  have hsteps := steps_of_request hwf hdata hrun
  have hsoft : ∀ name, ¬ requestAllows s.view hdr (.hardReset name) := by
    rintro name (ha | ⟨os, ha⟩)
    · exact ha
    · cases ha
  -- at most one vote is granted, and it is the last vote from then on
  have hkey : Steps (requestAllows s.view hdr) s.view t.view ∧ ∃ l, t.view.outbox = s.view.outbox ++ l ∧
      ((l.filter (fun o => o.msg.data.isAck) = [] ∧ t.view.lastVoteEpoch = s.view.lastVoteEpoch) ∨
        ((l.filter fun o => o.msg.data.isAck).length ≤ 1 ∧ t.view.lastVoteEpoch = hdr.currentEpoch ∧
          s.view.lastVoteEpoch < hdr.currentEpoch)) := by
    refine hsteps.invariant (fun u => Steps (requestAllows s.view hdr) s.view u ∧ ∃ l,
      u.outbox = s.view.outbox ++ l ∧
      ((l.filter (fun o => o.msg.data.isAck) = [] ∧ u.lastVoteEpoch = s.view.lastVoteEpoch) ∨
        ((l.filter fun o => o.msg.data.isAck).length ≤ 1 ∧ u.lastVoteEpoch = hdr.currentEpoch ∧
          s.view.lastVoteEpoch < hdr.currentEpoch)))
      ⟨Actions.Steps.refl _, [], (List.append_nil _).symm, Or.inl ⟨rfl, rfl⟩⟩ ?_
    rintro a u ha he ⟨hu, l, hl, hcase⟩
    have hnext : Steps (requestAllows s.view hdr) s.view (a.apply u) := hu.trans (Actions.Steps.single ha he)
    refine ⟨hnext, ?_⟩
    rcases ha with ha | ⟨os, rfl⟩
    · cases a with
      | learn r h => exact ⟨l, hl, hcase⟩
      | _ => exact ha.elim
    · obtain ⟨-, hle, hlearned, hlast, hlen, -⟩ := he
      have hcur : u.currentEpoch = hdr.currentEpoch := by
        refine le_antisymm hle (hlearned.resolve_right fun hbad => ?_)
        exact hname (inHandshake_of_request hu _ hbad)
      have hbelow : u.lastVoteEpoch < hdr.currentEpoch := by
        have hvote := (hinv.steps hwf hsoft hu).inv.vote
        rw [hcur] at hvote hlast
        exact lt_of_le_of_ne hvote hlast
      rcases hcase with ⟨hnone, hsame⟩ | ⟨-, hsame, -⟩
      · refine ⟨l ++ os, ?_, Or.inr ⟨?_, hcur, hsame ▸ hbelow⟩⟩
        · rw [← List.append_assoc, ← hl]
          rfl
        · rw [List.filter_append, hnone, List.nil_append]
          exact (List.length_filter_le _ _).trans hlen
      · omega
  obtain ⟨-, l, hl, hcase⟩ := hkey
  have hvotes : newVotes s t = l.filter fun o => o.msg.data.isAck := newVotes_eq hl
  rcases hcase with ⟨hnone, hsame⟩ | ⟨hlen, hlast, hbelow⟩
  · exact Or.inl ⟨hvotes.trans hnone, hsame.ge⟩
  · have hlast' : t.lastVoteEpoch = hdr.currentEpoch := hlast
    have hbelow' : s.lastVoteEpoch < hdr.currentEpoch := hbelow
    rcases hfilter : l.filter fun o => o.msg.data.isAck with _ | ⟨x, rest⟩
    · exact Or.inl ⟨hvotes.trans hfilter, by omega⟩
    · rw [hfilter, List.length_cons] at hlen
      have hrest : rest = [] := List.length_eq_zero_iff.mp (by omega)
      refine Or.inr ⟨x, hdr.currentEpoch, ?_, rfl, hbelow', hlast'⟩
      rw [hvotes, hfilter, hrest]

/-- **The votes of an event.** -/
theorem votesOf_handle (hwf : s.view.WellFormed) (hinv : VoteInv s.view) (hev : ev.Possible env s)
    (hsoft : ev ≠ .command (.reset true))
    (hname : ∀ link hdr, ev = .packet link hdr → ¬ s.view.InHandshake hdr.sender)
    (hrun : (clusterHandle env ev).run s = .ok (o, t)) : VotesOf ev s t := by
  by_cases hreq : ∃ link hdr, ev = .packet link hdr ∧ hdr.data = .failoverAuthRequest
  · obtain ⟨link, hdr, rfl, hdata⟩ := hreq
    exact votesOf_request hwf hinv hdata (hname link hdr rfl) hrun
  · have hsteps := (steps_of_handle hwf hev hrun).1
    have hnot : ∀ hdr os, ¬ ev.allows env s.view (.vote hdr os) := by
      intro hdr os ha
      obtain ⟨link, hev, hdata⟩ := request_of_allows_vote ha
      exact hreq ⟨link, hdr, hev, hdata⟩
    obtain ⟨l, hl, hplain⟩ := steps_outbox (P := fun x => x.msg.data.isAck = false) hsteps (fun x hx => hx)
      fun hdr os u _ ha => (hnot hdr os ha).elim
    refine Or.inl ⟨?_, ?_⟩
    · rw [newVotes_eq (show t.outbox = s.outbox ++ l from hl), List.filter_eq_nil_iff]
      intro x hx hack
      rw [hplain x hx] at hack
      cases hack
    · refine (hsteps.frame ClusterView.lastVoteEpoch ?_).ge
      intro a u ha _
      have hbystander : a.IsBystander → (a.apply u).lastVoteEpoch = u.lastVoteEpoch := fun hb => (apply_outbox u hb).2.1
      cases a with
      | send os | newEpoch => rfl
      | vote hdr os => exact (hnot hdr os ha).elim
      | hardReset name => exact (not_allows_hardReset hsoft name ha).elim
      | _ => exact hbystander trivial

/-- **Step lemma**: an event. -/
theorem VotingInv.event (h : VotingInv s votes) (hev : ev.Possible env s) (hsoft : ev ≠ .command (.reset true))
    (hname : ∀ link hdr, ev = .packet link hdr → ¬ s.view.InHandshake hdr.sender)
    (hrun : (clusterHandle env ev).run s = .ok (o, t)) :
    VotingInv t ((newVotes s t).map (fun _ => ev.requestEpoch) ++ votes) := by
  have hsteps := (steps_of_handle h.wf hev hrun).1
  have hvotes := votesOf_handle h.wf h.inv hev hsoft hname hrun
  have hafter := h.inv.steps h.wf (not_allows_hardReset hsoft) hsteps
  refine ⟨hafter.wf, hafter.inv, saved_of_steps hsteps h.wf h.inv (not_allows_hardReset hsoft) h.saved, ?_, ?_⟩
  · intro e he
    rcases hvotes with ⟨hnone, hle⟩ | ⟨x, k, hone, hk, hlt, hlast⟩
    · rw [hnone, List.map_nil, List.nil_append] at he
      obtain ⟨k, rfl, hk⟩ := h.past e he
      exact ⟨k, rfl, hk.trans hle⟩
    · rw [hone, List.map_singleton, hk, List.singleton_append, List.mem_cons] at he
      rcases he with rfl | he
      · exact ⟨k, rfl, hlast.ge⟩
      · obtain ⟨k', rfl, hk'⟩ := h.past e he
        exact ⟨k', rfl, by omega⟩
  · rcases hvotes with ⟨hnone, -⟩ | ⟨x, k, hone, hk, hlt, -⟩
    · rw [hnone, List.map_nil, List.nil_append]
      exact h.nodup
    · rw [hone, List.map_singleton, hk, List.singleton_append, List.nodup_cons]
      refine ⟨fun hmem => ?_, h.nodup⟩
      obtain ⟨k', hk', hle⟩ := h.past _ hmem
      cases hk'
      omega

/-- **Step lemma**: the process is started again with a file that holds its last vote. -/
theorem VotingInv.restart {c : SavedConfig} {u : ClusterState} (h : VotingInv t votes) (hdurable : VoteDurable t)
    (hc : t.saved = some c) (hrun : (clusterRestart env c).run emptyClusterState = .ok ((), u)) :
    VotingInv u votes := by
  obtain ⟨c', hc', hwf, hle⟩ := h.saved
  rw [hc] at hc'
  cases hc'
  obtain ⟨u', hrun', hu⟩ := clusterRestart_run env hwf
  rw [hrun] at hrun'
  cases hrun'
  have hbooted : Booted u := by
    refine ⟨hu.wf, hu.outbox, ?_, ?_, c, hu.saved, hwf, hle⟩
    · rw [hu.election]
      exact Nat.zero_le _
    · rw [hu.vote]
      exact hle.trans hu.epoch
  refine { hbooted.inv with past := ?_, nodup := h.nodup }
  intro e he
  obtain ⟨k, rfl, hk⟩ := h.past e he
  refine ⟨k, rfl, ?_⟩
  rw [hu.vote, hdurable c hc]
  exact hk

/-- **Run lemma.** -/
theorem Voting.inv (h : Voting VoteDurable s votes) : VotingInv s votes := by
  induction h with
  | init hs => exact hs.inv
  | event _ hev hsoft hname hrun ih => exact ih.event hev hsoft hname hrun
  | @restart s _ _ _ env _ _ _ _ hsleep hdurable hc hrun ih =>
    have hpossible : ClusterEvent.beforeSleep.Possible env s := trivial
    have hname : ∀ link hdr, ClusterEvent.beforeSleep = .packet link hdr → ¬ s.view.InHandshake hdr.sender := by
      rintro _ _ ⟨⟩
    exact (ih.event hpossible nofun hname hsleep).restart hdurable hc hrun

end Inv

/-! ### A vote that is forgotten -/

theorem forM_eq_pure {α : Type} {l : List α} {f : α → ClusterM Unit} (hf : ∀ a, f a = pure ()) :
    l.forM f = pure () := by
  induction l with
  | nil => rfl
  | cons a l ih =>
    show (f a >>= fun _ => l.forM f) = _
    rw [hf a, pure_bind, ih]

/-- A line without slots in motion, with at most slot 0. -/
theorem loadNode_eq {env : ClusterEnv} {me : Option Ref} {x : SavedNode} (hslots : ∀ j, j ≠ slotZero → x.slots j = false)
    (hmig : ∀ j, x.migrating j = none) (himp : ∀ j, x.importing j = none) : loadNode env me x = (do
      let r ← loadLookup env x.name
      modifyNode r fun n => { n with ip := x.ip, port := x.port }
      let me ← loadFlags env me r x.flags
      ifSome x.slaveof (loadSlaveof env r)
      loadTimes env r x
      loadSlot r x slotZero
      return me) := by
  have hslot : ∀ r, allSlots.forM (loadSlot r x) = loadSlot r x slotZero := by
    intro r
    refine forM_eq_of_mem nodup_allSlots (mem_allSlots slotZero) fun j hj => ?_
    rw [loadSlot, whenDo, if_neg (by simp [hslots j hj])]
  have hmove : allSlots.forM (loadMove env x) = pure () := by
    refine forM_eq_pure fun j => ?_
    rw [loadMove, hmig, himp]
    rfl
  simp only [loadNode, hslot, hmove, pure_bind]

/-- The master of two, with its file. -/
def duoSaved : ClusterState := { duo true with saved := some (clusterGenNodesDescription (duo true)) }

theorem booted_duoSaved : Booted duoSaved := by
  refine ⟨?_, rfl, by decide, by decide, _, rfl, ⟨by decide, ?_⟩, by decide⟩
  · exact (wellFormed_duo true).of_tables rfl rfl rfl rfl rfl rfl rfl
  · refine ⟨_, List.mem_cons_self .., rfl, rfl, rfl, fun _ => rfl, ?_⟩
    intro n hn hflag
    rcases List.mem_cons.mp hn with rfl | hn
    · rfl
    · rw [List.mem_singleton.mp hn] at hflag
      cases hflag

/-- The epochs in a request are taken over, a vote is granted. -/
def learned (s : ClusterState) : ClusterState := stateAfter (packetEpochs (clockEnv 10000) duoRequest.msg 1) s
def voted (s : ClusterState) : ClusterState := stateAfter (do
  let slave ← getNode 1
  clusterSendFailoverAuth (clockEnv 10000) slave
  modify fun s => { s with lastVoteEpoch := s.currentEpoch }
  modifyNode 0 fun master => { master with votedTime := (clockEnv 10000).mstime }) s

/-- The vote of the master of two. -/
theorem run_duoVote {s : ClusterState} {me slave : ClusterNode} (hsender : s.clusterLookupNode [1] = some 1)
    (hknown : senderKnown s (some 1) = true) (hself : (learned s).myself = 0)
    (hlearn : (packetEpochs (clockEnv 10000) duoRequest.msg 1).run s = .ok ((), learned s))
    (hme : (learned s).heap 0 = some me) (hslave : (learned s).heap 1 = some slave)
    (hrest : ∀ r, (learned s).heap (r + 2) = none)
    (hvoter : me.flags.slave = false ∧ me.numslots ≠ 0 ∧ me.votedTime = 0 ∧ me.configEpoch = 0)
    (hrole : slave.flags.master = false ∧ slave.slaveof = some 0 ∧ slave.configEpoch = 0)
    (hepoch : (learned s).currentEpoch = 1 ∧ (learned s).lastVoteEpoch = 0)
    (hvote : StateT.run (m := Except ClusterFault) (do
      clusterSendFailoverAuth (clockEnv 10000) slave
      modify fun s => { s with lastVoteEpoch := s.currentEpoch }
      modifyNode 0 fun master => { master with votedTime := (clockEnv 10000).mstime }) (learned s)
      = .ok ((), voted (learned s))) :
    (clusterHandle (clockEnv 10000) (.packet none duoRequest.msg)).run s = .ok (.idle, voted (learned s)) := by
  refine run_clusterHandle_request rfl hsender hknown hlearn ?_
  rw [← hself] at hme
  refine run_clusterSendFailoverAuthIfNeeded (m := 0) hme hslave (by simp [hvoter]) ?_ (by simp [hepoch])
    (by simp [hrole]) hrole.2.1 (hself ▸ hme) rfl ?_ ?_ hvote
  · rw [hepoch.1]
    decide
  · rw [hvoter.2.2.1]
    decide
  · intro r n hn
    match r, hn with
    | 0, hn =>
      rw [hself, hn] at hme
      cases hme
      rw [hvoter.2.2.2]
      exact Nat.zero_le _
    | 1, hn =>
      rw [hn] at hslave
      cases hslave
      rw [hrole.2.2]
      exact Nat.zero_le _
    | r + 2, hn =>
      rw [hrest r] at hn
      cases hn

def duoGranted : ClusterState := voted (learned duoSaved)

theorem run_duoGranted :
    (clusterHandle (clockEnv 10000) (.packet none duoRequest.msg)).run duoSaved = .ok (.idle, duoGranted) :=
  run_duoVote rfl rfl rfl rfl rfl rfl (fun _ => rfl) (by decide) (by decide) (by decide) rfl

/-- The first vote. -/
theorem voting_duoGranted (cond : ClusterState → Prop) : Voting cond duoGranted [some 1] := by
  have hinit : Voting cond duoSaved [] := Voting.init booted_duoSaved
  refine @Voting.event cond _ _ _ _ (.packet none duoRequest.msg) _ hinit ⟨nofun, fun r => ?_⟩ nofun ?_ run_duoGranted
  · rintro ⟨⟩
  · rintro link hdr ⟨⟩ ⟨r, n, hr, hn, hhs⟩
    cases hr
    cases hn
    cases hhs
/-- `CLUSTER SAVECONFIG`, and the end of the iteration. -/
def duoKept : ClusterState := stateAfter (clusterHandle (clockEnv 10000) (.command .saveconfig)) duoGranted
def duoKeptAsleep : ClusterState := stateAfter (clusterHandle (clockEnv 10000) .beforeSleep) duoKept

/-- The process after the end of the iteration, and started again. -/
def duoAsleep : ClusterState := stateAfter (clusterHandle (clockEnv 10000) .beforeSleep) duoGranted

/-- The lines of the file. -/
def duoLine (r : Ref) : SavedNode :=
  clusterGenNodeDescription (duo true) (((duo true).heap r).getD (duoSlave { slave := true } 0))

def quickLoad (me : Option Ref) (x : SavedNode) : ClusterM (Option Ref) := do
  let r ← loadLookup (clockEnv 10000) x.name
  modifyNode r fun n => { n with ip := x.ip, port := x.port }
  let me ← loadFlags (clockEnv 10000) me r x.flags
  ifSome x.slaveof (loadSlaveof (clockEnv 10000) r)
  loadTimes (clockEnv 10000) r x
  loadSlot r x slotZero
  return me

def duoFirst : ClusterState := stateAfter (quickLoad none (duoLine 0)) emptyClusterState
def duoSecond : ClusterState := stateAfter (quickLoad (some 0) (duoLine 1)) duoFirst
def duoReborn : ClusterState :=
  (duoSecond.setVars (clusterGenNodesDescription (duo true)) 0).restarted (clockEnv 10000)
    (clusterGenNodesDescription (duo true))

theorem loadNode_duoLine (me : Option Ref) (r : Ref) :
    loadNode (clockEnv 10000) me (duoLine r) = quickLoad me (duoLine r) := by
  have hslots : ∀ j, j ≠ slotZero → (duoLine r).slots j = false := by
    intro j hj
    match r with
    | 0 => simp [duoLine, clusterGenNodeDescription, duo, duoState, duoMaster, hj]
    | 1 => rfl
    | r + 2 => rfl
  refine loadNode_eq hslots (fun j => ?_) fun j => ?_
  · show (if _ then none else none) = none
    exact ite_self _
  · show (if _ then none else none) = none
    exact ite_self _

theorem run_duoReborn :
    (clusterRestart (clockEnv 10000) (clusterGenNodesDescription (duo true))).run emptyClusterState = .ok ((), duoReborn) := by
  have hfirst : (loadNode (clockEnv 10000) none (duoLine 0)).run emptyClusterState = .ok (some 0, duoFirst) := by
    rw [loadNode_duoLine]
    rfl
  have hsecond : (loadNode (clockEnv 10000) (some 0) (duoLine 1)).run duoFirst = .ok (some 0, duoSecond) := by
    rw [loadNode_duoLine]
    rfl
  have hlines : (List.foldlM (loadNode (clockEnv 10000)) none (clusterGenNodesDescription (duo true)).nodes).run
      emptyClusterState = .ok (some 0, duoSecond) := by
    show (List.foldlM (loadNode (clockEnv 10000)) none [duoLine 0, duoLine 1]).run _ = _
    rw [List.foldlM_cons, run_bind_of_eq hfirst, List.foldlM_cons, run_bind_of_eq hsecond]
    rfl
  exact run_clusterRestart rfl (run_clusterLoadConfig hlines)

/-- The timer connects the process to its slave. -/
def duoLinked : ClusterState := stateAfter (clusterHandle (clockEnv 10000) .cron) duoReborn
def duoTwice : ClusterState := voted (learned duoLinked)

theorem run_duoTwice :
    (clusterHandle (clockEnv 10000) (.packet none duoRequest.msg)).run duoLinked = .ok (.idle, duoTwice) :=
  run_duoVote rfl rfl rfl rfl rfl rfl (fun _ => rfl) (by decide) (by decide) (by decide) rfl

/-- The runs of a process that is killed between two events, as often as may be, and started again with its file. -/
inductive Persistent : ClusterState → Prop
  | init (env : ClusterEnv) : Persistent (clusterInit env)
  | event {s t : ClusterState} {env : ClusterEnv} {ev : ClusterEvent} {o : FailoverOutcome} : Persistent s →
      ev.Possible env s → (clusterHandle env ev).run s = .ok (o, t) → Persistent t
  | restart {s t : ClusterState} {env : ClusterEnv} {c : SavedConfig} : Persistent s → s.saved = some c →
      (clusterRestart env c).run emptyClusterState = .ok ((), t) → Persistent t

/-- The tables are well formed, and the file is. -/
def Kept (v : ClusterView) : Prop := v.WellFormed ∧ ∃ c, v.saved = some c ∧ c.WellFormed

/-- **Step lemma**: only a save changes the file. -/
theorem Kept.apply {v : ClusterView} {a : ClusterAction} (h : Kept v) (he : a.Enabled v) : Kept (a.apply v) := by
  have htable : a.IsTable → (a.apply v).saved = v.saved := fun hat => congrArg ClusterView.Vars.saved (v.apply_vars hat)
  refine ⟨h.1.apply he, ?_⟩
  cases a with
  | save c => exact ⟨c, rfl, he.1⟩
  | _ => first | exact h.2 | exact (htable trivial).symm ▸ h.2

/-- **Run lemma.** -/
theorem Persistent.kept {s : ClusterState} (h : Persistent s) : Kept s.view := by
  induction h with
  | init env => exact ⟨wellFormed_clusterInit, _, rfl, (ClusterReachable.init env).wellFormed.description⟩
  | event _ hev hrun ih => exact (steps_of_handle ih.1 hev hrun).1.invariant Kept ih fun _ _ _ he hu => hu.apply he
  | restart _ hc hrun ih =>
    obtain ⟨c, hc', hwf⟩ := ih.2
    cases hc.symm.trans hc'
    obtain ⟨t, hrun', ht⟩ := clusterRestart_run _ hwf
    cases hrun.symm.trans hrun'
    exact ⟨ht.wf, _, ht.saved, hwf⟩

end Redis
