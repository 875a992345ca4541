import Redis.Sentinel.Votes

namespace Redis.Sentinel

/-!
# Sentinel — several Sentinels

Sentinels that ask each other for votes and publish hello messages.  What was sent stays in the
network: it may arrive late, in any order, more than once, or never.

* `Group` — who the Sentinels are, and the configuration each starts from;
* `Net` — their states, with the replies and the hello messages sent so far; the requests sent
  are in the traces;
* `NetStep`, `NetSteps` — the runs;
* `NetStep.node` — in each step at most one Sentinel acts.
-/

/-- The Sentinels: run ids, the addresses they announce, the files they start from. -/
structure Group (I M : Type) where
  id : I → Bytes
  announce : I → Addr
  conf : I → Config M

/-- The states of the Sentinels and the messages on their way: a reply goes to the first
    Sentinel, from the second, about a master. -/
structure Net (I M : Type) where
  nodes : I → SentinelState M
  replies : List (I × I × M × DownReply)
  hellos : List (I × Hello M)

variable {I M : Type} [DecidableEq I] [DecidableEq M]

/-- The state of one Sentinel replaced. -/
def Net.setNode (net : Net I M) (i : I) (s : SentinelState M) : Net I M :=
  { net with nodes := fun k => if k = i then s else net.nodes k }

/-- All Sentinels have just read their configuration. -/
def Net.start [Fintype M] (G : Group I M) (R : Resolver) (now : I → Int) : Net I M where
  nodes := fun i => sentinelHandleConfiguration R (now i) (G.conf i) [.flushed (G.conf i)]
  replies := []
  hellos := []

/-- No message of another Sentinel is part of the action. -/
def Action.isLocal : Action M → Bool
  | .downReply _ _ _ => false
  | .downRequest _ _ => false
  | .hello _ => false
  | _ => true

/-- One step, with a condition on what the Sentinel that acts does in its state; for a request
    the condition also sees which master the question is about. -/
inductive NetStep (G : Group I M) (R : Resolver)
    (P : Env → SentinelState M → Option M → Action M → Prop) : Net I M → Net I M → Prop
  | act {net : Net I M} {i : I} {env : Env} {a : Action M} {t : SentinelState M} (hl : a.isLocal = true)
      (ha : a.Enabled (net.nodes i)) (hp : P env (net.nodes i) none a)
      (h : step R env (net.nodes i) a = .ok t) : NetStep G R P net (net.setNode i t)
  /-- A request arrives; an epoch from `2^63` on is no `long long` and is refused. -/
  | request {net : Net I M} {i j : I} {env : Env} {m : M} {addr : Addr} {epoch : Nat}
      {runid : Option Bytes} {ri : Option M}
      (hsent : .ask m (G.id j) addr epoch runid ∈ (net.nodes i).trace)
      (ha : (Action.downRequest ri { addr := addr, epoch := epoch, runid := runid }).Enabled
        (net.nodes j))
      (hp : P env (net.nodes j) (some m)
        (.downRequest ri { addr := addr, epoch := epoch, runid := runid })) :
      NetStep G R P net
        { net.setNode j (isMasterDownByAddr env (net.nodes j) ri
            { addr := addr, epoch := epoch, runid := runid }).1 with
          replies := net.replies ++ [(i, j, m, (isMasterDownByAddr env (net.nodes j) ri
            { addr := addr, epoch := epoch, runid := runid }).2)] }
  | reply {net : Net I M} {i j : I} {env : Env} {m : M} {r : DownReply} {t : SentinelState M}
      (hsent : (i, j, m, r) ∈ net.replies)
      (hp : P env (net.nodes i) none (.downReply m (G.id j) r))
      (h : step R env (net.nodes i) (.downReply m (G.id j) r) = .ok t) :
      NetStep G R P net (net.setNode i t)
  /-- `sentinelSendHello`. -/
  | publish {net : Net I M} {i : I} {m : M} : NetStep G R P net
      { net with hellos := net.hellos ++ [(i, helloOf (net.nodes i) m (G.announce i))] }
  /-- A Sentinel ignores its own messages. -/
  | hello {net : Net I M} {i j : I} {env : Env} {h : Hello M} {t : SentinelState M}
      (hsent : (i, h) ∈ net.hellos) (hother : j ≠ i)
      (ha : (Action.hello h).Enabled (net.nodes j))
      (hp : P env (net.nodes j) none (.hello h))
      (ht : step R env (net.nodes j) (.hello h) = .ok t) : NetStep G R P net (net.setNode j t)

/-- Runs of the whole group. -/
def NetSteps (G : Group I M) (R : Resolver)
    (P : Env → SentinelState M → Option M → Action M → Prop) : Net I M → Net I M → Prop :=
  Relation.ReflTransGen (NetStep G R P)

section

variable {G : Group I M} {R : Resolver} {P : Env → SentinelState M → Option M → Action M → Prop}
  {net net' : Net I M}

omit [DecidableEq M] in
@[simp] theorem setNode_self (i : I) (s : SentinelState M) : (net.setNode i s).nodes i = s := by
  simp [Net.setNode]

omit [DecidableEq M] in
theorem setNode_other {i k : I} (h : k ≠ i) (s : SentinelState M) :
    (net.setNode i s).nodes k = net.nodes k := by
  simp [Net.setNode, h]

omit [DecidableEq M] in
/-- What holds of all Sentinels, after one of them has changed. -/
theorem forall_setNode {p : I → SentinelState M → Prop} (h : ∀ k, p k (net.nodes k)) {i : I}
    {s : SentinelState M} (hs : p i s) : ∀ k, p k ((net.setNode i s).nodes k) := by
  intro k
  by_cases hk : k = i
  · subst hk
    rw [setNode_self]
    exact hs
  · rw [setNode_other hk]
    exact h k

/-- A Sentinel keeps its state or does one action. -/
theorem NetStep.node (h : NetStep G R P net net') (k : I) :
    net'.nodes k = net.nodes k ∨ ∃ env a asked, a.Enabled (net.nodes k) ∧ P env (net.nodes k) asked a ∧
      step R env (net.nodes k) a = .ok (net'.nodes k) := by
  have hone : ∀ {i : I} {t : SentinelState M} {env : Env} {a : Action M} {asked : Option M},
      a.Enabled (net.nodes i) → P env (net.nodes i) asked a → step R env (net.nodes i) a = .ok t →
      (net.setNode i t).nodes k = net.nodes k ∨ ∃ env a asked, a.Enabled (net.nodes k) ∧
        P env (net.nodes k) asked a ∧
        step R env (net.nodes k) a = .ok ((net.setNode i t).nodes k) := by
    intro i t env a asked ha hp hstep
    by_cases hk : k = i
    · subst hk
      refine .inr ⟨env, a, asked, ha, hp, ?_⟩
      rw [setNode_self]
      exact hstep
    · exact .inl (setNode_other hk t)
  cases h with
  | act _ ha hp hstep => exact hone ha hp hstep
  | request _ ha hp => exact hone ha hp rfl
  | reply _ hp hstep => exact hone (a := .downReply _ _ _) trivial hp hstep
  | publish => exact .inl rfl
  | hello _ _ ha hp hstep => exact hone ha hp hstep

end

/-! ## Runs to be evaluated -/

/-- What happens next; an action is chosen from the state it meets, and a message that arrives
    is named by its place among those sent. -/
inductive NetEvent (I M : Type) where
  | act (i : I) (env : Env) (a : SentinelState M → Action M)
  | request (i j : I) (env : Env) (m : M) (addr : Addr) (epoch : Nat) (runid : Option Bytes)
      (ri : Option M)
  | reply (k : Nat) (env : Env)
  | publish (i : I) (m : M)
  | hello (k : Nat) (j : I) (env : Env)

instance (req : DownRequest) : Decidable req.Fits :=
  inferInstanceAs (Decidable (-9223372036854775808 ≤ req.epoch ∧ req.epoch < 9223372036854775808))

instance [Fintype M] (s : SentinelState M) : (a : Action M) → Decidable (a.Enabled s)
  | .switchToPromoted m => inferInstanceAs (Decidable ((s.masters m).failoverState = .updateConfig))
  | .slaveInfo m ri _ => inferInstanceAs (Decidable (ri ∈ (s.masters m).slaves))
  | .downRequest (some m) req => inferInstanceAs (Decidable (req.Fits ∧ (s.masters m).addr = req.addr))
  | .downRequest none req =>
    inferInstanceAs (Decidable (req.Fits ∧ ∀ m, (s.masters m).addr ≠ req.addr))
  | .hello h => inferInstanceAs (Decidable (h.currentEpoch < 18446744073709551616 ∧
      h.masterConfigEpoch < 18446744073709551616))
  | .masterLink _ _ | .slaveLink _ _ _ | .peerLink _ _ _ | .checkTilt | .handleMaster _
  | .handleSlave _ _ | .handlePeer _ _ | .masterInfo _ _ | .downReply _ _ _ | .failover _
  | .reset _ => inferInstanceAs (Decidable True)

/-- Whether a request has been sent. -/
def wasAsked (es : List (Effect M)) (m : M) (sentinel : Bytes) (addr : Addr) (epoch : Nat)
    (runid : Option Bytes) : Bool :=
  es.any (fun e =>
    match e with
    | .ask m' sentinel' addr' epoch' runid' => m' = m && sentinel' = sentinel && addr' = addr &&
        epoch' = epoch && runid' = runid
    | _ => false)

theorem mem_of_wasAsked {es : List (Effect M)} {m : M} {sentinel : Bytes} {addr : Addr} {epoch : Nat}
    {runid : Option Bytes} (h : wasAsked es m sentinel addr epoch runid = true) :
    .ask m sentinel addr epoch runid ∈ es := by
  obtain ⟨e, he, hmatch⟩ := List.any_eq_true.mp h
  cases e with
  | ask m' sentinel' addr' epoch' runid' =>
    simp only [Bool.and_eq_true, decide_eq_true_eq] at hmatch
    obtain ⟨⟨⟨⟨rfl, rfl⟩, rfl⟩, rfl⟩, rfl⟩ := hmatch
    exact he
  | _ => cases hmatch

section Exec

variable [Fintype M] (G : Group I M) (R : Resolver)
  (P : Env → SentinelState M → Option M → Action M → Prop)
  [∀ env s asked a, Decidable (P env s asked a)]

/-- An action of one Sentinel, if it is enabled and meets the condition. -/
def netAct (net : Net I M) (i : I) (env : Env) (a : Action M) : Option (Net I M) :=
  if a.Enabled (net.nodes i) ∧ P env (net.nodes i) none a then
    match step R env (net.nodes i) a with
    | .ok t => some (net.setNode i t)
    | .error _ => none
  else none

/-- An event, if it can happen. -/
def netNext (net : Net I M) : NetEvent I M → Option (Net I M)
  | .act i env a =>
    if (a (net.nodes i)).isLocal then netAct R P net i env (a (net.nodes i)) else none
  | .request i j env m addr epoch runid ri =>
    let req := { addr := addr, epoch := epoch, runid := runid }
    if wasAsked (net.nodes i).trace m (G.id j) addr epoch runid = true ∧
        (Action.downRequest ri req).Enabled (net.nodes j) ∧
        P env (net.nodes j) (some m) (.downRequest ri req) then
      some { net.setNode j (isMasterDownByAddr env (net.nodes j) ri req).1 with
        replies := net.replies ++ [(i, j, m, (isMasterDownByAddr env (net.nodes j) ri req).2)] }
    else none
  | .reply k env =>
    match net.replies[k]? with
    | some (i, j, m, r) => netAct R P net i env (.downReply m (G.id j) r)
    | none => none
  | .publish i m =>
    some { net with hellos := net.hellos ++ [(i, helloOf (net.nodes i) m (G.announce i))] }
  | .hello k j env =>
    match net.hellos[k]? with
    | some (i, h) => if j ≠ i then netAct R P net j env (.hello h) else none
    | none => none

/-- Events one after the other. -/
def netExec : List (NetEvent I M) → Net I M → Option (Net I M)
  | [], net => some net
  | e :: es, net => (netNext G R P net e).bind (netExec es)

variable {G R P}

variable {net net' : Net I M}

theorem netAct_eq {i : I} {env : Env} {a : Action M} (h : netAct R P net i env a = some net') :
    a.Enabled (net.nodes i) ∧ P env (net.nodes i) none a ∧
      ∃ t, step R env (net.nodes i) a = .ok t ∧ net' = net.setNode i t := by
  unfold netAct at h
  split at h
  · rename_i hcond
    split at h
    · rename_i t ht
      cases h
      exact ⟨hcond.1, hcond.2, t, ht, rfl⟩
    · cases h
  · cases h

theorem netStep_of_netNext {e : NetEvent I M} (h : netNext G R P net e = some net') : NetStep G R P net net' := by
  cases e with
  | act i env a =>
    simp only [netNext] at h
    split at h
    · rename_i hl
      obtain ⟨ha, hp, t, ht, rfl⟩ := netAct_eq h
      exact NetStep.act hl ha hp ht
    · cases h
  | request i j env m addr epoch runid ri =>
    simp only [netNext] at h
    split at h
    · rename_i hcond
      cases h
      exact NetStep.request (mem_of_wasAsked hcond.1) hcond.2.1 hcond.2.2
    · cases h
  | reply k env =>
    simp only [netNext] at h
    split at h
    · rename_i i j m r hk
      obtain ⟨-, hp, t, ht, rfl⟩ := netAct_eq h
      exact NetStep.reply (List.mem_of_getElem? hk) hp ht
    · cases h
  | publish i m =>
    cases h
    exact NetStep.publish
  | hello k j env =>
    simp only [netNext] at h
    split at h
    · rename_i i msg hk
      split at h
      · rename_i hother
        obtain ⟨ha, hp, t, ht, rfl⟩ := netAct_eq h
        exact NetStep.hello (List.mem_of_getElem? hk) hother ha hp ht
      · cases h
    · cases h

/-- An evaluated run is a run. -/
theorem netSteps_of_netExec {es : List (NetEvent I M)} (h : netExec G R P es net = some net') :
    NetSteps G R P net net' := by
  induction es generalizing net with
  | nil =>
    cases h
    exact Relation.ReflTransGen.refl
  | cons e es ih =>
    unfold netExec at h
    obtain ⟨net₁, hnext, hrest⟩ := Option.bind_eq_some_iff.mp h
    exact Relation.ReflTransGen.head (netStep_of_netNext hnext) (ih hrest)

end Exec

end Redis.Sentinel
