import Redis.Cluster.Roles

namespace Redis

open Transition

/-!
# Epoch domination

In a network of nodes that run this code, with messages delivered in any order, late, often or
not at all, the `currentEpoch` of a node is at least every `configEpoch` it has recorded.  Neither
`currentEpoch` nor the `configEpoch` of a node about itself ever goes down, and an epoch a node
takes for itself is larger than all it knows.  `CLUSTER RESET HARD` sets the epochs to 0 and is left out.

* `EpochInv` — the invariant of a node, with the messages it has sent;
* `ClusterView.Inherits` — changes that leave names and epochs alone;
* `EpochInv.apply` — the actions keep it;
* `Network` — any number of nodes and all the messages sent so far;
* `epochs_dominate` — **the guarantee, in all runs without `RESET HARD`.**
-/

/-! ### The invariant -/

/-- What holds of the messages in flight: they come from a node of the network, and the epochs in
    them are not larger than the `currentEpoch` of the sender. -/
structure ClusterMsg.Sound (names : Set NodeName) (msg : ClusterMsg) : Prop where
  sender : msg.sender ∈ names
  configEpoch : msg.configEpoch ≤ msg.currentEpoch
  update : ∀ e name slots, msg.data = .update e name slots → e ≤ msg.currentEpoch

/-- The invariant of a node of a network whose nodes have the names `names`. -/
structure EpochInv (names : Set NodeName) (v : ClusterView) : Prop where
  known : ∀ r n, v.heap r = some n → n.configEpoch ≤ v.currentEpoch
  election : v.failoverAuthEpoch ≤ v.currentEpoch
  self : v.nameOf v.myself ∈ names
  handshake : ∀ r n, v.heap r = some n → n.handshake = true → n.name ∉ names
  sent : ∀ o ∈ v.outbox, o.msg.Sound names

namespace ClusterView

/-- The nodes of `w` are nodes of `v` with the same name, epoch and state of the handshake. -/
def Inherits (v w : ClusterView) : Prop :=
  ∀ r n, w.heap r = some n → ∃ m, v.heap r = some m ∧ n.name = m.name ∧
    n.configEpoch = m.configEpoch ∧ n.handshake = m.handshake

variable {u v w : ClusterView}

theorem Inherits.refl (v : ClusterView) : Inherits v v :=
  fun _ n hn => ⟨n, hn, rfl, rfl, rfl⟩

theorem Inherits.trans (h : Inherits u v) (h' : Inherits v w) : Inherits u w := by
  intro r n hn
  obtain ⟨m, hm, hname, hepoch, hhs⟩ := h' r n hn
  obtain ⟨x, hx, hname', hepoch', hhs'⟩ := h r m hm
  exact ⟨x, hx, hname.trans hname', hepoch.trans hepoch', hhs.trans hhs'⟩

theorem Inherits.of_map {g : Ref → NodeView → NodeView} (hheap : ∀ x, w.heap x = (v.heap x).map (g x))
    (hg : ∀ x n, (g x n).name = n.name ∧ (g x n).configEpoch = n.configEpoch ∧
      (g x n).handshake = n.handshake) : Inherits v w := by
  intro r n hn
  rw [hheap r] at hn
  obtain ⟨m, hm, rfl⟩ := Option.map_eq_some_iff.mp hn
  exact ⟨m, hm, hg r m⟩

theorem Inherits.updateNode (v : ClusterView) (r : Ref) {f : NodeView → NodeView}
    (hf : ∀ n, (f n).name = n.name ∧ (f n).configEpoch = n.configEpoch ∧
      (f n).handshake = n.handshake) : Inherits v (v.updateNode r f) := by
  refine Inherits.of_map (fun x => updateNode_heap v r x f) fun x n => ?_
  split_ifs
  · exact hf n
  · exact ⟨rfl, rfl, rfl⟩

theorem Inherits.leave (v : ClusterView) (r : Ref) : Inherits v (v.leave r) := by
  refine Inherits.of_map (leave_heap v r) fun x n => ?_
  split_ifs <;> exact ⟨rfl, rfl, rfl⟩

theorem Inherits.leaveRole (v : ClusterView) : Inherits v v.leaveRole := by
  rw [ClusterView.leaveRole]
  split_ifs
  · exact Inherits.updateNode v v.myself fun _ => ⟨rfl, rfl, rfl⟩
  · exact Inherits.leave v v.myself

theorem Inherits.disconnect (v : ClusterView) (r : Ref) : Inherits v (v.disconnect r) := by
  have habandon : ∀ l, Inherits v (v.abandon l) := by
    intro l
    refine Inherits.of_map (abandon_heap v l) fun x n => ?_
    split_ifs <;> exact ⟨rfl, rfl, rfl⟩
  simp only [ClusterView.disconnect]
  split_ifs
  · exact (habandon _).trans (Inherits.leave _ r)
  · exact habandon _

theorem Inherits.delSlot (v : ClusterView) (j : Slot) : Inherits v (v.delSlot j) := by
  cases hj : v.slots j with
  | none => rw [delSlot_of_none hj]; exact Inherits.refl v
  | some r =>
    refine Inherits.of_map (delSlot_heap hj) fun x n => ?_
    split_ifs <;> exact ⟨rfl, rfl, rfl⟩

/-- The actions that change slots and roles of the nodes of the table. -/
theorem Inherits.apply (v : ClusterView) {a : ClusterAction} (ha : a.IsTable)
    (hnew : ∀ name, a ≠ .handshake name) (hdone : ∀ r name m s, a ≠ .complete r name m s) :
    Inherits v (a.apply v) := by
  cases a with
  | delSlot j => exact Inherits.delSlot v j
  | claim r j | assign r j => exact Inherits.updateNode v r fun _ => ⟨rfl, rfl, rfl⟩
  | move mig imp => exact Inherits.refl v
  | promote r => exact (Inherits.leave v r).trans (Inherits.updateNode _ r fun _ => ⟨rfl, rfl, rfl⟩)
  | demote r => exact Inherits.updateNode v r fun _ => ⟨rfl, rfl, rfl⟩
  | follow r m =>
    have hadd : Inherits (v.leave r) ((v.leave r).addSlave m r) :=
      Inherits.updateNode _ m fun _ => ⟨rfl, rfl, rfl⟩
    exact ((Inherits.leave v r).trans hadd).trans (Inherits.updateNode _ r fun _ => ⟨rfl, rfl, rfl⟩)
  | setMyMaster m =>
    have hpoint : Inherits v.leaveRole
        (v.leaveRole.updateNode v.myself fun n => { n with slaveof := some m }) :=
      Inherits.updateNode _ _ fun _ => ⟨rfl, rfl, rfl⟩
    exact ((Inherits.leaveRole v).trans hpoint).trans (Inherits.updateNode _ m fun _ => ⟨rfl, rfl, rfl⟩)
  | free r =>
    intro x n hn
    have hn' : (if x = r then none else (v.disconnect r).heap x) = some n := hn
    split_ifs at hn'
    exact Inherits.disconnect v r x n hn'
  | handshake name => exact absurd rfl (hnew name)
  | complete r name m s => exact absurd rfl (hdone r name m s)
  | _ => exact ha.elim

end ClusterView

/-! ### Actions -/

section Actions

open ClusterView

variable {names : Set NodeName} {v w : ClusterView}

/-- This node keeps its name. -/
theorem ClusterView.Inherits.nameOf_myself (hin : Inherits v w) (hself : w.myself = v.myself) (hwf : w.WellFormed) :
    w.nameOf w.myself = v.nameOf v.myself := by
  obtain ⟨me, hme, -⟩ := hwf.exists_myself
  obtain ⟨m, hm, hname, -, -⟩ := hin _ me hme
  rw [nameOf, hme, ← hself, nameOf, hm]
  exact hname

theorem ClusterView.nameOf_setNodeEpoch (v : ClusterView) (r x : Ref) (f : NodeView → Nat) :
    (v.updateNode r fun n => { n with configEpoch := f n }).nameOf x = v.nameOf x := by
  rw [nameOf, nameOf, updateNode_heap]
  cases v.heap x with
  | none => rfl
  | some n =>
    show (if x = r then _ else n).name = n.name
    split_ifs <;> rfl

theorem ClusterView.WellFormed.ownName_apply (hwf : v.WellFormed) {a : ClusterAction} (ha : a.Enabled v)
    (hok : ∀ name, a ≠ .hardReset name) :
    (a.apply v).nameOf (a.apply v).myself = v.nameOf v.myself := by
  have htable : a.IsTable → (∀ name, a ≠ .handshake name) → (∀ r name m s, a ≠ .complete r name m s) →
      (a.apply v).nameOf (a.apply v).myself = v.nameOf v.myself := by
    intro hat hnew hdone
    exact (Inherits.apply v hat hnew hdone).nameOf_myself (apply_myself v a) (hwf.apply ha)
  obtain ⟨me, hme, hrole⟩ := hwf.exists_myself
  cases a with
  | learn r hdr | updateEpoch r hdr e => exact nameOf_setNodeEpoch _ r v.myself _
  | bump | winEpoch | setEpoch e => exact nameOf_setNodeEpoch _ v.myself v.myself _
  | hardReset name => exact absurd rfl (hok name)
  | handshake name =>
    have hne : v.myself ≠ v.nextRef := (hwf.lt_nextRef hme).ne
    have hheap : (v.handshake name).heap v.myself = v.heap v.myself := if_neg hne
    show (v.handshake name).nameOf v.myself = _
    rw [nameOf, nameOf, hheap]
  | complete r name master slave =>
    obtain ⟨-, ⟨n, hn, hhs⟩, -⟩ := ha
    have hne : v.myself ≠ r := by
      rintro rfl
      rw [hme] at hn
      cases hn
      rw [hrole.handshake] at hhs
      cases hhs
    show (v.complete r name master slave).nameOf v.myself = _
    rw [nameOf, nameOf, complete_heap, hme, Option.map_some, if_neg hne]
  | send os | save c | resize n | vote hdr os | schedule | newEpoch | markSent | countVote hdr => rfl
  | _ => exact htable trivial (fun _ h => by cases h) (fun _ _ _ _ h => by cases h)

section

variable (h : EpochInv names v)

include h

theorem EpochInv.of_inherits (hin : Inherits v w) (hself : w.myself = v.myself) (hwf : w.WellFormed)
    (hcur : v.currentEpoch ≤ w.currentEpoch) (helect : w.failoverAuthEpoch ≤ w.currentEpoch)
    (hsent : ∀ o ∈ w.outbox, o.msg.Sound names) :
    EpochInv names w where
  known := by
    intro r n hn
    obtain ⟨m, hm, -, hepoch, -⟩ := hin r n hn
    rw [hepoch]
    exact (h.known r m hm).trans hcur
  election := helect
  self := by
    rw [hin.nameOf_myself hself hwf]
    exact h.self
  handshake := by
    intro r n hn hhs
    obtain ⟨m, hm, hname, -, hhs'⟩ := hin r n hn
    rw [hname]
    exact h.handshake r m hm (hhs' ▸ hhs)
  sent := hsent

/-- A node gets an epoch that is not larger than the current one. -/
theorem EpochInv.setNodeEpoch (r : Ref) {f : NodeView → Nat}
    (hf : ∀ n, v.heap r = some n → f n ≤ v.currentEpoch) :
    EpochInv names (v.updateNode r fun n => { n with configEpoch := f n }) where
  known := by
    intro x n hn
    rw [updateNode_heap] at hn
    obtain ⟨m, hm, rfl⟩ := Option.map_eq_some_iff.mp hn
    split_ifs with hx
    · subst hx
      exact hf m hm
    · exact h.known x m hm
  election := h.election
  self := by
    rw [nameOf_setNodeEpoch]
    exact h.self
  handshake := by
    intro x n hn hhs
    rw [updateNode_heap] at hn
    obtain ⟨m, hm, rfl⟩ := Option.map_eq_some_iff.mp hn
    split_ifs at hhs ⊢ <;> exact h.handshake x m hm hhs
  sent := h.sent

/-- The current epoch goes up. -/
theorem EpochInv.raise {e : Nat} (he : v.currentEpoch ≤ e) :
    EpochInv names { v with currentEpoch := e } :=
  ⟨fun r n hn => (h.known r n hn).trans he, h.election.trans he, h.self, h.handshake, h.sent⟩

/-- A message that is queued now is sound. -/
theorem EpochInv.stamped {msg : ClusterMsg} (hmsg : v.Stamped msg) :
    msg.Sound names where
  sender := hmsg.sender ▸ h.self
  configEpoch := by
    obtain ⟨r, n, hn, hepoch⟩ := hmsg.configEpoch
    rw [hmsg.currentEpoch, hepoch]
    exact h.known r n hn
  update := by
    intro e name slots hdata
    obtain ⟨r, n, hn, rfl⟩ := hmsg.update e name slots hdata
    rw [hmsg.currentEpoch]
    exact h.known r n hn

theorem EpochInv.queue {os : List ClusterOutgoing} (hos : ∀ o ∈ os, v.Stamped o.msg) :
    ∀ o ∈ v.outbox ++ os, o.msg.Sound names := by
  intro o ho
  rcases List.mem_append.mp ho with ho | ho
  · exact h.sent o ho
  · exact h.stamped (hos o ho)

/-- A packet whose sender is not in handshake has been learned. -/
theorem EpochInv.le_of_learned (hwf : v.WellFormed) {hdr : ClusterMsg} (hhdr : hdr.Sound names)
    (hlearned : v.Learned hdr) : hdr.currentEpoch ≤ v.currentEpoch := by
  rcases hlearned with hle | ⟨r, n, hr, hn, hhs⟩
  · exact hle
  · obtain ⟨m, hm, hname⟩ := hwf.table _ r (mem_of_lookup hr)
    rw [hn] at hm
    cases hm
    exact absurd (hname ▸ hhdr.sender) (h.handshake r n hn hhs)

end

/-- The actions of a network without `RESET HARD`: packets are sound, names are new. -/
def ClusterAction.Tame (names : Set NodeName) : ClusterAction → Prop
  | .learn _ hdr => hdr.Sound names
  | .updateEpoch _ hdr e => hdr.Sound names ∧ ∃ name slots, hdr.data = .update e name slots
  | .handshake name => name ∉ names
  | .hardReset _ => False
  | _ => True

/-- **Step lemma** of the epochs. -/
theorem EpochInv.apply (h : EpochInv names v) (hwf : v.WellFormed) {a : ClusterAction} (ha : a.Enabled v)
    (hok : a.Tame names) : EpochInv names (a.apply v) := by
  have hwf' : (a.apply v).WellFormed := hwf.apply ha
  have hown := hwf.ownName_apply ha
  have htable : a.IsTable → (∀ name, a ≠ .handshake name) → (∀ r name m s, a ≠ .complete r name m s) →
      EpochInv names (a.apply v) := by
    intro hat hnew hdone
    have hvars := v.apply_vars hat
    have hcur : (a.apply v).currentEpoch = v.currentEpoch := congrArg Vars.currentEpoch hvars
    have helect : (a.apply v).failoverAuthEpoch = v.failoverAuthEpoch := congrArg Vars.failoverAuthEpoch hvars
    have hout : (a.apply v).outbox = v.outbox := congrArg Vars.outbox hvars
    refine h.of_inherits (Inherits.apply v hat hnew hdone) (apply_myself v a) hwf' hcur.ge ?_ ?_
    · rw [hcur, helect]
      exact h.election
    · rw [hout]
      exact h.sent
  cases a with
  | send os => exact ⟨h.known, h.election, h.self, h.handshake, h.queue fun o ho => (ha o ho).1⟩
  | save c | resize n => exact ⟨h.known, h.election, h.self, h.handshake, h.sent⟩
  | learn r hdr =>
    refine (h.raise (le_max_left v.currentEpoch hdr.currentEpoch)).setNodeEpoch r fun n hn => ?_
    exact max_le_max (h.known r n hn) hok.configEpoch
  | updateEpoch r hdr e =>
    obtain ⟨hhdr, name, slots, hdata⟩ := hok
    refine h.setNodeEpoch r fun n _ => ?_
    exact (hhdr.update e name slots hdata).trans (h.le_of_learned hwf hhdr ha.1)
  | bump => exact (h.raise (Nat.le_succ v.currentEpoch)).setNodeEpoch v.myself fun n _ => le_rfl
  | winEpoch => exact h.setNodeEpoch v.myself fun n hn => max_le (h.known _ n hn) h.election
  | setEpoch e =>
    exact (h.raise (le_max_left v.currentEpoch e)).setNodeEpoch v.myself fun n _ => le_max_right _ _
  | hardReset name => exact hok.elim
  | handshake name =>
    have hcases : ∀ {r n}, (v.handshake name).heap r = some n →
        n = handshakeNode name ∨ v.heap r = some n := by
      intro r n hn
      have hn' : (if r = v.nextRef then some (handshakeNode name) else v.heap r) = some n := hn
      split_ifs at hn'
      · exact Or.inl (Option.some.inj hn').symm
      · exact Or.inr hn'
    refine ⟨?_, h.election, ?_, ?_, h.sent⟩
    · intro r n hn
      rcases hcases hn with rfl | hn
      · exact Nat.zero_le _
      · exact h.known r n hn
    · rw [hown nofun]
      exact h.self
    · intro r n hn hhs
      rcases hcases hn with rfl | hn
      · exact hok
      · exact h.handshake r n hn hhs
  | complete r name master slave =>
    obtain ⟨-, ⟨n, hn, hhs⟩, -⟩ := ha
    have hexists : ∀ {x m}, (v.complete r name master slave).heap x = some m →
        ∃ y, v.heap x = some y ∧ m.configEpoch = y.configEpoch ∧
          (x ≠ r → m.name = y.name ∧ m.handshake = y.handshake) ∧ (x = r → m.handshake = false) := by
      intro x m hm
      rw [complete_heap] at hm
      obtain ⟨y, hy, rfl⟩ := Option.map_eq_some_iff.mp hm
      refine ⟨y, hy, ?_⟩
      split_ifs with hx
      · exact ⟨rfl, fun hne => absurd hx hne, fun _ => rfl⟩
      · exact ⟨rfl, fun _ => ⟨rfl, rfl⟩, fun hx' => absurd hx' hx⟩
    refine ⟨?_, h.election, ?_, ?_, h.sent⟩
    · intro x m hm
      obtain ⟨y, hy, hepoch, -⟩ := hexists hm
      rw [hepoch]
      exact h.known x y hy
    · rw [hown nofun]
      exact h.self
    · intro x m hm hhs'
      obtain ⟨y, hy, -, hother, hdone⟩ := hexists hm
      by_cases hx : x = r
      · rw [hdone hx] at hhs'
        cases hhs'
      · obtain ⟨hname, hsame⟩ := hother hx
        rw [hname]
        exact h.handshake x y hy (hsame ▸ hhs')
  | vote hdr os =>
    exact ⟨h.known, h.election, h.self, h.handshake, h.queue fun o ho => (ha.2.2.2.2.2 o ho).1⟩
  | schedule => exact ⟨h.known, h.election, h.self, h.handshake, h.sent⟩
  | newEpoch =>
    have hraised := h.raise (Nat.le_succ v.currentEpoch)
    exact ⟨hraised.known, le_rfl, hraised.self, hraised.handshake, hraised.sent⟩
  | markSent | countVote hdr => exact ⟨h.known, h.election, h.self, h.handshake, h.sent⟩
  | _ => exact htable trivial nofun nofun

end Actions

/-! ### Epochs that are assigned -/

namespace ClusterView

variable {s u v w : ClusterView}

/-- The `configEpoch` of this node. -/
def ownEpoch (v : ClusterView) : Nat :=
  match v.heap v.myself with
  | none => 0
  | some me => me.configEpoch

theorem ownEpoch_of_heap {me : NodeView} (h : v.heap v.myself = some me) : v.ownEpoch = me.configEpoch := by
  rw [ownEpoch, h]

theorem ownEpoch_setNodeEpoch {me : NodeView} (h : v.heap v.myself = some me) (f : NodeView → Nat) :
    (v.updateNode v.myself fun n => { n with configEpoch := f n }).ownEpoch = f me := by
  have hheap : (v.updateNode v.myself fun n => { n with configEpoch := f n }).heap v.myself
      = some { me with configEpoch := f me } := by
    rw [updateNode_heap, h, Option.map_some, if_pos rfl]
  exact ownEpoch_of_heap hheap

/-- The epoch is larger than those of all other nodes. -/
def Exceeds (v : ClusterView) (e : Nat) : Prop :=
  ∀ r n, r ≠ v.myself → v.heap r = some n → n.configEpoch < e

/-- A change that does not touch the epochs; a new node has epoch 0. -/
structure Quiet (v w : ClusterView) : Prop where
  myself : w.myself = v.myself
  own : w.ownEpoch = v.ownEpoch
  others : ∀ r n, w.heap r = some n →
    n.configEpoch = 0 ∨ ∃ m, v.heap r = some m ∧ n.configEpoch = m.configEpoch
  election : w.failoverAuthEpoch = v.failoverAuthEpoch

/-- The actions that do not touch the epochs of nodes and elections. -/
def IsQuiet : ClusterAction → Prop
  | .learn _ _ | .updateEpoch _ _ _ | .bump | .winEpoch | .setEpoch _ | .hardReset _ | .newEpoch => False
  | _ => True

theorem Quiet.of_inherits (hin : Inherits v w) (hself : w.myself = v.myself) (hwf : w.WellFormed)
    (helect : w.failoverAuthEpoch = v.failoverAuthEpoch) : Quiet v w where
  myself := hself
  own := by
    obtain ⟨me, hme, -⟩ := hwf.exists_myself
    obtain ⟨m, hm, -, hepoch, -⟩ := hin _ me hme
    rw [ownEpoch_of_heap hme, hepoch]
    rw [hself] at hm
    exact (ownEpoch_of_heap hm).symm
  others := by
    intro r n hn
    obtain ⟨m, hm, -, hepoch, -⟩ := hin r n hn
    exact Or.inr ⟨m, hm, hepoch⟩
  election := helect

variable {a : ClusterAction} {names : Set NodeName}

theorem Quiet.apply (hwf : v.WellFormed) (ha : a.Enabled v) (hquiet : IsQuiet a) :
    Quiet v (a.apply v) := by
  have hwf' : (a.apply v).WellFormed := hwf.apply ha
  have htable : a.IsTable → (∀ name, a ≠ .handshake name) → (∀ r name m s, a ≠ .complete r name m s) →
      Quiet v (a.apply v) := by
    intro hat hnew hdone
    exact Quiet.of_inherits (Inherits.apply v hat hnew hdone) (apply_myself v a) hwf'
      (congrArg Vars.failoverAuthEpoch (v.apply_vars hat))
  have hsame : Inherits v (a.apply v) → (a.apply v).failoverAuthEpoch = v.failoverAuthEpoch →
      Quiet v (a.apply v) := fun hin => Quiet.of_inherits hin (apply_myself v a) hwf'
  cases a with
  | send os | save c | resize n | vote hdr os | schedule | markSent | countVote hdr =>
    exact hsame (Inherits.refl v) rfl
  | handshake name =>
    obtain ⟨me, hme, -⟩ := hwf.exists_myself
    have hne : v.myself ≠ v.nextRef := (hwf.lt_nextRef hme).ne
    have hheap : (v.handshake name).heap v.myself = some me := (if_neg hne).trans hme
    refine ⟨rfl, (ownEpoch_of_heap (v := v.handshake name) hheap).trans (ownEpoch_of_heap hme).symm, ?_, rfl⟩
    intro r n hn
    have hn' : (if r = v.nextRef then some (handshakeNode name) else v.heap r) = some n := hn
    split_ifs at hn'
    · exact Or.inl (by rw [← Option.some.inj hn']; rfl)
    · exact Or.inr ⟨n, hn', rfl⟩
  | complete r name master slave =>
    have hepoch : ∀ x n, (v.complete r name master slave).heap x = some n →
        ∃ m, v.heap x = some m ∧ n.configEpoch = m.configEpoch := by
      intro x n hn
      rw [complete_heap] at hn
      obtain ⟨m, hm, rfl⟩ := Option.map_eq_some_iff.mp hn
      refine ⟨m, hm, ?_⟩
      split_ifs <;> rfl
    refine ⟨rfl, ?_, fun x n hn => Or.inr (hepoch x n hn), rfl⟩
    obtain ⟨me, hme, -⟩ := hwf'.exists_myself
    obtain ⟨m, hm, heq⟩ := hepoch _ me hme
    rw [ownEpoch_of_heap hme, heq]
    exact (ownEpoch_of_heap hm).symm
  | _ => first | exact hquiet.elim | exact htable trivial nofun nofun

theorem Exceeds.quiet {e : Nat} (h : v.Exceeds e) (hpos : 0 < e) (hq : Quiet v w) : w.Exceeds e := by
  intro r n hne hn
  rcases hq.others r n hn with hzero | ⟨m, hm, heq⟩
  · rw [hzero]
    exact hpos
  · rw [heq]
    exact h r m (hq.myself ▸ hne) hm

theorem Exceeds.setMyEpoch {e : Nat} (h : v.Exceeds e) (f : NodeView → Nat) :
    (v.updateNode v.myself fun n => { n with configEpoch := f n }).Exceeds e := by
  intro r n hne hn
  have hne' : r ≠ v.myself := hne
  rw [updateNode_heap] at hn
  obtain ⟨m, hm, rfl⟩ := Option.map_eq_some_iff.mp hn
  rw [if_neg hne']
  exact h r m hne' hm

/-- Where the epoch of this node and of its election come from, since the state `s`: they are
    those of `s`, this node has taken the epoch of the election, or they are larger than all
    epochs known. -/
structure Assigned (s u : ClusterView) : Prop where
  current : s.currentEpoch ≤ u.currentEpoch
  election : u.failoverAuthEpoch = s.failoverAuthEpoch ∨
    (s.currentEpoch < u.failoverAuthEpoch ∧ u.Exceeds u.failoverAuthEpoch)
  own : u.ownEpoch = s.ownEpoch ∨ u.ownEpoch = s.failoverAuthEpoch ∨
    (s.currentEpoch < u.ownEpoch ∧ u.Exceeds u.ownEpoch)

theorem Assigned.refl (s : ClusterView) : Assigned s s := ⟨le_rfl, Or.inl rfl, Or.inl rfl⟩

/-- The actions by which this node may change its own epoch. -/
def IsLocal : ClusterAction → Prop
  | .learn _ _ | .updateEpoch _ _ _ | .setEpoch _ | .hardReset _ => False
  | _ => True

/-- The current epoch exceeds what is known by one step. -/
theorem exceeds_next (h : EpochInv names v) :
    v.Exceeds (v.currentEpoch + 1) :=
  fun r n _ hn => Nat.lt_succ_of_le (h.known r n hn)

theorem Assigned.apply (h : Assigned s u) (hinv : EpochInv names u) (hwf : u.WellFormed) (ha : a.Enabled u)
    (hlocal : IsLocal a) :
    Assigned s (a.apply u) := by
  obtain ⟨me, hme, -⟩ := hwf.exists_myself
  have hquiet : IsQuiet a → (a.apply u).currentEpoch = u.currentEpoch → Assigned s (a.apply u) := by
    intro hq hcur
    have hq := Quiet.apply hwf ha hq
    refine ⟨hcur ▸ h.current, ?_, ?_⟩
    · rw [hq.election]
      exact h.election.imp id fun hlt => ⟨hlt.1, hlt.2.quiet (Nat.zero_lt_of_lt hlt.1) hq⟩
    · rw [hq.own]
      exact h.own.imp id (Or.imp id fun hlt => ⟨hlt.1, hlt.2.quiet (Nat.zero_lt_of_lt hlt.1) hq⟩)
  have htable : IsQuiet a → a.IsTable → Assigned s (a.apply u) :=
    fun hq hat => hquiet hq (congrArg Vars.currentEpoch (u.apply_vars hat))
  have hnext : s.currentEpoch < u.currentEpoch + 1 := Nat.lt_succ_of_le h.current
  cases a with
  | bump =>
    have hown : (ClusterAction.bump.apply u).ownEpoch = u.currentEpoch + 1 :=
      ownEpoch_setNodeEpoch (v := { u with currentEpoch := u.currentEpoch + 1 }) hme _
    have hraised : ({ u with currentEpoch := u.currentEpoch + 1 } : ClusterView).Exceeds
        (u.currentEpoch + 1) := exceeds_next hinv
    have hexceeds : (ClusterAction.bump.apply u).Exceeds (u.currentEpoch + 1) := hraised.setMyEpoch _
    refine ⟨hnext.le, h.election.imp id fun hlt => ⟨hlt.1, ?_⟩, Or.inr (Or.inr ⟨?_, ?_⟩)⟩
    · exact Exceeds.setMyEpoch (v := { u with currentEpoch := u.currentEpoch + 1 }) hlt.2 _
    · rw [hown]
      exact hnext
    · rw [hown]
      exact hexceeds
  | winEpoch =>
    have hown : (ClusterAction.winEpoch.apply u).ownEpoch = max me.configEpoch u.failoverAuthEpoch :=
      ownEpoch_setNodeEpoch hme _
    refine ⟨h.current, h.election.imp id fun hlt => ⟨hlt.1, hlt.2.setMyEpoch _⟩, ?_⟩
    rw [hown]
    rcases max_choice me.configEpoch u.failoverAuthEpoch with hmax | hmax
    · rw [hmax, ← ownEpoch_of_heap hme]
      exact h.own.imp id (Or.imp id fun hlt => ⟨hlt.1, hlt.2.setMyEpoch _⟩)
    · rw [hmax]
      exact Or.inr (h.election.imp id fun hlt => ⟨hlt.1, hlt.2.setMyEpoch _⟩)
  | newEpoch => exact ⟨hnext.le, Or.inr ⟨hnext, (exceeds_next hinv)⟩, h.own⟩
  | learn r hdr | updateEpoch r hdr e | setEpoch e | hardReset name => exact hlocal.elim
  | send os | save c | resize n | vote hdr os | schedule | markSent | countVote hdr => exact hquiet trivial rfl
  | _ => exact htable trivial trivial

/-- The epochs along a sequence of local actions. -/
theorem Assigned.steps {A : ClusterAction → Prop} (hinv : EpochInv names v) (hwf : v.WellFormed)
    (hA : ∀ a, A a → IsLocal a ∧ a.Tame names) (hs : Steps A v w) : Assigned v w := by
  have h : Assigned v w ∧ EpochInv names w ∧ w.WellFormed := by
    refine hs.invariant (fun u => Assigned v u ∧ EpochInv names u ∧ u.WellFormed)
      ⟨Assigned.refl v, hinv, hwf⟩ ?_
    rintro a u ha he ⟨hassigned, hu, hwfu⟩
    exact ⟨hassigned.apply hu hwfu he (hA a ha).1, hu.apply hwfu he (hA a ha).2, hwfu.apply he⟩
  exact h.1

/-! ### Epochs that only go up -/

/-- What holds of the epochs after any action of the network. -/
structure Grows (s u : ClusterView) : Prop where
  name : u.nameOf u.myself = s.nameOf s.myself
  current : s.currentEpoch ≤ u.currentEpoch
  own : s.ownEpoch ≤ u.ownEpoch
  election : u.failoverAuthEpoch = s.failoverAuthEpoch ∨ s.currentEpoch < u.failoverAuthEpoch

theorem Grows.refl (s : ClusterView) : Grows s s := ⟨rfl, le_rfl, le_rfl, Or.inl rfl⟩

/-- The epoch of some node is changed: that of this node goes up if it is the one. -/
theorem ownEpoch_le_setNodeEpoch {r : Ref} {f : NodeView → Nat}
    (hf : ∀ n, v.heap r = some n → n.configEpoch ≤ f n) :
    v.ownEpoch ≤ (v.updateNode r fun n => { n with configEpoch := f n }).ownEpoch := by
  cases hme : v.heap v.myself with
  | none =>
    rw [ownEpoch, hme]
    exact Nat.zero_le _
  | some me =>
    have hheap : (v.updateNode r fun n => { n with configEpoch := f n }).heap v.myself
        = some (if v.myself = r then { me with configEpoch := f me } else me) := by
      rw [updateNode_heap, hme, Option.map_some]
    rw [ownEpoch_of_heap hme, ownEpoch_of_heap (v := v.updateNode r _) hheap]
    split_ifs with hr
    · exact hf me (hr ▸ hme)
    · exact le_rfl

theorem ownEpoch_setNodeEpoch_of_ne {r : Ref} {f : NodeView → Nat} (hr : r ≠ v.myself) :
    (v.updateNode r fun n => { n with configEpoch := f n }).ownEpoch = v.ownEpoch := by
  have hheap : (v.updateNode r fun n => { n with configEpoch := f n }).heap v.myself = v.heap v.myself := by
    rw [updateNode_heap]
    simp [Ne.symm hr]
  show (match (v.updateNode r _).heap v.myself with | none => 0 | some me => me.configEpoch) = _
  rw [hheap]
  rfl

theorem Grows.apply (h : Grows s u) (hinv : EpochInv names u) (hwf : u.WellFormed) (ha : a.Enabled u)
    (hok : a.Tame names) : Grows s (a.apply u) := by
  have hname : (∀ name, a ≠ .hardReset name) → (a.apply u).nameOf (a.apply u).myself = s.nameOf s.myself :=
    fun hsoft => (hwf.ownName_apply ha hsoft).trans h.name
  have hquiet : IsQuiet a → (a.apply u).currentEpoch = u.currentEpoch → Grows s (a.apply u) := by
    intro hq hcur
    have hq := Quiet.apply hwf ha hq
    have hsoft : ∀ name, a ≠ .hardReset name := by
      rintro name rfl
      exact hok
    exact ⟨hname hsoft, hcur ▸ h.current, hq.own ▸ h.own, hq.election ▸ h.election⟩
  have htable : IsQuiet a → a.IsTable → Grows s (a.apply u) :=
    fun hq hat => hquiet hq (congrArg Vars.currentEpoch (u.apply_vars hat))
  cases a with
  | learn r hdr =>
    refine ⟨hname nofun, h.current.trans (le_max_left _ _), h.own.trans ?_, h.election⟩
    exact ownEpoch_le_setNodeEpoch (v := { u with currentEpoch := max u.currentEpoch hdr.currentEpoch })
      fun n _ => le_max_left _ _
  | updateEpoch r hdr e =>
    obtain ⟨-, n, hn, hlt⟩ := ha
    refine ⟨hname nofun, h.current, h.own.trans (ownEpoch_le_setNodeEpoch fun n' hn' => ?_), h.election⟩
    rw [hn] at hn'
    cases hn'
    exact hlt.le
  | bump =>
    refine ⟨hname nofun, h.current.trans (Nat.le_succ _), h.own.trans ?_, h.election⟩
    exact ownEpoch_le_setNodeEpoch (v := { u with currentEpoch := u.currentEpoch + 1 })
      fun n hn => (hinv.known _ n hn).trans (Nat.le_succ _)
  | winEpoch =>
    refine ⟨hname nofun, h.current, h.own.trans (ownEpoch_le_setNodeEpoch fun n _ => le_max_left _ _), h.election⟩
  | setEpoch e =>
    obtain ⟨me, hme, hzero⟩ := ha
    refine ⟨hname nofun, h.current.trans (le_max_left _ _), h.own.trans ?_, h.election⟩
    rw [ownEpoch_of_heap hme, hzero]
    exact Nat.zero_le _
  | newEpoch => exact ⟨hname nofun, h.current.trans (Nat.le_succ _), h.own, Or.inr (Nat.lt_succ_of_le h.current)⟩
  | hardReset name => exact hok.elim
  | send os | save c | resize n | vote hdr os | schedule | markSent | countVote hdr => exact hquiet trivial rfl
  | _ => exact htable trivial trivial

/-- **Run lemma**: the invariant and the growth of the epochs along a sequence of actions. -/
theorem Grows.steps {A : ClusterAction → Prop} (hinv : EpochInv names v) (hwf : v.WellFormed)
    (hA : ∀ a, A a → a.Tame names) (hs : Steps A v w) :
    EpochInv names w ∧ Grows v w := by
  have h : w.WellFormed ∧ EpochInv names w ∧ Grows v w := by
    refine hs.invariant (fun u => u.WellFormed ∧ EpochInv names u ∧ Grows v u)
      ⟨hwf, hinv, Grows.refl v⟩ ?_
    rintro a u ha he ⟨hwfu, hu, hgrows⟩
    exact ⟨hwfu.apply he, hu.apply hwfu he (hA a ha), hgrows.apply hu hwfu he (hA a ha)⟩
  exact h.2

end ClusterView

/-! ### Events -/

namespace ClusterState

/-- `myself->configEpoch`. -/
def ownEpoch (s : ClusterState) : Nat :=
  match s.heap s.myself with
  | none => 0
  | some me => me.configEpoch

/-- `myself->name`. -/
def ownName (s : ClusterState) : NodeName :=
  match s.heap s.myself with
  | none => []
  | some me => me.name

theorem view_ownEpoch (s : ClusterState) : s.view.ownEpoch = s.ownEpoch := by
  rw [ownEpoch, ClusterView.ownEpoch]
  show (match (s.heap s.myself).map ClusterNode.view with | none => 0 | some me => me.configEpoch) = _
  cases s.heap s.myself <;> rfl

theorem view_ownName (s : ClusterState) : s.view.nameOf s.view.myself = s.ownName := by
  rw [ownName, ClusterView.nameOf]
  show (match (s.heap s.myself).map ClusterNode.view with | none => [] | some me => me.name) = _
  cases s.heap s.myself <;> rfl

end ClusterState

/-- The packet comes from this node itself, or is an `UPDATE` about it. -/
def ClusterMsg.Echo (s : ClusterState) (hdr : ClusterMsg) : Prop :=
  s.clusterLookupNode hdr.sender = some s.myself ∨
    ∃ e name slots, hdr.data = .update e name slots ∧ s.clusterLookupNode name = some s.myself

/-- The events in which this node may give itself an epoch: not the administrator, and not a packet
    that tells its own epoch. -/
def ClusterEvent.Assigns (s : ClusterState) : ClusterEvent → Prop
  | .packet _ hdr => ¬ hdr.Echo s
  | .command (.setConfigEpoch _) => False
  | _ => True

/-- What an event does to the epochs of a node. -/
structure EpochStep (s : ClusterState) (ev : ClusterEvent) (t : ClusterState) : Prop where
  current : s.currentEpoch ≤ t.currentEpoch
  own : s.ownEpoch ≤ t.ownEpoch
  /-- The epoch of an election, when it is drawn, is larger than all epochs known. -/
  election : t.failoverAuthEpoch = s.failoverAuthEpoch ∨
    ∀ r n, s.heap r = some n → n.configEpoch < t.failoverAuthEpoch
  /-- An epoch this node takes is that of its election, or larger than all epochs known before
      and all epochs of other nodes known after. -/
  assigned : ev.Assigns s → t.ownEpoch = s.ownEpoch ∨ t.ownEpoch = s.failoverAuthEpoch ∨
    ((∀ r n, s.heap r = some n → n.configEpoch < t.ownEpoch) ∧
      ∀ r n, r ≠ t.myself → t.heap r = some n → n.configEpoch < t.ownEpoch)

section Events

open ClusterView

variable {names : Set NodeName} {s t : ClusterState} {env : ClusterEnv} {ev : ClusterEvent}
  {o : FailoverOutcome}

/-- The conditions of the network on an event. -/
structure ClusterEvent.Tame (names : Set NodeName) (env : ClusterEnv) (ev : ClusterEvent) : Prop where
  packet : ∀ link hdr, ev = .packet link hdr → hdr.Sound names
  names : ∀ r, env.randomHexChars r ∉ names
  soft : ev ≠ .command (.reset true)

variable {hdr : ClusterMsg} {a : ClusterAction} {v : ClusterView}

theorem tame_packetAllows (hhdr : hdr.Sound names) (hnames : ∀ r, env.randomHexChars r ∉ names)
    (ha : packetAllows env v hdr a) : a.Tame names := by
  cases a with
  | updateEpoch r h e =>
    obtain ⟨-, rfl, name, slots, hdata⟩ := ha
    exact ⟨hhdr, name, slots, hdata⟩
  | handshake name =>
    obtain ⟨r, rfl⟩ := ha
    exact hnames r
  | learn r h | hardReset name => exact ha.elim
  | _ => trivial

theorem tame_learnAllows (hhdr : hdr.Sound names) (ha : learnAllows v hdr a) : a.Tame names := by
  cases a with
  | learn r h =>
    obtain ⟨-, rfl⟩ := ha
    exact hhdr
  | _ => exact ha.elim

theorem ClusterEvent.Tame.allows (h : ev.Tame names env) (ha : ev.allows env v a) : a.Tame names := by
  cases ev with
  | packet link hdr =>
    have hhdr := h.packet link hdr rfl
    exact ha.elim (tame_learnAllows hhdr) (tame_packetAllows hhdr h.names)
  | command c =>
    cases a with
    | learn r hdr | updateEpoch r hdr e => exact (not_isProtocol_of_command ha trivial).elim
    | handshake name =>
      obtain ⟨r, rfl⟩ := name_of_command ha
      exact h.names r
    | hardReset name =>
      obtain rfl := hard_of_command ha
      exact (h.soft rfl).elim
    | _ => trivial
  | cron | beforeSleep => cases a <;> first | exact ha.elim | trivial

/-- The epochs of this node after a packet that is not its own. -/
theorem assigned_packet {v w : ClusterView} (hinv : EpochInv names s.view) (hwf : s.view.WellFormed)
    (hhdr : hdr.Sound names) (hnames : ∀ r, env.randomHexChars r ∉ names) (hother : ¬ hdr.Echo s)
    (hlearn : Steps (learnAllows s.view hdr) s.view v) (hrest : Steps (packetAllows env s.view hdr) v w) :
    Assigned s.view w := by
  have hne : ∀ r, s.view.About hdr r → r ≠ s.view.myself := by
    rintro r habout rfl
    exact hother habout
  have hv := Grows.steps hinv hwf (fun a ha => tame_learnAllows hhdr ha) hlearn
  have hwfv : v.WellFormed := hwf.steps hlearn
  -- the first part is about the epoch of the sender
  have hlearned : v.ownEpoch = s.view.ownEpoch ∧ v.failoverAuthEpoch = s.view.failoverAuthEpoch := by
    refine hlearn.invariant (fun u => u.ownEpoch = s.view.ownEpoch ∧
      u.failoverAuthEpoch = s.view.failoverAuthEpoch ∧ u.myself = s.view.myself) ⟨rfl, rfl, rfl⟩ ?_
      |>.imp id And.left
    rintro a u ha he ⟨hown, helect, hself⟩
    cases a with
    | learn r h =>
      have hr : r ≠ u.myself := hself ▸ hne r (Or.inl ha.1)
      refine ⟨?_, helect, hself⟩
      exact (ownEpoch_setNodeEpoch_of_ne
        (v := { u with currentEpoch := max u.currentEpoch h.currentEpoch }) hr).trans hown
    | _ => exact ha.elim
  have hself : v.myself = s.view.myself := steps_myself hlearn
  have hassigned : Assigned v w := by
    by_cases hupdate : ∃ e name slots, hdr.data = .update e name slots
    · -- an UPDATE about another node
      have hsame := hrest.invariant_and (fun u => u.WellFormed) (fun u => u.ownEpoch = v.ownEpoch ∧
        u.failoverAuthEpoch = v.failoverAuthEpoch ∧ u.myself = v.myself) hwfv ⟨rfl, rfl, rfl⟩
        (fun a u _ he hu => hu.apply he) ?_
      · exact ⟨(Grows.steps hv.1 hwfv (fun a ha => tame_packetAllows hhdr hnames ha) hrest).2.current,
          Or.inl hsame.2.1, Or.inl hsame.1⟩
      · rintro a u ha he hu ⟨hown, helect, hself'⟩
        have hquiet : IsQuiet a → (a.apply u).ownEpoch = v.ownEpoch ∧
            (a.apply u).failoverAuthEpoch = v.failoverAuthEpoch ∧ (a.apply u).myself = v.myself := by
          intro hq
          have hq := Quiet.apply hu he hq
          exact ⟨hq.own.trans hown, hq.election.trans helect, hq.myself.trans hself'⟩
        cases a with
        | updateEpoch r h e =>
          have hr : r ≠ u.myself := by
            rw [hself', hself]
            exact hne r ha.1
          exact ⟨(ownEpoch_setNodeEpoch_of_ne hr).trans hown, helect, hself'⟩
        | bump =>
          obtain ⟨e, name, slots, hdata⟩ := hupdate
          exact absurd hdata (ha e name slots)
        | _ => first | exact ha.elim | exact hquiet trivial
    · refine Assigned.steps hv.1 hwfv (fun a ha => ⟨?_, tame_packetAllows hhdr hnames ha⟩) hrest
      cases a with
      | updateEpoch r h e =>
        obtain ⟨-, -, name, slots, hdata⟩ := ha
        exact hupdate ⟨e, name, slots, hdata⟩
      | _ => first | exact ha.elim | trivial
  refine ⟨hv.2.current.trans hassigned.current, ?_, ?_⟩
  · rw [← hlearned.2]
    exact hassigned.election.imp id fun h => ⟨hv.2.current.trans_lt h.1, h.2⟩
  · rw [← hlearned.1, ← hlearned.2]
    exact hassigned.own.imp id (Or.imp id fun h => ⟨hv.2.current.trans_lt h.1, h.2⟩)

theorem assigned_handle (hinv : EpochInv names s.view) (hwf : s.view.WellFormed) (hev : ev.Possible env s)
    (hok : ev.Tame names env) (hassigns : ev.Assigns s) (hrun : (clusterHandle env ev).run s = .ok (o, t)) :
    Assigned s.view t.view := by
  obtain ⟨hsteps, hexplains⟩ := steps_of_handle hwf hev hrun
  have hlocal : (∀ a, ev.allows env s.view a → IsLocal a) → Assigned s.view t.view := fun hl =>
    Assigned.steps hinv hwf (fun a ha => ⟨hl a ha, hok.allows ha⟩) hsteps
  cases ev with
  | packet link hdr =>
    obtain ⟨v, hlearn, hrest⟩ := hexplains.packet link hdr rfl
    exact assigned_packet hinv hwf (hok.packet link hdr rfl) hok.names hassigns hlearn hrest
  | command c =>
    refine hlocal fun a ha => ?_
    cases a with
    | learn r hdr | updateEpoch r hdr e => exact (not_isProtocol_of_command ha trivial).elim
    | setEpoch e =>
      obtain ⟨epoch, rfl⟩ := setConfigEpoch_of_command ha
      exact hassigns
    | hardReset name => exact hok.allows ha
    | _ => trivial
  | cron | beforeSleep => exact hlocal fun a ha => by cases a <;> first | exact ha.elim | trivial

/-- **One event.** -/
theorem epochStep_of_handle (hinv : EpochInv names s.view) (hwf : s.view.WellFormed)
    (hev : ev.Possible env s) (hok : ev.Tame names env)
    (hrun : (clusterHandle env ev).run s = .ok (o, t)) : EpochStep s ev t := by
  have hgrows := (Grows.steps hinv hwf (fun a ha => hok.allows ha) (steps_of_handle hwf hev hrun).1).2
  have hknown : ∀ {e}, s.currentEpoch < e → ∀ r n, s.heap r = some n → n.configEpoch < e :=
    fun he r n hn => (hinv.known r n.view (ClusterState.view_heap hn)).trans_lt he
  refine ⟨hgrows.current, ?_, hgrows.election.imp id hknown, fun hassigns => ?_⟩
  · rw [← ClusterState.view_ownEpoch, ← ClusterState.view_ownEpoch]
    exact hgrows.own
  · have hown := (assigned_handle hinv hwf hev hok hassigns hrun).own
    rw [ClusterState.view_ownEpoch, ClusterState.view_ownEpoch] at hown
    refine hown.imp id (Or.imp id fun h => ⟨hknown h.1, fun r n hne hn => ?_⟩)
    exact h.2 r n.view hne (ClusterState.view_heap hn)

end Events

/-! ### Networks -/

/-- The nodes of a network, each with the messages it has sent so far. -/
abbrev Network (P : Type) := P → ClusterState

section Network

variable {P : Type} [DecidableEq P]

/-- What may happen at the node `p`: timers and the commands `ok` at any time, and the arrival of any
    message that has been sent, whenever and as often as it may be.  A name that is drawn is not
    the one of a node. -/
structure CanHandle (ok : ClusterCommand → Prop) (net : Network P) (p : P) (env : ClusterEnv)
    (ev : ClusterEvent) : Prop where
  possible : ev.Possible env (net p)
  sent : ∀ link hdr, ev = .packet link hdr → ∃ q, ∃ o ∈ (net q).outbox, o.msg = hdr
  names : ∀ r q, env.randomHexChars r ≠ (net q).ownName
  command : ∀ c, ev = .command c → ok c

/-- The networks that are reached from fresh nodes. -/
inductive NetworkReachable (ok : ClusterCommand → Prop) : Network P → Prop
  | init (env : P → ClusterEnv) : NetworkReachable ok fun p => clusterInit (env p)
  | step {net : Network P} {p : P} {env : ClusterEnv} {ev : ClusterEvent} {o : FailoverOutcome}
      {t : ClusterState} : NetworkReachable ok net → CanHandle ok net p env ev →
      (clusterHandle env ev).run (net p) = .ok (o, t) → NetworkReachable ok (Function.update net p t)

/-- All commands but `RESET HARD`, which sets the epochs to 0. -/
def KeepsEpochs (c : ClusterCommand) : Prop := c ≠ .reset true

/-- The names of the nodes. -/
def networkNames (net : Network P) : Set NodeName := Set.range fun p => (net p).ownName

omit [DecidableEq P] in
theorem CanHandle.tame {net : Network P} {p : P} {env : ClusterEnv} {ev : ClusterEvent}
    (h : CanHandle KeepsEpochs net p env ev)
    (hsound : ∀ q, EpochInv (networkNames net) (net q).view) : ev.Tame (networkNames net) env where
  packet := by
    intro link hdr hev
    obtain ⟨q, o, ho, rfl⟩ := h.sent link hdr hev
    exact (hsound q).sent o ho
  names := by
    rintro r ⟨q, hq⟩
    exact h.names r q hq.symm
  soft := fun hev => h.command _ hev rfl

theorem epochInv_clusterInit {names : Set NodeName} {env : ClusterEnv}
    (hname : (clusterInit env).ownName ∈ names) : EpochInv names (clusterInit env).view := by
  have hheap : ∀ r n, (clusterInit env).view.heap r = some n → n = (freshMyself env).view := by
    intro r n hn
    by_cases hr : r = 0
    · subst hr
      exact (Option.some.inj hn).symm
    · simp [ClusterState.view, clusterInit, hr] at hn
  refine ⟨fun r n hn => ?_, le_rfl, ClusterState.view_ownName _ ▸ hname, fun r n hn hhs => ?_,
    fun o ho => absurd ho List.not_mem_nil⟩
  · rw [hheap r n hn]
    exact le_rfl
  · rw [hheap r n hn] at hhs
    cases hhs

/-- **Run lemma** of a network. -/
theorem NetworkReachable.epochInv {net : Network P} (h : NetworkReachable KeepsEpochs net) :
    ∀ p, (net p).view.WellFormed ∧ EpochInv (networkNames net) (net p).view := by
  induction h with
  | init env => exact fun p => ⟨wellFormed_clusterInit, epochInv_clusterInit ⟨p, rfl⟩⟩
  | @step net p env ev o t _ hcan hrun ih =>
    have hsteps := (steps_of_handle (ih p).1 hcan.possible hrun).1
    obtain ⟨hinv, hgrows⟩ := ClusterView.Grows.steps (ih p).2 (ih p).1
      (fun a ha => (hcan.tame fun q => (ih q).2).allows ha) hsteps
    -- the node keeps its name, so that the names of the network are the same
    have hname : t.ownName = (net p).ownName := by
      rw [← ClusterState.view_ownName, ← ClusterState.view_ownName]
      exact hgrows.name
    have hnames : networkNames (Function.update net p t) = networkNames net := by
      rw [networkNames, networkNames]
      congr 1
      funext q
      by_cases hq : q = p
      · subst hq
        rw [Function.update_self, hname]
      · rw [Function.update_of_ne hq]
    intro q
    rw [hnames]
    by_cases hq : q = p
    · subst hq
      rw [Function.update_self]
      exact ⟨(ih q).1.steps hsteps, hinv⟩
    · rw [Function.update_of_ne hq]
      exact ih q

/-- **Epoch domination**: in every run of a network without `RESET HARD`, the current epoch of a
    node is at least every epoch it has recorded, and no event lowers it or the epoch of the node
    itself; what a node takes as an epoch is larger than all it knows. -/
theorem epochs_dominate {net : Network P} (h : NetworkReachable KeepsEpochs net) (p : P) :
    (∀ r n, (net p).heap r = some n → n.configEpoch ≤ (net p).currentEpoch) ∧
    ∀ env ev o t, CanHandle KeepsEpochs net p env ev → (clusterHandle env ev).run (net p) = .ok (o, t) →
      EpochStep (net p) ev t := by
  have hinv := h.epochInv
  refine ⟨fun r n hn => (hinv p).2.known r n.view (ClusterState.view_heap hn), ?_⟩
  intro env ev o t hcan hrun
  exact epochStep_of_handle (hinv p).2 (hinv p).1 hcan.possible (hcan.tame fun q => (hinv q).2) hrun

end Network

/-! ### `RESET HARD` -/

/-- The machine `quietEnv`, where other names are drawn. -/
def otherEnv : ClusterEnv := { quietEnv with randomHexChars := fun r => [1, UInt8.ofNat r] }

/-- A command at a node of a network with one node. -/
theorem canHandle_command {ok : ClusterCommand → Prop} {s : ClusterState} {c : ClusterCommand} (hok : ok c)
    (hname : s.ownName = [0]) : CanHandle (P := Unit) ok (fun _ => s) () otherEnv (.command c) where
  possible := trivial
  sent := by rintro _ _ ⟨⟩
  names := by
    intro r _ hr
    rw [hname] at hr
    cases congrArg List.length hr
  command := by
    rintro c' ⟨⟩
    exact hok

/-- `BUMPEPOCH` on a fresh node: the epoch of the node becomes 1. -/
theorem epochs_dominate_bumpepoch : ∃ t,
    (clusterHandle otherEnv (.command .bumpepoch)).run (clusterInit quietEnv) = .ok (.idle, t) ∧
    t.ownEpoch = 1 ∧ EpochStep (clusterInit quietEnv) (.command .bumpepoch) t := by
  have hrun : ∃ t, (clusterHandle otherEnv (.command .bumpepoch)).run (clusterInit quietEnv)
      = .ok (.idle, t) ∧ t.ownEpoch = 1 := ⟨_, rfl, rfl⟩
  obtain ⟨t, hrun, hepoch⟩ := hrun
  have hreach : NetworkReachable (P := Unit) KeepsEpochs fun _ => clusterInit quietEnv := .init fun _ => quietEnv
  have hcan := canHandle_command (s := clusterInit quietEnv) (show KeepsEpochs .bumpepoch from nofun) rfl
  exact ⟨t, hrun, hepoch, (epochs_dominate hreach ()).2 _ _ _ _ hcan hrun⟩

/-- No slot has an owner: `clusterDelSlot` has nothing to do. -/
theorem run_delSlots {s : ClusterState} (h : ∀ j, s.slots j = none) (l : List Slot) :
    (l.forM fun j => discard (clusterDelSlot j)).run s = .ok ((), s) := by
  induction l with
  | nil => rfl
  | cons j l ih =>
    have hslot : (discard (clusterDelSlot j) : ClusterM Unit).run s = .ok ((), s) := by
      have hdel : (clusterDelSlot j).run s = .ok (false, s) := by
        rw [clusterDelSlot, run_bind_of_eq (a := s) (t := s) rfl, h j]
        rfl
      have hdiscard : (discard (clusterDelSlot j) : ClusterM Unit) = (fun _ => ()) <$> clusterDelSlot j := rfl
      rw [hdiscard, StateT.run_map, hdel]
      rfl
    show ((discard (clusterDelSlot j) : ClusterM Unit) >>= fun _ => l.forM _).run s = _
    rw [run_bind_of_eq hslot]
    exact ih

/-- `RESET HARD` on a master without slots: the loop over the slots does nothing. -/
theorem run_reset_hard {env : ClusterEnv} {s t : ClusterState} {me : ClusterNode} (hdb : env.dbSize = 0)
    (hme : s.heap s.myself = some me) (hrole : me.flags.slave = false) (hslots : ∀ j, s.slots j = none)
    (hrest : StateT.run (m := Except ClusterFault) (do
      clusterCloseAllSlots
      resetManualFailover
      let s ← get
      s.nodeRefs.forM fun r => whenDo (r ≠ s.myself) (clusterDelNode env r)
      clusterHardReset env
      clusterDoBeforeSleep { saveConfig := true, updateState := true, fsyncConfig := true }) s = .ok ((), t)) :
    (clusterCommand env (.reset true)).run s = .ok (.ok, t) := by
  have hreset : (clusterReset env true).run s = .ok ((), t) := by
    rw [← hrest, clusterReset, run_bind_of_eq (a := s) (t := s) rfl, run_getMyself_bind hme, hrole]
    set u : ClusterState := { s with migratingSlotsTo := fun _ => none, importingSlotsFrom := fun _ => none }
    have hclose : clusterCloseAllSlots.run s = .ok ((), u) := rfl
    have hmanual : ∃ w, resetManualFailover.run u = .ok ((), w) ∧ w.slots = s.slots := ⟨_, rfl, rfl⟩
    obtain ⟨w, hw, hsame⟩ := hmanual
    have hskip : (whenDo (false = true) (clusterSetNodeAsMaster s.myself)).run s = .ok ((), s) := rfl
    rw [run_bind_of_eq hskip, run_bind_of_eq hclose, run_bind_of_eq hw, run_bind_of_eq hclose,
      run_bind_of_eq hw, run_bind_of_eq (run_delSlots (fun j => by rw [hsame, hslots]) allSlots)]
    rfl
  rw [clusterCommand, run_getMyself_bind hme, if_neg (by simp [hdb]), run_bind_of_eq hreset]
  rfl

/-- `RESET HARD` after `BUMPEPOCH` takes the epochs back to 0. -/
theorem epochs_lowered_by_reset : ∃ (net : Network Unit) (t : ClusterState),
    NetworkReachable (fun _ => True) net ∧ CanHandle (fun _ => True) net () otherEnv (.command (.reset true)) ∧
    (clusterHandle otherEnv (.command (.reset true))).run (net ()) = .ok (.idle, t) ∧
    t.currentEpoch < (net ()).currentEpoch ∧ t.ownEpoch < (net ()).ownEpoch := by
  have hbump : ∃ s, (clusterHandle otherEnv (.command .bumpepoch)).run (clusterInit quietEnv)
      = .ok (.idle, s) ∧ s.ownName = [0] ∧ s.currentEpoch = 1 ∧ s.ownEpoch = 1 ∧
      ∃ t, (clusterCommand otherEnv (.reset true)).run s = .ok (.ok, t) ∧ t.currentEpoch = 0 ∧
        t.ownEpoch = 0 := by
    exact ⟨_, rfl, rfl, rfl, rfl, _, run_reset_hard rfl rfl rfl (fun _ => rfl) rfl, rfl, rfl⟩
  obtain ⟨s, hs, hname, hcur, hown, t, ht, hcur', hown'⟩ := hbump
  have hinit : NetworkReachable (P := Unit) (fun _ => True) fun _ => clusterInit quietEnv :=
    .init fun _ => quietEnv
  have hreach := hinit.step (canHandle_command (s := clusterInit quietEnv) trivial rfl) hs
  have hnet : Function.update (fun _ => clusterInit quietEnv) () s = fun _ : Unit => s := by
    funext q
    exact Function.update_self ..
  rw [hnet] at hreach
  refine ⟨fun _ => s, t, hreach, canHandle_command trivial hname, run_clusterHandle_command ht, ?_, ?_⟩
  · rw [hcur, hcur']
    exact Nat.one_pos
  · rw [hown, hown']
    exact Nat.one_pos

end Redis
