import Redis.Cluster.Trace.Failover

namespace Redis

open Simulation Transition

/-!
# The actions of a packet

* `packetAllows` — what a packet may do: only the nodes it is about change their role, get
  slots or a new epoch;
* `does_clusterUpdateSlotsConfigWith` — the slots a node claims;
* `does_clusterProcessPacket` — the epochs of the header are taken over first, the rest
  follows.
-/

variable {A : ClusterAction → Prop} {B : Behaviour ClusterState ClusterFault} {s : ClusterState}
  {env : ClusterEnv}

/-- Nothing that is seen, whatever the result. -/
theorem Does.of_unseen_true {α : Type} {m : ClusterM α} (h : Yields m s fun _ t => t.view = s.view) :
    Does A m s fun _ _ => True :=
  Sim.weaken (Does.of_unseen h) (fun _ _ _ _ => trivial)

/-! ### Failure detection -/

variable {node : Ref} {name : NodeName} {g : ClusterMsgDataGossip} {link : Option Ref} {hdr : ClusterMsg}
  {gossip : List ClusterMsgDataGossip} {curmaster : Option Ref} {epoch : Nat} {slots : SlotBitmap} {sender : Ref}

theorem does_markNodeAsFailingIfNeeded (hA : ∀ os, A (.send os)) :
    Does A (markNodeAsFailingIfNeeded env node) s fun _ _ => True := by
  refine Sim.get_bind (sim_getNode fun n _ => sim_getMyself fun me _ => ?_)
  refine Sim.ite (fun _ => Sim.pure trivial) (fun _ => ?_)
  refine Sim.seq (Does.of_unseen_true yields_clusterNodeFailureReportsCount) (fun reports t _ => ?_)
  refine Sim.ite (fun _ => Sim.pure trivial) (fun _ => ?_)
  refine Sim.seq (Does.of_unseen_true (yields_modifyNode_unseen fun _ => rfl)) (fun _ u _ => ?_)
  refine Sim.seq (sim_whenDo (fun _ => does_clusterSendFail hA) (fun _ => trivial)) (fun _ w _ => ?_)
  exact does_clusterDoBeforeSleep (fun _ _ => trivial)

/-- The node is in `FAIL` state, so the assertion holds. -/
theorem yields_clearNodeFailureIfNeeded (hfail : ∀ n, s.heap node = some n → n.flags.fail = true) :
    Yields (clearNodeFailureIfNeeded env node) s fun _ t => t.view = s.view := by
  refine sim_getNode (fun n hn => sim_assert_bind (hfail n hn) (sim_whenDo (fun _ => ?_) fun _ => rfl))
  refine Sim.bind (yields_modifyNode_unseen fun _ => rfl) (fun _ t _ ht => ?_)
  exact Sim.modify trivial ht

/-! ### Handshakes -/

/-- A new node that is not yet in the table. -/
theorem ClusterState.view_alloc_handshake {n : ClusterNode} (hn : n.view = ClusterView.handshakeNode name) :
    (s.alloc n).view = { s.view with
      heap := fun x => if x = s.nextRef then some (ClusterView.handshakeNode name) else s.view.heap x
      nextRef := s.nextRef + 1 } := by
  simp only [ClusterState.view, ClusterState.alloc]
  congr 1
  funext x
  split_ifs
  · rw [Option.map_some, hn]
  · rfl

theorem yields_clusterAddHandshakeNode {meet : Bool} {ip : String} {port : Nat} :
    Yields (clusterAddHandshakeNode env { handshake := true, meet := meet } ip port) s fun _ t =>
      t.view = s.view.handshake (env.randomHexChars s.nextRef) := by
  refine Sim.bind (Q := fun r t => r = s.nextRef ∧
    t = s.alloc (newClusterNode env s.nextRef none { handshake := true, meet := meet })) ?_ ?_
  · exact Sim.get_bind (sim_modify_bind trivial (Sim.pure ⟨rfl, rfl⟩))
  rintro r t - ⟨rfl, ht⟩
  have hfresh : (newClusterNode env s.nextRef none { handshake := true, meet := meet }).view
      = ClusterView.handshakeNode (env.randomHexChars s.nextRef) := rfl
  have hview := ht ▸ ClusterState.view_alloc_handshake (s := s) hfresh
  refine Sim.bind (yields_modifyNode_unseen fun _ => rfl) (fun _ u _ hu => sim_discard ?_)
  rw [hview] at hu
  have hnodes : u.nodes = s.nodes := congrArg ClusterView.nodes hu
  refine sim_getNode (fun n hn => Sim.get_bind ?_)
  have hname : n.name = env.randomHexChars s.nextRef := by
    have hheap : u.view.heap s.nextRef = some n.view := ClusterState.view_heap hn
    rw [hu] at hheap
    simp only [if_true, Option.some.injEq] at hheap
    exact congrArg NodeView.name hheap.symm
  have hlookup : u.clusterLookupNode n.name = s.view.lookup (env.randomHexChars s.nextRef) := by
    rw [ClusterState.clusterLookupNode, hnodes, hname]
    rfl
  rw [hlookup]
  refine Sim.ite (fun hsome => Sim.pure ?_) (fun hsome => sim_modify_bind trivial (Sim.pure ?_))
  · rw [hu, ClusterView.handshake, if_pos hsome]
    rfl
  · have hadd : (u.nodesAdd n.name s.nextRef).view
        = { u.view with nodes := u.view.nodes ++ [(n.name, s.nextRef)] } := rfl
    rw [hadd, hu, hname, ClusterView.handshake, if_neg hsome]
    rfl

theorem does_clusterAddHandshakeNode {meet : Bool} {ip : String} {port : Nat}
    (hA : ∀ r, A (.handshake (env.randomHexChars r))) :
    Does A (clusterAddHandshakeNode env { handshake := true, meet := meet } ip port) s
      fun _ _ => True := by
  refine Sim.weaken (Does.of_yields yields_clusterAddHandshakeNode ?_) (fun _ _ _ _ => trivial)
  intro _ t ht
  rw [ht]
  exact Steps.action (a := .handshake _) (hA s.nextRef) trivial

theorem does_clusterStartHandshake {ip : String} {port : Int}
    (hA : ∀ r, A (.handshake (env.randomHexChars r))) :
    Does A (clusterStartHandshake env ip port) s fun _ _ => True := by
  refine Sim.get_bind ?_
  cases env.normalizeIp ip with
  | none => exact Sim.pure trivial
  | some normIp =>
    refine Sim.ite (fun _ => Sim.pure trivial) (fun _ => Sim.ite (fun _ => Sim.pure trivial) fun _ => ?_)
    exact Sim.seq (does_clusterAddHandshakeNode hA) (fun _ _ _ => Sim.pure trivial)

/-! ### Gossip -/

theorem does_gossipReport (hA : ∀ os, A (.send os)) :
    Does A (gossipReport env sender node g) s fun _ _ => True := by
  refine sim_getNode (fun n _ => Sim.get_bind (sim_whenDo (fun _ => ?_) fun _ => trivial))
  refine Sim.ite (fun _ => ?_) (fun _ => sim_discard ?_)
  · refine Sim.seq (Does.of_unseen_true yields_clusterNodeAddFailureReport) (fun _ t _ => ?_)
    exact does_markNodeAsFailingIfNeeded hA
  · exact Does.of_unseen_true yields_clusterNodeDelFailureReport

theorem yields_gossipAddress :
    Yields (gossipAddress node g) s fun _ t => t.view = s.view :=
  sim_getNode (fun _ _ => sim_whenDo (fun _ => yields_modifyNode_unseen fun _ => rfl) fun _ => rfl)

theorem does_gossipUnknown {sender : Option Ref} (hA : ∀ r, A (.handshake (env.randomHexChars r))) :
    Does A (gossipUnknown env sender g) s fun _ _ => True := by
  refine sim_whenDo (fun _ => ?_) (fun _ => trivial)
  refine Sim.seq (Does.of_unseen_true yields_clusterBlacklistExists) (fun listed t _ => ?_)
  exact sim_whenDo (fun _ => sim_discard (does_clusterStartHandshake hA)) (fun _ => trivial)

theorem does_clusterProcessGossip {sender : Option Ref} (hsend : ∀ os, A (.send os))
    (hA : ∀ r, A (.handshake (env.randomHexChars r))) :
    Does A (clusterProcessGossip env sender g) s fun _ _ => True := by
  refine Sim.get_bind ?_
  cases s.clusterLookupNode g.nodename with
  | none => exact does_gossipUnknown hA
  | some node =>
    refine Sim.seq (sim_ifSome (fun r _ => does_gossipReport hsend) fun _ => trivial) (fun _ t _ => ?_)
    exact Does.of_unseen_true yields_gossipAddress

theorem does_clusterProcessGossipSection (hsend : ∀ os, A (.send os))
    (hA : ∀ r, A (.handshake (env.randomHexChars r))) :
    Does A (clusterProcessGossipSection env link hdr gossip) s fun _ _ => True :=
  Sim.get_bind (Sim.forM (fun _ => True) trivial
    (fun _ _ _ _ _ => does_clusterProcessGossip hsend hA))

theorem yields_nodeUpdateAddressIfNeeded {port : Nat} :
    Yields (nodeUpdateAddressIfNeeded env node link port) s fun _ t => t.view = s.view := by
  refine sim_getNode (fun n _ => Sim.ite (fun _ => Sim.pure rfl) fun _ => ?_)
  refine Sim.ite (fun _ => Sim.pure rfl) (fun _ => ?_)
  exact Sim.bind (yields_modifyNode_unseen fun _ => rfl) (fun _ _ _ ht => Sim.pure ht)

/-! ### Slots -/

/-- The owner in the loop of `clusterUpdateSlotsConfigWith`: a node that may own slots, while
    this node, if it is a master, is the one that is watched for being left without slots. -/
structure ClusterView.Rebinds (v : ClusterView) (sender myself : Ref) (curmaster : Option Ref) :
    Prop where
  owner : v.MayOwn sender
  watched : v.HasRole myself fun master _ => master = true → curmaster = some myself

theorem ClusterView.Rebinds.rebind {v : ClusterView} {sender myself : Ref}
    (h : v.Rebinds sender myself curmaster) (r : Ref) (j : Slot) :
    ((v.delSlot j).addSlot r j).Rebinds sender myself curmaster :=
  ⟨(h.owner.delSlot j).addSlot r j, (h.watched.delSlot j).addSlot r j⟩

theorem does_clusterUpdateSlot {sender myself : Ref} {acc : SlotsUpdate} {j : Slot} (hdel : ∀ j, A (.delSlot j))
    (hclaim : ∀ j, A (.claim sender j)) (h : s.view.WellFormed) (hr : s.view.Knows sender)
    (hinv : s.view.Rebinds sender myself curmaster) :
    Does A (clusterUpdateSlot env sender epoch slots curmaster acc j) s fun _ t =>
      t.view.Rebinds sender myself curmaster := by
  refine Sim.get_bind (Sim.ite (fun _ => Sim.pure hinv) fun _ => ?_)
  refine Sim.ite (fun _ => Sim.pure hinv) (fun _ => Sim.ite (fun _ => Sim.pure hinv) fun _ => ?_)
  refine Sim.ite (fun _ => ?_) (fun _ => Sim.pure hinv)
  refine does_rebindSlot (hdel j) h (fun v n => h.steps_claim (hclaim j) hr hinv.owner) ?_
  intro t _ ht
  refine Sim.bind (does_clusterDoBeforeSleep (Q := fun _ u => u.view = t.view) fun _ hu => hu) ?_
  intro _ u _ hu
  refine Sim.pure ?_
  rw [hu, ht]
  exact hinv.rebind sender j

theorem does_clusterFollowNewMaster {acc : SlotsUpdate} (hA : A (.setMyMaster sender)) (h : s.view.WellFormed)
    (hself : sender ≠ s.myself) (hinv : s.view.Rebinds sender s.myself curmaster) :
    Does A (clusterFollowNewMaster sender curmaster acc) s fun _ _ => True := by
  refine Sim.ite (fun _ => ?_) (fun _ => Sim.pure trivial)
  cases hcur : curmaster with
  | none => exact Or.inl (Or.inr rfl)
  | some c =>
    refine sim_getNode (fun n hn => Sim.ite (fun hzero => ?_) fun _ => Sim.pure trivial)
    refine Sim.seq (does_clusterSetMaster hA h hself ?_) (fun _ t _ => ?_)
    · intro me hme hmaster
      have hc := hinv.watched me hme hmaster
      rw [hcur] at hc
      cases hc
      rw [ClusterState.view_heap hn] at hme
      cases hme
      exact hzero
    · exact Sim.seq (does_clusterDoBeforeSleep fun _ _ => trivial) (fun _ _ _ => Sim.pure trivial)

theorem does_clusterUpdateSlotsConfigWith (hdel : ∀ j, A (.delSlot j)) (hclaim : ∀ j, A (.claim sender j))
    (hA : A (.setMyMaster sender)) (h : s.view.WellFormed) (hr : s.view.Knows sender)
    (hown : s.view.MayOwn sender) :
    Does A (clusterUpdateSlotsConfigWith env sender epoch slots) s fun _ _ => True := by
  refine Sim.get_bind (sim_getMyself fun me hme => Sim.ite (fun _ => Sim.pure trivial) fun hself => ?_)
  set curmaster := if me.flags.master then some s.myself else me.slaveof with hcur
  have hinv : s.view.Rebinds sender s.myself curmaster := by
    refine ⟨hown, ?_⟩
    intro x hx hmaster
    rw [ClusterState.view_heap hme] at hx
    cases hx
    rw [hcur, if_pos (show me.flags.master = true from hmaster)]
  refine Sim.bind (Sim.foldlM (fun _ t => t.view.Rebinds sender s.myself curmaster) hinv ?_) ?_
  · intro acc j _ t hst ht
    exact does_clusterUpdateSlot hdel hclaim (h.steps hst) (h.knows_steps hst hr) ht
  · intro acc t hst ht
    have hmyself : t.myself = s.myself := ClusterView.steps_myself hst
    exact does_clusterFollowNewMaster hA (h.steps hst) (hmyself ▸ hself) (hmyself ▸ ht)

/-! ### The parts of `clusterProcessPacket` -/

/-- The nodes a packet is about: its sender, and the node of an `UPDATE`. -/
def ClusterView.About (v : ClusterView) (hdr : ClusterMsg) (r : Ref) : Prop :=
  v.lookup hdr.sender = some r ∨
    ∃ e name slots, hdr.data = .update e name slots ∧ v.lookup name = some r

/-- What a packet may do to a node whose tables are `v`, once its epochs are taken over. -/
def packetAllows (env : ClusterEnv) (v : ClusterView) (hdr : ClusterMsg) : ClusterAction → Prop
  | .send _ | .save _ | .delSlot _ | .move _ _ | .free _ | .setMyMaster _ => True
  | .bump => ∀ e name slots, hdr.data ≠ .update e name slots
  | .handshake name => ∃ r, name = env.randomHexChars r
  | .complete _ name master slave =>
      name = hdr.sender ∧ master = hdr.flags.master ∧ slave = hdr.flags.slave
  | .promote r | .demote r | .follow r _ | .claim r _ => v.About hdr r
  | .updateEpoch r h e => v.About hdr r ∧ h = hdr ∧ ∃ name slots, hdr.data = .update e name slots
  | .vote h _ => h = hdr ∧ hdr.data = .failoverAuthRequest
  | .countVote h => h = hdr ∧ hdr.data = .failoverAuthAck
  | _ => False

/-- The epochs of the packet are taken over. -/
def learnAllows (v : ClusterView) (hdr : ClusterMsg) : ClusterAction → Prop
  | .learn r h => v.lookup hdr.sender = some r ∧ h = hdr
  | _ => False

theorem yields_packetEpochs :
    Yields (packetEpochs env hdr sender) s fun _ t =>
      t.view = (ClusterAction.learn sender hdr).apply s.view := by
  refine sim_modify_bind trivial (sim_getNode fun n hn => ?_)
  set u : ClusterState := { s with currentEpoch := max s.currentEpoch hdr.currentEpoch } with hu
  have hepoch : Yields (whenDo (hdr.configEpoch > n.configEpoch) do
      modifyNode sender fun n => { n with configEpoch := hdr.configEpoch }
      clusterDoBeforeSleep { saveConfig := true, fsyncConfig := true }) u fun _ t =>
      t.view = u.view.updateNode sender fun n => { n with
        configEpoch := max n.configEpoch hdr.configEpoch } := by
    refine sim_whenDo (fun hgt => ?_) (fun hgt => ?_)
    · refine Sim.bind (yields_modifyNode (g := fun n => { n with configEpoch := hdr.configEpoch })
        (fun _ => rfl)) (fun _ t _ ht => Sim.modify trivial ?_)
      refine Eq.trans (show _ = t.view from rfl) (ht.trans ?_)
      refine ClusterView.updateNode_congr fun x hx => ?_
      rw [ClusterState.view_heap hn] at hx
      cases hx
      rw [show max n.view.configEpoch hdr.configEpoch = hdr.configEpoch from max_eq_right (le_of_lt hgt)]
    · refine (ClusterView.updateNode_eq_self fun x hx => ?_).symm
      rw [ClusterState.view_heap hn] at hx
      cases hx
      rw [show max n.view.configEpoch hdr.configEpoch = n.view.configEpoch from
        max_eq_left (not_lt.mp hgt)]
  refine Sim.bind hepoch (fun _ t _ ht => ?_)
  refine Sim.bind (yields_modifyNode_unseen fun _ => rfl) (fun _ w _ hw => ?_)
  refine Sim.get_bind (sim_getMyself fun me _ => sim_whenDo (fun _ => ?_) fun _ => hw.trans ht)
  exact Sim.modify trivial (hw.trans ht)

theorem does_packetHello {sender : Option Ref} {meet : Bool} (hsend : ∀ os, A (.send os))
    (hA : ∀ r, A (.handshake (env.randomHexChars r))) :
    Does A (packetHello env link hdr sender meet gossip) s fun _ _ => True := by
  refine Sim.get_bind (sim_getMyself fun me _ => ?_)
  refine Sim.seq (sim_ifSome (fun ip _ => sim_whenDo (fun _ => ?_) fun _ => trivial) fun _ => trivial)
    (fun _ t _ => ?_)
  · refine Sim.seq (Does.of_unseen_true (yields_modifyNode_unseen fun _ => rfl)) (fun _ t _ => ?_)
    exact does_clusterDoBeforeSleep (fun _ _ => trivial)
  refine Sim.seq (sim_whenDo (fun _ => ?_) fun _ => trivial) (fun _ u _ => does_clusterReplyPong hsend)
  refine Sim.seq (does_clusterAddHandshakeNode hA) (fun _ u _ => ?_)
  refine Sim.seq (does_clusterDoBeforeSleep fun _ _ => trivial) (fun _ w _ => ?_)
  exact does_clusterProcessGossipSection hsend hA

/-- What ends a handshake needs. -/
structure Completes (A : ClusterAction → Prop) (hdr : ClusterMsg) : Prop extends Deletes A where
  complete : ∀ r, A (.complete r hdr.sender hdr.flags.master hdr.flags.slave)

theorem does_packetLink {sender : Option Ref} (hA : Completes A hdr) (h : s.view.WellFormed)
    (hlink : ∀ l, link = some l → s.view.Knows l) (hsender : sender = none → s.view.lookup hdr.sender = none) :
    Does A (packetLink env link hdr sender) s fun _ _ => True := by
  cases link with
  | none => exact Sim.pure trivial
  | some l =>
    refine sim_getNode (fun n hn => Sim.ite (fun hhs => ?_) fun _ => ?_)
    swap
    · refine Sim.ite (fun _ => ?_) (fun _ => Sim.pure trivial)
      refine Sim.seq (Does.of_unseen_true (yields_modifyNode_unseen fun _ => rfl)) (fun _ t _ => ?_)
      exact Sim.seq (does_clusterDoBeforeSleep fun _ _ => trivial) (fun _ _ _ => Sim.pure trivial)
    cases sender with
    | some r =>
      -- the node is known already
      have hself : l ≠ s.myself := by
        rintro rfl
        have hrole := (h.selfRole n.view (ClusterState.view_heap hn)).handshake
        rw [show n.view.handshake = true from hhs] at hrole
        cases hrole
      refine Sim.seq (Does.of_unseen_true yields_nodeUpdateAddressIfNeeded) (fun changed t hst => ?_)
      refine Sim.seq (sim_whenDo (fun _ => does_clusterDoBeforeSleep fun _ _ => trivial)
        fun _ => trivial) (fun _ u htu => ?_)
      have hsu := Actions.Steps.trans hst htu
      refine Sim.seq (Sim.weaken (does_clusterDelNode hA.toDeletes (h.steps hsu)
        (h.knows_steps hsu (hlink l rfl)) ?_) fun _ _ _ _ => trivial) (fun _ _ _ => Sim.pure trivial)
      rw [show u.myself = s.myself from ClusterView.steps_myself hsu]
      exact hself
    | none =>
      -- the name and the role become known together
      have hname := hsender rfl
      show Does A (clusterRenameNode l hdr.sender >>= fun _ => modifyNode l (fun n => { n with
          flags := { n.flags with
            handshake := false
            master := n.flags.master || hdr.flags.master
            slave := n.flags.slave || hdr.flags.slave } }) >>= fun _ =>
          clusterDoBeforeSleep { saveConfig := true } >>= fun _ => pure true) s _
      rw [← bind_assoc]
      refine Sim.seq (Sim.weaken (Does.of_yields (Q := fun _ t => l ∈ s.view.refs ∧
        t.view = s.view.complete l hdr.sender hdr.flags.master hdr.flags.slave) ?_ ?_)
        fun _ _ _ _ => trivial) (fun _ t _ => ?_)
      · refine Sim.bind (yields_clusterRenameNode h (hlink l rfl) hname) ?_
        rintro _ t - ⟨hmem, ht⟩
        refine Sim.weaken (yields_modifyNode (g := fun n => { n with
          handshake := false
          master := n.master || hdr.flags.master
          slave := n.slave || hdr.flags.slave }) fun _ => rfl) (fun _ u _ hu => ⟨hmem, ?_⟩)
        rw [hu, ht, ClusterView.complete]
      · rintro _ t ⟨hmem, ht⟩
        rw [ht]
        exact Steps.action (a := .complete l _ _ _) (hA.complete l)
          ⟨hmem, ⟨n.view, ClusterState.view_heap hn, hhs⟩, hname⟩
      · exact Sim.seq (does_clusterDoBeforeSleep fun _ _ => trivial) (fun _ _ _ => Sim.pure trivial)

theorem yields_packetAddress {type : PingType} :
    Yields (packetAddress env link hdr sender type) s fun _ t => t.view = s.view := by
  refine sim_getNode (fun n _ => sim_whenDo (fun _ => ?_) fun _ => rfl)
  refine Sim.bind yields_nodeUpdateAddressIfNeeded (fun changed t _ ht => ?_)
  exact sim_whenDo (fun _ => Sim.modify trivial ht) (fun _ => ht)

theorem yields_packetPong {l : Ref} : Yields (packetPong env l) s fun _ t => t.view = s.view := by
  refine Sim.bind (yields_modifyNode_unseen fun _ => rfl) (fun _ t _ ht => sim_getNode fun n hn => ?_)
  refine Sim.ite (fun _ => ?_) (fun _ => sim_whenDo (fun hfail => ?_) fun _ => ht)
  · refine Sim.bind (yields_modifyNode_unseen fun _ => rfl) (fun _ u _ hu => ?_)
    exact Sim.modify trivial (hu.trans ht)
  · refine Sim.weaken (yields_clearNodeFailureIfNeeded ?_) (fun _ _ _ hu => hu.trans ht)
    intro n' hn'
    rw [hn] at hn'
    cases hn'
    exact hfail

/-! ### Roles -/

/-- Only slots lose their owner. -/
def ClusterAction.IsDelSlot (a : ClusterAction) : Prop := ∃ j, a = .delSlot j

theorem ClusterView.HasRole.steps_delSlot {v w : ClusterView} {r : Ref} {P : Bool → Bool → Prop}
    (h : v.HasRole r P) (hs : Steps ClusterAction.IsDelSlot v w) : w.HasRole r P := by
  refine hs.invariant (fun u => u.HasRole r P) h ?_
  rintro a u ⟨j, rfl⟩ - hu
  exact hu.delSlot j

theorem does_packetDemote (hdel : ∀ j, A (.delSlot j)) (hA : A (.demote sender)) (h : s.view.WellFormed) :
    Does A (packetDemote sender) s fun _ t => t.view.HasRole sender fun master _ => master = false := by
  refine sim_getNode (fun n hn => sim_whenDo (fun hmaster => ?_) fun hmaster => ?_)
  swap
  · intro x hx
    rw [ClusterState.view_heap hn] at hx
    cases hx
    exact Bool.eq_false_iff.mpr hmaster
  refine Sim.bind (Does.mono (Does.keep (does_clusterDelNodeSlots (A := ClusterAction.IsDelSlot)
    (r := sender) (fun j => ⟨j, rfl⟩) h)) ?_) ?_
  · rintro _ ⟨j, rfl⟩
    exact hdel j
  rintro ⟨⟩ t - ⟨hst, hclear⟩
  have ht := h.steps hst
  have hrole : t.view.HasRole sender fun master _ => master = true := by
    refine ClusterView.HasRole.steps_delSlot ?_ hst
    intro x hx
    rw [ClusterState.view_heap hn] at hx
    cases hx
    exact hmaster
  refine sim_modifyNode_bind (fun m hm => ?_)
  have hm' : t.view.heap sender = some m.view := ClusterState.view_heap hm
  have hzero : m.view.numslots = 0 := by
    rw [ht.count sender m.view hm']
    exact slotCount_eq_zero fun j => hclear j m.view hm'
  have hview : (t.updateNode sender fun n => { n with
      flags := { n.flags with master := false, migrateTo := false, slave := true } }).view
      = t.view.demote sender :=
    ClusterState.view_updateNode (fun _ => rfl)
  rw [show (acts A).rel t _ = Steps A t.view _ from rfl, hview]
  refine ⟨Steps.action (a := .demote sender) hA ⟨m.view, hm', hrole m.view hm', hzero⟩, ?_⟩
  refine does_clusterDoBeforeSleep fun u hu x hx => ?_
  rw [hu, hview, ClusterView.demote, ClusterView.updateNode_heap, Option.map_eq_some_iff] at hx
  obtain ⟨y, -, rfl⟩ := hx
  rw [if_pos rfl]

theorem does_packetNewMaster {sender master : Ref} (hA : A (.follow sender master))
    (hrole : s.view.HasRole sender fun master _ => master = false) :
    Does A (packetNewMaster sender master) s fun _ _ => True := by
  refine sim_getNode (fun n hn => sim_whenDo (fun _ => ?_) fun _ => trivial)
  have hn' : s.view.heap sender = some n.view := ClusterState.view_heap hn
  -- the three changes of the links are one action
  refine Sim.weaken (Does.of_yields (Q := fun _ t => t.view = s.view.follow sender master ∧
    ∃ m, s.view.heap master = some m) ?_ ?_) (fun _ _ _ _ => trivial)
  · refine Sim.bind (yields_leave hn) (fun _ t _ ht => ?_)
    refine Sim.bind (sim_discard (Q := fun _ u => u.view = t.view.addSlave master sender ∧
      ∃ m, t.view.heap master = some m) yields_clusterNodeAddSlave) ?_
    rintro ⟨⟩ u - ⟨hu, m, hm⟩
    refine Sim.bind (yields_modifyNode (g := fun n => { n with slaveof := some master }) fun _ => rfl) ?_
    intro _ w _ hw
    refine Sim.modify trivial ⟨?_, ?_⟩
    · show w.view = _
      rw [hw, hu, ht, ClusterView.follow]
    · rw [ht] at hm
      obtain ⟨k, hk, -⟩ := (ClusterView.Similar.leave s.view sender).exists_of_heap hm
      exact ⟨k, hk⟩
  · rintro _ t ⟨ht, hm⟩
    rw [ht]
    exact Steps.action (a := .follow sender master) hA ⟨⟨n.view, hn', hrole n.view hn'⟩, hm⟩

theorem does_packetRole (hdel : ∀ j, A (.delSlot j)) (hpromote : A (.promote sender))
    (hdemote : A (.demote sender)) (hA : ∀ m, A (.follow sender m)) (h : s.view.WellFormed) :
    Does A (packetRole hdr sender) s fun _ _ => True := by
  refine Sim.get_bind (Sim.ite (fun _ => ?_) fun _ => ?_)
  · exact Sim.weaken (does_clusterSetNodeAsMaster hpromote) (fun _ _ _ _ => trivial)
  · refine Sim.bind (does_packetDemote hdel hdemote h) (fun _ t _ ht => ?_)
    exact sim_ifSome (fun m _ => does_packetNewMaster (hA m) ht) (fun _ => trivial)

/-! ### The slots and the epoch of the sender -/

theorem sim_packetDirtySlots [Tolerant B] {n : ClusterNode} :
    B.Sim (packetDirtySlots hdr sender n) s fun _ t => t = s := by
  rw [packetDirtySlots]
  split
  · exact Sim.pure rfl
  · exact sim_getNode (fun _ _ => Sim.pure rfl)

/-- The node of an `UPDATE` is one of the present state. -/
theorem exists_of_outdatedSlot {owner : ClusterNode} (h : outdatedSlot s sender epoch slots = some owner) :
    ∃ r, s.heap r = some owner := by
  rw [outdatedSlot, Option.bind_eq_some_iff] at h
  obtain ⟨j, -, hj⟩ := h
  rw [Option.bind_eq_some_iff] at hj
  obtain ⟨r, -, hr⟩ := hj
  exact ⟨r, hr⟩

theorem does_packetSlots (hdel : ∀ j, A (.delSlot j)) (hclaim : ∀ j, A (.claim sender j))
    (hA : A (.setMyMaster sender)) (hsend : ∀ os, A (.send os)) (h : s.view.WellFormed)
    (hr : s.view.Knows sender) :
    Does A (packetSlots env hdr sender epoch) s fun _ _ => True := by
  refine sim_getNode (fun n hn => Sim.bind sim_packetDirtySlots ?_)
  rintro dirty t - rfl
  refine Sim.seq (sim_whenDo (fun hmaster => sim_discard ?_) fun _ => trivial) (fun _ u _ => ?_)
  · refine does_clusterUpdateSlotsConfigWith hdel hclaim hA h hr ?_
    intro x hx
    rw [ClusterState.view_heap hn] at hx
    cases hx
    exact Or.inl hmaster.1
  · refine Sim.get_bind (sim_whenDo (fun _ => sim_ifSome (fun owner howner => ?_) fun _ => trivial)
      fun _ => trivial)
    obtain ⟨r, hr'⟩ := exists_of_outdatedSlot howner
    exact sim_getNode (fun n _ => does_clusterSendUpdate hsend hr')

theorem does_packetCollision (hbump : A .bump) (hsave : ∀ c, A (.save c)) (h : s.view.WellFormed) :
    Does A (packetCollision sender epoch) s fun _ _ => True :=
  sim_getNode (fun _ _ => sim_getMyself fun _ _ =>
    sim_whenDo (fun _ => does_clusterHandleConfigEpochCollision hbump hsave h) fun _ => trivial)

/-- What the configuration in a packet of `sender` needs. -/
structure Configures (A : ClusterAction → Prop) (env : ClusterEnv) (hdr : ClusterMsg)
    (sender : Option Ref) : Prop extends Completes A hdr where
  send : ∀ os, A (.send os)
  save : ∀ c, A (.save c)
  bump : A .bump
  handshake : ∀ r, A (.handshake (env.randomHexChars r))
  setMyMaster : ∀ m, A (.setMyMaster m)
  promote : ∀ r, sender = some r → A (.promote r)
  demote : ∀ r, sender = some r → A (.demote r)
  follow : ∀ r m, sender = some r → A (.follow r m)
  claim : ∀ r j, sender = some r → A (.claim r j)

theorem does_packetConfig {sender : Option Ref} {type : PingType} (hA : Configures A env hdr sender)
    (h : s.view.WellFormed) (hlink : ∀ l, link = some l → s.view.Knows l)
    (hknows : ∀ r, sender = some r → s.view.Knows r) (hsender : sender = none → s.view.lookup hdr.sender = none) :
    Does A (packetConfig env link hdr sender epoch type gossip) s fun _ _ => True := by
  refine Sim.seq (does_packetLink hA.toCompletes h hlink hsender) (fun valid t hst => ?_)
  refine Sim.ite (fun _ => Sim.pure trivial) (fun _ => ?_)
  refine Sim.seq (sim_ifSome (fun r _ => Does.of_unseen_true yields_packetAddress) fun _ => trivial)
    (fun _ u htu => ?_)
  refine Sim.seq (sim_whenDo (fun _ => sim_ifSome (fun l _ => Does.of_unseen_true yields_packetPong)
    fun _ => trivial) fun _ => trivial) (fun _ w huw => ?_)
  have hsw := Actions.Steps.trans (Actions.Steps.trans hst htu) huw
  refine Sim.seq (sim_ifSome (fun r hr => ?_) fun _ => trivial) (fun _ _ _ => Sim.pure trivial)
  refine Sim.seq (does_packetRole hA.delSlot (hA.promote r hr) (hA.demote r hr)
    (fun m => hA.follow r m hr) (h.steps hsw)) (fun _ x hwx => ?_)
  have hsx := Actions.Steps.trans hsw hwx
  refine Sim.seq (does_packetSlots hA.delSlot (fun j => hA.claim r j hr) (hA.setMyMaster r) hA.send
    (h.steps hsx) (h.knows_steps hsx (hknows r hr))) (fun _ y hxy => ?_)
  refine Sim.seq (does_packetCollision hA.bump hA.save (h.steps (Actions.Steps.trans hsx hxy)))
    (fun _ z _ => ?_)
  exact does_clusterProcessGossipSection hA.send hA.handshake

/-! ### The other types -/

theorem yields_packetFail :
    Yields (packetFail env name) s fun _ t => t.view = s.view := by
  refine Sim.get_bind (sim_ifSome (fun r _ => sim_getNode fun n _ => ?_) fun _ => rfl)
  refine sim_whenDo (fun _ => ?_) (fun _ => rfl)
  exact Sim.bind (yields_modifyNode_unseen fun _ => rfl) (fun _ _ _ ht => Sim.modify trivial ht)

theorem does_packetAuthAck (hA : A (.countVote hdr)) (hepoch : epoch ≤ hdr.currentEpoch) :
    Does A (packetAuthAck sender epoch) s fun _ _ => True := by
  refine sim_getNode (fun n _ => Sim.get_bind (sim_whenDo (fun hvote => ?_) fun _ => trivial))
  refine sim_modify_bind (Steps.action (a := .countVote hdr) hA ?_) ?_
  · exact le_trans hvote.2.2 hepoch
  · exact does_clusterDoBeforeSleep (fun _ _ => trivial)

theorem yields_packetMFStart :
    Yields (packetMFStart env sender) s fun _ t => t.view = s.view := by
  refine sim_getNode (fun n _ => Sim.get_bind (sim_whenDo (fun _ => ?_) fun _ => rfl))
  exact Sim.bind yields_resetManualFailover (fun _ _ _ ht => Sim.modify trivial ht)

/-- Whether a name belongs to a node in handshake is a matter of the table and the flag. -/
theorem ClusterView.Learned.promote {v : ClusterView} (h : v.Learned hdr) (r : Ref) :
    (v.promote r).Learned hdr := by
  have hleave : (v.leave r).currentEpoch = v.currentEpoch := by
    rw [ClusterView.leave]
    cases v.slaveof r <;> rfl
  refine h.imp (fun hle => hle.trans hleave.ge) ?_
  rintro ⟨x, n, hx, hn, hhs⟩
  have hlookup : (v.promote r).lookup hdr.sender = some x := by
    rw [ClusterView.lookup, (ClusterView.Similar.promote v r).nodes]
    exact hx
  have hheap : ∃ m, (v.promote r).heap x = some m ∧ m.handshake = n.handshake := by
    rw [ClusterView.promote, ClusterView.updateNode_heap, ClusterView.leave_heap, hn]
    refine ⟨_, rfl, ?_⟩
    split_ifs <;> rfl
  obtain ⟨m, hm, hsame⟩ := hheap
  exact ⟨x, m, hlookup, hm, hsame.trans hhs⟩

theorem does_packetUpdate (hdel : ∀ j, A (.delSlot j)) (hmaster : ∀ m, A (.setMyMaster m))
    (hpromote : ∀ r, s.view.lookup name = some r → A (.promote r))
    (hepoch : ∀ r, s.view.lookup name = some r → A (.updateEpoch r hdr epoch))
    (hclaim : ∀ r j, s.view.lookup name = some r → A (.claim r j)) (h : s.view.WellFormed)
    (hlearned : s.view.Learned hdr) :
    Does A (packetUpdate env epoch name slots) s fun _ _ => True := by
  refine Sim.get_bind (sim_ifSome (fun r hr => sim_getNode fun n hn => ?_) fun _ => trivial)
  have hr' : s.view.lookup name = some r := hr
  have hn' : s.view.heap r = some n.view := ClusterState.view_heap hn
  refine sim_whenDo (fun hlt => ?_) (fun _ => trivial)
  -- afterwards the node may own slots; its epoch has not changed yet
  have hset : Does A (whenDo (n.flags.slave = true) (clusterSetNodeAsMaster r)) s fun _ t =>
      t.view.Learned hdr ∧ t.view.MayOwn r ∧
        ∀ m, t.view.heap r = some m → m.configEpoch = n.configEpoch := by
    refine sim_whenDo (fun _ => ?_) (fun hslave => ⟨hlearned, ?_, ?_⟩)
    · refine Sim.weaken (does_clusterSetNodeAsMaster (hpromote r hr')) ?_
      rintro _ t - ⟨ht | ht, hm⟩
      · refine ⟨ht ▸ hlearned, fun m hm' => Or.inl (hm m hm'), ?_⟩
        intro m hm'
        rw [ht, hn'] at hm'
        cases hm'
        rfl
      · refine ⟨ht ▸ hlearned.promote r, fun m hm' => Or.inl (hm m hm'), ?_⟩
        intro m hm'
        rw [ht, ClusterView.promote, ClusterView.updateNode_heap, ClusterView.leave_heap, hn'] at hm'
        cases hm'
        simp only [if_true]
        split_ifs <;> rfl
    · intro m hm
      rw [hn'] at hm
      cases hm
      exact Or.inr (Bool.eq_false_iff.mpr hslave)
    · intro m hm
      rw [hn'] at hm
      cases hm
      rfl
  refine Sim.bind hset ?_
  rintro ⟨⟩ t hst ⟨hlearned', hown, hsame⟩
  refine sim_modifyNode_bind (fun m hm => ?_)
  have hm' : t.view.heap r = some m.view := ClusterState.view_heap hm
  have hview : (t.updateNode r fun n => { n with configEpoch := epoch }).view
      = (ClusterAction.updateEpoch r hdr epoch).apply t.view :=
    ClusterState.view_updateNode (fun _ => rfl)
  have hstep : Steps A t.view (t.updateNode r fun n => { n with configEpoch := epoch }).view := by
    rw [hview]
    refine Steps.action (a := .updateEpoch r hdr epoch) (hepoch r hr') ⟨hlearned', m.view, hm', ?_⟩
    rw [hsame m.view hm']
    exact hlt
  refine ⟨hstep, Sim.bind (does_clusterDoBeforeSleep (Q := fun _ w => w.view =
    (t.updateNode r fun n => { n with configEpoch := epoch }).view) fun _ hw => hw) ?_⟩
  intro _ w htw hw
  have hsw := Actions.Steps.trans hst (Actions.Steps.trans hstep htw)
  refine sim_discard (does_clusterUpdateSlotsConfigWith hdel (fun j => hclaim r j hr') (hmaster r)
    (h.steps hsw) (h.knows_steps hsw (h.knows (ClusterView.mem_refs_of_lookup hr'))) ?_)
  rw [hw, hview]
  refine hown.of_map (ClusterView.updateNode_heap t.view r r _) ?_ ?_ <;>
  · intro n
    split_ifs <;> rfl

/-! ### The handler -/

/-- Messages are sent and nodes in handshake are created. -/
def ClusterAction.IsHello (env : ClusterEnv) (a : ClusterAction) : Prop :=
  (∃ os, a = .send os) ∨ ∃ r, a = .handshake (env.randomHexChars r)

/-- New nodes get names that are not the given one. -/
theorem lookup_none_steps {v w : ClusterView} (hs : Steps (ClusterAction.IsHello env) v w)
    (hfresh : ∀ r, env.randomHexChars r ≠ name) (h : v.lookup name = none) : w.lookup name = none := by
  refine hs.invariant (fun u => u.lookup name = none) h ?_
  rintro a u (⟨os, rfl⟩ | ⟨r, rfl⟩) - hu
  · exact hu
  · rw [ClusterView.lookup_eq_none] at hu ⊢
    show name ∉ (u.handshake (env.randomHexChars r)).nodes.map Prod.fst
    simp only [ClusterView.handshake]
    split_ifs
    · exact hu
    · rw [List.map_append, List.mem_append]
      rintro (hmem | hmem)
      · exact hu hmem
      · exact hfresh r (List.mem_singleton.mp hmem).symm

/-- The first part: the epochs. -/
theorem does_learn (h : s.view.WellFormed) :
    Does (learnAllows s.view hdr) (whenDo (senderKnown s (s.clusterLookupNode hdr.sender) = true)
      (ifSome (s.clusterLookupNode hdr.sender) (packetEpochs env hdr))) s fun _ t =>
      t.nodes = s.nodes ∧
        ∀ r, s.view.lookup hdr.sender = some r → t.view.Learned hdr := by
  refine sim_whenDo (fun _ => sim_ifSome (fun r hr => ?_) fun hnone => ?_) (fun hknown => ?_)
  · refine Sim.weaken (Does.of_yields yields_packetEpochs ?_) ?_
    · intro _ t ht
      rw [ht]
      exact Steps.action (a := .learn r hdr) ⟨hr, rfl⟩ trivial
    · intro _ t _ ht
      refine ⟨congrArg ClusterView.nodes ht, fun _ _ => Or.inl ?_⟩
      rw [ht]
      exact le_max_right _ _
  · refine ⟨rfl, fun r hr => ?_⟩
    rw [show s.view.lookup hdr.sender = none from hnone] at hr
    cases hr
  · refine ⟨rfl, fun r hr => Or.inr ?_⟩
    obtain ⟨n, hn, -⟩ := h.mem_nodes (ClusterView.mem_refs_of_lookup hr)
    obtain ⟨x, hx, rfl⟩ := ClusterState.exists_of_view_heap hn
    refine ⟨r, x.view, hr, hn, ?_⟩
    have hflag : x.flags.handshake = true := by
      rw [senderKnown, show s.clusterLookupNode hdr.sender = some r from hr] at hknown
      simpa [hx] using hknown
    exact hflag

/-- **Packets**: the epochs of the header are taken over, then the packet does what it is
    allowed to. -/
theorem does_clusterProcessPacket (h : s.view.WellFormed) (hlink : ∀ l, link = some l → l ∈ s.view.refs)
    (hfresh : ∀ r, env.randomHexChars r ≠ hdr.sender) :
    Does (fun a => learnAllows s.view hdr a ∨ packetAllows env s.view hdr a)
      (clusterProcessPacket env link hdr) s fun _ t =>
        ∃ v, Steps (learnAllows s.view hdr) s.view v ∧ Steps (packetAllows env s.view hdr) v t.view := by
  refine Sim.get_bind ?_
  refine Sim.bind (Does.mono (Does.keep (does_learn h)) fun a ha => Or.inl ha) ?_
  rintro ⟨⟩ t - ⟨hst, hnodes, hlearned⟩
  have ht := h.steps hst
  have hlookup : ∀ name, t.view.lookup name = s.view.lookup name := by
    intro name
    rw [ClusterView.lookup, ClusterView.lookup]
    exact congrArg (fun l => Option.map Prod.snd (List.find? _ l)) hnodes
  have hknows : ∀ r, s.view.lookup hdr.sender = some r → t.view.Knows r :=
    fun r hr => h.knows_steps hst (h.knows (ClusterView.mem_refs_of_lookup hr))
  have hlink' : ∀ l, link = some l → t.view.Knows l :=
    fun l hl => h.knows_steps hst (h.knows (hlink l hl))
  -- the rest is one run of the second kind
  suffices hrest : Does (packetAllows env s.view hdr) _ t fun _ _ => True by
    refine Sim.weaken (Does.mono (Does.keep hrest) fun a ha => Or.inr ha) ?_
    exact fun _ u _ hu => ⟨t.view, hst, hu.1⟩
  have hupdate : ∀ type gossip, hdr.data = PingType.data gossip type →
      Configures (packetAllows env s.view hdr) env hdr (s.clusterLookupNode hdr.sender) := by
    intro type gossip hdata
    refine ⟨⟨⟨fun _ => trivial, fun _ _ => trivial, fun _ => trivial⟩, fun _ => ⟨rfl, rfl, rfl⟩⟩,
      fun _ => trivial, fun _ => trivial, ?_, fun r => ⟨r, rfl⟩, fun _ => trivial,
      fun r hr => Or.inl hr, fun r hr => Or.inl hr, fun r m hr => Or.inl hr, fun r j hr => Or.inl hr⟩
    intro e name slots hd
    rw [hdata] at hd
    exact PingType.ne_update hd
  -- a sender that is not known before is not known when the handshake is completed
  have hhello : ∀ type gossip meet, hdr.data = PingType.data gossip type →
      Does (packetAllows env s.view hdr) (do
        packetHello env link hdr (s.clusterLookupNode hdr.sender) meet gossip
        packetConfig env link hdr (s.clusterLookupNode hdr.sender)
          (if senderKnown s (s.clusterLookupNode hdr.sender) then hdr.configEpoch else 0) type gossip) t
        fun _ _ => True := by
    intro type gossip meet hdata
    refine Sim.bind (Does.mono (Does.keep (does_packetHello (A := ClusterAction.IsHello env)
      (fun os => Or.inl ⟨os, rfl⟩) fun r => Or.inr ⟨r, rfl⟩)) ?_) ?_
    · rintro a (⟨os, rfl⟩ | ⟨r, rfl⟩)
      · trivial
      · exact ⟨r, rfl⟩
    rintro ⟨⟩ u htu ⟨hsteps, -⟩
    refine does_packetConfig (hupdate type gossip hdata) (ht.steps htu)
      (fun l hl => ht.knows_steps htu (hlink' l hl)) (fun r hr => ht.knows_steps htu (hknows r hr)) ?_
    intro hnone
    exact lookup_none_steps hsteps hfresh ((hlookup hdr.sender).trans hnone)
  cases hdata : hdr.data with
  | ping gossip => exact hhello .ping gossip false hdata
  | meet gossip => exact hhello .meet gossip true hdata
  | pong gossip =>
    exact does_packetConfig (hupdate .pong gossip hdata) ht hlink' hknows
      (fun hnone => (hlookup hdr.sender).trans hnone)
  | fail name =>
    refine Sim.seq (sim_whenDo (fun _ => Does.of_unseen_true yields_packetFail) fun _ => trivial) ?_
    exact fun _ _ _ => Sim.pure trivial
  | publish => exact Sim.pure trivial
  | failoverAuthRequest =>
    refine Sim.seq (sim_ifSome (fun r hr => ?_) fun _ => trivial) (fun _ _ _ => Sim.pure trivial)
    exact does_clusterSendFailoverAuthIfNeeded (fun os => ⟨rfl, hdata⟩) ht
      ((hlookup hdr.sender).trans hr) (hlearned r hr)
  | failoverAuthAck =>
    refine Sim.seq (sim_ifSome (fun r hr => ?_) fun _ => trivial) (fun _ _ _ => Sim.pure trivial)
    refine does_packetAuthAck ⟨rfl, hdata⟩ ?_
    split_ifs
    · exact le_rfl
    · exact Nat.zero_le _
  | mfstart =>
    refine Sim.seq (sim_ifSome (fun r hr => ?_) fun _ => trivial) (fun _ _ _ => Sim.pure trivial)
    exact Does.of_unseen_true yields_packetMFStart
  | update e name slots =>
    refine Sim.seq (sim_whenDo (fun hsome => ?_) fun _ => trivial) (fun _ _ _ => Sim.pure trivial)
    obtain ⟨x, hx⟩ := Option.isSome_iff_exists.mp hsome
    have habout : ∀ r, t.view.lookup name = some r → s.view.About hdr r :=
      fun r hr => Or.inr ⟨e, name, slots, hdata, (hlookup name).symm.trans hr⟩
    have hepoch : ∀ r, t.view.lookup name = some r →
        packetAllows env s.view hdr (.updateEpoch r hdr e) :=
      fun r hr => ⟨habout r hr, rfl, name, slots, hdata⟩
    exact does_packetUpdate (fun _ => trivial) (fun _ => trivial) habout hepoch
      (fun r j hr => habout r hr) ht (hlearned x hx)

end Redis
