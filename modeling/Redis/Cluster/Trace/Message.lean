import Redis.Cluster.Trace.Node

namespace Redis

open Simulation Transition

/-!
# Messages are made in the state they are sent from

* `sim_clusterBuildMessageHdr` — a header carries the epochs and the name of this node;
* `yields_clusterSendFailoverAuth` — a vote is at most one message;
* the other functions only take the action `send`.
-/

variable {A : ClusterAction → Prop} {B : Behaviour ClusterState ClusterFault} {s : ClusterState}
  {env : ClusterEnv}

/-- The header, whichever node it advertises. -/
theorem stamped_clusterMessageHdr {me master : ClusterNode} {slaveof : NodeName} {data : ClusterMsgData}
    {r : Ref} (hme : s.heap s.myself = some me) (hmaster : s.heap r = some master)
    (hdata : ∀ e name slots, data = .update e name slots →
      ∃ r n, s.view.heap r = some n ∧ e = n.configEpoch) :
    s.view.Stamped (clusterMessageHdr env s me master slaveof data) where
  currentEpoch := rfl
  sender := by
    rw [ClusterView.nameOf, show s.view.heap s.view.myself = some me.view from
      ClusterState.view_heap hme]
    rfl
  configEpoch := ⟨r, master.view, ClusterState.view_heap hmaster, rfl⟩
  update := hdata

theorem sim_clusterBuildMessageHdr [Tolerant B] {data : ClusterMsgData}
    (hdata : ∀ e name slots, data = .update e name slots →
      ∃ r n, s.view.heap r = some n ∧ e = n.configEpoch) :
    B.Sim (clusterBuildMessageHdr env data) s fun msg t =>
      t = s ∧ s.view.Stamped msg ∧ msg.data = data := by
  refine Sim.get_bind (sim_getMyself fun me hme => ?_)
  cases me.slaveof with
  | none => exact Sim.pure ⟨rfl, stamped_clusterMessageHdr hme hme hdata, rfl⟩
  | some m =>
    refine sim_getNode (fun master hm => Sim.pure ⟨rfl, ?_, rfl⟩)
    by_cases hs : me.flags.slave = true
    · rw [if_pos hs]; exact stamped_clusterMessageHdr hme hm hdata
    · rw [if_neg hs]; exact stamped_clusterMessageHdr hme hme hdata

/-- A message that is not a vote and not a request. -/
def ClusterMsgData.Plain (d : ClusterMsgData) : Prop := d.isAck = false ∧ d.isRequest = false

theorem PingType.plain (gossip : List ClusterMsgDataGossip) (type : PingType) :
    (type.data gossip).Plain := by
  cases type <;> exact ⟨rfl, rfl⟩

theorem PingType.ne_update {gossip : List ClusterMsgDataGossip} {type : PingType} {e : Nat}
    {name : NodeName} {slots : SlotBitmap} : type.data gossip ≠ .update e name slots := by
  cases type <;> simp [PingType.data]

/-- Messages are queued. -/
theorem steps_send {os : List ClusterOutgoing} (hA : A (.send os))
    (hos : ∀ o ∈ os, s.view.Stamped o.msg ∧ o.msg.data.isAck = false ∧
      (o.msg.data.isRequest = true → s.currentEpoch = s.failoverAuthEpoch)) :
    Steps A s.view ({ s with outbox := s.outbox ++ os } : ClusterState).view :=
  Steps.action (a := .send os) hA hos

section

variable (hA : ∀ os, A (.send os))

include hA

theorem does_clusterSendMessage {dest : Option NodeName} {msg : ClusterMsg} (hmsg : s.view.Stamped msg)
    (hplain : msg.data.Plain) :
    Does A (clusterSendMessage dest msg) s fun _ _ => True := by
  refine Sim.modify (steps_send (hA _) ?_) trivial
  intro o ho
  cases List.mem_singleton.mp ho
  exact ⟨hmsg, hplain.1, fun hreq => by rw [hplain.2] at hreq; cases hreq⟩

theorem does_clusterBroadcastMessage {msg : ClusterMsg} (hmsg : s.view.Stamped msg)
    (hack : msg.data.isAck = false) (hreq : msg.data.isRequest = true → s.currentEpoch = s.failoverAuthEpoch) :
    Does A (clusterBroadcastMessage msg) s fun _ _ => True := by
  refine Sim.modify (steps_send (hA _) ?_) trivial
  intro o ho
  obtain ⟨n, -, rfl⟩ := List.mem_map.mp ho
  exact ⟨hmsg, hack, hreq⟩

theorem does_clusterSendPing {r : Ref} {type : PingType} :
    Does A (clusterSendPing env r type) s fun _ _ => True := by
  refine Sim.seq (sim_whenDo (fun _ => ?_) (fun _ => trivial)) (fun _ t _ => ?_)
  · exact Sim.weaken (Does.of_unseen (yields_modifyNode_unseen fun _ => rfl)) (fun _ _ _ _ => trivial)
  refine sim_getNode (fun n _ => Sim.get_bind (Sim.bind (sim_clusterBuildMessageHdr ?_) ?_))
  · exact fun e name slots h => absurd h PingType.ne_update
  · rintro msg u - ⟨rfl, hmsg, hdata⟩
    exact does_clusterSendMessage hA hmsg (hdata ▸ PingType.plain _ type)

theorem does_clusterReplyPong :
    Does A (clusterReplyPong env) s fun _ _ => True := by
  refine Sim.get_bind (Sim.bind (sim_clusterBuildMessageHdr ?_) ?_)
  · intro e name slots h
    cases h
  · rintro msg u - ⟨rfl, hmsg, hdata⟩
    exact does_clusterSendMessage hA hmsg (hdata ▸ ⟨rfl, rfl⟩)

theorem does_clusterBroadcastPong {target : BroadcastTarget} :
    Does A (clusterBroadcastPong env target) s fun _ _ => True := by
  refine Sim.get_bind (Sim.forM (fun _ => True) trivial (fun r _ t _ _ => ?_))
  refine sim_getNode (fun n _ => sim_getMyself fun me _ => ?_)
  exact sim_whenDo (fun _ => does_clusterSendPing hA) (fun _ => trivial)

theorem does_clusterSendFail {name : NodeName} :
    Does A (clusterSendFail env name) s fun _ _ => True := by
  refine Sim.bind (sim_clusterBuildMessageHdr ?_) ?_
  · intro e name slots h
    cases h
  · rintro msg u - ⟨rfl, hmsg, hdata⟩
    refine does_clusterBroadcastMessage hA hmsg ?_ ?_ <;> rw [hdata]
    · rfl
    · intro h
      cases h

/-- The `UPDATE` is about a node of the present state. -/
theorem does_clusterSendUpdate {dest node : ClusterNode} {r : Ref} (hnode : s.heap r = some node) :
    Does A (clusterSendUpdate env dest node) s fun _ _ => True := by
  refine Sim.ite (fun _ => Sim.pure trivial) (fun _ => Sim.bind (sim_clusterBuildMessageHdr ?_) ?_)
  · intro e name slots h
    cases h
    exact ⟨r, node.view, ClusterState.view_heap hnode, rfl⟩
  · rintro msg u - ⟨rfl, hmsg, hdata⟩
    exact does_clusterSendMessage hA hmsg (hdata ▸ ⟨rfl, rfl⟩)

/-- A request carries the epoch of the election. -/
theorem does_clusterRequestFailoverAuth (hepoch : s.currentEpoch = s.failoverAuthEpoch) :
    Does A (clusterRequestFailoverAuth env) s fun _ _ => True := by
  refine Sim.bind (sim_clusterBuildMessageHdr ?_) ?_
  · intro e name slots h
    cases h
  · rintro msg u - ⟨rfl, hmsg, hdata⟩
    refine Sim.get_bind (does_clusterBroadcastMessage hA ?_ ?_ (fun _ => hepoch))
    · exact ⟨hmsg.currentEpoch, hmsg.sender, hmsg.configEpoch, hmsg.update⟩
    · show msg.data.isAck = false
      rw [hdata]
      rfl

end

/-- A vote is at most one message, to the node that asked for it. -/
theorem yields_clusterSendFailoverAuth {node : ClusterNode} :
    Yields (clusterSendFailoverAuth env node) s fun _ t => ∃ os : List ClusterOutgoing,
      t = { s with outbox := s.outbox ++ os } ∧ os.length ≤ 1 ∧
      ∀ o ∈ os, s.view.Stamped o.msg ∧ o.msg.data = .failoverAuthAck ∧ o.dest = some node.name := by
  refine Sim.ite (fun _ => Sim.pure ⟨[], by simp, by simp, by simp⟩) (fun _ => ?_)
  refine Sim.bind (sim_clusterBuildMessageHdr ?_) ?_
  · intro e name slots h
    cases h
  · rintro msg u - ⟨rfl, hmsg, hdata⟩
    refine Sim.modify trivial ⟨[{ dest := some node.name, msg := msg }], rfl, by simp, ?_⟩
    intro o ho
    cases List.mem_singleton.mp ho
    exact ⟨hmsg, hdata, rfl⟩

theorem does_clusterSendMFStart {node : ClusterNode} (hA : ∀ os, A (.send os)) :
    Does A (clusterSendMFStart env node) s fun _ _ => True := by
  refine Sim.ite (fun _ => Sim.pure trivial) (fun _ => Sim.bind (sim_clusterBuildMessageHdr ?_) ?_)
  · intro e name slots h
    cases h
  · rintro msg u - ⟨rfl, hmsg, hdata⟩
    exact does_clusterSendMessage hA hmsg (hdata ▸ ⟨rfl, rfl⟩)

end Redis
