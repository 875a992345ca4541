import Redis.Cluster.Node

namespace Redis

/-!
# Sending messages

Every message carries the header `clusterBuildMessageHdr` makes of the present state; a
slave advertises the slots and the configuration epoch of its master.

* `clusterBuildMessageHdr` — the header;
* `clusterSendPing`, `clusterBroadcastPong` — messages with a gossip section;
* `clusterSendFail`, `clusterSendUpdate`, `clusterRequestFailoverAuth`,
  `clusterSendFailoverAuth`, `clusterSendMFStart` — the others.
-/

section Env

variable (env : ClusterEnv)

/-- The header, given the node it advertises and the name of the master. -/
def clusterMessageHdr (s : ClusterState) (me master : ClusterNode) (slaveof : NodeName)
    (data : ClusterMsgData) : ClusterMsg where
  currentEpoch := s.currentEpoch
  configEpoch := master.configEpoch
  offset := if me.flags.slave then env.replicationGetSlaveOffset else env.masterReplOffset
  sender := me.name
  myslots := master.slots
  slaveof := slaveof
  port := env.port
  flags := me.flags
  paused := me.flags.master && s.mfEnd != 0
  forceack := false
  data := data

/-- `clusterBuildMessageHdr`. -/
def clusterBuildMessageHdr (data : ClusterMsgData) : ClusterM ClusterMsg := do
  let s ← get
  let me ← getMyself
  match me.slaveof with
  | none => return clusterMessageHdr env s me me CLUSTER_NODE_NULL_NAME data
  | some m => do
      let master ← getNode m
      return clusterMessageHdr env s me (if me.flags.slave then master else me) master.name data

/-- `clusterSendMessage` to the node with that name, or back on the present link. -/
def clusterSendMessage (dest : Option NodeName) (msg : ClusterMsg) : ClusterM Unit :=
  modify fun s => { s with outbox := s.outbox ++ [{ dest := dest, msg := msg }] }

/-! ### Gossip -/

/-- An entry of the gossip section. -/
def gossipOf (n : ClusterNode) : ClusterMsgDataGossip where
  nodename := n.name
  pingSent := n.pingSent
  pongReceived := n.pongReceived
  ip := n.ip
  port := n.port
  flags := n.flags

/-- The loop of `clusterSendPing`; `pick` gives the node of a random key. -/
def gossipLoop (wanted : Nat) (pick : Nat → Option (Ref × ClusterNode)) (myself : Ref) :
    Nat → Int → List ClusterMsgDataGossip → List ClusterMsgDataGossip
  | 0, _, gossip => gossip
  | maxiterations + 1, freshnodes, gossip =>
      if ¬ (freshnodes > 0 ∧ gossip.length < wanted) then gossip
      else match pick maxiterations with
        | none => gossip
        | some (this, n) =>
            if this = myself then gossipLoop wanted pick myself maxiterations freshnodes gossip
            -- give a bias to FAIL/PFAIL nodes
            else if maxiterations > wanted * 2 ∧ ¬ (n.flags.pfail ∨ n.flags.fail) then
              gossipLoop wanted pick myself maxiterations freshnodes gossip
            else if n.flags.handshake ∨ n.flags.noaddr ∨ (n.link = none ∧ n.numslots = 0) then
              gossipLoop wanted pick myself maxiterations (freshnodes - 1) gossip
            else if gossip.any fun g => g.nodename = n.name then
              gossipLoop wanted pick myself maxiterations freshnodes gossip
            else
              gossipLoop wanted pick myself maxiterations (freshnodes - 1) (gossip ++ [gossipOf n])

/-- The gossip section of a new message. -/
def gossipSection (s : ClusterState) : List ClusterMsgDataGossip :=
  let freshnodes : Int := s.nodes.length - 2
  let wanted := min (max 3 (s.nodes.length / 10)) freshnodes.toNat
  let pick := fun k => do
    let p ← s.nodes[env.randomKey s.outbox.length k % s.nodes.length]?
    let n ← s.heap p.2
    return (p.2, n)
  gossipLoop wanted pick s.myself (wanted * 3) freshnodes []

/-- The types that carry a gossip section. -/
inductive PingType
  | ping
  | pong
  | meet
  deriving DecidableEq, Repr

/-- The message of that type. -/
def PingType.data (gossip : List ClusterMsgDataGossip) : PingType → ClusterMsgData
  | .ping => .ping gossip
  | .pong => .pong gossip
  | .meet => .meet gossip

/-- `clusterSendPing` on the link of a node. -/
def clusterSendPing (r : Ref) (type : PingType) : ClusterM Unit := do
  whenDo (type = .ping) (modifyNode r fun n => { n with pingSent := env.mstime })
  let n ← getNode r
  let s ← get
  let msg ← clusterBuildMessageHdr env (type.data (gossipSection env s))
  clusterSendMessage (some n.name) msg

/-- `clusterSendPing(link,CLUSTERMSG_TYPE_PONG)` on the link of the present packet. -/
def clusterReplyPong : ClusterM Unit := do
  let s ← get
  let msg ← clusterBuildMessageHdr env (.pong (gossipSection env s))
  clusterSendMessage none msg

/-- `CLUSTER_BROADCAST_ALL` and `CLUSTER_BROADCAST_LOCAL_SLAVES`. -/
inductive BroadcastTarget
  | all
  | localSlaves
  deriving DecidableEq, Repr

/-- Whether `clusterBroadcastPong` addresses the node. -/
def BroadcastTarget.covers (myself : Ref) (me n : ClusterNode) : BroadcastTarget → Bool
  | .all => true
  | .localSlaves => n.flags.slave && n.slaveof.isSome &&
      (n.slaveof == some myself || n.slaveof == me.slaveof)

/-- `clusterBroadcastPong`. -/
def clusterBroadcastPong (target : BroadcastTarget) : ClusterM Unit := do
  let s ← get
  s.nodeRefs.forM fun r => do
    let n ← getNode r
    let me ← getMyself
    whenDo (n.link.isSome ∧ r ≠ s.myself ∧ n.flags.handshake = false ∧
        target.covers s.myself me n = true) (clusterSendPing env r .pong)

/-! ### Other messages -/

/-- `clusterBroadcastMessage`. -/
def clusterBroadcastMessage (msg : ClusterMsg) : ClusterM Unit :=
  modify fun s => { s with outbox := s.outbox ++
    ((s.tableNodes.filter fun n => n.link.isSome && !n.flags.myself && !n.flags.handshake).map
      fun n => { dest := some n.name, msg := msg }) }

/-- `clusterSendFail`. -/
def clusterSendFail (nodename : NodeName) : ClusterM Unit := do
  let msg ← clusterBuildMessageHdr env (.fail nodename)
  clusterBroadcastMessage msg

/-- `clusterPropagatePublish`. -/
def clusterPropagatePublish : ClusterM Unit := do
  let msg ← clusterBuildMessageHdr env .publish
  clusterBroadcastMessage msg

/-- `clusterSendUpdate(dest->link,node)`. -/
def clusterSendUpdate (dest node : ClusterNode) : ClusterM Unit :=
  if dest.link = none then
    return ()
  else do
    let msg ← clusterBuildMessageHdr env (.update node.configEpoch node.name node.slots)
    clusterSendMessage (some dest.name) msg

/-- `clusterRequestFailoverAuth`. -/
def clusterRequestFailoverAuth : ClusterM Unit := do
  let msg ← clusterBuildMessageHdr env .failoverAuthRequest
  let s ← get
  clusterBroadcastMessage { msg with forceack := s.mfEnd != 0 }

/-- `clusterSendFailoverAuth`. -/
def clusterSendFailoverAuth (node : ClusterNode) : ClusterM Unit :=
  if node.link = none then
    return ()
  else do
    let msg ← clusterBuildMessageHdr env .failoverAuthAck
    clusterSendMessage (some node.name) msg

/-- `clusterSendMFStart`. -/
def clusterSendMFStart (node : ClusterNode) : ClusterM Unit :=
  if node.link = none then
    return ()
  else do
    let msg ← clusterBuildMessageHdr env .mfstart
    clusterSendMessage (some node.name) msg

end Env

end Redis
