import Redis.Cluster.Failover

namespace Redis

/-!
# Processing packets

`clusterProcessPacket` cut along its comments: every type of packet first updates the
epochs, then `PING`, `PONG` and `MEET` go through the link, the address, the role, the
slots, the epoch collision and the gossip of the sender.

* `markNodeAsFailingIfNeeded`, `clusterProcessGossipSection` — gossip;
* `clusterUpdateSlotsConfigWith` — the slots a master claims (the definition in the source
  is spelled `forgetclusterUpdateSlotsConfigWith`);
* `clusterProcessPacket` — the handler.
-/

section Env

variable (env : ClusterEnv)

/-! ### Failure detection -/

/-- `markNodeAsFailingIfNeeded`. -/
def markNodeAsFailingIfNeeded (node : Ref) : ClusterM Unit := do
  let s ← get
  let n ← getNode node
  let me ← getMyself
  if n.flags.pfail = false ∨ n.flags.fail = true then
    return ()
  else do
    let reports ← clusterNodeFailureReportsCount env node
    let failures := reports + if me.flags.master then 1 else 0
    if failures < s.size / 2 + 1 then
      return ()
    else do
      modifyNode node fun n => { n with
        flags := { n.flags with pfail := false, fail := true }
        failTime := env.mstime }
      whenDo (me.flags.master = true) (clusterSendFail env n.name)
      clusterDoBeforeSleep { updateState := true, saveConfig := true }

def CLUSTER_FAIL_UNDO_TIME_MULT : Int := 2

/-- `clearNodeFailureIfNeeded`. -/
def clearNodeFailureIfNeeded (node : Ref) : ClusterM Unit := do
  let n ← getNode node
  serverAssert .nodeFailed (n.flags.fail = true)
  whenDo ((n.flags.slave = true ∨ n.numslots = 0) ∨ (n.flags.master = true ∧ n.numslots > 0 ∧
      env.mstime - n.failTime > env.clusterNodeTimeout * CLUSTER_FAIL_UNDO_TIME_MULT)) do
    modifyNode node fun n => { n with flags := { n.flags with fail := false } }
    clusterDoBeforeSleep { updateState := true, saveConfig := true }

/-! ### Handshakes -/

/-- `!strcasecmp(a,b)`. -/
def strcaseEq (a b : String) : Bool := a.toLower == b.toLower

/-- `clusterHandshakeInProgress`. -/
def clusterHandshakeInProgress (s : ClusterState) (ip : String) (port : Nat) : Bool :=
  s.tableNodes.any fun n => n.flags.handshake && strcaseEq n.ip ip && n.port == port

def CLUSTER_PORT_INCR : Nat := 10000

/-- The return value of `clusterStartHandshake`: 1, or 0 with `EAGAIN` or `EINVAL`. -/
inductive HandshakeResult
  | started
  | again
  | invalid
  deriving DecidableEq, Repr

/-- A node in handshake, put into the table. -/
def clusterAddHandshakeNode (flags : NodeFlags) (ip : String) (port : Nat) : ClusterM Unit := do
  let r ← createClusterNode env none flags
  modifyNode r fun n => { n with ip := ip, port := port }
  discard (clusterAddNode r)

/-- `clusterStartHandshake`. -/
def clusterStartHandshake (ip : String) (port : Int) : ClusterM HandshakeResult := do
  let s ← get
  match env.normalizeIp ip with
  | none => return .invalid
  | some normIp =>
      if port ≤ 0 ∨ port > 65535 - CLUSTER_PORT_INCR then
        return .invalid
      else if clusterHandshakeInProgress s normIp port.toNat then
        return .again
      else do
        clusterAddHandshakeNode env { handshake := true, meet := true } normIp port.toNat
        return .started

/-! ### Gossip -/

/-- Failure reports, when the sender is a master. -/
def gossipReport (sender : Ref) (node : Ref) (g : ClusterMsgDataGossip) : ClusterM Unit := do
  let n ← getNode sender
  let s ← get
  whenDo (n.flags.master = true ∧ node ≠ s.myself)
    (if g.flags.fail ∨ g.flags.pfail then do
      let _ ← clusterNodeAddFailureReport env node sender
      markNodeAsFailingIfNeeded env node
    else
      discard (clusterNodeDelFailureReport env node sender))

/-- A different address of a node that is not reachable. -/
def gossipAddress (node : Ref) (g : ClusterMsgDataGossip) : ClusterM Unit := do
  let n ← getNode node
  whenDo ((n.flags.fail ∨ n.flags.pfail) ∧ g.flags.noaddr = false ∧
      ¬ (g.flags.fail ∨ g.flags.pfail) ∧ (strcaseEq n.ip g.ip = false ∨ n.port ≠ g.port))
    (modifyNode node fun n => { n with
      link := none
      ip := g.ip
      port := g.port
      flags := { n.flags with noaddr := false } })

/-- A node we don't have. -/
def gossipUnknown (sender : Option Ref) (g : ClusterMsgDataGossip) : ClusterM Unit :=
  whenDo (sender.isSome ∧ g.flags.noaddr = false) do
    let listed ← clusterBlacklistExists env g.nodename
    whenDo (listed = false) (discard (clusterStartHandshake env g.ip g.port))

/-- One entry of the gossip section. -/
def clusterProcessGossip (sender : Option Ref) (g : ClusterMsgDataGossip) : ClusterM Unit := do
  match (← get).clusterLookupNode g.nodename with
  | some node => do
      ifSome sender fun r => gossipReport env r node g
      gossipAddress node g
  | none => gossipUnknown env sender g

/-- `clusterProcessGossipSection`; `link` is `link->node`. -/
def clusterProcessGossipSection (link : Option Ref) (hdr : ClusterMsg)
    (gossip : List ClusterMsgDataGossip) : ClusterM Unit := do
  let s ← get
  gossip.forM (clusterProcessGossip env (link.or (s.clusterLookupNode hdr.sender)))

/-- `nodeUpdateAddressIfNeeded`; the link of the packet is that of the node it belongs to. -/
def nodeUpdateAddressIfNeeded (node : Ref) (link : Option Ref) (port : Nat) : ClusterM Bool := do
  let n ← getNode node
  if link = some node then
    return false
  else if n.port = port ∧ env.peerIp = n.ip then
    return false
  else do
    modifyNode node fun n => { n with
      ip := env.peerIp
      port := port
      link := none
      flags := { n.flags with noaddr := false } }
    return true

/-! ### Slots -/

/-- The variables of the loop in `clusterUpdateSlotsConfigWith`. -/
structure SlotsUpdate where
  newmaster : Bool
  dirtySlots : List Slot

/-- The slot is unassigned, or its owner has a smaller configuration epoch. -/
def slotRebindable (s : ClusterState) (epoch : Nat) (j : Slot) : Bool :=
  match (s.slots j).bind s.heap with
  | none => true
  | some n => n.configEpoch < epoch

/-- One iteration of the loop in `clusterUpdateSlotsConfigWith`. -/
def clusterUpdateSlot (sender : Ref) (senderConfigEpoch : Nat) (slots : SlotBitmap)
    (curmaster : Option Ref) (acc : SlotsUpdate) (j : Slot) : ClusterM SlotsUpdate := do
  let s ← get
  if slots j = false then
    return acc
  else if s.slots j = some sender then
    return acc
  else if (s.importingSlotsFrom j).isSome then
    return acc
  else if slotRebindable s senderConfigEpoch j then do
    discard (clusterDelSlot j)
    discard (clusterAddSlot sender j)
    clusterDoBeforeSleep { saveConfig := true, updateState := true, fsyncConfig := true }
    return {
      newmaster := acc.newmaster || (s.slots j == curmaster)
      dirtySlots :=
        if s.slots j = some s.myself ∧ env.countKeysInSlot j ≠ 0 then acc.dirtySlots ++ [j]
        else acc.dirtySlots }
  else
    return acc

/-- The end of `clusterUpdateSlotsConfigWith`: this node follows the new owner when its
    master, or itself, is left without slots.  The result are the slots whose keys are
    deleted. -/
def clusterFollowNewMaster (sender : Ref) (curmaster : Option Ref) (acc : SlotsUpdate) :
    ClusterM (List Slot) :=
  if acc.newmaster then
    match curmaster with
    | none => throw .nullPointer
    | some c => do
        let n ← getNode c
        if n.numslots = 0 then do
          clusterSetMaster sender
          clusterDoBeforeSleep { saveConfig := true, updateState := true, fsyncConfig := true }
          return []
        else
          return acc.dirtySlots
  else
    return acc.dirtySlots

/-- `clusterUpdateSlotsConfigWith`. -/
def clusterUpdateSlotsConfigWith (sender : Ref) (senderConfigEpoch : Nat) (slots : SlotBitmap) :
    ClusterM (List Slot) := do
  let s ← get
  let me ← getMyself
  let curmaster := if me.flags.master then some s.myself else me.slaveof
  if sender = s.myself then
    return []
  else do
    let acc ← allSlots.foldlM (clusterUpdateSlot env sender senderConfigEpoch slots curmaster)
      { newmaster := false, dirtySlots := [] }
    clusterFollowNewMaster sender curmaster acc

/-! ### The parts of `clusterProcessPacket` -/

/-- "Update our currentEpoch if we see a newer epoch in the cluster", and the rest that is
    done for a sender that is known and not in handshake. -/
def packetEpochs (hdr : ClusterMsg) (sender : Ref) : ClusterM Unit := do
  modify fun s => { s with currentEpoch := max s.currentEpoch hdr.currentEpoch }
  let n ← getNode sender
  whenDo (hdr.configEpoch > n.configEpoch) do
    modifyNode sender fun n => { n with configEpoch := hdr.configEpoch }
    clusterDoBeforeSleep { saveConfig := true, fsyncConfig := true }
  modifyNode sender fun n => { n with replOffset := hdr.offset, replOffsetTime := env.mstime }
  let s ← get
  let me ← getMyself
  whenDo (s.mfEnd ≠ 0 ∧ me.flags.slave = true ∧ me.slaveof = some sender ∧ hdr.paused = true ∧
      s.mfMasterOffset = 0)
    (modify fun s => { s with mfMasterOffset := hdr.offset })

/-- "Initial processing of PING and MEET requests replying with a PONG." -/
def packetHello (link : Option Ref) (hdr : ClusterMsg) (sender : Option Ref) (meet : Bool)
    (gossip : List ClusterMsgDataGossip) : ClusterM Unit := do
  let s ← get
  let me ← getMyself
  ifSome env.sockName fun ip =>
    whenDo ((meet = true ∨ me.ip = "") ∧ ip ≠ me.ip) do
      modifyNode s.myself fun me => { me with ip := ip }
      clusterDoBeforeSleep { saveConfig := true }
  whenDo (sender = none ∧ meet = true) do
    clusterAddHandshakeNode env { handshake := true } env.peerIp hdr.port
    clusterDoBeforeSleep { saveConfig := true }
    clusterProcessGossipSection env link hdr gossip
  clusterReplyPong env

/-- The packet came on the link of a node: a handshake is completed or given up, a node
    with another name loses its address.  False when the link is gone. -/
def packetLink (link : Option Ref) (hdr : ClusterMsg) (sender : Option Ref) : ClusterM Bool :=
  match link with
  | none => return true
  | some l => do
      let n ← getNode l
      if n.flags.handshake then
        match sender with
        | some r => do
            let changed ← nodeUpdateAddressIfNeeded env r link hdr.port
            whenDo (changed = true) (clusterDoBeforeSleep { saveConfig := true, updateState := true })
            -- free this node as we already have it
            clusterDelNode env l
            return false
        | none => do
            clusterRenameNode l hdr.sender
            modifyNode l fun n => { n with
              flags := { n.flags with
                handshake := false
                master := n.flags.master || hdr.flags.master
                slave := n.flags.slave || hdr.flags.slave } }
            clusterDoBeforeSleep { saveConfig := true }
            return true
      else if n.name ≠ hdr.sender then do
        modifyNode l fun n => { n with
          flags := { n.flags with noaddr := true }, ip := "", port := 0, link := none }
        clusterDoBeforeSleep { saveConfig := true }
        return false
      else
        return true

/-- "Update the node address if it changed." -/
def packetAddress (link : Option Ref) (hdr : ClusterMsg) (sender : Ref) (type : PingType) :
    ClusterM Unit := do
  let n ← getNode sender
  whenDo (type = .ping ∧ n.flags.handshake = false) do
    let changed ← nodeUpdateAddressIfNeeded env sender link hdr.port
    whenDo (changed = true) (clusterDoBeforeSleep { saveConfig := true, updateState := true })

/-- "Update our info about the node": a `PONG` on its link. -/
def packetPong (l : Ref) : ClusterM Unit := do
  modifyNode l fun n => { n with pongReceived := env.mstime, pingSent := 0 }
  let n ← getNode l
  if n.flags.pfail then do
    modifyNode l fun n => { n with flags := { n.flags with pfail := false } }
    clusterDoBeforeSleep { saveConfig := true, updateState := true }
  else
    whenDo (n.flags.fail = true) (clearNodeFailureIfNeeded env l)

/-- "Master turned into a slave! Reconfigure the node." -/
def packetDemote (sender : Ref) : ClusterM Unit := do
  let n ← getNode sender
  whenDo (n.flags.master = true) do
    clusterDelNodeSlots sender
    modifyNode sender fun n => { n with
      flags := { n.flags with master := false, migrateTo := false, slave := true } }
    clusterDoBeforeSleep { saveConfig := true, updateState := true }

/-- "Master node changed for this slave?" -/
def packetNewMaster (sender master : Ref) : ClusterM Unit := do
  let n ← getNode sender
  whenDo (n.slaveof ≠ some master) do
    ifSome n.slaveof fun m => discard (clusterNodeRemoveSlave m sender)
    discard (clusterNodeAddSlave master sender)
    modifyNode sender fun n => { n with slaveof := some master }
    clusterDoBeforeSleep { saveConfig := true }

/-- "Check for role switch: slave -> master or master -> slave." -/
def packetRole (hdr : ClusterMsg) (sender : Ref) : ClusterM Unit := do
  let s ← get
  if hdr.slaveof = CLUSTER_NODE_NULL_NAME then
    clusterSetNodeAsMaster sender
  else do
    packetDemote sender
    ifSome (s.clusterLookupNode hdr.slaveof) (packetNewMaster sender)

/-- `memcmp(a,b,sizeof(a)) != 0`. -/
def bitmapDiffers (a b : SlotBitmap) : Bool := allSlots.any fun j => a j != b j

/-- Whether the claimed slots differ from those of the sender or its master. -/
def packetDirtySlots (hdr : ClusterMsg) (sender : Ref) (n : ClusterNode) : ClusterM Bool :=
  match if n.flags.master then some sender else n.slaveof with
  | none => return false
  | some m => do
      let master ← getNode m
      return bitmapDiffers master.slots hdr.myslots

/-- The first claimed slot that a node with a greater configuration epoch owns. -/
def outdatedSlot (s : ClusterState) (sender : Ref) (senderConfigEpoch : Nat) (slots : SlotBitmap) :
    Option ClusterNode :=
  (allSlots.find? fun j => slots j && s.slots j != some sender && slotEpochAbove s senderConfigEpoch j).bind
    fun j => (s.slots j).bind s.heap

/-- "Update our info about served slots." -/
def packetSlots (hdr : ClusterMsg) (sender : Ref) (senderConfigEpoch : Nat) : ClusterM Unit := do
  let n ← getNode sender
  let dirty ← packetDirtySlots hdr sender n
  whenDo (n.flags.master = true ∧ dirty = true)
    (discard (clusterUpdateSlotsConfigWith env sender senderConfigEpoch hdr.myslots))
  let s ← get
  whenDo (dirty = true) (ifSome (outdatedSlot s sender senderConfigEpoch hdr.myslots) fun owner => do
    let n ← getNode sender
    clusterSendUpdate env n owner)

/-- "If our config epoch collides with the sender's try to fix the problem." -/
def packetCollision (sender : Ref) (senderConfigEpoch : Nat) : ClusterM Unit := do
  let n ← getNode sender
  let me ← getMyself
  whenDo (me.flags.master = true ∧ n.flags.master = true ∧ senderConfigEpoch = me.configEpoch)
    (clusterHandleConfigEpochCollision sender)

/-- "PING, PONG, MEET: process config information." -/
def packetConfig (link : Option Ref) (hdr : ClusterMsg) (sender : Option Ref) (senderConfigEpoch : Nat)
    (type : PingType) (gossip : List ClusterMsgDataGossip) : ClusterM Bool := do
  let valid ← packetLink env link hdr sender
  if valid = false then
    return false
  else do
    ifSome sender fun r => packetAddress env link hdr r type
    whenDo (type = .pong) (ifSome link (packetPong env))
    ifSome sender fun r => do
      packetRole hdr r
      packetSlots env hdr r senderConfigEpoch
      packetCollision r senderConfigEpoch
      clusterProcessGossipSection env link hdr gossip
    return true

/-- A `FAIL` message about a node. -/
def packetFail (nodename : NodeName) : ClusterM Unit := do
  let s ← get
  ifSome (s.clusterLookupNode nodename) fun failing => do
    let n ← getNode failing
    whenDo (n.flags.fail = false ∧ n.flags.myself = false) do
      modifyNode failing fun n => { n with
        flags := { n.flags with fail := true, pfail := false }
        failTime := env.mstime }
      clusterDoBeforeSleep { saveConfig := true, updateState := true }

/-- A vote for this node. -/
def packetAuthAck (sender : Ref) (senderCurrentEpoch : Nat) : ClusterM Unit := do
  let n ← getNode sender
  let s ← get
  whenDo (n.flags.master = true ∧ n.numslots > 0 ∧ senderCurrentEpoch ≥ s.failoverAuthEpoch) do
    modify fun s => { s with failoverAuthCount := s.failoverAuthCount + 1 }
    clusterDoBeforeSleep { handleFailover := true }

/-- A manual failover requested by a slave of this node. -/
def packetMFStart (sender : Ref) : ClusterM Unit := do
  let n ← getNode sender
  let s ← get
  whenDo (n.slaveof = some s.myself) do
    resetManualFailover
    modify fun s => { s with mfEnd := env.mstime + CLUSTER_MF_TIMEOUT, mfSlave := some sender }

/-- The configuration of another node. -/
def packetUpdate (configEpoch : Nat) (nodename : NodeName) (slots : SlotBitmap) : ClusterM Unit := do
  let s ← get
  ifSome (s.clusterLookupNode nodename) fun r => do
    let n ← getNode r
    whenDo (n.configEpoch < configEpoch) do
      whenDo (n.flags.slave = true) (clusterSetNodeAsMaster r)
      modifyNode r fun n => { n with configEpoch := configEpoch }
      clusterDoBeforeSleep { saveConfig := true, fsyncConfig := true }
      discard (clusterUpdateSlotsConfigWith env r configEpoch slots)

/-- `sender && !nodeInHandshake(sender)`. -/
def senderKnown (s : ClusterState) (sender : Option Ref) : Bool :=
  (sender.bind s.heap).any fun n => !n.flags.handshake

/-- `clusterProcessPacket`; `link` is `link->node`.  False when the link has been freed. -/
def clusterProcessPacket (link : Option Ref) (hdr : ClusterMsg) : ClusterM Bool := do
  let s ← get
  let sender := s.clusterLookupNode hdr.sender
  let known := senderKnown s sender
  whenDo (known = true) (ifSome sender (packetEpochs env hdr))
  let senderCurrentEpoch := if known then hdr.currentEpoch else 0
  let senderConfigEpoch := if known then hdr.configEpoch else 0
  match hdr.data with
  | .ping gossip => do
      packetHello env link hdr sender false gossip
      packetConfig env link hdr sender senderConfigEpoch .ping gossip
  | .meet gossip => do
      packetHello env link hdr sender true gossip
      packetConfig env link hdr sender senderConfigEpoch .meet gossip
  | .pong gossip => packetConfig env link hdr sender senderConfigEpoch .pong gossip
  | .fail nodename => do
      whenDo (sender.isSome = true) (packetFail env nodename)
      return true
  | .publish => return true
  | .failoverAuthRequest => do
      ifSome sender fun r => clusterSendFailoverAuthIfNeeded env r hdr
      return true
  | .failoverAuthAck => do
      ifSome sender fun r => packetAuthAck r senderCurrentEpoch
      return true
  | .mfstart => do
      ifSome sender (packetMFStart env)
      return true
  | .update configEpoch nodename slots => do
      whenDo (sender.isSome = true) (packetUpdate env configEpoch nodename slots)
      return true

end Env

end Redis
