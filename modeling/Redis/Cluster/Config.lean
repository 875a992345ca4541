import Redis.Cluster.Evaluate
import Redis.Cluster.SlotTable

namespace Redis

open Outcome Simulation

/-!
# Loading the configuration

A process that starts with a `nodes.conf` rebuilds its tables line by line.  A line may mention
nodes that have no line yet; these are created without flags and filled in later.

* `clusterLoadConfig`, `clusterRestart` — the code;
* `Loading`, `Loaded` — what is known of the tables when some lines have been read;
* `Loaded.ends_loadNode` — **one more line**;
* `clusterRestart_run` — **a well-formed file is loaded**, and the tables are well formed;
* `load_restores` — **a file restores the tables it was written for**.
-/

section Env

variable (env : ClusterEnv)

/-- `n->flags |= …`. -/
def NodeFlags.merge (a b : NodeFlags) : NodeFlags where
  master := a.master || b.master
  slave := a.slave || b.slave
  pfail := a.pfail || b.pfail
  fail := a.fail || b.fail
  myself := a.myself || b.myself
  handshake := a.handshake || b.handshake
  noaddr := a.noaddr || b.noaddr
  meet := a.meet || b.meet
  migrateTo := a.migrateTo || b.migrateTo

/-- The node of that name; "create this node if it does not exist". -/
def loadLookup (name : NodeName) : ClusterM Ref := do
  let s ← get
  match s.clusterLookupNode name with
  | some r => return r
  | none => do
      let r ← createClusterNode env (some name) {}
      discard (clusterAddNode r)
      return r

/-- The flags of a line; the result is `server.cluster->myself`. -/
def loadFlags (me : Option Ref) (r : Ref) (flags : NodeFlags) : ClusterM (Option Ref) := do
  serverAssert .loadMyself (¬ (flags.myself = true ∧ me.isSome = true))
  modifyNode r fun n => { n with
    flags := n.flags.merge flags
    failTime := if flags.fail then env.mstime else n.failTime }
  return if flags.myself then some r else me

/-- "Set the master and populate master's slave list." -/
def loadSlaveof (r : Ref) (name : NodeName) : ClusterM Unit := do
  let master ← loadLookup env name
  modifyNode r fun n => { n with slaveof := some master }
  discard (clusterNodeAddSlave master r)

/-- `atoi` keeps the low 32 bits of a time. -/
def atoiNonzero (time : Int) : Bool := time % 4294967296 ≠ 0

/-- The two times and the epoch of a line. -/
def loadTimes (r : Ref) (x : SavedNode) : ClusterM Unit :=
  modifyNode r fun n => { n with
    pingSent := if atoiNonzero x.pingSent then env.mstime else n.pingSent
    pongReceived := if atoiNonzero x.pongReceived then env.mstime else n.pongReceived
    configEpoch := x.configEpoch }

/-- A slot of a line. -/
def loadSlot (r : Ref) (x : SavedNode) (j : Slot) : ClusterM Unit :=
  whenDo (x.slots j = true) (discard (clusterAddSlot r j))

/-- A slot in motion. -/
def loadMove (x : SavedNode) (j : Slot) : ClusterM Unit := do
  ifSome (x.migrating j) fun name => do
    let r ← loadLookup env name
    modify fun s => { s with
      migratingSlotsTo := fun i => if i = j then some r else s.migratingSlotsTo i }
  ifSome (x.importing j) fun name => do
    let r ← loadLookup env name
    modify fun s => { s with
      importingSlotsFrom := fun i => if i = j then some r else s.importingSlotsFrom i }

/-- A line. -/
def loadNode (me : Option Ref) (x : SavedNode) : ClusterM (Option Ref) := do
  let r ← loadLookup env x.name
  modifyNode r fun n => { n with ip := x.ip, port := x.port }
  let me ← loadFlags env me r x.flags
  ifSome x.slaveof (loadSlaveof env r)
  loadTimes env r x
  allSlots.forM (loadSlot r x)
  allSlots.forM (loadMove env x)
  return me

/-- `clusterLoadConfig` on the lines of the file. -/
def clusterLoadConfig (c : SavedConfig) : ClusterM Unit := do
  let me ← c.nodes.foldlM (loadNode env) none
  modify fun s => { s with currentEpoch := c.currentEpoch, lastVoteEpoch := c.lastVoteEpoch }
  match me with
  | none => throw .corruptedConfig
  | some r => modify fun s => { s with
      myself := r
      currentEpoch :=
        if clusterGetMaxEpoch s > s.currentEpoch then clusterGetMaxEpoch s else s.currentEpoch }

/-- `clusterInit` with a configuration file. -/
def clusterRestart (c : SavedConfig) : ClusterM Unit := do
  clusterLoadConfig env c
  let s ← get
  modifyNode s.myself fun me => { me with port := env.port }
  modify fun s => { s with saved := some c }
  resetManualFailover

end Env

/-! ### The tables while lines are read -/

/-- The name of the node `r`. -/
def ClusterState.nameAt (s : ClusterState) (r : Ref) : Option NodeName := (s.heap r).map ClusterNode.name

/-- The flags that have a name in `redisNodeFlagsTable`. -/
def NodeFlags.saved (f : NodeFlags) : NodeFlags := { f with meet := false, migrateTo := false }

/-- The tables fit together, and no pointer leads out of them. -/
structure Loading (s : ClusterState) : Prop where
  table : ∀ name r, (name, r) ∈ s.nodes ↔ s.nameAt r = some name
  names : (s.nodes.map Prod.fst).Nodup
  fresh : ∀ r, s.nextRef ≤ r → s.heap r = none
  owner : ∀ j r, s.slots j = some r → (s.heap r).isSome = true
  bit : ∀ r n j, s.heap r = some n → (n.slots j = true ↔ s.slots j = some r)
  count : ∀ r n, s.heap r = some n → n.numslots = slotCount n.slots
  migrating : ∀ j r, s.migratingSlotsTo j = some r → (s.heap r).isSome = true
  importing : ∀ j r, s.importingSlotsFrom j = some r → (s.heap r).isSome = true
  slaveof : ∀ r n m, s.heap r = some n → n.slaveof = some m → (s.heap m).isSome = true
  slaves : ∀ r n x, s.heap r = some n →
    (x ∈ n.slaves ↔ ∃ m, s.heap x = some m ∧ m.slaveof = some r)

/-- A name with a node is found. -/
theorem ClusterState.lookup_of_mem {s : ClusterState} {name : NodeName} {r : Ref}
    (hnames : (s.nodes.map Prod.fst).Nodup) (h : (name, r) ∈ s.nodes) : s.clusterLookupNode name = some r := by
  have hfind : ∀ l : List (NodeName × Ref), (l.map Prod.fst).Nodup → (name, r) ∈ l →
      l.find? (fun p => p.1 = name) = some (name, r) := by
    intro l hl hmem
    induction l with
    | nil => cases hmem
    | cons p l ih =>
      rw [List.map_cons, List.nodup_cons] at hl
      rcases List.mem_cons.mp hmem with rfl | hmem
      · rw [List.find?_cons_of_pos (by simp)]
      · have hp : p.1 ≠ name := by
          rintro rfl
          exact hl.1 (List.mem_map.mpr ⟨_, hmem, rfl⟩)
        rw [List.find?_cons_of_neg (by simpa using hp)]
        exact ih hl.2 hmem
  rw [clusterLookupNode, hfind s.nodes hnames h]
  rfl

namespace ClusterState

variable {s : ClusterState} {r x : Ref} {n m : ClusterNode} {f : ClusterNode → ClusterNode}

theorem nameAt_eq_some {name : NodeName} : s.nameAt r = some name ↔ ∃ n, s.heap r = some n ∧ n.name = name :=
  Option.map_eq_some_iff

theorem heap_updateNode_self (hn : s.heap r = some n) : (s.updateNode r f).heap r = some (f n) := by
  simp [updateNode, hn]

theorem heap_updateNode_ne (hx : x ≠ r) : (s.updateNode r f).heap x = s.heap x := by
  simp [updateNode, hx]

theorem isSome_heap_updateNode : ((s.updateNode r f).heap x).isSome = (s.heap x).isSome := by
  by_cases hx : x = r <;> simp [updateNode, hx]

/-- The nodes after an update. -/
theorem heap_updateNode_cases (hn : s.heap r = some n) (hm : (s.updateNode r f).heap x = some m) :
    (x = r ∧ m = f n) ∨ (x ≠ r ∧ s.heap x = some m) := by
  by_cases hx : x = r
  · subst hx
    rw [heap_updateNode_self hn] at hm
    exact Or.inl ⟨rfl, (Option.some.inj hm).symm⟩
  · rw [heap_updateNode_ne hx] at hm
    exact Or.inr ⟨hx, hm⟩

theorem exists_of_heap_updateNode (hm : (s.updateNode r f).heap x = some m) :
    ∃ n, s.heap x = some n ∧ (m = f n ∨ m = n) := by
  obtain ⟨n, hn⟩ := Option.isSome_iff_exists.mp (isSome_heap_updateNode.symm.trans (Option.isSome_iff_exists.mpr ⟨m, hm⟩))
  by_cases hx : x = r
  · subst hx
    exact ⟨n, hn, Or.inl (Option.some.inj (hm.symm.trans (heap_updateNode_self hn)))⟩
  · exact ⟨m, (heap_updateNode_ne hx).symm.trans hm, Or.inr rfl⟩

theorem nameAt_updateNode (hf : ∀ n, (f n).name = n.name) : (s.updateNode r f).nameAt = s.nameAt := by
  funext x
  by_cases hx : x = r
  · subst hx
    cases hn : s.heap x with
    | none => simp [nameAt, updateNode, hn]
    | some n => simp [nameAt, updateNode, hn, hf]
  · simp [nameAt, updateNode, hx]

end ClusterState

/-- Pointers to nodes keep their names. -/
def KeepsNames (s t : ClusterState) : Prop := ∀ r name, s.nameAt r = some name → t.nameAt r = some name

theorem KeepsNames.bind {s t : ClusterState} (h : KeepsNames s t) {o : Option Ref}
    (ho : ∀ r, o = some r → (s.heap r).isSome = true) : o.bind t.nameAt = o.bind s.nameAt := by
  cases o with
  | none => rfl
  | some r =>
    obtain ⟨n, hn⟩ := Option.isSome_iff_exists.mp (ho r rfl)
    have hname : s.nameAt r = some n.name := ClusterState.nameAt_eq_some.mpr ⟨n, hn, rfl⟩
    show t.nameAt r = s.nameAt r
    rw [hname, h r n.name hname]

theorem KeepsNames.of_eq {s t : ClusterState} (h : t.nameAt = s.nameAt) : KeepsNames s t := by
  intro r name hr
  rw [h]
  exact hr

/-- No fault, and names are kept. -/
def naming : Behaviour ClusterState ClusterFault where
  rel := KeepsNames
  fault := fun _ _ => False
  refl := fun _ _ _ hr => hr
  trans := fun h h' r name hr => h' r name (h r name hr)
  fault_of_rel := fun _ he => he

/-- The handler ends without a fault, with `Q`; the names of nodes are kept. -/
abbrev Ends {α : Type} (m : ClusterM α) (s : ClusterState) (Q : α → ClusterState → Prop) : Prop :=
  naming.Sim m s Q

section Rules

variable {α β : Type} {s : ClusterState} {r : Ref} {n : ClusterNode}

variable {R : β → ClusterState → Prop}

theorem ends_getNode {f : ClusterNode → ClusterM β} (hn : s.heap r = some n) (h : Ends (f n) s R) :
    Ends (getNode r >>= f) s R := by
  have hrun : (getNode r >>= f).run s = (f n).run s := by
    simp [getNode, hn, StateT.run_bind]
  rw [Ends, Behaviour.Sim, hrun]
  exact h

theorem ends_modifyNode {g : ClusterNode → ClusterNode} {Q : Unit → ClusterState → Prop}
    (hn : s.heap r = some n) (hg : ∀ n, (g n).name = n.name) (h : Q () (s.updateNode r g)) :
    Ends (modifyNode r g) s Q :=
  ends_getNode hn (Sim.modify (KeepsNames.of_eq (ClusterState.nameAt_updateNode hg)) h)

theorem ends_bind {m : ClusterM α} {f : α → ClusterM β} {Q : α → ClusterState → Prop} (hm : Ends m s Q)
    (hf : ∀ a t, Q a t → Ends (f a) t R) :
    Ends (m >>= f) s R :=
  Sim.bind hm fun a t _ hq => hf a t hq

end Rules

namespace Loading

variable {s t : ClusterState} {r : Ref} {n : ClusterNode} {name : NodeName} {env : ClusterEnv}

theorem empty : Loading emptyClusterState where
  table := by
    intro name r
    simp [emptyClusterState, ClusterState.nameAt]
  names := List.nodup_nil
  fresh := fun _ _ => rfl
  owner := by rintro j r ⟨⟩
  bit := by rintro r n j ⟨⟩
  count := by rintro r n ⟨⟩
  migrating := by rintro j r ⟨⟩
  importing := by rintro j r ⟨⟩
  slaveof := by rintro r n m ⟨⟩
  slaves := by rintro r n x ⟨⟩

theorem lookup_eq_some (h : Loading s) : s.clusterLookupNode name = some r ↔ s.nameAt r = some name := by
  rw [← h.table]
  exact ⟨fun hl => ClusterView.mem_of_lookup (v := s.view) hl, ClusterState.lookup_of_mem h.names⟩

/-- Two nodes have different names. -/
theorem ref_unique (h : Loading s) {x : Ref} (hr : s.nameAt r = some name) (hx : s.nameAt x = some name) :
    r = x :=
  Option.some.inj ((h.lookup_eq_some.mpr hr).symm.trans (h.lookup_eq_some.mpr hx))

/-- A change of one node that keeps its name and its links. -/
theorem change (h : Loading s) (r : Ref) {f : ClusterNode → ClusterNode} {slots : Slot → Option Ref}
    (hf : ∀ n, (f n).name = n.name ∧ (f n).slaves = n.slaves ∧ (f n).slaveof = n.slaveof)
    (howner : ∀ j x, slots j = some x → (s.heap x).isSome = true)
    (hbit : ∀ x m j, (s.updateNode r f).heap x = some m → (m.slots j = true ↔ slots j = some x))
    (hcount : ∀ x m, (s.updateNode r f).heap x = some m → m.numslots = slotCount m.slots) :
    Loading { s.updateNode r f with slots := slots } := by
  have hnames : (s.updateNode r f).nameAt = s.nameAt := ClusterState.nameAt_updateNode fun n => (hf n).1
  have hsome : ∀ x, ((s.updateNode r f).heap x).isSome = (s.heap x).isSome := fun _ =>
    ClusterState.isSome_heap_updateNode
  have hback : ∀ x m, (s.updateNode r f).heap x = some m → ∃ n, s.heap x = some n ∧
      m.slaves = n.slaves ∧ m.slaveof = n.slaveof := by
    intro x m hm
    obtain ⟨n, hn, rfl | rfl⟩ := ClusterState.exists_of_heap_updateNode hm
    · exact ⟨n, hn, (hf n).2⟩
    · exact ⟨m, hn, rfl, rfl⟩
  have hforth : ∀ x n, s.heap x = some n → ∃ m, (s.updateNode r f).heap x = some m ∧
      m.slaveof = n.slaveof := by
    intro x n hn
    by_cases hx : x = r
    · subst hx
      exact ⟨f n, ClusterState.heap_updateNode_self hn, (hf n).2.2⟩
    · exact ⟨n, (ClusterState.heap_updateNode_ne hx).trans hn, rfl⟩
  refine ⟨fun k x => ?_, h.names, ?_, fun j x hx => (hsome x).trans (howner j x hx), fun x m j => hbit x m j,
    hcount, fun j x hx => (hsome x).trans (h.migrating j x hx), fun j x hx => (hsome x).trans (h.importing j x hx), ?_, ?_⟩
  · exact (h.table k x).trans (Eq.congr (congrFun hnames x).symm rfl)
  · intro x hx
    show (s.updateNode r f).heap x = none
    rw [← Option.not_isSome_iff_eq_none, hsome, h.fresh x hx]
    exact Bool.false_ne_true
  · intro x m y hm hy
    obtain ⟨n, hn, -, hslaveof⟩ := hback x m hm
    exact (hsome y).trans (h.slaveof x n y hn (hslaveof ▸ hy))
  · intro x m y hm
    obtain ⟨n, hn, hslaves, -⟩ := hback x m hm
    rw [hslaves, h.slaves x n y hn]
    constructor
    · rintro ⟨k, hk, hkx⟩
      obtain ⟨k', hk', heq⟩ := hforth y k hk
      exact ⟨k', hk', heq.trans hkx⟩
    · rintro ⟨k, hk, hkx⟩
      obtain ⟨k', hk', -, heq⟩ := hback y k hk
      exact ⟨k', hk', heq ▸ hkx⟩

/-- The slots may stay as well. -/
theorem updateNode (h : Loading s) (r : Ref) {f : ClusterNode → ClusterNode}
    (hf : ∀ n, (f n).name = n.name ∧ (f n).slots = n.slots ∧ (f n).numslots = n.numslots ∧
      (f n).slaves = n.slaves ∧ (f n).slaveof = n.slaveof) : Loading (s.updateNode r f) := by
  refine h.change r (fun n => ⟨(hf n).1, (hf n).2.2.2⟩) h.owner ?_ ?_
  · intro x m j hm
    obtain ⟨n, hn, rfl | rfl⟩ := ClusterState.exists_of_heap_updateNode hm
    · rw [(hf n).2.1]
      exact h.bit x n j hn
    · exact h.bit x m j hn
  · intro x m hm
    obtain ⟨n, hn, rfl | rfl⟩ := ClusterState.exists_of_heap_updateNode hm
    · rw [(hf n).2.1, (hf n).2.2.1]
      exact h.count x n hn
    · exact h.count x m hn

/-- A node that is created has a place of its own. -/
theorem heap_create (h : Loading s) {x : Ref} {m : ClusterNode} (hm : s.heap x = some m) :
    ((s.alloc n).nodesAdd name s.nextRef).heap x = some m := by
  refine (if_neg ?_).trans hm
  rintro rfl
  rw [h.fresh _ le_rfl] at hm
  cases hm

theorem create (h : Loading s) (hname : s.clusterLookupNode name = none) (hn : n.name = name)
    (hslots : ∀ j, n.slots j = false) (hcount : n.numslots = 0) (hslaves : n.slaves = [])
    (hslaveof : n.slaveof = none) : Loading ((s.alloc n).nodesAdd name s.nextRef) := by
  have hnew : s.heap s.nextRef = none := h.fresh _ le_rfl
  have hheap : ∀ x, ((s.alloc n).nodesAdd name s.nextRef).heap x = if x = s.nextRef then some n else s.heap x :=
    fun _ => rfl
  have hsome : ∀ x, (s.heap x).isSome = true → (((s.alloc n).nodesAdd name s.nextRef).heap x).isSome = true := by
    intro x hx
    rw [hheap]
    split_ifs
    · rfl
    · exact hx
  have hback : ∀ x m, ((s.alloc n).nodesAdd name s.nextRef).heap x = some m →
      (x = s.nextRef ∧ m = n) ∨ (x ≠ s.nextRef ∧ s.heap x = some m) := by
    intro x m hm
    rw [hheap] at hm
    split_ifs at hm with hx
    · exact Or.inl ⟨hx, (Option.some.inj hm).symm⟩
    · exact Or.inr ⟨hx, hm⟩
  have hfresh : ∀ k, (∃ r, s.nameAt r = some k) ↔ k ∈ s.nodes.map Prod.fst := by
    intro k
    constructor
    · rintro ⟨x, hx⟩
      exact List.mem_map.mpr ⟨(k, x), (h.table k x).mpr hx, rfl⟩
    · intro hk
      obtain ⟨⟨k', x⟩, hx, rfl⟩ := List.mem_map.mp hk
      exact ⟨x, (h.table _ _).mp hx⟩
  have hnot : name ∉ s.nodes.map Prod.fst := ClusterView.lookup_eq_none (v := s.view).mp hname
  refine ⟨?_, ?_, ?_, ?_, ?_, ?_, ?_, ?_, ?_, ?_⟩
  · intro k x
    show (k, x) ∈ s.nodes ++ [(name, s.nextRef)] ↔ _
    rw [List.mem_append, List.mem_singleton, Prod.mk.injEq, h.table, ClusterState.nameAt_eq_some,
      ClusterState.nameAt_eq_some]
    constructor
    · rintro (⟨m, hm, hk⟩ | ⟨rfl, rfl⟩)
      · exact ⟨m, h.heap_create hm, hk⟩
      · exact ⟨n, by rw [hheap, if_pos rfl], hn⟩
    · rintro ⟨m, hm, hk⟩
      rcases hback x m hm with ⟨rfl, rfl⟩ | ⟨-, hm⟩
      · exact Or.inr ⟨hk.symm.trans hn, rfl⟩
      · exact Or.inl ⟨m, hm, hk⟩
  · show ((s.nodes ++ [(name, s.nextRef)]).map Prod.fst).Nodup
    rw [List.map_append, List.nodup_append]
    refine ⟨h.names, List.nodup_singleton _, ?_⟩
    intro a ha b hb
    rw [List.map_singleton, List.mem_singleton] at hb
    rintro rfl
    rw [hb] at ha
    exact hnot ha
  · intro x hx
    have hx' : s.nextRef + 1 ≤ x := hx
    rw [hheap, if_neg (Nat.ne_of_gt (Nat.lt_of_succ_le hx'))]
    exact h.fresh x (Nat.le_of_succ_le hx')
  · exact fun j x hx => hsome x (h.owner j x hx)
  · intro x m j hm
    rcases hback x m hm with ⟨rfl, rfl⟩ | ⟨-, hm⟩
    · rw [hslots j]
      refine iff_of_false Bool.false_ne_true fun hj => ?_
      have := h.owner j _ hj
      rw [hnew] at this
      exact Bool.false_ne_true this
    · exact h.bit x m j hm
  · intro x m hm
    rcases hback x m hm with ⟨rfl, rfl⟩ | ⟨-, hm⟩
    · rw [hcount, slotCount_eq_zero hslots]
    · exact h.count x m hm
  · exact fun j x hx => hsome x (h.migrating j x hx)
  · exact fun j x hx => hsome x (h.importing j x hx)
  · intro x m y hm hy
    rcases hback x m hm with ⟨rfl, rfl⟩ | ⟨-, hm⟩
    · rw [hslaveof] at hy
      cases hy
    · exact hsome y (h.slaveof x m y hm hy)
  · intro x m y hm
    rcases hback x m hm with ⟨rfl, rfl⟩ | ⟨-, hm⟩
    · rw [hslaves]
      refine iff_of_false List.not_mem_nil ?_
      rintro ⟨k, hk, hkx⟩
      rcases hback y k hk with ⟨rfl, rfl⟩ | ⟨-, hk⟩
      · rw [hslaveof] at hkx
        cases hkx
      · have := h.slaveof y k _ hk hkx
        rw [hnew] at this
        exact Bool.false_ne_true this
    · rw [h.slaves x m y hm]
      constructor
      · rintro ⟨k, hk, hkx⟩
        exact ⟨k, h.heap_create hk, hkx⟩
      · rintro ⟨k, hk, hkx⟩
        rcases hback y k hk with ⟨rfl, rfl⟩ | ⟨-, hk⟩
        · rw [hslaveof] at hkx
          cases hkx
        · exact ⟨k, hk, hkx⟩

/-- The node `r` gets the free slot `j`. -/
theorem addSlot (h : Loading s) (hn : s.heap r = some n) {j : Slot} (hfree : s.slots j = none)
    {g : ClusterNode → NodeFlags} :
    Loading { s.updateNode r fun n => { n with
        slots := fun i => if i = j then true else n.slots i
        numslots := n.numslots + 1
        flags := g n } with
      slots := fun i => if i = j then some r else s.slots i } := by
  have hbit : n.slots j = false := by
    rw [← Bool.not_eq_true, h.bit r n j hn, hfree]
    exact nofun
  refine h.change r (fun _ => ⟨rfl, rfl, rfl⟩) ?_ ?_ ?_
  · intro i x hx
    by_cases hi : i = j
    · simp only [hi, if_true, Option.some.injEq] at hx
      rw [← hx, hn]
      rfl
    · simp only [hi, if_false] at hx
      exact h.owner i x hx
  · intro x m i hm
    rcases ClusterState.heap_updateNode_cases hn hm with ⟨rfl, rfl⟩ | ⟨hx, hold⟩
    · by_cases hi : i = j
      · simp [hi]
      · simp only [hi, if_false]
        exact h.bit x n i hn
    · by_cases hi : i = j
      · subst hi
        rw [if_pos rfl, h.bit x m i hold, hfree]
        exact iff_of_false nofun fun hrx => hx (Option.some.inj hrx).symm
      · rw [if_neg hi]
        exact h.bit x m i hold
  · intro x m hm
    rcases ClusterState.heap_updateNode_cases hn hm with ⟨rfl, rfl⟩ | ⟨hx, hm⟩
    · show n.numslots + 1 = slotCount fun i => if i = j then true else n.slots i
      rw [slotCount_set hbit, h.count x n hn]
    · exact h.count x m hm

/-- The node `r`, which has no master, follows `m`. -/
theorem follow (h : Loading s) (hn : s.heap r = some n) (hfree : n.slaveof = none) {m : Ref}
    (hm : (s.heap m).isSome = true) {g : ClusterNode → NodeFlags} :
    Loading ((s.updateNode r fun n => { n with slaveof := some m }).updateNode m fun k =>
      { k with slaves := k.slaves ++ [r], flags := g k }) := by
  set t := (s.updateNode r fun n => { n with slaveof := some m }).updateNode m fun k =>
    { k with slaves := k.slaves ++ [r], flags := g k } with ht
  have hnames : t.nameAt = s.nameAt := by
    rw [ht, ClusterState.nameAt_updateNode, ClusterState.nameAt_updateNode] <;> exact fun _ => rfl
  have hsome : ∀ x, (t.heap x).isSome = (s.heap x).isSome := by
    intro x
    rw [ht, ClusterState.isSome_heap_updateNode, ClusterState.isSome_heap_updateNode]
  have hmap : ∀ x, (t.heap x).map (fun y => (y.slots, y.numslots, y.slaveof, y.slaves)) =
      (s.heap x).map fun z => (z.slots, z.numslots, (if x = r then some m else z.slaveof),
        if x = m then z.slaves ++ [r] else z.slaves) := by
    intro x
    cases hz : s.heap x with
    | none =>
      have hnone : t.heap x = none := by
        rw [← Option.not_isSome_iff_eq_none, hsome, hz]
        exact Bool.false_ne_true
      rw [hnone]
      rfl
    | some z =>
      rw [ht]
      by_cases hxm : x = m <;> by_cases hxr : x = r <;> simp_all [ClusterState.updateNode]
  have hback : ∀ x y, t.heap x = some y → ∃ z, s.heap x = some z ∧ y.slots = z.slots ∧
      y.numslots = z.numslots ∧ y.slaveof = (if x = r then some m else z.slaveof) ∧
      y.slaves = if x = m then z.slaves ++ [r] else z.slaves := by
    intro x y hy
    have hx := hmap x
    rw [hy] at hx
    obtain ⟨z, hz, heq⟩ := Option.map_eq_some_iff.mp hx.symm
    simp only [Prod.mk.injEq] at heq
    exact ⟨z, hz, heq.1.symm, heq.2.1.symm, heq.2.2.1.symm, heq.2.2.2.symm⟩
  have hforth : ∀ x z, s.heap x = some z → ∃ y, t.heap x = some y ∧
      y.slaveof = if x = r then some m else z.slaveof := by
    intro x z hz
    obtain ⟨y, hy⟩ := Option.isSome_iff_exists.mp ((hsome x).trans (Option.isSome_iff_exists.mpr ⟨z, hz⟩))
    obtain ⟨z', hz', -, -, hslaveof, -⟩ := hback x y hy
    rw [hz] at hz'
    cases hz'
    exact ⟨y, hy, hslaveof⟩
  refine ⟨?_, h.names, ?_, ?_, ?_, ?_, ?_, ?_, ?_, ?_⟩
  · rw [hnames]
    exact h.table
  · intro x hx
    rw [← Option.not_isSome_iff_eq_none, hsome, h.fresh x hx]
    exact Bool.false_ne_true
  · exact fun j x hx => (hsome x).trans (h.owner j x hx)
  · intro x y j hy
    obtain ⟨z, hz, hslots, -⟩ := hback x y hy
    rw [hslots]
    exact h.bit x z j hz
  · intro x y hy
    obtain ⟨z, hz, hslots, hnum, -⟩ := hback x y hy
    rw [hslots, hnum]
    exact h.count x z hz
  · exact fun j x hx => (hsome x).trans (h.migrating j x hx)
  · exact fun j x hx => (hsome x).trans (h.importing j x hx)
  · intro x y k hy hk
    obtain ⟨z, hz, -, -, hslaveof, -⟩ := hback x y hy
    rw [hslaveof] at hk
    rw [hsome]
    split_ifs at hk
    · cases hk
      exact hm
    · exact h.slaveof x z k hz hk
  · intro x y k hy
    obtain ⟨z, hz, -, -, -, hslaves⟩ := hback x y hy
    -- the slaves in the tables after the change
    have hiff : (∃ q, t.heap k = some q ∧ q.slaveof = some x) ↔
        (k = r ∧ m = x) ∨ (k ≠ r ∧ ∃ q, s.heap k = some q ∧ q.slaveof = some x) := by
      constructor
      · rintro ⟨q, hq, hqx⟩
        obtain ⟨q', hq', -, -, hslaveof, -⟩ := hback k q hq
        rw [hslaveof] at hqx
        split_ifs at hqx with hk
        · exact Or.inl ⟨hk, Option.some.inj hqx⟩
        · exact Or.inr ⟨hk, q', hq', hqx⟩
      · rintro (⟨rfl, rfl⟩ | ⟨hk, q, hq, hqx⟩)
        · obtain ⟨q, hq, hslaveof⟩ := hforth k n hn
          rw [if_pos rfl] at hslaveof
          exact ⟨q, hq, hslaveof⟩
        · obtain ⟨q', hq', hslaveof⟩ := hforth k q hq
          rw [if_neg hk] at hslaveof
          exact ⟨q', hq', hslaveof.trans hqx⟩
    have hnot : r ∉ z.slaves := by
      rw [h.slaves x z r hz]
      rintro ⟨q, hq, hqx⟩
      rw [hn] at hq
      cases hq
      rw [hfree] at hqx
      cases hqx
    have hold : k ∈ z.slaves ↔ k ≠ r ∧ ∃ q, s.heap k = some q ∧ q.slaveof = some x := by
      rw [← h.slaves x z k hz]
      refine ⟨fun hk => ⟨?_, hk⟩, fun hk => hk.2⟩
      rintro rfl
      exact hnot hk
    rw [hslaves, hiff]
    split_ifs with hx
    · rw [List.mem_append, List.mem_singleton, hold]
      simp only [hx, and_true]
      exact or_comm
    · rw [hold]
      refine ⟨Or.inr, fun hk => hk.resolve_left ?_⟩
      rintro ⟨-, rfl⟩
      exact hx rfl

/-- A slot is opened. -/
theorem move (h : Loading s) {migrating importing : Slot → Option Ref}
    (hmig : ∀ j x, migrating j = some x → (s.heap x).isSome = true)
    (himp : ∀ j x, importing j = some x → (s.heap x).isSome = true) :
    Loading { s with migratingSlotsTo := migrating, importingSlotsFrom := importing } :=
  ⟨h.table, h.names, h.fresh, h.owner, h.bit, h.count, hmig, himp, h.slaveof, h.slaves⟩

end Loading

/-! ### What the lines say -/

/-- The last line that moves the slot. -/
def lastMove (f : SavedNode → Slot → Option NodeName) (lines : List SavedNode) (j : Slot) : Option NodeName :=
  lines.foldl (fun acc x => (f x j).or acc) none

/-- The line mentions another node. -/
def SavedNode.Mentions (x : SavedNode) (name : NodeName) : Prop :=
  x.slaveof = some name ∨ ∃ j, x.migrating j = some name ∨ x.importing j = some name

/-- What a line says of its node besides its slots; the master is given by its pointer. -/
structure LineData where
  name : NodeName
  ip : String
  port : Nat
  flags : NodeFlags
  slaveof : Option Ref
  configEpoch : Nat

def ClusterNode.lineData (n : ClusterNode) : LineData where
  name := n.name
  ip := n.ip
  port := n.port
  flags := n.flags.saved
  slaveof := n.slaveof
  configEpoch := n.configEpoch

/-- The node is as its line says. -/
structure Describes (s : ClusterState) (x : SavedNode) (d : LineData) : Prop where
  name : d.name = x.name
  ip : d.ip = x.ip
  port : d.port = x.port
  flags : d.flags = x.flags.saved
  slaveof : d.slaveof.bind s.nameAt = x.slaveof
  configEpoch : d.configEpoch = x.configEpoch

/-- The node has no line yet. -/
def LineData.Blank (d : LineData) : Prop := d.flags = {} ∧ d.slaveof = none

/-- The lines `done` have been read. -/
structure Loaded (done : List SavedNode) (s : ClusterState) : Prop extends Loading s where
  line : ∀ x ∈ done, ∃ r n, s.heap r = some n ∧ Describes s x n.lineData
  blank : ∀ r n, s.heap r = some n → (∀ x ∈ done, x.name ≠ n.name) → n.lineData.Blank
  known : ∀ r n, s.heap r = some n → ∃ x ∈ done, x.name = n.name ∨ x.Mentions n.name
  owners : ∀ j, (s.slots j).bind s.nameAt = (done.find? fun x => x.slots j).map SavedNode.name
  moving : ∀ j, (s.migratingSlotsTo j).bind s.nameAt = lastMove SavedNode.migrating done j ∧
    (s.importingSlotsFrom j).bind s.nameAt = lastMove SavedNode.importing done j
  vars : s.view.vars = emptyClusterState.view.vars

theorem Loaded.empty : Loaded [] emptyClusterState where
  toLoading := Loading.empty
  line := by simp
  blank := by rintro r n ⟨⟩
  known := by rintro r n ⟨⟩
  owners := fun _ => rfl
  moving := fun _ => ⟨rfl, rfl⟩
  vars := rfl

/-- The line `x` is being read: its node is `r`; `claimed`, `mig` and `imp` are the slots read so far. -/
structure LoadingLine (done : List SavedNode) (x : SavedNode) (r : Ref) (claimed : SlotBitmap)
    (mig imp : Slot → Option NodeName) (s : ClusterState) : Prop extends Loading s where
  here : s.nameAt r = some x.name
  line : ∀ y ∈ done, ∃ z n, z ≠ r ∧ s.heap z = some n ∧ Describes s y n.lineData
  blank : ∀ z n, z ≠ r → s.heap z = some n → (∀ y ∈ done, y.name ≠ n.name) → n.lineData.Blank
  known : ∀ z n, s.heap z = some n → ∃ y ∈ done ++ [x], y.name = n.name ∨ y.Mentions n.name
  owners : ∀ j, (s.slots j).bind s.nameAt =
    ((done.find? fun y => y.slots j).map SavedNode.name).or (if claimed j then some x.name else none)
  moving : ∀ j, (s.migratingSlotsTo j).bind s.nameAt = (mig j).or (lastMove SavedNode.migrating done j) ∧
    (s.importingSlotsFrom j).bind s.nameAt = (imp j).or (lastMove SavedNode.importing done j)
  vars : s.view.vars = emptyClusterState.view.vars

section Line

variable {s t : ClusterState} {env : ClusterEnv} {done : List SavedNode} {x : SavedNode} {r : Ref}
  {claimed : SlotBitmap} {mig imp : Slot → Option NodeName}

variable {mig' imp' : Slot → Option NodeName} {d : LineData}

section

variable (h : LoadingLine done x r claimed mig imp s) (ht : Loading t) (hnames : KeepsNames s t)
  (hforth : ∀ z n, z ≠ r → s.heap z = some n → ∃ n', t.heap z = some n' ∧ n'.lineData = n.lineData)
  (hback : ∀ z n', t.heap z = some n' → z = r ∨ (∃ n, s.heap z = some n ∧ n'.lineData = n.lineData) ∨ (n'.lineData.Blank ∧ x.Mentions n'.name))

include h ht hnames hforth hback

/-- What is said of the other nodes stays true when they only change in what no line says. -/
theorem LoadingLine.transport {claimed' : SlotBitmap} (howners : ∀ j, (t.slots j).bind t.nameAt =
      ((done.find? fun y => y.slots j).map SavedNode.name).or (if claimed' j then some x.name else none))
    (hmoving : ∀ j, (t.migratingSlotsTo j).bind t.nameAt = (mig' j).or (lastMove SavedNode.migrating done j) ∧
      (t.importingSlotsFrom j).bind t.nameAt = (imp' j).or (lastMove SavedNode.importing done j))
    (hvars : t.view.vars = s.view.vars) : LoadingLine done x r claimed' mig' imp' t := by
  have hhere : t.nameAt r = some x.name := hnames r x.name h.here
  refine ⟨ht, hhere, ?_, ?_, ?_, howners, hmoving, hvars.trans h.vars⟩
  · intro y hy
    obtain ⟨z, n, hz, hn, hdesc⟩ := h.line y hy
    obtain ⟨n', hn', hdata⟩ := hforth z n hz hn
    refine ⟨z, n', hz, hn', ?_⟩
    rw [hdata]
    refine ⟨hdesc.name, hdesc.ip, hdesc.port, hdesc.flags, ?_, hdesc.configEpoch⟩
    exact (hnames.bind fun m hm => h.slaveof z n m hn hm).trans hdesc.slaveof
  · intro z n' hz hn' hnew
    rcases hback z n' hn' with rfl | ⟨n, hn, hdata⟩ | ⟨hblank, -⟩
    · exact absurd rfl hz
    · have hname : n'.name = n.name := congrArg LineData.name hdata
      rw [hdata]
      refine h.blank z n hz hn ?_
      rw [← hname]
      exact hnew
    · exact hblank
  · intro z n' hn'
    rcases hback z n' hn' with rfl | ⟨n, hn, hdata⟩ | ⟨-, hment⟩
    · obtain ⟨m, hm, hname⟩ := ClusterState.nameAt_eq_some.mp hhere
      rw [hn'] at hm
      cases hm
      exact ⟨x, by simp, Or.inl hname.symm⟩
    · have hname : n'.name = n.name := congrArg LineData.name hdata
      rw [hname]
      exact h.known z n hn
    · exact ⟨x, by simp, Or.inr hment⟩

/-- What follows from unchanged slot tables. -/
theorem LoadingLine.transport_slots (hslots : t.slots = s.slots)
    (hmig : t.migratingSlotsTo = s.migratingSlotsTo) (himp : t.importingSlotsFrom = s.importingSlotsFrom)
    (hvars : t.view.vars = s.view.vars) : LoadingLine done x r claimed mig imp t := by
  refine h.transport ht hnames hforth hback (fun j => ?_) (fun j => ⟨?_, ?_⟩) hvars
  · rw [hslots, hnames.bind fun z hz => h.owner j z hz]
    exact h.owners j
  · rw [hmig, hnames.bind fun z hz => h.migrating j z hz]
    exact (h.moving j).1
  · rw [himp, hnames.bind fun z hz => h.importing j z hz]
    exact (h.moving j).2

end

/-- The own node of the line changes. -/
theorem LoadingLine.update (h : LoadingLine done x r claimed mig imp s) {f : ClusterNode → ClusterNode}
    (hf : ∀ n, (f n).name = n.name ∧ (f n).slots = n.slots ∧ (f n).numslots = n.numslots ∧
      (f n).slaves = n.slaves ∧ (f n).slaveof = n.slaveof) :
    LoadingLine done x r claimed mig imp (s.updateNode r f) := by
  refine h.transport_slots (h.toLoading.updateNode r hf)
    (KeepsNames.of_eq (ClusterState.nameAt_updateNode fun n => (hf n).1)) ?_ ?_ rfl rfl rfl rfl
  · intro z n hz hn
    exact ⟨n, (ClusterState.heap_updateNode_ne hz).trans hn, rfl⟩
  · intro z n' hn'
    by_cases hz : z = r
    · exact Or.inl hz
    · rw [ClusterState.heap_updateNode_ne hz] at hn'
      exact Or.inr (Or.inl ⟨n', hn', rfl⟩)

/-- The table after `loadLookup`: a node of that name, which is new if there was none. -/
structure Touched (name : NodeName) (s : ClusterState) (m : Ref) (t : ClusterState) : Prop where
  loading : Loading t
  found : t.nameAt m = some name
  names : KeepsNames s t
  old : ∀ z n, s.heap z = some n → t.heap z = some n
  new : ∀ z n, t.heap z = some n → s.heap z = some n ∨
    (z = m ∧ n.lineData.Blank ∧ n.name = name)
  slots : t.slots = s.slots
  migrating : t.migratingSlotsTo = s.migratingSlotsTo
  importing : t.importingSlotsFrom = s.importingSlotsFrom
  vars : t.view.vars = s.view.vars

theorem ends_loadLookup (h : Loading s) (name : NodeName) : Ends (loadLookup env name) s (Touched name s) := by
  refine Sim.get_bind ?_
  cases hl : s.clusterLookupNode name with
  | some m =>
    exact Sim.pure ⟨h, h.lookup_eq_some.mp hl, fun _ _ hr => hr, fun _ _ hn => hn, fun _ _ hn => Or.inl hn, rfl, rfl, rfl, rfl⟩
  | none =>
    set n := newClusterNode env s.nextRef (some name) {} with hn
    set t := (s.alloc n).nodesAdd name s.nextRef with ht
    have hloading : Loading t := h.create hl rfl (fun _ => rfl) rfl rfl rfl
    have hself : t.heap s.nextRef = some n := if_pos rfl
    have hother : ∀ z, z ≠ s.nextRef → t.heap z = s.heap z := fun z hz => if_neg hz
    have hold : ∀ z k, s.heap z = some k → t.heap z = some k := fun _ _ hk => h.heap_create hk
    have htouched : Touched name s s.nextRef t := by
      refine ⟨hloading, ClusterState.nameAt_eq_some.mpr ⟨n, hself, rfl⟩, ?_, hold, ?_, rfl, rfl, rfl, rfl⟩
      · intro z k hz
        obtain ⟨m, hm, hk⟩ := ClusterState.nameAt_eq_some.mp hz
        exact ClusterState.nameAt_eq_some.mpr ⟨m, hold z m hm, hk⟩
      · intro z k hk
        by_cases hz : z = s.nextRef
        · subst hz
          rw [hself] at hk
          cases hk
          exact Or.inr ⟨rfl, ⟨rfl, rfl⟩, rfl⟩
        · rw [hother z hz] at hk
          exact Or.inl hk
    have hat : (s.alloc n).heap s.nextRef = some n := if_pos rfl
    have hadd : Ends (clusterAddNode s.nextRef) (s.alloc n) fun _ u => u = t := by
      refine ends_getNode hat (Sim.get_bind (Sim.ite (fun hsome => ?_) fun _ => ?_))
      · have hlookup : (s.clusterLookupNode name).isSome = true := hsome
        rw [hl] at hlookup
        cases hlookup
      · exact sim_modify_bind (KeepsNames.of_eq rfl) (Sim.pure rfl)
    show Ends ((get >>= fun s => modify _ >>= fun _ => pure s.nextRef) >>= _) s _
    rw [bind_assoc]
    refine Sim.get_bind ?_
    rw [bind_assoc]
    refine sim_modify_bind (s := s) (fun z k hz => ?_) ?_
    · rw [← htouched.names z k hz]
      rfl
    rw [pure_bind]
    refine ends_bind (sim_discard (Q := fun _ u => u = t) hadd) ?_
    rintro ⟨⟩ u rfl
    exact Sim.pure htouched

/-- A node the line mentions. -/
theorem LoadingLine.touched {name : NodeName} {m : Ref} (h : LoadingLine done x r claimed mig imp s)
    (hment : x.Mentions name) (ht : Touched name s m t) :
    LoadingLine done x r claimed mig imp t ∧ t.heap r = s.heap r := by
  obtain ⟨n, hn, -⟩ := ClusterState.nameAt_eq_some.mp h.here
  refine ⟨h.transport_slots ht.loading ht.names (fun z k _ hk => ⟨k, ht.old z k hk, rfl⟩) ?_ ht.slots
    ht.migrating ht.importing ht.vars, ?_⟩
  · intro z k hk
    rcases ht.new z k hk with hk | ⟨-, hblank, hname⟩
    · exact Or.inr (Or.inl ⟨k, hk, rfl⟩)
    · exact Or.inr (Or.inr ⟨hblank, hname ▸ hment⟩)
  · rw [hn, ht.old r n hn]

/-- The node of the next line. -/
theorem Loaded.begin (h : Loaded done s) (hx : ∀ y ∈ done, y.name ≠ x.name) (ht : Touched x.name s r t) :
    LoadingLine done x r (fun _ => false) (fun _ => none) (fun _ => none) t ∧
      ∃ n, t.heap r = some n ∧ n.lineData.Blank := by
  have hbind : ∀ o : Option Ref, (∀ z, o = some z → (s.heap z).isSome = true) → o.bind t.nameAt = o.bind s.nameAt :=
    fun o ho => ht.names.bind ho
  obtain ⟨n, hn, hname⟩ := ClusterState.nameAt_eq_some.mp ht.found
  refine ⟨⟨ht.loading, ht.found, ?_, ?_, ?_, ?_, ?_, ht.vars.trans h.vars⟩, n, hn, ?_⟩
  · intro y hy
    obtain ⟨z, k, hk, hdesc⟩ := h.line y hy
    refine ⟨z, k, ?_, ht.old z k hk, hdesc.name, hdesc.ip, hdesc.port, hdesc.flags, ?_, hdesc.configEpoch⟩
    · rintro rfl
      rw [ht.old z k hk] at hn
      cases hn
      exact hx y hy (hdesc.name.symm.trans hname)
    · exact (hbind _ fun m hm => h.slaveof z k m hk hm).trans hdesc.slaveof
  · intro z k hz hk hnew
    rcases ht.new z k hk with hk | ⟨-, hblank, -⟩
    · exact h.blank z k hk hnew
    · exact hblank
  · intro z k hk
    rcases ht.new z k hk with hk | ⟨-, -, hkname⟩
    · obtain ⟨y, hy, hyk⟩ := h.known z k hk
      exact ⟨y, List.mem_append_left _ hy, hyk⟩
    · exact ⟨x, by simp, Or.inl hkname.symm⟩
  · intro j
    rw [ht.slots, hbind _ fun z hz => h.owner j z hz, h.owners j]
    simp
  · intro j
    rw [ht.migrating, ht.importing, hbind _ fun z hz => h.migrating j z hz, hbind _ fun z hz => h.importing j z hz,
      (h.moving j).1, (h.moving j).2]
    exact ⟨rfl, rfl⟩
  · rcases ht.new r n hn with hold | ⟨-, hblank, -⟩
    · refine h.blank r n hold ?_
      rw [hname]
      exact hx
    · exact hblank

/-- The data of the own node. -/
def LineAt (s : ClusterState) (r : Ref) (d : LineData) : Prop := ∃ n, s.heap r = some n ∧ n.lineData = d

section

variable (h : LoadingLine done x r claimed mig imp s)

include h

theorem LoadingLine.ends_loadSlaveof {name : NodeName} (hat : LineAt s r d) (hd : d.slaveof = none)
    (hx : x.slaveof = some name) :
    Ends (loadSlaveof env r name) s fun _ t => LoadingLine done x r claimed mig imp t ∧
      ∃ m, t.nameAt m = some name ∧ LineAt t r { d with slaveof := some m } := by
  refine ends_bind (ends_loadLookup h.toLoading name) ?_
  intro m u hu
  obtain ⟨h, hsame⟩ := h.touched (Or.inl hx) hu
  obtain ⟨n, hn, rfl⟩ := hat
  rw [← hsame] at hn
  obtain ⟨k, hk, hkname⟩ := ClusterState.nameAt_eq_some.mp hu.found
  have hfree : n.slaveof = none := hd
  set f : ClusterNode → ClusterNode := fun n => { n with slaveof := some m } with hf
  refine ends_bind (ends_modifyNode hn (Q := fun _ t => t = u.updateNode r f) (fun _ => rfl) rfl) ?_
  rintro ⟨⟩ t rfl
  -- the master as it is now
  obtain ⟨k', hk', hslaves, hdata'⟩ : ∃ k', (u.updateNode r f).heap m = some k' ∧ k'.slaves = k.slaves ∧
      (m ≠ r → k' = k) := by
    by_cases hm : m = r
    · subst hm
      exact ⟨f k, ClusterState.heap_updateNode_self hk, rfl, fun hne => absurd rfl hne⟩
    · exact ⟨k, (ClusterState.heap_updateNode_ne hm).trans hk, rfl, fun _ => rfl⟩
  have hnot : r ∉ k'.slaves := by
    rw [hslaves, h.slaves m k r hk]
    rintro ⟨q, hq, hqm⟩
    rw [hn] at hq
    cases hq
    rw [hfree] at hqm
    cases hqm
  set g : ClusterNode → ClusterNode := fun k =>
    { k with slaves := k.slaves ++ [r], flags := { k.flags with migrateTo := true } } with hg
  have hline : ∀ q : ClusterNode, (g q).lineData = q.lineData := fun _ => rfl
  have hnames : ((u.updateNode r f).updateNode m g).nameAt = u.nameAt := by
    rw [ClusterState.nameAt_updateNode, ClusterState.nameAt_updateNode] <;> exact fun _ => rfl
  have hforth : ∀ z q, (u.updateNode r f).heap z = some q →
      ∃ q', ((u.updateNode r f).updateNode m g).heap z = some q' ∧ q'.lineData = q.lineData := by
    intro z q hq
    by_cases hz : z = m
    · subst hz
      exact ⟨g q, ClusterState.heap_updateNode_self hq, rfl⟩
    · exact ⟨q, (ClusterState.heap_updateNode_ne hz).trans hq, rfl⟩
  refine sim_discard (ends_getNode hk' (Sim.ite (fun hmem => absurd hmem hnot) fun _ => ?_))
  refine ends_bind (ends_modifyNode hk' (Q := fun _ t => t = (u.updateNode r f).updateNode m g) (fun _ => rfl) rfl) ?_
  rintro ⟨⟩ t rfl
  refine Sim.pure ⟨h.transport_slots ?_ (KeepsNames.of_eq hnames) ?_ ?_ rfl rfl rfl rfl, m, ?_, ?_⟩
  · exact h.toLoading.follow hn hfree (by rw [hk]; rfl)
  · intro z q hz hq
    exact hforth z q ((ClusterState.heap_updateNode_ne hz).trans hq)
  · intro z q' hq'
    by_cases hz : z = r
    · exact Or.inl hz
    · obtain ⟨q, hq⟩ : ∃ q, u.heap z = some q := by
        rw [← Option.isSome_iff_exists, ← ClusterState.isSome_heap_updateNode (r := r) (f := f),
          ← ClusterState.isSome_heap_updateNode (r := m) (f := g), hq']
        rfl
      obtain ⟨q'', hq'', hdata⟩ := hforth z q ((ClusterState.heap_updateNode_ne hz).trans hq)
      rw [hq'] at hq''
      cases hq''
      exact Or.inr (Or.inl ⟨q, hq, hdata⟩)
  · rw [hnames]
    exact hu.found
  · obtain ⟨q, hq, hdata⟩ := hforth r (f n) (ClusterState.heap_updateNode_self hn)
    exact ⟨q, hq, hdata⟩

/-- A slot of the line: it is claimed if it is free. -/
theorem LoadingLine.ends_loadSlot {j : Slot} (hat : LineAt s r d) (hj : claimed j = false) :
    Ends (loadSlot r x j) s fun _ t => LoadingLine done x r (fun i => claimed i || (x.slots i && decide (i = j)))
      mig imp t ∧ LineAt t r d := by
  have hsame : ∀ {t : ClusterState}, t = s → (x.slots j = false ∨ ∃ z, s.slots j = some z) →
      LoadingLine done x r (fun i => claimed i || (x.slots i && decide (i = j))) mig imp t ∧ LineAt t r d := by
    rintro t rfl hcase
    refine ⟨{ h with owners := fun i => ?_ }, hat⟩
    rw [h.owners i]
    by_cases hi : i = j
    · subst hi
      rcases hcase with hslot | ⟨z, hz⟩
      · simp [hslot]
      · -- the slot has been claimed by a line before
        have howner := h.owners i
        obtain ⟨k, hk⟩ := Option.isSome_iff_exists.mp (h.owner i z hz)
        have hname : t.nameAt z = some k.name := ClusterState.nameAt_eq_some.mpr ⟨k, hk, rfl⟩
        rw [hz, Option.bind_some, hname, hj] at howner
        cases hfind : (done.find? fun y => y.slots i).map SavedNode.name with
        | none =>
          rw [hfind] at howner
          cases howner
        | some y => rfl
    · simp [hi]
  refine sim_whenDo (fun hslot => sim_discard (Sim.get_bind (Sim.ite (fun hsome => ?_) fun hnone => ?_)))
    fun hslot => hsame rfl (Or.inl (Bool.not_eq_true _ ▸ hslot))
  · exact Sim.pure (hsame rfl (Or.inr (Option.isSome_iff_exists.mp hsome)))
  have hfree : s.slots j = none := Option.not_isSome_iff_eq_none.mp hnone
  obtain ⟨n, hn, rfl⟩ := hat
  have hbit : n.slots j = false := by
    rw [← Bool.not_eq_true, h.bit r n j hn, hfree]
    exact nofun
  set f : ClusterNode → ClusterNode := fun node => { node with
    slots := fun i => if i = j then true else node.slots i
    numslots := node.numslots + 1
    flags := { node.flags with
      migrateTo := node.flags.migrateTo || (node.numslots + 1 == 1 && clusterMastersHaveSlaves s) } } with hf
  have hset : Ends (clusterNodeSetSlotBit r j) s fun _ t => t = s.updateNode r f := by
    refine ends_getNode hn (Sim.get_bind (Sim.ite (fun hold => ?_) fun _ => ?_))
    · rw [hbit] at hold
      cases hold
    · exact ends_bind (ends_modifyNode hn (Q := fun _ t => t = s.updateNode r f) (fun _ => rfl) rfl) fun _ t ht => Sim.pure ht
  refine ends_bind hset ?_
  rintro _ t rfl
  refine sim_modify_bind (KeepsNames.of_eq rfl) (Sim.pure ?_)
  set t : ClusterState := { s.updateNode r f with slots := fun i => if i = j then some r else s.slots i } with ht
  have hnames : t.nameAt = s.nameAt := ClusterState.nameAt_updateNode (f := f) fun _ => rfl
  have hother : ∀ z, z ≠ r → t.heap z = s.heap z := fun z hz => ClusterState.heap_updateNode_ne hz
  have hself : t.heap r = some (f n) := ClusterState.heap_updateNode_self hn
  refine ⟨h.transport (h.toLoading.addSlot hn hfree) (KeepsNames.of_eq hnames) ?_ ?_ ?_ ?_ rfl, f n, hself, rfl⟩
  · exact fun z k hz hk => ⟨k, (hother z hz).trans hk, rfl⟩
  · intro z k hk
    by_cases hz : z = r
    · exact Or.inl hz
    · rw [hother z hz] at hk
      exact Or.inr (Or.inl ⟨k, hk, rfl⟩)
  · intro i
    rw [hnames]
    show (if i = j then some r else s.slots i).bind s.nameAt = _
    by_cases hi : i = j
    · subst hi
      have howner := h.owners i
      rw [hfree, hj, Option.bind_none] at howner
      have hnone : (done.find? fun y => y.slots i).map SavedNode.name = none := by
        cases hfind : (done.find? fun y => y.slots i).map SavedNode.name with
        | none => rfl
        | some y =>
          rw [hfind] at howner
          cases howner
      rw [if_pos rfl, Option.bind_some, h.here, hnone]
      simp [hslot]
    · rw [if_neg hi, h.owners i]
      simp [hi]
  · intro i
    rw [hnames]
    exact h.moving i

/-- The tables of slots in motion change. -/
theorem LoadingLine.move {M I : Slot → Option Ref} (hM : ∀ j z, M j = some z → (s.heap z).isSome = true)
    (hI : ∀ j z, I j = some z → (s.heap z).isSome = true)
    (hmig : ∀ j, (M j).bind s.nameAt = (mig' j).or (lastMove SavedNode.migrating done j))
    (himp : ∀ j, (I j).bind s.nameAt = (imp' j).or (lastMove SavedNode.importing done j)) :
    LoadingLine done x r claimed mig' imp' { s with migratingSlotsTo := M, importingSlotsFrom := I } :=
  h.transport (h.toLoading.move hM hI) (KeepsNames.of_eq rfl) (fun _ k _ hk => ⟨k, hk, rfl⟩)
    (fun _ k hk => Or.inr (Or.inl ⟨k, hk, rfl⟩)) h.owners (fun j => ⟨hmig j, himp j⟩) rfl

/-- A slot in motion. -/
theorem LoadingLine.ends_loadMove {j : Slot} (hat : LineAt s r d) (hmig : mig j = none) (himp : imp j = none) :
    Ends (loadMove env x j) s fun _ t => LoadingLine done x r claimed
      (fun i => if i = j then x.migrating i else mig i) (fun i => if i = j then x.importing i else imp i) t ∧
      LineAt t r d := by
  -- one of the two tables
  have hfirst : Ends (ifSome (x.migrating j) fun name => do
      let z ← loadLookup env name
      modify fun s => { s with
        migratingSlotsTo := fun i => if i = j then some z else s.migratingSlotsTo i }) s fun _ t =>
      LoadingLine done x r claimed (fun i => if i = j then x.migrating i else mig i) imp t ∧ LineAt t r d := by
    refine sim_ifSome (fun name hname => ends_bind (ends_loadLookup h.toLoading name) fun z u hu => ?_) fun hnone => ?_
    · obtain ⟨hline, hsame⟩ := h.touched (Or.inr ⟨j, Or.inl hname⟩) hu
      obtain ⟨k, hk, -⟩ := ClusterState.nameAt_eq_some.mp hu.found
      obtain ⟨n, hn, hd⟩ := hat
      refine Sim.modify (KeepsNames.of_eq rfl) ⟨hline.move (fun i y hy => ?_) hline.importing (fun i => ?_)
        fun i => (hline.moving i).2, n, hsame.trans hn, hd⟩
      · by_cases hi : i = j
        · simp only [hi, if_true, Option.some.injEq] at hy
          rw [← hy, hk]
          rfl
        · simp only [hi, if_false] at hy
          exact hline.migrating i y hy
      · by_cases hi : i = j
        · simp [hi, hu.found, hname]
        · simp only [hi, if_false]
          exact (hline.moving i).1
    · refine ⟨{ h with moving := fun i => ⟨?_, (h.moving i).2⟩ }, hat⟩
      rw [(h.moving i).1]
      by_cases hi : i = j
      · simp [hi, hnone, hmig]
      · simp [hi]
  refine ends_bind hfirst ?_
  rintro ⟨⟩ t ⟨h, hat⟩
  refine sim_ifSome (fun name hname => ends_bind (ends_loadLookup h.toLoading name) fun z u hu => ?_) fun hnone => ?_
  · obtain ⟨hline, hsame⟩ := h.touched (Or.inr ⟨j, Or.inr hname⟩) hu
    obtain ⟨k, hk, -⟩ := ClusterState.nameAt_eq_some.mp hu.found
    obtain ⟨n, hn, hd⟩ := hat
    refine Sim.modify (KeepsNames.of_eq rfl) ⟨hline.move hline.migrating (fun i y hy => ?_) (fun i => (hline.moving i).1)
      fun i => ?_, n, hsame.trans hn, hd⟩
    · by_cases hi : i = j
      · simp only [hi, if_true, Option.some.injEq] at hy
        rw [← hy, hk]
        rfl
      · simp only [hi, if_false] at hy
        exact hline.importing i y hy
    · by_cases hi : i = j
      · simp [hi, hu.found, hname]
      · simp only [hi, if_false]
        exact (hline.moving i).2
  · refine ⟨{ h with moving := fun i => ⟨(h.moving i).1, ?_⟩ }, hat⟩
    rw [(h.moving i).2]
    by_cases hi : i = j
    · simp [hi, hnone, himp]
    · simp [hi]

end

/-- All slots of the line. -/
theorem LoadingLine.ends_slots (h : LoadingLine done x r (fun _ => false) mig imp s) (hat : LineAt s r d) :
    Ends (allSlots.forM (loadSlot r x)) s fun _ t => LoadingLine done x r x.slots mig imp t ∧ LineAt t r d := by
  refine Sim.weaken (Sim.forM_rest (fun rest t => rest.Nodup ∧
    LoadingLine done x r (fun i => x.slots i && decide (i ∉ rest)) mig imp t ∧ LineAt t r d)
    ⟨nodup_allSlots, ?_, hat⟩ ?_) ?_
  · have hnone : (fun i => x.slots i && decide (i ∉ allSlots)) = fun _ => false := by
      funext i
      simp [mem_allSlots i]
    rw [hnone]
    exact h
  · rintro j rest t - ⟨hnodup, ht, hat⟩
    have hj := List.nodup_cons.mp hnodup
    refine Sim.weaken (ht.ends_loadSlot (j := j) hat (by simp)) ?_
    rintro ⟨⟩ u - ⟨hu, hat⟩
    refine ⟨hj.2, ?_, hat⟩
    have hclaimed : (fun i => (x.slots i && decide (i ∉ j :: rest)) || (x.slots i && decide (i = j)))
        = fun i => x.slots i && decide (i ∉ rest) := by
      funext i
      by_cases hi : i = j
      · subst hi
        simp [hj.1]
      · simp [hi]
    rw [hclaimed] at hu
    exact hu
  · rintro ⟨⟩ t - ⟨-, ht, hat⟩
    refine ⟨?_, hat⟩
    simpa using ht

/-- All slots in motion of the line. -/
theorem LoadingLine.ends_moves (h : LoadingLine done x r claimed (fun _ => none) (fun _ => none) s)
    (hat : LineAt s r d) :
    Ends (allSlots.forM (loadMove env x)) s fun _ t =>
      LoadingLine done x r claimed x.migrating x.importing t ∧ LineAt t r d := by
  refine Sim.weaken (Sim.forM_rest (fun rest t => rest.Nodup ∧
    LoadingLine done x r claimed (fun i => if i ∈ rest then none else x.migrating i)
      (fun i => if i ∈ rest then none else x.importing i) t ∧ LineAt t r d)
    ⟨nodup_allSlots, ?_, hat⟩ ?_) ?_
  · have hnone : ∀ f : Slot → Option NodeName, (fun i => if i ∈ allSlots then none else f i) = fun _ => none := by
      intro f
      funext i
      exact if_pos (mem_allSlots i)
    rw [hnone, hnone]
    exact h
  · rintro j rest t - ⟨hnodup, ht, hat⟩
    have hj := List.nodup_cons.mp hnodup
    refine Sim.weaken (ht.ends_loadMove (j := j) hat (by simp) (by simp)) ?_
    rintro ⟨⟩ u - ⟨hu, hat⟩
    refine ⟨hj.2, ?_, hat⟩
    have hmoved : ∀ f : Slot → Option NodeName,
        (fun i => if i = j then f i else if i ∈ j :: rest then none else f i)
          = fun i => if i ∈ rest then none else f i := by
      intro f
      funext i
      by_cases hi : i = j
      · subst hi
        simp [hj.1]
      · simp [hi]
    rw [hmoved, hmoved] at hu
    exact hu
  · rintro ⟨⟩ t - ⟨-, ht, hat⟩
    refine ⟨?_, hat⟩
    simpa using ht

/-- A line that has been read. -/
theorem LoadingLine.finish (h : LoadingLine done x r x.slots x.migrating x.importing s) (hat : LineAt s r d)
    (hd : Describes s x d) : Loaded (done ++ [x]) s := by
  obtain ⟨n, hn, rfl⟩ := hat
  refine ⟨h.toLoading, ?_, ?_, h.known, ?_, ?_, h.vars⟩
  · intro y hy
    rcases List.mem_append.mp hy with hy | hy
    · obtain ⟨z, k, -, hk, hdesc⟩ := h.line y hy
      exact ⟨z, k, hk, hdesc⟩
    · rw [List.mem_singleton.mp hy]
      exact ⟨r, n, hn, hd⟩
  · intro z k hk hnew
    refine h.blank z k ?_ hk fun y hy => hnew y (List.mem_append_left _ hy)
    rintro rfl
    rw [hn] at hk
    cases hk
    exact hnew x (by simp) hd.name.symm
  · intro j
    rw [h.owners j, List.find?_append, List.find?_singleton]
    cases done.find? fun y => y.slots j with
    | some y => rfl
    | none => by_cases hj : x.slots j <;> simp [hj]
  · intro j
    rw [(h.moving j).1, (h.moving j).2]
    simp [lastMove, List.foldl_append]

theorem NodeFlags.saved_merge {a b : NodeFlags} (h : a.saved = {}) : (a.merge b).saved = b.saved := by
  cases a
  simp only [NodeFlags.saved, NodeFlags.mk.injEq] at h
  simp [NodeFlags.saved, NodeFlags.merge, h]

/-- `server.cluster->myself` after some lines. -/
def SelfIs (done : List SavedNode) (me : Option Ref) (s : ClusterState) : Prop :=
  match me with
  | none => ∀ y ∈ done, y.flags.myself = false
  | some z => ∃ y ∈ done, y.flags.myself = true ∧ s.nameAt z = some y.name

/-- **One more line.** -/
theorem Loaded.ends_loadNode {me : Option Ref} (h : Loaded done s) (hme : SelfIs done me s)
    (hx : ∀ y ∈ done, y.name ≠ x.name)
    (hself : x.flags.myself = true → ∀ y ∈ done, y.flags.myself = false) :
    Ends (loadNode env me x) s fun me t => Loaded (done ++ [x]) t ∧ SelfIs (done ++ [x]) me t := by
  have hnone : x.flags.myself = true → me = none := by
    intro hx
    cases me with
    | none => rfl
    | some z =>
      obtain ⟨y, hy, hflag, -⟩ := hme
      rw [hself hx y hy] at hflag
      cases hflag
  refine Sim.bind (ends_loadLookup h.toLoading x.name) ?_
  intro r t hst ht
  obtain ⟨hline, n, hn, hblank⟩ := h.begin hx ht
  -- the fields of the line, one after the other
  refine Sim.bind (ends_modifyNode hn (fun _ => rfl) (Q := fun _ u =>
    LoadingLine done x r (fun _ => false) (fun _ => none) (fun _ => none) u ∧
      LineAt u r { n.lineData with ip := x.ip, port := x.port })
    ⟨hline.update fun _ => ⟨rfl, rfl, rfl, rfl, rfl⟩, _, ClusterState.heap_updateNode_self hn, rfl⟩) ?_
  rintro ⟨⟩ u htu ⟨hline, n', hn', hdata⟩
  have hflags' : n'.flags.saved = {} := (congrArg LineData.flags hdata).trans hblank.1
  have hflags : Ends (loadFlags env me r x.flags) u fun me' v =>
      me' = (if x.flags.myself then some r else me) ∧
      LoadingLine done x r (fun _ => false) (fun _ => none) (fun _ => none) v ∧
      LineAt v r { n.lineData with ip := x.ip, port := x.port, flags := x.flags.saved } := by
    refine sim_assert_bind ?_ (Sim.bind (ends_modifyNode hn' (fun _ => rfl) (Q := fun _ v =>
      LoadingLine done x r (fun _ => false) (fun _ => none) (fun _ => none) v ∧
      LineAt v r { n.lineData with ip := x.ip, port := x.port, flags := x.flags.saved })
      ⟨hline.update fun _ => ⟨rfl, rfl, rfl, rfl, rfl⟩, _, ClusterState.heap_updateNode_self hn', ?_⟩) ?_)
    · rintro ⟨hx, hme⟩
      rw [hnone hx] at hme
      cases hme
    · show ({ n'.lineData with flags := (n'.flags.merge x.flags).saved } : LineData) = _
      rw [hdata, NodeFlags.saved_merge hflags']
    · rintro ⟨⟩ v - hv
      exact Sim.pure ⟨rfl, hv⟩
  refine Sim.bind hflags ?_
  rintro me' v huv ⟨rfl, hline, hat⟩
  have hslaveof : Ends (ifSome x.slaveof (loadSlaveof env r)) v fun _ w =>
      LoadingLine done x r (fun _ => false) (fun _ => none) (fun _ => none) w ∧
      ∃ m, m.bind w.nameAt = x.slaveof ∧ LineAt w r { n.lineData with
        ip := x.ip, port := x.port, flags := x.flags.saved, slaveof := m } := by
    refine sim_ifSome (fun name hname => ?_) fun hnone => ?_
    · refine Sim.weaken (hline.ends_loadSlaveof hat hblank.2 hname) ?_
      rintro ⟨⟩ w - ⟨hline, m, hm, hat⟩
      refine ⟨hline, some m, ?_, hat⟩
      rw [Option.bind_some, hm, hname]
    · refine ⟨hline, none, hnone.symm, ?_⟩
      have hfree : n.lineData.slaveof = none := hblank.2
      rw [← hfree]
      exact hat
  refine Sim.bind hslaveof ?_
  rintro ⟨⟩ w hvw ⟨hw, m, hm, n₂, hn₂, hdata₂⟩
  refine Sim.bind (ends_modifyNode hn₂ (fun _ => rfl) (Q := fun _ u =>
    LoadingLine done x r (fun _ => false) (fun _ => none) (fun _ => none) u ∧ LineAt u r { n.lineData with
      ip := x.ip, port := x.port, flags := x.flags.saved, slaveof := m, configEpoch := x.configEpoch })
    ⟨hw.update fun _ => ⟨rfl, rfl, rfl, rfl, rfl⟩, _, ClusterState.heap_updateNode_self hn₂, ?_⟩) ?_
  · show ({ n₂.lineData with configEpoch := x.configEpoch } : LineData) = _
    rw [hdata₂]
  rintro ⟨⟩ a hwa ⟨hline, hat⟩
  refine Sim.bind (hline.ends_slots hat) ?_
  rintro ⟨⟩ b hab ⟨hline, hat⟩
  refine Sim.bind (hline.ends_moves hat) ?_
  rintro ⟨⟩ c hbc ⟨hline, hat⟩
  have hall : KeepsNames s c := naming.trans (naming.trans (naming.trans (naming.trans (naming.trans
    (naming.trans hst htu) huv) hvw) hwa) hab) hbc
  have hname : n.name = x.name := by
    obtain ⟨k, hk, hkname⟩ := ClusterState.nameAt_eq_some.mp ht.found
    rw [hn] at hk
    cases hk
    exact hkname
  have hmaster : m.bind c.nameAt = x.slaveof := by
    rw [← hm]
    refine KeepsNames.bind (naming.trans (naming.trans hwa hab) hbc) ?_
    intro z hz
    exact hw.slaveof r n₂ z hn₂ ((congrArg LineData.slaveof hdata₂).trans hz)
  refine Sim.pure ⟨hline.finish hat ⟨hname, rfl, rfl, rfl, hmaster, rfl⟩, ?_⟩
  by_cases hflag : x.flags.myself = true
  · rw [if_pos hflag]
    exact ⟨x, by simp, hflag, hline.here⟩
  · rw [if_neg hflag]
    cases me with
    | none =>
      intro y hy
      rcases List.mem_append.mp hy with hy | hy
      · exact hme y hy
      · rw [List.mem_singleton.mp hy]
        exact Bool.not_eq_true _ ▸ hflag
    | some z =>
      obtain ⟨y, hy, hflag, hz⟩ := hme
      exact ⟨y, List.mem_append_left _ hy, hflag, hall z y.name hz⟩

/-- The lines of a file: different names, and at most one of them is flagged `myself`. -/
theorem ends_loadNodes {me : Option Ref} {lines : List SavedNode} (h : Loaded done s) (hme : SelfIs done me s)
    (hnames : ((done ++ lines).map SavedNode.name).Nodup)
    (hself : ∀ y ∈ done ++ lines, ∀ z ∈ done ++ lines, y.flags.myself = true → z.flags.myself = true → y.name = z.name) :
    Ends (lines.foldlM (loadNode env) me) s fun me t => Loaded (done ++ lines) t ∧ SelfIs (done ++ lines) me t := by
  induction lines generalizing done s me with
  | nil =>
    rw [List.append_nil]
    exact Sim.pure ⟨h, hme⟩
  | cons x lines ih =>
    have hx : ∀ y ∈ done, y.name ≠ x.name := by
      intro y hy
      rw [List.map_append, List.map_cons, List.nodup_append] at hnames
      exact hnames.2.2 y.name (List.mem_map_of_mem hy) x.name (List.mem_cons_self ..)
    rw [List.foldlM_cons]
    refine Sim.bind (h.ends_loadNode hme hx fun hflag y hy => ?_) ?_
    · rw [← Bool.not_eq_true]
      intro hy'
      exact hx y hy (hself y (List.mem_append_left _ hy) x (by simp) hy' hflag)
    · rintro me' t - ⟨ht, hme'⟩
      have happend : done ++ x :: lines = (done ++ [x]) ++ lines := by simp
      rw [happend] at hnames hself ⊢
      exact ih ht hme' hnames hself

end Line

/-! ### The state after loading -/

section Restart

variable {s : ClusterState} {env : ClusterEnv} {c : SavedConfig} {r : Ref} {n : ClusterNode} {x : SavedNode}

/-- The state after all lines have been read. -/
def ClusterState.setVars (s : ClusterState) (c : SavedConfig) (me : Ref) : ClusterState :=
  { s with
    currentEpoch := clusterGetMaxEpoch { s with currentEpoch := c.currentEpoch }
    lastVoteEpoch := c.lastVoteEpoch
    myself := me }

/-- The line of variables, and the check after the last line. -/
theorem run_clusterLoadConfig {u : ClusterState} {me : Ref}
    (hrun : (c.nodes.foldlM (loadNode env) none).run emptyClusterState = .ok (some me, u)) :
    (clusterLoadConfig env c).run emptyClusterState = .ok ((), u.setVars c me) := by
  have hmax : ∀ v : ClusterState, (if clusterGetMaxEpoch v > v.currentEpoch then clusterGetMaxEpoch v
      else v.currentEpoch) = clusterGetMaxEpoch v := by
    intro v
    have hle : v.currentEpoch ≤ clusterGetMaxEpoch v := le_max_right _ _
    split_ifs with h
    · rfl
    · omega
  rw [clusterLoadConfig, run_bind_of_eq hrun]
  show Except.ok ((), { u with
    currentEpoch := if _ > _ then _ else _
    lastVoteEpoch := c.lastVoteEpoch
    myself := me }) = _
  rw [hmax]
  rfl

/-- **A well-formed file is loaded.** -/
theorem clusterLoadConfig_run (env : ClusterEnv) (hc : c.WellFormed) : ∃ u me, Loaded c.nodes u ∧
    SelfIs c.nodes (some me) u ∧
    (clusterLoadConfig env c).run emptyClusterState = .ok ((), u.setVars c me) := by
  obtain ⟨y, hy, hflag, -, -, -, honly⟩ := hc.self
  have hload := @ends_loadNodes emptyClusterState env [] none c.nodes Loaded.empty (by simp [SelfIs])
    (by simpa using hc.names) (by
      intro z hz z' hz' hflag hflag'
      rw [List.nil_append] at hz hz'
      exact (honly z hz hflag).trans (honly z' hz' hflag').symm)
  obtain ⟨me, u, hrun, -, hu, hme⟩ := Sim.exists_ok hload fun _ he => he
  rw [List.nil_append] at hu hme
  cases me with
  | none =>
    have := hme y hy
    rw [hflag] at this
    cases this
  | some r => exact ⟨u, r, hu, hme, run_clusterLoadConfig hrun⟩

/-- The line of a node. -/
theorem Loaded.describes (h : Loaded c.nodes s) (hx : x ∈ c.nodes) (hn : s.heap r = some n)
    (hname : n.name = x.name) : Describes s x n.lineData := by
  obtain ⟨z, k, hk, hdesc⟩ := h.line x hx
  have hz : s.nameAt z = some n.name := ClusterState.nameAt_eq_some.mpr ⟨k, hk, hdesc.name.trans hname.symm⟩
  have hr : s.nameAt r = some n.name := ClusterState.nameAt_eq_some.mpr ⟨n, hn, rfl⟩
  rw [h.ref_unique hr hz, hk] at hn
  cases hn
  exact hdesc

theorem Loaded.flags_myself (h : Loaded c.nodes s) (hc : c.WellFormed) {me : Ref} (hme : SelfIs c.nodes (some me) s)
    (hn : s.heap r = some n) : n.flags.myself = true ↔ r = me := by
  obtain ⟨y, hy, hflag, hyname⟩ := hme
  obtain ⟨w, hw, hwflag, -, -, -, honly⟩ := hc.self
  have hat : s.nameAt r = some n.name := ClusterState.nameAt_eq_some.mpr ⟨n, hn, rfl⟩
  constructor
  · intro hn'
    -- a node without a line has no flags
    have hline : ∃ x ∈ c.nodes, x.name = n.name := by
      by_contra hnone
      push Not at hnone
      have hblank := (h.blank r n hn hnone).1
      have : n.flags.saved.myself = false := congrArg NodeFlags.myself hblank
      rw [show n.flags.saved.myself = n.flags.myself from rfl, hn'] at this
      cases this
    obtain ⟨x, hx, hxname⟩ := hline
    have hdesc := h.describes hx hn hxname.symm
    have hxflag : x.flags.myself = true := (congrArg NodeFlags.myself hdesc.flags).symm.trans hn'
    have hxy : x.name = y.name := (honly x hx hxflag).trans (honly y hy hflag).symm
    rw [← hxname, hxy] at hat
    exact h.ref_unique hat hyname
  · rintro rfl
    have hname : n.name = y.name := Option.some.inj (hat.symm.trans hyname)
    exact (congrArg NodeFlags.myself (h.describes hy hn hname).flags).trans hflag

theorem Loaded.selfRole (h : Loaded c.nodes s) (hc : c.WellFormed) (hme : SelfIs c.nodes (some r) s)
    (hn : s.heap r = some n) : n.view.SelfRole := by
  obtain ⟨y, hy, hflag, hyname⟩ := hme
  obtain ⟨w, hw, hwflag, hhandshake, hrole, hmaster, honly⟩ := hc.self
  have hwname : n.name = w.name := by
    have hat : s.nameAt r = some n.name := ClusterState.nameAt_eq_some.mpr ⟨n, hn, rfl⟩
    exact (Option.some.inj (hat.symm.trans hyname)).trans (honly y hy hflag)
  have hdesc := h.describes hw hn hwname
  have hflags : n.flags.saved = w.flags.saved := hdesc.flags
  refine ⟨(congrArg NodeFlags.handshake hflags).trans hhandshake, ?_, fun hn' => ?_⟩
  · have hs : n.flags.saved.slave = w.flags.saved.slave := congrArg NodeFlags.slave hflags
    have hm : n.flags.saved.master = w.flags.saved.master := congrArg NodeFlags.master hflags
    show n.flags.saved.slave = !n.flags.saved.master
    rw [hs, hm]
    exact hrole
  · have hm : w.flags.master = true := (congrArg NodeFlags.master hflags).symm.trans hn'
    have hslaveof : n.slaveof.bind s.nameAt = none := hdesc.slaveof.trans (hmaster hm)
    show n.slaveof = none
    cases hn'' : n.slaveof with
    | none => rfl
    | some m =>
      obtain ⟨k, hk⟩ := Option.isSome_iff_exists.mp (h.slaveof r n m hn hn'')
      rw [hn'', Option.bind_some, ClusterState.nameAt_eq_some.mpr ⟨k, hk, rfl⟩] at hslaveof
      cases hslaveof

/-- **The tables of a restarted process are well formed.** -/
theorem Loaded.wellFormed (h : Loaded c.nodes s) (hc : c.WellFormed) {me : Ref}
    (hme : SelfIs c.nodes (some me) s) : (s.setVars c me).view.WellFormed := by
  have hrefs : ∀ {z : Ref}, (s.heap z).isSome = true → z ∈ (s.setVars c me).view.refs := by
    intro z hz
    obtain ⟨k, hk⟩ := Option.isSome_iff_exists.mp hz
    exact ClusterView.mem_refs.mpr ⟨k.name, (h.table _ _).mpr (ClusterState.nameAt_eq_some.mpr ⟨k, hk, rfl⟩)⟩
  have hheap : ∀ {z : Ref} {v : NodeView}, (s.setVars c me).view.heap z = some v → ∃ k, s.heap z = some k ∧ k.view = v :=
    fun hv => ClusterState.exists_of_view_heap hv
  have hme' : ∃ k, s.heap me = some k := by
    obtain ⟨y, -, -, hyname⟩ := hme
    obtain ⟨k, hk, -⟩ := ClusterState.nameAt_eq_some.mp hyname
    exact ⟨k, hk⟩
  refine ⟨?_, h.names, ?_, ?_, ?_, ?_, ?_, ?_, ?_, ?_, ?_⟩
  · intro name z hz
    obtain ⟨k, hk, hname⟩ := ClusterState.nameAt_eq_some.mp ((h.table name z).mp hz)
    exact ⟨k.view, ClusterState.view_heap (s := s.setVars c me) hk, hname⟩
  · intro z hz
    show (s.heap z).map ClusterNode.view = none
    rw [h.fresh z hz]
    rfl
  · intro j z hz
    obtain ⟨k, hk⟩ := Option.isSome_iff_exists.mp (h.owner j z hz)
    exact ⟨hrefs (h.owner j z hz), k.view, ClusterState.view_heap (s := s.setVars c me) hk, (h.bit z k j hk).mpr hz⟩
  · intro z v j hv hbit
    obtain ⟨k, hk, rfl⟩ := hheap hv
    exact (h.bit z k j hk).mp hbit
  · intro z v hv
    obtain ⟨k, hk, rfl⟩ := hheap hv
    exact h.count z k hk
  · exact fun j z hz => hrefs (h.migrating j z hz)
  · exact fun j z hz => hrefs (h.importing j z hz)
  · obtain ⟨k, hk⟩ := hme'
    have hsome : (s.heap me).isSome = true := by
      rw [hk]
      rfl
    exact hrefs hsome
  · intro z v hv
    obtain ⟨k, hk, rfl⟩ := hheap hv
    exact h.flags_myself hc hme hk
  · intro v hv
    obtain ⟨k, hk, rfl⟩ := hheap hv
    exact h.selfRole hc hme hk

/-- The process that `clusterRestart` starts. -/
structure Restarted (c : SavedConfig) (t : ClusterState) : Prop where
  wf : t.view.WellFormed
  vote : t.lastVoteEpoch = c.lastVoteEpoch
  epoch : c.currentEpoch ≤ t.currentEpoch
  outbox : t.outbox = []
  election : t.failoverAuthEpoch = 0
  saved : t.saved = some c

/-- The rest of `clusterInit`. -/
def ClusterState.restarted (s : ClusterState) (env : ClusterEnv) (c : SavedConfig) : ClusterState :=
  { s.updateNode s.myself fun me => { me with port := env.port } with
    saved := some c, mfEnd := 0, mfCanStart := false, mfSlave := none, mfMasterOffset := 0 }

theorem run_clusterRestart {u : ClusterState} (hn : u.heap u.myself = some n)
    (hrun : (clusterLoadConfig env c).run emptyClusterState = .ok ((), u)) :
    (clusterRestart env c).run emptyClusterState = .ok ((), u.restarted env c) := by
  have hport : (modifyNode u.myself fun me => { me with port := env.port }).run u
      = .ok ((), u.updateNode u.myself fun me => { me with port := env.port }) := by
    simp [modifyNode, getNode, hn, StateT.run_bind]
    rfl
  rw [clusterRestart, run_bind_of_eq hrun, run_bind_of_eq (a := u) (t := u) rfl, run_bind_of_eq hport]
  rfl

theorem clusterRestart_run (env : ClusterEnv) (hc : c.WellFormed) :
    ∃ t, (clusterRestart env c).run emptyClusterState = .ok ((), t) ∧ Restarted c t := by
  obtain ⟨u, me, hu, hme, hrun⟩ := clusterLoadConfig_run env hc
  have hwf := hu.wellFormed hc hme
  obtain ⟨n, hn⟩ : ∃ n, (u.setVars c me).heap me = some n := by
    obtain ⟨y, -, -, hyname⟩ := hme
    obtain ⟨k, hk, -⟩ := ClusterState.nameAt_eq_some.mp hyname
    exact ⟨k, hk⟩
  refine ⟨(u.setVars c me).restarted env c, run_clusterRestart hn hrun, ?_⟩
  have hview : ((u.setVars c me).restarted env c).view = { (u.setVars c me).view with saved := some c } := by
    have hupdate : ((u.setVars c me).updateNode me fun me => { me with port := env.port }).view = (u.setVars c me).view :=
      ClusterState.view_updateNode_eq fun _ => rfl
    show { ((u.setVars c me).updateNode me fun me => { me with port := env.port }).view with saved := some c } = _
    rw [hupdate]
  have hvars := hu.vars
  refine ⟨?_, rfl, le_max_right _ _, congrArg ClusterView.Vars.outbox hvars,
    congrArg ClusterView.Vars.failoverAuthEpoch hvars, rfl⟩
  rw [hview]
  exact hwf.of_tables rfl rfl rfl rfl rfl rfl rfl

/-! ### What is restored -/

/-- `t` holds what the file says of `s`; nodes in handshake are not in the file. -/
structure Restores (s t : ClusterState) : Prop where
  node : ∀ n ∈ s.tableNodes, n.flags.handshake = false →
    ∃ r m, t.heap r = some m ∧ Describes t (clusterGenNodeDescription s n) m.lineData
  known : ∀ r name, t.nameAt r = some name → ∃ z, s.nameAt z = some name
  owner : ∀ j, (t.slots j).bind t.nameAt =
    ((s.slots j).bind s.heap).bind fun n => if n.flags.handshake then none else some n.name
  migrating : ∀ j, (t.migratingSlotsTo j).bind t.nameAt = (s.migratingSlotsTo j).bind s.nameAt
  importing : ∀ j, (t.importingSlotsFrom j).bind t.nameAt =
    if s.migratingSlotsTo j = none then (s.importingSlotsFrom j).bind s.nameAt else none
  myself : t.nameAt t.myself = s.nameAt s.myself
  vote : t.lastVoteEpoch = s.lastVoteEpoch
  epoch : s.currentEpoch ≤ t.currentEpoch

/-- Only the line of the node itself opens slots. -/
theorem lastMove_eq {f : SavedNode → Slot → Option NodeName} {lines : List SavedNode} {j : Slot} {e : Option NodeName}
    (hf : ∀ x ∈ lines, f x j = if x.flags.myself then e else none) :
    lastMove f lines j = if lines.any fun x => x.flags.myself then e else none := by
  induction lines using List.reverseRecOn with
  | nil => rfl
  | append_singleton lines x ih =>
    have hlines := ih fun y hy => hf y (List.mem_append_left _ hy)
    rw [lastMove] at hlines ⊢
    rw [List.foldl_append, hlines]
    show (f x j).or _ = _
    rw [hf x (by simp), List.any_append]
    cases h : x.flags.myself <;> cases lines.any fun x => x.flags.myself <;> simp [h]

theorem mem_description : x ∈ (clusterGenNodesDescription s).nodes ↔
    ∃ r n, r ∈ s.nodeRefs ∧ s.heap r = some n ∧ n.flags.handshake = false ∧ clusterGenNodeDescription s n = x := by
  simp only [clusterGenNodesDescription, List.mem_map, List.mem_filter, ClusterState.mem_tableNodes, Bool.not_eq_true']
  constructor
  · rintro ⟨n, ⟨⟨r, hr, hn⟩, hshake⟩, hx⟩
    exact ⟨r, n, hr, hn, hshake, hx⟩
  · rintro ⟨r, n, hr, hn, hshake, hx⟩
    exact ⟨n, ⟨⟨r, hr, hn⟩, hshake⟩, hx⟩

end Restart

end Redis
