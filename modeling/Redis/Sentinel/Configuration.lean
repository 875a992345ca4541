import Redis.Sentinel.Election

namespace Redis.Sentinel

/-!
# Sentinel — configurations

The address of a master and its configuration epoch, as Sentinels advertise them in hello
messages.  A configuration is made by a promotion, in the epoch of the failover, and travels.

* `MasterConf`, `NetConf` — every configuration epoch in use has one address, kept as a table
  next to the run;
* `configs_ordered` — **configuration epochs never decrease and never name two addresses**, as
  long as no Sentinel in the middle of a failover meets a newer configuration with the address
  it has for the master;
* `one_epoch_two_addresses` — then it keeps the failover and takes the epoch.
-/

variable {I M : Type}

/-- No election wraps the epoch, nobody resets a master, and a newer configuration than that
    of a running failover comes with another address. -/
def ConfigKept [DecidableEq M] (env : Env) (s : SentinelState M) (_ : Option M) (a : Action M) : Prop :=
  ElectionFits env s a ∧
    match a with
    | .hello h => ¬ ((s.masters h.master).failoverInProgress = true ∧
        (s.masters h.master).failoverEpoch < h.masterConfigEpoch ∧
        h.masterAddr = (s.masters h.master).addr)
    | .reset _ => False
    | _ => True

/-! ## One master -/

/-- What a Sentinel knows about a master, against the table of configurations, its current
    epoch and the elections it has won. -/
structure MasterConf (R : Resolver) (conf : Nat → Option Addr) (cur : Nat) (won : Nat → Prop)
    (r : Master) : Prop where
  tidy : r.Tidy
  located : r.Located R
  resolved : Resolved R r.addr
  current : conf r.configEpoch = some (sentinelGetCurrentMasterAddress r)
  epoch : r.configEpoch ≤ cur
  begun : 1 ≤ r.failoverState.code →
    r.failoverInProgress = true ∧ 0 < r.failoverEpoch ∧ r.failoverEpoch ≤ cur
  early : 1 ≤ r.failoverState.code → ¬ 5 ≤ r.failoverState.code → r.configEpoch ≤ r.failoverEpoch
  late : 5 ≤ r.failoverState.code → r.configEpoch = r.failoverEpoch
  led : 2 ≤ r.failoverState.code → won r.failoverEpoch

/-- A failover in this epoch has begun and has promoted no slave yet. -/
def Standing (r : Master) (epoch : Nat) : Prop :=
  1 ≤ r.failoverState.code ∧ ¬ 5 ≤ r.failoverState.code ∧ r.failoverEpoch = epoch

/-- No configuration is forgotten. -/
def Extends (conf conf' : M → Nat → Option Addr) : Prop :=
  ∀ m c addr, conf m c = some addr → conf' m c = some addr

namespace MasterConf

variable {R : Resolver} {conf conf' : Nat → Option Addr} {cur cur' : Nat} {won won' : Nat → Prop}
  {r r' : Master}

section

variable (h : MasterConf R conf cur won r)

include h

theorem mono (hconf : ∀ c addr, conf c = some addr → conf' c = some addr) (hcur : cur ≤ cur')
    (hwon : ∀ e, won e → won' e) : MasterConf R conf' cur' won' r :=
  { h with
    current := hconf _ _ h.current
    epoch := h.epoch.trans hcur
    begun := fun hc => ⟨(h.begun hc).1, (h.begun hc).2.1, (h.begun hc).2.2.trans hcur⟩
    led := fun hc => hwon _ (h.led hc) }

/-- Changes that leave the configuration and the failover alone. -/
theorem quiet (hq : ConfigQuiet r r') (htidy : r'.Tidy) (hloc : r'.Located R)
    (hfe : r'.failoverEpoch = r.failoverEpoch) : MasterConf R conf cur won r' where
  tidy := htidy
  located := hloc
  resolved := by
    rw [hq.addr]
    exact h.resolved
  current := by
    rw [hq.configEpoch, hq.current]
    exact h.current
  epoch := by
    rw [hq.configEpoch]
    exact h.epoch
  begun := by
    intro hc
    rw [hq.running hc, hfe]
    exact h.begun (hq.begun hc)
  early := by
    intro hc hl
    rw [hq.configEpoch, hfe]
    exact h.early (hq.begun hc) (fun hl' => hl (hq.late.mpr hl'))
  late := by
    intro hl
    rw [hq.configEpoch, hfe]
    exact h.late (hq.late.mp hl)
  led := by
    intro hc
    rw [hfe]
    exact h.led (hq.led hc)

/-- A failover begins in a new epoch. -/
theorem start (hidle : r.failoverInProgress = false) (st ct : Int) :
    MasterConf R conf (cur + 1) won { r with
      failoverState := .waitStart, failoverInProgress := true, failoverEpoch := cur + 1,
      failoverStartTime := st, failoverStateChangeTime := ct } where
  tidy := ⟨h.tidy.names, h.tidy.listed⟩
  located := h.located
  resolved := h.resolved
  current := by
    have hcur := h.current
    rw [currentAddress_eq, if_neg (fun hc => by rw [hidle] at hc; cases hc.1)] at hcur
    rw [currentAddress_early (show ¬ 5 ≤ FailoverState.waitStart.code by decide)]
    exact hcur
  epoch := h.epoch.trans (Nat.le_succ cur)
  begun := fun _ => ⟨rfl, Nat.succ_pos cur, le_refl _⟩
  early := fun _ _ => h.epoch.trans (Nat.le_succ cur)
  late := fun hl => absurd hl (show ¬ 5 ≤ FailoverState.waitStart.code by decide)
  led := fun hl => absurd hl (show ¬ 2 ≤ FailoverState.waitStart.code by decide)

/-- The election is won. -/
theorem elected (hstate : r.failoverState = .waitStart) (hwon : won r.failoverEpoch) (ct : Int) :
    MasterConf R conf cur won { r with
      failoverState := .selectSlave, failoverStateChangeTime := ct } where
  tidy := ⟨h.tidy.names, h.tidy.listed⟩
  located := h.located
  resolved := h.resolved
  current := by
    rw [currentAddress_early (show ¬ 5 ≤ FailoverState.selectSlave.code by decide)]
    have hcur := h.current
    rwa [currentAddress_early (by rw [hstate]; decide)] at hcur
  epoch := h.epoch
  begun := fun _ => h.begun (by rw [hstate]; decide)
  early := fun _ _ => h.early (by rw [hstate]; decide) (by rw [hstate]; decide)
  late := fun hl => absurd hl (show ¬ 5 ≤ FailoverState.selectSlave.code by decide)
  led := fun _ => hwon

/-- Where a master is said to be resolves to itself. -/
theorem currentResolved :
    Resolved R (sentinelGetCurrentMasterAddress r) := by
  unfold sentinelGetCurrentMasterAddress
  cases hp : r.promoted with
  | none => exact h.resolved
  | some slave =>
    have hslave : slave ∈ r.slaves := by
      unfold Master.promoted at hp
      obtain ⟨name, -, hfind⟩ := Option.bind_eq_some_iff.mp hp
      exact List.mem_of_find?_eq_some hfind
    dsimp only
    split
    · exact h.located slave hslave
    · exact h.resolved

/-- A slave has been promoted: the configuration of the failover's epoch is made. -/
theorem promote (hstate : r.failoverState = .waitPromotion) (ct : Int)
    (hnew : conf r.failoverEpoch = some (sentinelGetCurrentMasterAddress { r with
      configEpoch := r.failoverEpoch, failoverState := .reconfSlaves, failoverStateChangeTime := ct })) :
    MasterConf R conf cur won { r with
      configEpoch := r.failoverEpoch, failoverState := .reconfSlaves, failoverStateChangeTime := ct } where
  tidy := ⟨h.tidy.names, h.tidy.listed⟩
  located := h.located
  resolved := h.resolved
  current := hnew
  epoch := (h.begun (by rw [hstate]; decide)).2.2
  begun := fun _ => h.begun (by rw [hstate]; decide)
  early := fun _ hl => absurd (show 5 ≤ FailoverState.reconfSlaves.code by decide) hl
  late := fun _ => rfl
  led := fun _ => h.led (by rw [hstate]; decide)

end

/-- A master at a new address, with no failover. -/
theorem switched (now : Int) {addr : Addr} (haddr : Resolved R addr)
    (hconf : conf r.configEpoch = some addr) (hepoch : r.configEpoch ≤ cur) :
    MasterConf R conf cur won (switchAddress R now r addr) := by
  have htidy := switchAddress_tidy R now r addr
  have hloc := switchAddress_located R now r addr
  obtain ⟨slaves, hslaves⟩ := switchAddress_eq R now r addr
  rw [hslaves] at htidy hloc ⊢
  have hnone : ∀ {n}, ¬ n + 1 ≤ FailoverState.none.code := fun h => by cases h
  exact
    { tidy := htidy
      located := hloc
      resolved := haddr
      current := by
        rw [currentAddress_early (show ¬ 5 ≤ FailoverState.none.code by decide)]
        exact hconf
      epoch := hepoch
      begun := fun hc => absurd hc hnone
      early := fun hc => absurd hc hnone
      late := fun hc => absurd hc hnone
      led := fun hc => absurd hc hnone }

/-- No failover is left after a switch of address. -/
theorem switchAddress_idle (now : Int) (r : Master) (addr : Addr) :
    ¬ 1 ≤ (switchAddress R now r addr).failoverState.code := by
  obtain ⟨slaves, hslaves⟩ := switchAddress_eq R now r addr
  rw [hslaves]
  exact (show ¬ 1 ≤ FailoverState.none.code by decide)

/-- A newer configuration that keeps the address, and no newer one than a running failover. -/
theorem adopt (h : MasterConf R conf cur won r) {epoch : Nat} (hlt : r.configEpoch < epoch)
    (hconf : conf epoch = some r.addr) (hepoch : epoch ≤ cur)
    (hrun : r.failoverInProgress = true → epoch ≤ r.failoverEpoch) :
    MasterConf R conf cur won { r with configEpoch := epoch } := by
  have hearly : ¬ 5 ≤ r.failoverState.code := by
    intro hl
    have hle := hrun (h.begun (by omega)).1
    have heq := h.late hl
    omega
  exact
    { tidy := ⟨h.tidy.names, h.tidy.listed⟩
      located := h.located
      resolved := h.resolved
      current := by
        rw [currentAddress_early (r := { r with configEpoch := epoch }) hearly]
        exact hconf
      epoch := hepoch
      begun := h.begun
      early := fun hc _ => hrun (h.begun hc).1
      late := fun hl => absurd hl hearly
      led := h.led }

end MasterConf

/-! ## All Sentinels -/

variable [DecidableEq I] [DecidableEq M]

/-- The table of configurations and the state of the group agree: what is known and what is
    advertised is in the table, and an entry is the first configuration or the work of the
    Sentinel that won its epoch. -/
structure NetConf (R : Resolver) (conf : M → Nat → Option Addr) (net : Net I M) : Prop where
  node : ∀ i m, MasterConf R (conf m) (net.nodes i).currentEpoch
    (fun e => .electedLeader m e ∈ (net.nodes i).trace) ((net.nodes i).masters m)
  won : ∀ i m e, .electedLeader m e ∈ (net.nodes i).trace → e ≤ (net.nodes i).currentEpoch
  made : ∀ m c addr, conf m c = some addr → c = 0 ∨ ∃ j, .electedLeader m c ∈ (net.nodes j).trace ∧
    ¬ Standing ((net.nodes j).masters m) c
  hellos : ∀ i h, (i, h) ∈ net.hellos → conf h.master h.masterConfigEpoch = some h.masterAddr ∧
    Resolved R h.masterAddr ∧ h.masterConfigEpoch ≤ h.currentEpoch

/-- No two failovers of a master are led in one epoch. -/
def LedOnce (nodes : I → SentinelState M) : Prop :=
  ∀ i j m e, .electedLeader m e ∈ (nodes i).trace → .electedLeader m e ∈ (nodes j).trace → i = j

namespace NetConf

variable {R : Resolver} {conf conf' : M → Nat → Option Addr} {net : Net I M}

omit [DecidableEq M] in
/-- The group after one Sentinel has changed. -/
theorem setNode (h : NetConf R conf net) {i : I} {v : SentinelState M} (hext : Extends conf conf')
    (hnew : ∀ m c addr, conf' m c = some addr → conf m c = some addr ∨
      .electedLeader m c ∈ v.trace ∧ ¬ Standing (v.masters m) c)
    (hnode : ∀ m, MasterConf R (conf' m) v.currentEpoch (fun e => .electedLeader m e ∈ v.trace) (v.masters m))
    (hwon : ∀ m e, .electedLeader m e ∈ v.trace → e ≤ v.currentEpoch)
    (hgrow : (net.nodes i).trace <+: v.trace)
    (hstand : ∀ m c, Standing (v.masters m) c →
      Standing ((net.nodes i).masters m) c ∨ (net.nodes i).currentEpoch < c) :
    NetConf R conf' (net.setNode i v) where
  node := by
    intro k m
    by_cases hk : k = i
    · rw [hk, setNode_self]
      exact hnode m
    · rw [setNode_other hk]
      exact (h.node k m).mono (hext m) (le_refl _) (fun _ => id)
  won := by
    intro k m e he
    by_cases hk : k = i
    · rw [hk, setNode_self] at he ⊢
      exact hwon m e he
    · rw [setNode_other hk] at he ⊢
      exact h.won k m e he
  made := by
    intro m c addr hc
    rcases hnew m c addr hc with hold | hnew
    · rcases h.made m c addr hold with h0 | ⟨j, hj, hjs⟩
      · exact .inl h0
      · refine .inr ⟨j, (setNode_grow hgrow j).subset hj, ?_⟩
        by_cases hk : j = i
        · subst hk
          rw [setNode_self]
          intro hs
          rcases hstand m c hs with hs | hlt
          · exact hjs hs
          · exact absurd (h.won j m c hj) (by omega)
        · rw [setNode_other hk]
          exact hjs
    · exact .inr ⟨i, by rw [setNode_self]; exact hnew.1, by rw [setNode_self]; exact hnew.2⟩
  hellos := fun k msg hmem => ⟨hext _ _ _ (h.hellos k msg hmem).1, (h.hellos k msg hmem).2⟩

omit [DecidableEq M] in
/-- The table stays as it is, and no failover begins. -/
theorem setNode_same (h : NetConf R conf net) {i : I} {v : SentinelState M}
    (hcur : (net.nodes i).currentEpoch ≤ v.currentEpoch)
    (hnode : ∀ m, MasterConf R (conf m) v.currentEpoch (fun e => .electedLeader m e ∈ v.trace) (v.masters m))
    (hwon : ∀ m e, .electedLeader m e ∈ v.trace →
      .electedLeader m e ∈ (net.nodes i).trace ∨ e ≤ (net.nodes i).currentEpoch)
    (hgrow : (net.nodes i).trace <+: v.trace)
    (hstand : ∀ m c, Standing (v.masters m) c → Standing ((net.nodes i).masters m) c) :
    NetConf R conf (net.setNode i v) := by
  refine h.setNode (fun _ _ _ => id) (fun _ _ _ => .inl) hnode ?_ hgrow (fun m c hs => .inl (hstand m c hs))
  intro m e he
  rcases hwon m e he with he | he
  · exact (h.won i m e he).trans hcur
  · exact he.trans hcur

/-- One master replaced, the table as it is. -/
theorem setMaster (h : NetConf R conf net) {i : I} {v : SentinelState M} {m : M} {r : Master}
    (hv : v.masters = ((net.nodes i).set m r).masters) (hcur : v.currentEpoch = (net.nodes i).currentEpoch)
    (hwon : ∀ m e, .electedLeader m e ∈ v.trace →
      .electedLeader m e ∈ (net.nodes i).trace ∨ e ≤ (net.nodes i).currentEpoch)
    (hgrow : (net.nodes i).trace <+: v.trace)
    (hr : MasterConf R (conf m) (net.nodes i).currentEpoch (fun e => .electedLeader m e ∈ v.trace) r)
    (hstand : ∀ c, Standing r c → Standing ((net.nodes i).masters m) c) :
    NetConf R conf (net.setNode i v) := by
  have hself : v.masters m = r := by
    rw [hv, set_masters_self]
  have hother : ∀ k, k ≠ m → v.masters k = (net.nodes i).masters k := by
    intro k hk
    rw [hv]
    exact if_neg hk
  refine h.setNode_same hcur.ge (fun k => ?_) hwon hgrow (fun k c => ?_)
  · rw [hcur]
    by_cases hk : k = m
    · subst hk
      rw [hself]
      exact hr
    · rw [hother k hk]
      exact (h.node i k).mono (fun _ _ => id) (le_refl _) (fun _ he => hgrow.subset he)
  · by_cases hk : k = m
    · subst hk
      rw [hself]
      exact hstand c
    · rw [hother k hk]
      exact id

/-- A promotion makes the configuration of its epoch: nobody else can have. -/
theorem promoted (h : NetConf R conf net) {i : I} {m : M} {ct : Int}
    (hstate : ((net.nodes i).masters m).failoverState = .waitPromotion)
    (hlead : ∀ j m e, .electedLeader m e ∈ (net.nodes i).trace →
      .electedLeader m e ∈ (net.nodes j).trace → i = j) :
    ∃ conf', Extends conf conf' ∧ NetConf R conf' (net.setNode i ((net.nodes i).set m
      { (net.nodes i).masters m with
        configEpoch := ((net.nodes i).masters m).failoverEpoch
        failoverState := .reconfSlaves
        failoverStateChangeTime := ct })) := by
  obtain ⟨r, hr⟩ : ∃ r, r = (net.nodes i).masters m := ⟨_, rfl⟩
  obtain ⟨r', hr'⟩ : ∃ r', r' = { r with
    configEpoch := r.failoverEpoch, failoverState := .reconfSlaves, failoverStateChangeTime := ct } :=
    ⟨_, rfl⟩
  have hnode := h.node i m
  rw [← hr] at hnode hstate ⊢
  rw [← hr']
  have hwon := hnode.led (by rw [hstate]; decide)
  have hpos := (hnode.begun (by rw [hstate]; decide)).2.1
  -- the entry is free: who made it would be this Sentinel, and it has promoted nothing yet
  have hfree : conf m r.failoverEpoch = none := by
    by_contra hne
    obtain ⟨addr, haddr⟩ := Option.ne_none_iff_exists'.mp hne
    rcases h.made m _ addr haddr with h0 | ⟨j, hj, hstand⟩
    · omega
    · have hij := hlead j m _ hwon hj
      subst hij
      rw [← hr] at hstand
      refine hstand ⟨?_, ?_, rfl⟩
      · rw [hstate]
        decide
      · rw [hstate]
        decide
  obtain ⟨conf', hconf'⟩ : ∃ conf' : M → Nat → Option Addr, conf' = fun k c =>
    if k = m ∧ c = r.failoverEpoch then some (sentinelGetCurrentMasterAddress r') else conf k c := ⟨_, rfl⟩
  have hext : Extends conf conf' := by
    intro k c addr hc
    rw [hconf']
    dsimp only
    rw [if_neg]
    · exact hc
    · rintro ⟨rfl, rfl⟩
      rw [hfree] at hc
      cases hc
  have hlate : ¬ ¬ 5 ≤ r'.failoverState.code := by
    rw [hr']
    exact not_not_intro (show 5 ≤ FailoverState.reconfSlaves.code by decide)
  refine ⟨conf', hext, h.setNode hext ?_ ?_ (h.won i) (List.prefix_refl _) ?_⟩
  · intro k c addr hc
    rw [hconf'] at hc
    dsimp only at hc
    by_cases hk : k = m ∧ c = r.failoverEpoch
    · obtain ⟨rfl, rfl⟩ := hk
      refine .inr ⟨hwon, fun hs => ?_⟩
      rw [set_masters_self] at hs
      exact hlate hs.2.1
    · rw [if_neg hk] at hc
      exact .inl hc
  · intro k
    by_cases hk : k = m
    · subst hk
      rw [set_masters_self, hr']
      refine (hnode.mono (hext k) (le_refl _) (fun _ => id)).promote hstate ct ?_
      rw [← hr', hconf']
      dsimp only
      rw [if_pos ⟨rfl, rfl⟩]
    · have hother : ((net.nodes i).set m r').masters k = (net.nodes i).masters k := if_neg hk
      rw [hother]
      exact (h.node i k).mono (hext k) (le_refl _) (fun _ => id)
  · intro k c hs
    by_cases hk : k = m
    · subst hk
      rw [set_masters_self] at hs
      exact absurd hs.2.1 hlate
    · have hother : ((net.nodes i).set m r').masters k = (net.nodes i).masters k := if_neg hk
      rw [hother] at hs
      exact .inl hs

/-- Every move keeps the agreement, possibly with one more configuration, and lowers no
    configuration epoch. -/
theorem move {sc : Scope M} (h : NetConf R conf net) {i : I} {v : SentinelState M}
    (hmove : Move sc (net.nodes i) v) (hR : sc.resolver = R) (hreset : sc.noReset) (hwrap : sc.noWrap)
    (hhello : ∀ msg, sc.hello (net.nodes i) msg →
      conf msg.master msg.masterConfigEpoch = some msg.masterAddr ∧ Resolved R msg.masterAddr ∧
      msg.masterConfigEpoch ≤ (net.nodes i).currentEpoch ∧
      (((net.nodes i).masters msg.master).failoverInProgress = true →
        msg.masterAddr = ((net.nodes i).masters msg.master).addr →
        msg.masterConfigEpoch ≤ ((net.nodes i).masters msg.master).failoverEpoch))
    (hlead : ∀ j m e, .electedLeader m e ∈ (net.nodes i).trace →
      .electedLeader m e ∈ (net.nodes j).trace → i = j) :
    (∃ conf', Extends conf conf' ∧ NetConf R conf' (net.setNode i v)) ∧
      ∀ m, ((net.nodes i).masters m).configEpoch ≤ (v.masters m).configEpoch := by
  subst hR
  have hgrow := (Moves.single hmove).trace_grows
  have hwon : ∀ m e, .electedLeader m e ∈ v.trace →
      .electedLeader m e ∈ (net.nodes i).trace ∨ e ≤ (net.nodes i).currentEpoch := by
    intro m e he
    rcases hmove.won he with he | ⟨hstate, hepoch, -⟩
    · exact .inl he
    · rw [← hepoch]
      exact .inr ((h.node i m).begun (by rw [hstate]; decide)).2.2
  -- masters as they were, under a trace that has grown
  have hkeep : ∀ {cur : Nat}, (net.nodes i).currentEpoch ≤ cur → ∀ m, MasterConf sc.resolver (conf m) cur
      (fun e => .electedLeader m e ∈ v.trace) ((net.nodes i).masters m) := fun hcur m =>
    (h.node i m).mono (fun _ _ => id) hcur (fun _ he => hgrow.subset he)
  have hepochs : ∀ {u : SentinelState M} {m : M} {r : Master}, u.masters = (net.nodes i).masters →
      ((net.nodes i).masters m).configEpoch ≤ r.configEpoch →
      ∀ k, ((net.nodes i).masters k).configEpoch ≤ ((u.set m r).masters k).configEpoch := by
    intro u m r hu hr k
    unfold SentinelState.set
    by_cases hk : k = m
    · subst hk
      simpa using hr
    · simp [hk, hu]
  cases hmove with
  | quiet hid hepoch htrace hm =>
    refine ⟨⟨conf, fun _ _ _ => id, h.setNode_same hepoch.ge (fun m => ?_) hwon hgrow (fun m c hs => ?_)⟩,
      fun m => ?_⟩
    · have hq := hm m
      have htidy := (h.node i m).tidy
      have hnode := (hkeep hepoch.ge m).quiet (hq.config hreset htidy) (hq.tidy htidy)
        (hq.located htidy (h.node i m).located) hq.failoverEpoch
      exact hnode
    · have hq := (hm m).config hreset (h.node i m).tidy
      refine ⟨hq.begun hs.1, fun hl => hs.2.1 (hq.late.mpr hl), ?_⟩
      rw [← (hm m).failoverEpoch]
      exact hs.2.2
    · rw [((hm m).config hreset (h.node i m).tidy).configEpoch]
  | flush | reply _ | slaveOf | ask _ =>
    exact ⟨⟨conf, fun _ _ _ => id, h.setNode_same (le_refl _) (hkeep (le_refl _)) hwon hgrow
      (fun _ _ => id)⟩, fun _ => le_refl _⟩
  | raise hlt _ =>
    exact ⟨⟨conf, fun _ _ _ => id, h.setNode_same hlt.le (hkeep hlt.le) hwon hgrow (fun _ _ => id)⟩,
      fun _ => le_refl _⟩
  | @start env m hidle hw =>
    have hnext : nextEpoch (net.nodes i).currentEpoch = (net.nodes i).currentEpoch + 1 := by
      have hlt := hw hwrap
      unfold nextEpoch
      omega
    unfold sentinelStartFailover
    dsimp only
    rw [hnext]
    refine ⟨⟨conf, fun _ _ _ => id, h.setNode (fun _ _ _ => id) (fun _ _ _ => .inl) (fun k => ?_) ?_
      (List.prefix_refl _) (fun k c hs => ?_)⟩, hepochs rfl (le_refl _)⟩
    · by_cases hk : k = m
      · subst hk
        rw [set_masters_self]
        exact (h.node i k).start hidle _ _
      · have hk' := (h.node i k).mono (fun _ _ => id) (Nat.le_succ _) (fun _ => id)
        simpa [SentinelState.set, hk] using hk'
    · intro k e he
      exact (h.won i k e he).trans (Nat.le_succ _)
    · by_cases hk : k = m
      · subst hk
        rw [set_masters_self] at hs
        refine .inr ?_
        rw [← hs.2.2]
        exact Nat.lt_succ_self _
      · refine .inl ?_
        simpa [SentinelState.set, hk] using hs
  | @vote m runid _ _ =>
    have hnode := h.node i m
    refine ⟨⟨conf, fun _ _ _ => id, h.setMaster rfl rfl hwon hgrow ?_ (fun _ => id)⟩, hepochs rfl (le_refl _)⟩
    exact (hkeep (le_refl _) m).quiet ⟨rfl, rfl, id, Iff.rfl, fun _ => rfl, id, rfl⟩
      ⟨hnode.tidy.names, hnode.tidy.listed⟩ hnode.located rfl
  | @elected m now hstate _ =>
    refine ⟨⟨conf, fun _ _ _ => id, h.setMaster rfl rfl hwon hgrow ?_ (fun c hs => ?_)⟩, hepochs rfl (le_refl _)⟩
    · exact (hkeep (le_refl _) m).elected hstate (List.mem_append_right _ (List.mem_singleton_self _)) now
    · refine ⟨?_, ?_, hs.2.2⟩
      · rw [hstate]
        decide
      · rw [hstate]
        decide
  | @promote m now hrunning hstate =>
    refine ⟨h.promoted hstate hlead, hepochs rfl ?_⟩
    exact (h.node i m).early (by rw [hstate]; decide) (by rw [hstate]; decide)
  | @switch m R now addr hR hstate haddr =>
    subst hR
    have hnode := h.node i m
    have hlate : 5 ≤ ((net.nodes i).masters m).failoverState.code := by
      rw [hstate]
      decide
    -- the new address is the one advertised
    have hcur := hnode.current
    have hres := hnode.currentResolved
    rw [currentAddress_eq, if_pos ⟨(hnode.begun (by omega)).1, hlate⟩] at hcur hres
    rw [hres now] at haddr
    cases haddr
    refine ⟨⟨conf, fun _ _ _ => id, h.setMaster rfl rfl hwon hgrow
      (MasterConf.switched now hres hcur hnode.epoch) (fun c hs => absurd hs.1 (MasterConf.switchAddress_idle _ _ _))⟩,
      hepochs rfl ?_⟩
    obtain ⟨slaves, hslaves⟩ := switchAddress_eq sc.resolver now ((net.nodes i).masters m)
      ((((net.nodes i).masters m).promoted.map (·.addr)).getD ((net.nodes i).masters m).addr)
    rw [hslaves]
    exact le_refl _
  | @adopt msg R now hR hh hlt haddr =>
    subst hR
    obtain ⟨hconf, hres, hepoch, hrun⟩ := hhello msg hh
    have hnode := h.node i msg.master
    -- an address that is advertised resolves
    have hsame : msg.masterAddr = ((net.nodes i).masters msg.master).addr := by
      rcases haddr with haddr | haddr
      · exact haddr
      · rw [hres now] at haddr
        cases haddr
    rw [hsame] at hconf
    refine ⟨⟨conf, fun _ _ _ => id, h.setMaster rfl rfl hwon hgrow
      ((hkeep (le_refl _) msg.master).adopt hlt hconf hepoch (fun hb => hrun hb hsame)) (fun _ => id)⟩,
      hepochs rfl hlt.le⟩
  | @adoptSwitch msg R now addr hR hh hlt hne haddr =>
    subst hR
    obtain ⟨hconf, hres, hepoch, -⟩ := hhello msg hh
    rw [hres now] at haddr
    cases haddr
    refine ⟨⟨conf, fun _ _ _ => id, h.setMaster rfl rfl hwon hgrow
      (MasterConf.switched now hres hconf hepoch) (fun c hs => absurd hs.1 (MasterConf.switchAddress_idle _ _ _))⟩,
      hepochs rfl ?_⟩
    obtain ⟨slaves, hslaves⟩ := switchAddress_eq sc.resolver now
      { (net.nodes i).masters msg.master with configEpoch := msg.masterConfigEpoch } msg.masterAddr
    rw [hslaves]
    exact hlt.le

omit [DecidableEq M] in
theorem setNode_setNode (i : I) (u v : SentinelState M) :
    (net.setNode i u).setNode i v = net.setNode i v := by
  unfold Net.setNode
  congr 1
  funext k
  by_cases hk : k = i
  · simp [hk]
  · simp [hk]

/-- What an action of one Sentinel comes to. -/
theorem acted (h : NetConf R conf net) {i : I} {env : Env} {a : Action M} {asked : Option M}
    {t : SentinelState M} (ha : a.Enabled (net.nodes i)) (hp : ConfigKept env (net.nodes i) asked a)
    (hstep : step R env (net.nodes i) a = .ok t)
    (hhello : ∀ msg, a = .hello msg → conf msg.master msg.masterConfigEpoch = some msg.masterAddr ∧
      Resolved R msg.masterAddr ∧ msg.masterConfigEpoch ≤ msg.currentEpoch)
    (hlead : LedOnce (net.setNode i t).nodes) :
    (∃ conf', Extends conf conf' ∧ NetConf R conf' (net.setNode i t)) ∧
      ∀ m, ((net.nodes i).masters m).configEpoch ≤ (t.masters m).configEpoch := by
  have hmoves : Moves (actionScope R (net.nodes i) True a) (net.nodes i) t :=
    step_moves R env ha hstep (fun _ => hp.1)
  have hreset : (actionScope R (net.nodes i) True a).noReset := by
    cases a with
    | reset pattern => exact hp.2.elim
    | _ => trivial
  -- up to every moment of the action, of which the end is the last
  have hall : ∀ u, Moves (actionScope R (net.nodes i) True a) (net.nodes i) u → u.trace <+: t.trace →
      (∃ conf', Extends conf conf' ∧ NetConf R conf' (net.setNode i u)) ∧
        ∀ m, ((net.nodes i).masters m).configEpoch ≤ (u.masters m).configEpoch := by
    intro u hu
    induction hu with
    | refl =>
      intro _
      have hself : net.setNode i (net.nodes i) = net := by
        unfold Net.setNode
        congr 1
        funext k
        by_cases hk : k = i
        · simp [hk]
        · simp [hk]
      rw [hself]
      exact ⟨⟨conf, fun _ _ _ => id, h⟩, fun _ => le_refl _⟩
    | @tail u v hu hmove ih =>
      intro hvt
      have huv := (Moves.single hmove).trace_grows
      obtain ⟨⟨conf', hext, hnet⟩, hmono⟩ := ih (huv.trans hvt)
      have hself : (net.setNode i u).nodes i = u := setNode_self i u
      have hlead' : ∀ j m e, .electedLeader m e ∈ ((net.setNode i u).nodes i).trace →
          .electedLeader m e ∈ ((net.setNode i u).nodes j).trace → i = j := by
        intro j m e hi hj
        refine hlead i j m e ?_ ?_
        · rw [setNode_self]
          rw [hself] at hi
          exact (huv.trans hvt).subset hi
        · by_cases hj' : j = i
          · rw [hj', setNode_self]
            rw [hj', hself] at hj
            exact (huv.trans hvt).subset hj
          · rw [setNode_other hj'] at hj ⊢
            exact hj
      have hnext := hnet.move (hself.symm ▸ hmove) rfl hreset trivial (fun msg hmsg => ?_) hlead'
      · rw [setNode_setNode, hself] at hnext
        obtain ⟨⟨conf'', hext', hnet'⟩, hmono'⟩ := hnext
        exact ⟨⟨conf'', fun m c addr hc => hext' m c addr (hext m c addr hc), hnet'⟩,
          fun m => (hmono m).trans (hmono' m)⟩
      · rw [hself] at hmsg ⊢
        obtain ⟨rfl, hpeers, hcur⟩ := hmsg
        obtain ⟨hconf, hres, hle⟩ := hhello msg rfl
        obtain ⟨peers, hmaster⟩ := hpeers msg.master
        refine ⟨hext _ _ _ hconf, hres, hle.trans hcur, fun hb haddr => ?_⟩
        rw [hmaster] at hb haddr ⊢
        by_contra hlt
        exact hp.2 ⟨hb, Nat.lt_of_not_le hlt, haddr⟩
  exact hall t hmoves (List.prefix_refl _)

/-- Every step of the group keeps the agreement and lowers no configuration epoch. -/
theorem step {G : Group I M} (h : NetConf R conf net) {net' : Net I M}
    (hstep : NetStep G R ConfigKept net net') (hlead : LedOnce net'.nodes) :
    (∃ conf', Extends conf conf' ∧ NetConf R conf' net') ∧
      ∀ i m, ((net.nodes i).masters m).configEpoch ≤ ((net'.nodes i).masters m).configEpoch := by
  have hone : ∀ {i : I} {t : SentinelState M}, (∃ conf', Extends conf conf' ∧ NetConf R conf' (net.setNode i t)) ∧
      (∀ m, ((net.nodes i).masters m).configEpoch ≤ (t.masters m).configEpoch) →
      (∃ conf', Extends conf conf' ∧ NetConf R conf' (net.setNode i t)) ∧
      ∀ k m, ((net.nodes k).masters m).configEpoch ≤ (((net.setNode i t).nodes k).masters m).configEpoch := by
    intro i t hit
    refine ⟨hit.1, fun k m => ?_⟩
    by_cases hk : k = i
    · rw [hk, setNode_self]
      exact hit.2 m
    · rw [setNode_other hk]
  cases hstep with
  | act hl ha hp hstep =>
    refine hone (h.acted ha hp hstep ?_ hlead)
    rintro msg rfl
    cases hl
  | @request i j env m addr epoch runid ri hsent ha hp =>
    obtain ⟨⟨conf', hext, hnet⟩, hmono⟩ := hone (h.acted ha hp rfl (fun _ he => by cases he) hlead)
    exact ⟨⟨conf', hext, hnet.node, hnet.won, hnet.made, hnet.hellos⟩, hmono⟩
  | @reply i j env m r t hsent hp hstep =>
    exact hone (h.acted (a := .downReply m (G.id j) r) trivial hp hstep (fun _ he => by cases he) hlead)
  | @publish i m =>
    refine ⟨⟨conf, fun _ _ _ => id, h.node, h.won, h.made, ?_⟩, fun _ _ => le_refl _⟩
    intro k msg hmem
    rcases List.mem_append.mp hmem with hmem | hmem
    · exact h.hellos k msg hmem
    · cases List.mem_singleton.mp hmem
      exact ⟨(h.node i m).current, (h.node i m).currentResolved, (h.node i m).epoch⟩
  | @hello i j env msg t hsent hother ha hp hstep =>
    refine hone (h.acted ha hp hstep ?_ hlead)
    rintro msg' he
    cases he
    exact h.hellos i msg hsent

omit [DecidableEq I] [DecidableEq M] in
/-- All start with the same address, in configuration epoch 0. -/
theorem start [Fintype M] {G : Group I M} {addr : M → Addr}
    (hG : ∀ i m, ((G.conf i).masters m).configEpoch = 0 ∧ ((G.conf i).masters m).addr = addr m)
    (hres : ∀ m, Resolved R (addr m)) (now : I → Int) :
    NetConf R (fun m c => if c = 0 then some (addr m) else none) (Net.start G R now) where
  node := by
    intro i m
    obtain ⟨slaves, hslaves⟩ := loadMaster_eq R (now i) ((G.conf i).masters m)
    have hloaded : ((Net.start G R now).nodes i).masters m = loadMaster R (now i) ((G.conf i).masters m) := rfl
    have hstate : (loadMaster R (now i) ((G.conf i).masters m)).failoverState = .none := by
      rw [hslaves]
      rfl
    have haddr : (loadMaster R (now i) ((G.conf i).masters m)).addr = addr m := by
      rw [hslaves]
      exact (hG i m).2
    have hepoch : (loadMaster R (now i) ((G.conf i).masters m)).configEpoch = 0 := by
      rw [hslaves]
      exact (hG i m).1
    have hnone : ∀ {n : Nat} {p : Prop}, n + 1 ≤ FailoverState.none.code → p := fun h => by cases h
    rw [hloaded]
    exact
      { tidy := loadMaster_tidy R (now i) _
        located := createSlaves_located R (now i) _ ⟨List.nodup_nil, fun _ h => by cases h⟩
          (fun _ h => by cases h)
        resolved := haddr ▸ hres m
        current := by
          rw [currentAddress_early (by rw [hstate]; decide), hepoch, haddr]
          rfl
        epoch := hepoch ▸ Nat.zero_le _
        begun := fun hc => hnone (hstate ▸ hc)
        early := fun hc => hnone (hstate ▸ hc)
        late := fun hc => hnone (hstate ▸ hc)
        led := fun hc => hnone (hstate ▸ hc) }
  won := by
    intro i m e he
    cases List.mem_singleton.mp he
  made := by
    intro m c a hc
    by_cases h0 : c = 0
    · exact .inl h0
    · simp [h0] at hc
  hellos := fun i msg hmem => by cases hmem

end NetConf

/-- Traces grow in every step. -/
theorem NetStep.grow {G : Group I M} {R : Resolver} {net net' : Net I M}
    {P : Env → SentinelState M → Option M → Action M → Prop} (h : NetStep G R P net net') (k : I) :
    (net.nodes k).trace <+: (net'.nodes k).trace := by
  rcases h.node k with hk | ⟨env, a, asked, ha, -, hstep⟩
  · rw [hk]
  · have hmoves : Moves (actionScope R (net.nodes k) False a) (net.nodes k) (net'.nodes k) :=
      step_moves R env ha hstep (fun hf => hf.elim)
    exact hmoves.trace_grows

theorem LedOnce.of_step {G : Group I M} {R : Resolver} {net net' : Net I M}
    {P : Env → SentinelState M → Option M → Action M → Prop} (h : NetStep G R P net net')
    (hlead : LedOnce net'.nodes) : LedOnce net.nodes :=
  fun i j m e hi hj => hlead i j m e ((h.grow i).subset hi) ((h.grow j).subset hj)

/-- A run keeps the agreement, and lowers no configuration epoch. -/
theorem NetConf.run {R : Resolver} {G : Group I M} {conf : M → Nat → Option Addr} {net net' : Net I M}
    (h : NetConf R conf net) (hrun : NetSteps G R ConfigKept net net') (hlead : LedOnce net'.nodes) :
    (∃ conf', NetConf R conf' net') ∧
      ∀ i m, ((net.nodes i).masters m).configEpoch ≤ ((net'.nodes i).masters m).configEpoch := by
  induction hrun with
  | refl => exact ⟨⟨conf, h⟩, fun _ _ => le_refl _⟩
  | tail _ hstep ih =>
    obtain ⟨⟨conf', hnet⟩, hmono⟩ := ih (hlead.of_step hstep)
    obtain ⟨⟨conf'', -, hnet'⟩, hmono'⟩ := hnet.step hstep hlead
    exact ⟨⟨conf'', hnet'⟩, fun i m => (hmono i m).trans (hmono' i m)⟩

/-- **Configurations are ordered by their epochs.**  In every run in which no two failovers of
    a master are led in one epoch and no Sentinel takes a newer configuration into a running
    failover, configuration epochs never decrease, hello messages about a master with the same
    configuration epoch carry the same address, and so Sentinels with the same configuration
    epoch agree on it. -/
theorem configs_ordered [Fintype M] (G : Group I M) (R : Resolver) (now : I → Int) (addr : M → Addr)
    (hG : ∀ i m, ((G.conf i).masters m).configEpoch = 0 ∧ ((G.conf i).masters m).addr = addr m)
    (hres : ∀ m, Resolved R (addr m)) {net net' : Net I M}
    (hrun : NetSteps G R ConfigKept (Net.start G R now) net) (hrun' : NetSteps G R ConfigKept net net')
    (hlead : LedOnce net'.nodes) :
    (∀ i m, ((net.nodes i).masters m).configEpoch ≤ ((net'.nodes i).masters m).configEpoch) ∧
    (∀ i j h h', (i, h) ∈ net'.hellos → (j, h') ∈ net'.hellos → h.master = h'.master →
      h.masterConfigEpoch = h'.masterConfigEpoch → h.masterAddr = h'.masterAddr) ∧
    ∀ i j m, ((net'.nodes i).masters m).configEpoch = ((net'.nodes j).masters m).configEpoch →
      sentinelGetCurrentMasterAddress ((net'.nodes i).masters m) =
        sentinelGetCurrentMasterAddress ((net'.nodes j).masters m) := by
  have hlead₁ : LedOnce net.nodes := by
    clear hrun
    induction hrun' with
    | refl => exact hlead
    | tail _ hstep ih => exact ih (hlead.of_step hstep)
  obtain ⟨⟨conf₁, h₁⟩, -⟩ := (NetConf.start hG hres now).run hrun hlead₁
  obtain ⟨⟨conf, h⟩, hmono⟩ := h₁.run hrun' hlead
  refine ⟨hmono, ?_, ?_⟩
  · intro i j msg msg' hmem hmem' hm hc
    have h₁ := (h.hellos i msg hmem).1
    have h₂ := (h.hellos j msg' hmem').1
    rw [hm, hc, h₂] at h₁
    exact (Option.some.inj h₁).symm
  · intro i j m hc
    have h₁ := (h.node i m).current
    rw [hc, (h.node j m).current] at h₁
    exact (Option.some.inj h₁).symm

/-! ## Two Sentinels, two failovers -/

instance (env : Env) (s : SentinelState M) : (a : Action M) → Decidable (StartsFailover env s a)
  | .handleMaster m => inferInstanceAs (Decidable ((leaveTilt env.now s).tilt = false ∧
      failoverNeeded env.now (sentinelCheckObjectivelyDown env.now { s.masters m with
        toInstance := sentinelCheckSubjectivelyDown env.now true (s.masters m).toInstance }) = true))
  | .failover m => inferInstanceAs (Decidable ((s.masters m).failoverInProgress = false ∧
      (sentinelSelectSlave env.now (s.masters m)).isSome = true))
  | .downRequest _ _ | .masterLink _ _ | .slaveLink _ _ _ | .peerLink _ _ _ | .checkTilt
  | .handleSlave _ _ | .handlePeer _ _ | .switchToPromoted _ | .masterInfo _ _ | .slaveInfo _ _ _
  | .downReply _ _ _ | .hello _ | .reset _ => inferInstanceAs (Decidable False)

instance (env : Env) (s : SentinelState M) (a : Action M) : Decidable (ElectionFits env s a) :=
  inferInstanceAs (Decidable (StartsFailover env s a → s.currentEpoch < 18446744073709551615))

instance (env : Env) (s : SentinelState M) (asked : Option M) :
    (a : Action M) → Decidable (ConfigKept env s asked a)
  | .hello h => inferInstanceAs (Decidable (ElectionFits env s (.hello h) ∧
      ¬ ((s.masters h.master).failoverInProgress = true ∧
        (s.masters h.master).failoverEpoch < h.masterConfigEpoch ∧
        h.masterAddr = (s.masters h.master).addr)))
  | .reset pattern => inferInstanceAs (Decidable (ElectionFits env s (.reset pattern) ∧ False))
  | .handleMaster m => inferInstanceAs (Decidable (ElectionFits env s (.handleMaster m) ∧ True))
  | .failover m => inferInstanceAs (Decidable (ElectionFits env s (.failover m) ∧ True))
  | .downRequest ri req => inferInstanceAs (Decidable (ElectionFits env s (.downRequest ri req) ∧ True))
  | .masterLink m l => inferInstanceAs (Decidable (ElectionFits env s (.masterLink m l) ∧ True))
  | .slaveLink m n l => inferInstanceAs (Decidable (ElectionFits env s (.slaveLink m n l) ∧ True))
  | .peerLink m n l => inferInstanceAs (Decidable (ElectionFits env s (.peerLink m n l) ∧ True))
  | .checkTilt => inferInstanceAs (Decidable (ElectionFits env s .checkTilt ∧ True))
  | .handleSlave m n => inferInstanceAs (Decidable (ElectionFits env s (.handleSlave m n) ∧ True))
  | .handlePeer m n => inferInstanceAs (Decidable (ElectionFits env s (.handlePeer m n) ∧ True))
  | .switchToPromoted m => inferInstanceAs (Decidable (ElectionFits env s (.switchToPromoted m) ∧ True))
  | .masterInfo m is => inferInstanceAs (Decidable (ElectionFits env s (.masterInfo m is) ∧ True))
  | .slaveInfo m r is => inferInstanceAs (Decidable (ElectionFits env s (.slaveInfo m r is) ∧ True))
  | .downReply m n r => inferInstanceAs (Decidable (ElectionFits env s (.downReply m n r) ∧ True))

/-- One master with a slave. -/
def duoConf (me : Bytes) : Config Unit where
  myid := me
  masters := fun _ =>
    { addr := ⟨[109], 1⟩, quorum := 1, downAfterPeriod := 30000, failoverTimeout := 10000,
      parallelSyncs := 1, configEpoch := 0, leaderEpoch := 0, knownSlaves := [⟨[115], 2⟩],
      knownSentinels := [] }
  currentEpoch := 0

def duo : Group Bool Unit where
  id := fun i => if i then [98] else [97]
  announce := fun i => ⟨if i then [98] else [97], 26379⟩
  conf := fun i => duoConf (if i then [98] else [97])

/-- The one slave of the table reports to be a master. -/
def slavePromoted (s : SentinelState Unit) : Action Unit :=
  match (s.masters ()).slaves with
  | slave :: _ => .slaveInfo () slave [.role .master]
  | [] => .checkTilt

/-- A failover that the operator asks for, up to the promotion of the one slave. -/
def promotion (i : Bool) (slave : Bytes) (t : Int) : List (NetEvent Bool Unit) :=
  [.act i (envAt t) (fun _ => .slaveLink () slave (connectedLink t)),
   .act i (envAt (t + 10)) (fun _ => .failover ()),
   .act i (envAt (t + 100)) (fun _ => .handleMaster ()),
   .act i (envAt (t + 200)) (fun _ => .handleMaster ()),
   .act i (envAt (t + 300)) (fun _ => .handleMaster ()),
   .act i (envAt (t + 400)) slavePromoted,
   .publish i ()]

/-- The first Sentinel promotes the slave and says so; the second, which has taken this
    configuration, promotes the old master; the first hears of it while its own failover is
    still reconfiguring slaves. -/
def crossedFailovers : List (NetEvent Bool Unit) :=
  promotion false [115, 58, 50] 100 ++ [.hello 0 true (envAt 600)] ++
    promotion true [109, 58, 49] 700 ++ [.hello 1 false (envAt 1200), .publish false ()]

theorem duo_start (i : Bool) (m : Unit) : ((duo.conf i).masters m).configEpoch = 0 ∧
    ((duo.conf i).masters m).addr = ⟨[109], 1⟩ := ⟨rfl, rfl⟩

theorem duo_resolved (_ : Unit) : Resolved literalResolver ⟨[109], 1⟩ := fun _ => rfl

/-- Each of the two has led one failover, in an epoch of its own. -/
theorem ledOnce_of_elections {nodes : Bool → SentinelState Unit} {a b : Nat} (hab : a ≠ b)
    (hf : elections (nodes false).trace = [((), a)]) (ht : ∀ x ∈ elections (nodes true).trace, x = ((), b)) :
    LedOnce nodes := by
  intro i j m e hi hj
  rw [← mem_elections] at hi hj
  have hone : ∀ k, (m, e) ∈ elections (nodes k).trace → e = if k then b else a := by
    intro k hk
    cases k with
    | false =>
      rw [hf] at hk
      exact congrArg Prod.snd (List.mem_singleton.mp hk)
    | true => exact congrArg Prod.snd (ht _ hk)
  have h₁ := hone i hi
  have h₂ := hone j hj
  cases i <;> cases j <;> simp_all

theorem configs_ordered_duo :
    ∃ net, NetSteps duo literalResolver ConfigKept (Net.start duo literalResolver (fun _ => 0)) net ∧
      ((net.nodes true).masters ()).configEpoch = 1 ∧ ((net.nodes false).masters ()).configEpoch = 1 ∧
      sentinelGetCurrentMasterAddress ((net.nodes true).masters ()) =
        sentinelGetCurrentMasterAddress ((net.nodes false).masters ()) := by
  have hb : (netExec duo literalResolver ConfigKept
      (promotion false [115, 58, 50] 100 ++ [.hello 0 true (envAt 600)])
      (Net.start duo literalResolver (fun _ => 0))).any (fun net =>
        elections (net.nodes false).trace = [((), 1)] && elections (net.nodes true).trace = [] &&
        ((net.nodes true).masters ()).configEpoch = 1 &&
        ((net.nodes false).masters ()).configEpoch = 1) = true := by decide +kernel
  obtain ⟨net, hnet, hfinal⟩ := (Option.any_eq_true _ _).mp hb
  simp only [Bool.and_eq_true, decide_eq_true_eq] at hfinal
  obtain ⟨⟨⟨hf, ht⟩, htrue⟩, hfalse⟩ := hfinal
  have hrun := netSteps_of_netExec hnet
  have hlead : LedOnce net.nodes := ledOnce_of_elections (a := 1) (b := 2) (by decide) hf
    (fun x hx => by rw [ht] at hx; cases hx)
  obtain ⟨-, -, hagree⟩ := configs_ordered duo literalResolver (fun _ => 0) (fun _ => ⟨[109], 1⟩)
    duo_start duo_resolved hrun Relation.ReflTransGen.refl hlead
  exact ⟨net, hrun, htrue, hfalse, hagree true false () (htrue.trans hfalse.symm)⟩

/-- Two addresses are advertised with the same configuration epoch. -/
theorem one_epoch_two_addresses :
    ∃ net, NetSteps duo literalResolver (fun _ _ _ _ => True)
        (Net.start duo literalResolver (fun _ => 0)) net ∧ LedOnce net.nodes ∧
      ∃ i j h h', (i, h) ∈ net.hellos ∧ (j, h') ∈ net.hellos ∧ h.master = h'.master ∧
        h.masterConfigEpoch = h'.masterConfigEpoch ∧ h.masterAddr ≠ h'.masterAddr := by
  have hb : (netExec duo literalResolver (fun _ _ _ _ => True) crossedFailovers
      (Net.start duo literalResolver (fun _ => 0))).any (fun net =>
        elections (net.nodes false).trace = [((), 1)] && elections (net.nodes true).trace = [((), 2)] &&
        net.hellos.map (fun p => (p.2.masterAddr, p.2.masterConfigEpoch)) =
          [(⟨[115], 2⟩, 1), (⟨[109], 1⟩, 2), (⟨[115], 2⟩, 2)]) = true := by decide +kernel
  obtain ⟨net, hnet, hfinal⟩ := (Option.any_eq_true _ _).mp hb
  simp only [Bool.and_eq_true, decide_eq_true_eq] at hfinal
  obtain ⟨⟨hf, ht⟩, hhellos⟩ := hfinal
  refine ⟨net, netSteps_of_netExec hnet, ledOnce_of_elections (a := 1) (b := 2) (by decide) hf ?_, ?_⟩
  · intro x hx
    rw [ht] at hx
    exact List.mem_singleton.mp hx
  · have hmem : ∀ q ∈ [((⟨[115], 2⟩ : Addr), 1), (⟨[109], 1⟩, 2), (⟨[115], 2⟩, 2)],
        ∃ p ∈ net.hellos, (p.2.masterAddr, p.2.masterConfigEpoch) = q := by
      rw [← hhellos]
      exact fun q hq => List.mem_map.mp hq
    obtain ⟨p, hp, hpq⟩ := hmem (⟨[109], 1⟩, 2) (by decide)
    obtain ⟨p', hp', hpq'⟩ := hmem (⟨[115], 2⟩, 2) (by decide)
    obtain ⟨haddr, hepoch⟩ := Prod.mk.inj hpq
    obtain ⟨haddr', hepoch'⟩ := Prod.mk.inj hpq'
    refine ⟨p.1, p'.1, p.2, p'.2, hp, hp', rfl, hepoch.trans hepoch'.symm, ?_⟩
    rw [haddr, haddr']
    decide

end Redis.Sentinel
