import Redis.Lib.Outcome
import Redis.Sentinel.Action

namespace Redis.Sentinel

/-!
# Sentinel — the invariant of the failover state machine

What holds of every master after any sequence of timer calls, replies, messages and commands.

* `FailoverInv` — the promoted slave, the flags and the state agree;
* `step_failoverInv` — every action keeps it, and no assertion fails on the way;
* `PromotedSpared` — the steps that send the promoted slave no `SLAVEOF` with an address;
* `failover_machine` — whole runs.
-/

open Outcome

variable {M : Type}

/-! ## The invariant -/

/-- What the invariant reads of a slave: name, `SRI_PROMOTED`, `SRI_RECONF_SENT`. -/
def Slave.key (slave : Slave) : Bytes × Bool × Bool := (slave.name, slave.promoted, slave.reconfSent)

/-- The promoted slave, the flags of the slaves and the state of the failover agree. -/
structure FailoverInv (keys : List (Bytes × Bool × Bool)) (promoted : Option Bytes)
    (inProgress : Bool) (state : FailoverState) : Prop where
  names : (keys.map (·.1)).Nodup
  running : inProgress = true ↔ state ≠ .none
  flagged : ∀ k ∈ keys, k.2.1 = true ↔ promoted = some k.1
  listed : ∀ n, promoted = some n → ∃ k ∈ keys, k.1 = n
  chosen : promoted.isSome ↔ 3 ≤ state.code
  sent : ∀ k ∈ keys, k.2.2 = true → 5 ≤ state.code

/-- The invariant of a master. -/
def Master.Inv (r : Master) : Prop :=
  FailoverInv (r.slaves.map Slave.key) r.promotedSlave r.failoverInProgress r.failoverState

/-- The invariant reads nothing else. -/
theorem Master.Inv.congr {r r' : Master} (h : r.Inv)
    (hk : r'.slaves.map Slave.key = r.slaves.map Slave.key)
    (hp : r'.promotedSlave = r.promotedSlave)
    (hb : r'.failoverInProgress = r.failoverInProgress)
    (hs : r'.failoverState = r.failoverState) : r'.Inv := by
  unfold Master.Inv at h ⊢
  rw [hk, hp, hb, hs]
  exact h

/-- A slave changed in what the invariant does not read. -/
theorem updateSlave_map {β : Type} {g : Slave → β} (slaves : List Slave) (name : Bytes) (f : Slave → Slave)
    (hf : ∀ slave ∈ slaves, slave.name = name → g (f slave) = g slave) :
    (updateSlave slaves name f).map g = slaves.map g := by
  unfold updateSlave
  rw [List.map_map]
  apply List.map_congr_left
  intro slave hslave
  by_cases hn : slave.name = name
  · simp only [Function.comp_apply, if_pos hn]
    exact hf slave hslave hn
  · simp only [Function.comp_apply, if_neg hn]

namespace FailoverInv

variable {keys : List (Bytes × Bool × Bool)} {promoted : Option Bytes} {inProgress : Bool}
  {state : FailoverState}

/-- No failover, no slave. -/
theorem nil : FailoverInv [] none false .none where
  names := List.nodup_nil
  running := by simp
  flagged := by simp
  listed := by simp
  chosen := by simp [FailoverState.code]
  sent := by simp

section

variable (h : FailoverInv keys promoted inProgress state)

include h

/-- A new slave under a new name. -/
theorem append {name : Bytes} (hname : ∀ k ∈ keys, k.1 ≠ name) :
    FailoverInv (keys ++ [(name, false, false)]) promoted inProgress state where
  names := by
    rw [List.map_append, List.nodup_append]
    refine ⟨h.names, by simp, ?_⟩
    intro a ha b hb
    obtain ⟨k, hk, rfl⟩ := List.mem_map.mp ha
    simp only [List.map_cons, List.map_nil, List.mem_singleton] at hb
    rw [hb]
    exact hname k hk
  running := h.running
  flagged := by
    intro k hk
    rcases List.mem_append.mp hk with hk | hk
    · exact h.flagged k hk
    · obtain rfl := List.mem_singleton.mp hk
      simp only [Bool.false_eq_true, false_iff]
      intro hp
      obtain ⟨k, hk, hn⟩ := h.listed name hp
      exact hname k hk hn
  listed := by
    intro n hn
    obtain ⟨k, hk, hkn⟩ := h.listed n hn
    exact ⟨k, List.mem_append_left _ hk, hkn⟩
  chosen := h.chosen
  sent := by
    intro k hk hs
    rcases List.mem_append.mp hk with hk | hk
    · exact h.sent k hk hs
    · obtain rfl := List.mem_singleton.mp hk
      cases hs

/-- The failover is started. -/
theorem start (hb : inProgress = false) :
    FailoverInv keys promoted true .waitStart := by
  have hstate : state = .none := by
    by_contra hne
    rw [h.running.mpr hne] at hb
    cases hb
  subst hstate
  exact
    { names := h.names
      running := by simp
      flagged := h.flagged
      listed := h.listed
      chosen := by
        rw [h.chosen]
        simp [FailoverState.code]
      sent := fun k hk hs => absurd (h.sent k hk hs) (by simp [FailoverState.code]) }

/-- A later state, on the same side of the choice of a slave. -/
theorem advance {state' : FailoverState} (h0 : state ≠ .none) (hle : state.code ≤ state'.code)
    (hside : 3 ≤ state'.code → 3 ≤ state.code) :
    FailoverInv keys promoted inProgress state' where
  names := h.names
  running := by
    refine iff_of_true (h.running.mpr h0) ?_
    intro hs
    subst hs
    apply h0
    cases state <;> simp [FailoverState.code] at hle ⊢
  flagged := h.flagged
  listed := h.listed
  chosen := h.chosen.trans ⟨fun h3 => h3.trans hle, hside⟩
  sent := fun k hk hs => (h.sent k hk hs).trans hle

/-- `SRI_RECONF_SENT` may be set late in a failover only. -/
theorem reconf {keys' : List (Bytes × Bool × Bool)} (hlate : 5 ≤ state.code)
    (hk : keys'.map (fun k => (k.1, k.2.1)) = keys.map (fun k => (k.1, k.2.1))) :
    FailoverInv keys' promoted inProgress state := by
  have hmem : ∀ k ∈ keys', ∃ k₀ ∈ keys, k₀.1 = k.1 ∧ k₀.2.1 = k.2.1 := by
    intro k hk'
    have : (k.1, k.2.1) ∈ keys.map (fun k => (k.1, k.2.1)) := by
      rw [← hk]
      exact List.mem_map_of_mem hk'
    obtain ⟨k₀, hk₀, he⟩ := List.mem_map.mp this
    exact ⟨k₀, hk₀, Prod.mk.inj he⟩
  have hmem' : ∀ k ∈ keys, ∃ k₀ ∈ keys', k₀.1 = k.1 := by
    intro k hk'
    have : (k.1, k.2.1) ∈ keys'.map (fun k => (k.1, k.2.1)) := by
      rw [hk]
      exact List.mem_map_of_mem hk'
    obtain ⟨k₀, hk₀, he⟩ := List.mem_map.mp this
    exact ⟨k₀, hk₀, (Prod.mk.inj he).1⟩
  exact
    { names := by
        have : keys'.map (·.1) = keys.map (·.1) := by
          simpa only [List.map_map, Function.comp_def] using congrArg (List.map Prod.fst) hk
        rw [this]
        exact h.names
      running := h.running
      flagged := by
        intro k hk'
        obtain ⟨k₀, hk₀, h1, h2⟩ := hmem k hk'
        rw [← h1, ← h2]
        exact h.flagged k₀ hk₀
      listed := by
        intro n hn
        obtain ⟨k, hk', hkn⟩ := h.listed n hn
        obtain ⟨k₀, hk₀, he⟩ := hmem' k hk'
        exact ⟨k₀, hk₀, he.trans hkn⟩
      chosen := h.chosen
      sent := fun _ _ _ => hlate }

end

/-- A slave is chosen. -/
theorem choose (h : FailoverInv keys promoted inProgress .selectSlave) {name : Bytes}
    (hname : ∃ k ∈ keys, k.1 = name) :
    FailoverInv (keys.map (fun k => if k.1 = name then (k.1, true, k.2.2) else k)) (some name)
      inProgress .sendSlaveofNoone := by
  have hnone : promoted = none := by
    have := h.chosen
    simpa [FailoverState.code] using this
  have hfst : ∀ k : Bytes × Bool × Bool,
      (if k.1 = name then (k.1, true, k.2.2) else k).1 = k.1 := by
    intro k
    by_cases hk : k.1 = name
    · rw [if_pos hk]
    · rw [if_neg hk]
  exact
    { names := by
        have : (keys.map (fun k => if k.1 = name then (k.1, true, k.2.2) else k)).map (·.1) =
            keys.map (·.1) := by
          simp only [List.map_map, Function.comp_def, hfst]
        rw [this]
        exact h.names
      running := iff_of_true (h.running.mpr (by simp)) (by simp)
      flagged := by
        intro k hk
        obtain ⟨k₀, hk₀, rfl⟩ := List.mem_map.mp hk
        rw [hfst, Option.some.injEq]
        by_cases hn : k₀.1 = name
        · simp only [if_pos hn, true_iff]
          exact hn.symm
        · rw [if_neg hn, h.flagged k₀ hk₀, hnone]
          simp only [reduceCtorEq, false_iff]
          exact fun he => hn he.symm
      listed := by
        intro n hn
        obtain ⟨k, hk, hkn⟩ := hname
        refine ⟨_, List.mem_map_of_mem hk, ?_⟩
        rw [hfst, hkn]
        exact Option.some.inj hn
      chosen := by simp [FailoverState.code]
      sent := by
        intro k hk hs
        obtain ⟨k₀, hk₀, rfl⟩ := List.mem_map.mp hk
        have hs' : k₀.2.2 = true := by
          by_cases hn : k₀.1 = name
          · rwa [if_pos hn] at hs
          · rwa [if_neg hn] at hs
        exact absurd (h.sent k₀ hk₀ hs') (by simp [FailoverState.code]) }

/-- The failover is given up before the promoted slave has acknowledged. -/
theorem abort (h : FailoverInv keys promoted inProgress state) (hstate : state.code ≤ 4) :
    FailoverInv (keys.map (fun k => if promoted = some k.1 then (k.1, false, k.2.2) else k)) none
      false .none := by
  have hfst : ∀ k : Bytes × Bool × Bool,
      (if promoted = some k.1 then (k.1, false, k.2.2) else k).1 = k.1 := by
    intro k
    by_cases hk : promoted = some k.1
    · rw [if_pos hk]
    · rw [if_neg hk]
  exact
    { names := by
        have : (keys.map (fun k => if promoted = some k.1 then (k.1, false, k.2.2) else k)).map
            (·.1) = keys.map (·.1) := by
          simp only [List.map_map, Function.comp_def, hfst]
        rw [this]
        exact h.names
      running := by simp
      flagged := by
        intro k hk
        obtain ⟨k₀, hk₀, rfl⟩ := List.mem_map.mp hk
        simp only [reduceCtorEq, iff_false]
        by_cases hn : promoted = some k₀.1
        · rw [if_pos hn]
          simp
        · rw [if_neg hn, h.flagged k₀ hk₀]
          exact hn
      listed := by simp
      chosen := by simp [FailoverState.code]
      sent := by
        intro k hk hs
        obtain ⟨k₀, hk₀, rfl⟩ := List.mem_map.mp hk
        have hs' : k₀.2.2 = true := by
          by_cases hn : promoted = some k₀.1
          · rwa [if_pos hn] at hs
          · rwa [if_neg hn] at hs
        have := h.sent k₀ hk₀ hs'
        omega }

end FailoverInv

variable {r : Master}

/-- A master moves on to a later state, on the same side of the choice of a slave. -/
theorem Master.Inv.advance (h : r.Inv) {state state' : FailoverState} (hstate : r.failoverState = state)
    (h0 : state ≠ .none) (hle : state.code ≤ state'.code) (hside : 3 ≤ state'.code → 3 ≤ state.code) (now : Int) :
    Master.Inv { r with failoverState := state', failoverStateChangeTime := now } := by
  subst hstate
  exact FailoverInv.advance h h0 hle hside

/-! ## Traces -/

/-- No `SLAVEOF` with an address went to a slave flagged `SRI_PROMOTED`. -/
def Spared (es : List (Effect M)) : Prop := ∀ m name addr, .slaveOf m name true (some addr) ∉ es

theorem Spared.append {es es' : List (Effect M)} (h : Spared es) (h' : Spared es') :
    Spared (es ++ es') := by
  intro m name addr hmem
  rcases List.mem_append.mp hmem with hmem | hmem
  · exact h m name addr hmem
  · exact h' m name addr hmem

theorem Spared.nil : Spared ([] : List (Effect M)) := by
  intro m name addr hmem
  cases hmem

variable (env : Env)

/-- `SLAVEOF NO ONE` spares everybody. -/
theorem spared_noone (m : M) (ri : Slave) : Spared (sentinelSendSlaveOf env m ri none).2 := by
  intro m' name addr hmem
  unfold sentinelSendSlaveOf at hmem
  dsimp only at hmem
  split at hmem
  · simp at hmem
  · cases hmem

/-- `SLAVEOF` to a slave that is not the promoted one. -/
theorem spared_other (m : M) {ri : Slave} (hri : ri.promoted = false) (target : Option Addr) :
    Spared (sentinelSendSlaveOf env m ri target).2 := by
  intro m' name addr hmem
  unfold sentinelSendSlaveOf at hmem
  dsimp only at hmem
  split at hmem
  · have := List.mem_singleton.mp hmem
    rw [hri] at this
    cases this
  · cases hmem

/-- In the late states the pointer is to a slave, and that slave carries the flag. -/
theorem Master.Inv.promoted_some (h : r.Inv) (h3 : 3 ≤ r.failoverState.code) :
    ∃ slave ∈ r.slaves, r.promoted = some slave ∧ r.promotedSlave = some slave.name ∧
      slave.promoted = true := by
  obtain ⟨name, hname⟩ := Option.isSome_iff_exists.mp (h.chosen.mpr h3)
  obtain ⟨k, hk, hkn⟩ := h.listed name hname
  obtain ⟨slave₀, hslave₀, rfl⟩ := List.mem_map.mp hk
  have hfind : (r.slaves.find? (·.name = name)).isSome := by
    rw [List.find?_isSome]
    exact ⟨slave₀, hslave₀, decide_eq_true hkn⟩
  obtain ⟨slave, hslave⟩ := Option.isSome_iff_exists.mp hfind
  have hmem := List.mem_of_find?_eq_some hslave
  have hn : slave.name = name := by simpa using List.find?_some hslave
  refine ⟨slave, hmem, ?_, by rw [hname, hn], ?_⟩
  · unfold Master.promoted
    rw [hname]
    exact hslave
  · exact (h.flagged slave.key (List.mem_map_of_mem hmem)).mpr (by rw [hname, ← hn]; rfl)

/-! ## Reconfiguring the slaves -/

/-- What reconfiguring does to a slave: nothing at all to the promoted one. -/
def Reconfigured (a b : Slave) : Prop :=
  b.name = a.name ∧ b.promoted = a.promoted ∧ (a.promoted = true → b = a)

theorem Reconfigured.refl (a : Slave) : Reconfigured a a := ⟨rfl, rfl, fun _ => rfl⟩

/-- A slave that is not promoted may change in everything but its name. -/
theorem Reconfigured.of_other {a b : Slave} (hname : b.name = a.name) (ha : a.promoted = false)
    (hb : b.promoted = false) : Reconfigured a b :=
  ⟨hname, hb.trans ha.symm, fun h => absurd h (by rw [ha]; decide)⟩

theorem reconfTimeout_name (now : Int) (slave : Slave) : (reconfTimeout now slave).name = slave.name := by
  unfold reconfTimeout
  split <;> rfl

theorem reconfTimeout_promoted (now : Int) (slave : Slave) :
    (reconfTimeout now slave).promoted = slave.promoted := by
  unfold reconfTimeout
  split <;> rfl

/-- The loop of `sentinelFailoverReconfNextSlave` spares the promoted slave. -/
theorem reconfNextSlaves_spec (m : M) (target : Addr) (parallelSyncs : Int) (slaves : List Slave) :
    ∀ inProgress, Sat (reconfNextSlaves env m (some target) parallelSyncs inProgress slaves)
      (fun p => List.Forall₂ Reconfigured slaves p.1 ∧ Spared p.2) (fun _ => False) := by
  induction slaves with
  | nil =>
    intro inProgress
    exact ⟨List.Forall₂.nil, Spared.nil⟩
  | cons slave slaves ih =>
    intro inProgress
    unfold reconfNextSlaves
    refine Sat.ite (fun _ => ?_) (fun _ => ?_)
    · exact ⟨List.forall₂_same.mpr (fun a _ => Reconfigured.refl a), Spared.nil⟩
    · refine Sat.ite (fun _ => ?_) (fun hskip => ?_)
      · refine (ih inProgress).bind (fun p hp => ?_)
        exact ⟨List.Forall₂.cons (Reconfigured.refl slave) hp.1, hp.2⟩
      · have hp : slave.promoted = false := by
          simp only [Bool.or_eq_true, not_or, Bool.not_eq_true] at hskip
          exact hskip.1
        have hp' : (reconfTimeout env.now slave).promoted = false := by
          rw [reconfTimeout_promoted, hp]
        dsimp only
        refine Sat.ite (fun _ => ?_) (fun _ => ?_)
        · refine (ih inProgress).bind (fun p hq => ?_)
          exact ⟨List.Forall₂.cons
            (Reconfigured.of_other (reconfTimeout_name _ _) hp hp') hq.1, hq.2⟩
        · refine (ih _).bind (fun p hq => ?_)
          refine ⟨List.Forall₂.cons (Reconfigured.of_other ?_ hp ?_) hq.1,
            (spared_other env m hp' _).append hq.2⟩
          · split
            · exact reconfTimeout_name _ _
            · exact reconfTimeout_name _ _
          · split
            · exact hp'
            · exact hp'

/-- The last attempt on the slaves at a timeout: names and `SRI_PROMOTED` stay, and the
    promoted slave is spared when its connection takes nothing. -/
theorem reconfAtTimeout_spec (m : M) (target : Addr) (slaves : List Slave) :
    (reconfAtTimeout env m target slaves).1.map (fun slave => (slave.name, slave.promoted)) =
        slaves.map (fun slave => (slave.name, slave.promoted)) ∧
      ((∀ slave ∈ slaves, slave.promoted = true →
        slave.link.disconnected = true ∨ env.accept slave.name < 2) →
        Spared (reconfAtTimeout env m target slaves).2) := by
  induction slaves with
  | nil => exact ⟨rfl, fun _ => Spared.nil⟩
  | cons slave slaves ih =>
    unfold reconfAtTimeout
    dsimp only
    by_cases hskip : (slave.reconfDone || slave.reconfSent || slave.link.disconnected) = true
    · rw [if_pos hskip]
      refine ⟨by simp only [List.map_cons, ih.1], fun hall => ih.2 ?_⟩
      exact fun sl hsl => hall sl (List.mem_cons_of_mem _ hsl)
    · rw [if_neg hskip]
      have hlink : slave.link.disconnected = false := by
        simp only [Bool.or_eq_true, not_or, Bool.not_eq_true] at hskip
        exact hskip.2
      constructor
      · rw [List.map_cons, List.map_cons, ih.1]
        congr 1
        split <;> rfl
      · intro hall
        refine Spared.append ?_ (ih.2 (fun sl hsl => hall sl (List.mem_cons_of_mem _ hsl)))
        cases hp : slave.promoted with
        | false => exact spared_other env m hp _
        | true =>
          -- the promoted slave: nothing goes out
          have hacc : env.accept slave.name < 2 := by
            rcases hall slave List.mem_cons_self hp with hd | hd
            · rw [hlink] at hd
              cases hd
            · exact hd
          unfold sentinelSendSlaveOf
          dsimp only
          rw [if_neg (by omega)]
          exact Spared.nil

/-- `SRI_RECONF_SENT` may be set late in a failover only. -/
theorem Master.Inv.withSlaves (h : r.Inv) {slaves : List Slave} (hlate : 5 ≤ r.failoverState.code)
    (hk : slaves.map (fun slave => (slave.name, slave.promoted)) =
      r.slaves.map (fun slave => (slave.name, slave.promoted))) :
    Master.Inv { r with slaves := slaves } := by
  refine FailoverInv.reconf h hlate ?_
  rw [List.map_map, List.map_map]
  exact hk

/-- At the end of a failover by timeout the promoted slave takes commands. -/
def TimeoutHits (env : Env) (r : Master) : Prop :=
  env.now - r.failoverStateChangeTime > r.failoverTimeout ∧
    ∃ slave, r.promoted = some slave ∧ slave.sDown = false ∧ slave.link.disconnected = false ∧
      2 ≤ env.accept slave.name

/-- The promoted slave is the only one with the flag. -/
theorem Master.Inv.promoted_unique (h : r.Inv) {slave other : Slave} (hslave : r.promoted = some slave)
    (hother : other ∈ r.slaves) (hp : other.promoted = true) :
    other = slave := by
  unfold Master.promoted at hslave
  obtain ⟨name, hname, hfind⟩ := Option.bind_eq_some_iff.mp hslave
  have hmem := List.mem_of_find?_eq_some hfind
  have hn : slave.name = name := by simpa using List.find?_some hfind
  have ho : r.promotedSlave = some other.name :=
    (h.flagged other.key (List.mem_map_of_mem hother)).mp hp
  have hsame : other.name = slave.name := by
    rw [hn]
    rw [hname] at ho
    exact (Option.some.inj ho).symm
  have hnodup : (r.slaves.map (·.name)).Nodup := by
    have := h.names
    rwa [List.map_map] at this
  exact List.inj_on_of_nodup_map hnodup hother hmem hsame

/-- `sentinelFailoverDetectEnd`. -/
theorem detectEnd_spec (m : M) (h : r.Inv) (hstate : r.failoverState = .reconfSlaves) :
    (sentinelFailoverDetectEnd env m r).1.Inv ∧
      (¬ TimeoutHits env r → Spared (sentinelFailoverDetectEnd env m r).2) := by
  obtain ⟨slave, hmem, hslave, -, -⟩ := h.promoted_some (by rw [hstate]; decide)
  unfold sentinelFailoverDetectEnd
  rw [hslave]
  dsimp only
  by_cases hdown : slave.sDown = true
  · rw [if_pos hdown]
    exact ⟨h, fun _ => Spared.nil⟩
  · rw [if_neg hdown]
    have hended : Master.Inv { r with
        failoverState := .updateConfig, failoverStateChangeTime := env.now } :=
      h.advance hstate (by decide) (by decide) (by decide) env.now
    by_cases htime : env.now - r.failoverStateChangeTime > r.failoverTimeout
    · rw [if_pos htime, if_pos (Or.inl htime)]
      have hspec := reconfAtTimeout_spec env m slave.addr r.slaves
      refine ⟨?_, fun hhit => hspec.2 ?_⟩
      · exact hended.withSlaves (show 5 ≤ FailoverState.updateConfig.code by decide) hspec.1
      · intro other hother hp
        obtain rfl := h.promoted_unique hslave hother hp
        by_cases hlink : other.link.disconnected = true
        · exact Or.inl hlink
        · refine Or.inr (Nat.lt_of_not_le (fun hacc => hhit ?_))
          exact ⟨htime, other, hslave, by simpa using hdown, by simpa using hlink, hacc⟩
    · rw [if_neg htime]
      refine ⟨?_, fun _ => Spared.nil⟩
      split
      · exact hended
      · exact h

/-- Reconfiguring keeps names and `SRI_PROMOTED`. -/
theorem map_of_reconfigured {slaves slaves' : List Slave}
    (h : List.Forall₂ Reconfigured slaves slaves') :
    slaves'.map (fun slave => (slave.name, slave.promoted)) =
      slaves.map (fun slave => (slave.name, slave.promoted)) := by
  induction h with
  | nil => rfl
  | cons hab _ ih => rw [List.map_cons, List.map_cons, ih, hab.1, hab.2.1]

/-- Reconfiguring keeps the promoted slave. -/
theorem promoted_of_reconfigured {slaves slaves' : List Slave}
    (h : List.Forall₂ Reconfigured slaves slaves') {name : Bytes} {slave : Slave}
    (hfind : slaves.find? (·.name = name) = some slave) (hp : slave.promoted = true) :
    slaves'.find? (·.name = name) = some slave := by
  induction h with
  | nil => cases hfind
  | @cons a b l l' hab _ ih =>
    by_cases hn : a.name = name
    · rw [List.find?_cons_of_pos (by simpa using hn)] at hfind
      obtain rfl := Option.some.inj hfind
      rw [hab.2.2 hp, List.find?_cons_of_pos (by simpa using hn)]
    · rw [List.find?_cons_of_neg (by simpa using hn)] at hfind
      rw [List.find?_cons_of_neg (by simpa [hab.1] using hn)]
      exact ih hfind

/-! ## States -/

theorem leaveTilt_masters (now : Int) (s : SentinelState M) :
    (leaveTilt now s).masters = s.masters := by
  unfold leaveTilt
  split <;> rfl

/-- The invariant of all masters, and under the condition `c` a trace that spares the promoted
    slaves. -/
structure Sound (c : Prop) (s : SentinelState M) : Prop where
  inv : ∀ m, (s.masters m).Inv
  spared : c → Spared s.trace

namespace Sound

variable {c : Prop} {s : SentinelState M} (h : Sound c s)

include h

/-- An effect that is no `SLAVEOF` with an address. -/
theorem emit {e : Effect M}
    (he : ∀ m name addr, e ≠ .slaveOf m name true (some addr)) : Sound c (s.emit e) where
  inv := h.inv
  spared := by
    intro hc
    refine (h.spared hc).append ?_
    intro m name addr hmem
    exact he m name addr (List.mem_singleton.mp hmem).symm

theorem flush : Sound c s.sentinelFlushConfig := h.emit (by simp)

theorem withEpoch (epoch : Nat) : Sound c { s with currentEpoch := epoch } :=
  ⟨h.inv, h.spared⟩

theorem raiseEpoch (epoch : Nat) : Sound c (Sentinel.raiseEpoch s epoch) := by
  unfold Sentinel.raiseEpoch
  by_cases hlt : s.currentEpoch < epoch
  · rw [if_pos hlt]
    exact (h.withEpoch epoch).flush
  · rw [if_neg hlt]
    exact h

theorem leaveTilt (now : Int) : Sound c (Sentinel.leaveTilt now s) := by
  unfold Sentinel.leaveTilt
  split
  · exact ⟨h.inv, h.spared⟩
  · exact h

variable [DecidableEq M]

theorem set {m : M} (hr : r.Inv) : Sound c (s.set m r) where
  inv := by
    intro k
    unfold SentinelState.set
    by_cases hk : k = m
    · simpa only [if_pos hk] using hr
    · simpa only [if_neg hk] using h.inv k
  spared := h.spared

theorem put {m : M} {es : List (Effect M)} (hr : r.Inv) (hes : c → Spared es) :
    Sound c (s.put m r es) where
  inv := (h.set hr).inv
  spared := fun hc => (h.spared hc).append (hes hc)

end Sound

variable [DecidableEq M]

@[simp] theorem set_masters_self (s : SentinelState M) (m : M) (r : Master) :
    (s.set m r).masters m = r := by
  simp [SentinelState.set]

/-! ## Votes -/

section Votes

variable {c : Prop} {s : SentinelState M} (env : Env) (m : M)

/-- A vote does not touch the failover. -/
theorem voteLeader_failover (epoch : Nat) (runid : Bytes) :
    let r := (sentinelVoteLeader env s m epoch runid).1.masters m
    r.failoverState = (s.masters m).failoverState ∧
      r.failoverInProgress = (s.masters m).failoverInProgress := by
  have hraise : (raiseEpoch s epoch).masters = s.masters := by
    unfold raiseEpoch
    split <;> rfl
  unfold sentinelVoteLeader
  dsimp only
  split
  · unfold giveVote
    dsimp only
    split <;> simp [SentinelState.emit, SentinelState.sentinelFlushConfig, hraise]
  · rw [hraise]
    exact ⟨rfl, rfl⟩

variable (h : Sound c s)

include h

theorem Sound.giveVote (runid : Bytes) : Sound c (giveVote env s m runid) := by
  have hr : ({ s.masters m with leader := some runid, leaderEpoch := s.currentEpoch } : Master).Inv :=
    (h.inv m).congr rfl rfl rfl rfl
  unfold Sentinel.giveVote
  dsimp only
  split
  · exact ((h.set hr).flush).emit (by simp)
  · exact (((h.set hr).flush).emit (by simp)).set ((h.inv m).congr rfl rfl rfl rfl)

theorem Sound.voteLeader (epoch : Nat) (runid : Bytes) :
    Sound c (sentinelVoteLeader env s m epoch runid).1 := by
  unfold sentinelVoteLeader
  dsimp only
  split
  · exact (h.raiseEpoch epoch).giveVote env m runid
  · exact h.raiseEpoch epoch

/-- `sentinelGetLeader` is called during a failover only. -/
theorem Sound.getLeader (epoch : Nat)
    (hb : (s.masters m).failoverInProgress = true) :
    Sat (sentinelGetLeader env s m epoch)
      (fun p => Sound c p.1 ∧
        (p.1.masters m).failoverState = (s.masters m).failoverState ∧
        (p.1.masters m).failoverInProgress = true) (fun _ => False) := by
  unfold sentinelGetLeader
  dsimp only
  have hguard : ¬ (!((s.masters m).oDown || (s.masters m).failoverInProgress)) = true := by
    simp [hb]
  rw [if_neg hguard]
  generalize (mostVoted (env.order (countVotes s.currentEpoch (s.masters m).sentinels))).2.getD
    s.myid = cand
  have hsound := h.voteLeader env m epoch cand
  have hkeep := voteLeader_failover (s := s) env m epoch cand
  rw [hb] at hkeep
  exact ⟨hsound, hkeep⟩

theorem Sound.ask (forced : Bool) :
    Sound c (sentinelAskMasterStateToOtherSentinels env forced s m) where
  inv := (h.set (m := m) (r := { s.masters m with
    sentinels := (s.masters m).sentinels.map (forgetOldReply env.now) })
    ((h.inv m).congr rfl rfl rfl rfl)).inv
  spared := by
    intro hc
    refine (h.spared hc).append ?_
    intro m' name addr hmem
    obtain ⟨ri, -, hri⟩ := List.mem_map.mp hmem
    cases hri

theorem Sound.startFailover (hb : (s.masters m).failoverInProgress = false) :
    Sound c (sentinelStartFailover env s m) :=
  (h.withEpoch _).set ((h.inv m).start hb)

theorem Sound.startFailoverIfNeeded :
    Sound c (sentinelStartFailoverIfNeeded env s m) := by
  unfold sentinelStartFailoverIfNeeded
  by_cases hn : failoverNeeded env.now (s.masters m)
  · rw [if_pos hn]
    have hb : (s.masters m).failoverInProgress = false := by
      unfold failoverNeeded at hn
      simp only [Bool.and_eq_true, Bool.not_eq_true'] at hn
      exact hn.1.2
    exact (h.startFailover env m hb).ask env m true
  · rw [if_neg hn]
    exact h

end Votes

/-! ## The states -/

section States

variable {c : Prop} {s : SentinelState M} (env : Env) (m : M)

/-- The keys after an abort. -/
theorem clearPromoted_keys (ri : Master) :
    (clearPromoted ri).map Slave.key = (ri.slaves.map Slave.key).map
      (fun k => if ri.promotedSlave = some k.1 then (k.1, false, k.2.2) else k) := by
  unfold clearPromoted
  cases hp : ri.promotedSlave with
  | none => simp
  | some name =>
    simp only [updateSlave, List.map_map]
    apply List.map_congr_left
    intro slave _
    by_cases hn : slave.name = name
    · simp [Slave.key, hn]
    · have hn' : ¬ name = slave.name := fun h => hn h.symm
      simp [Slave.key, hn, hn']

/-- `sentinelAbortFailover` is called during a failover, before the promotion is done. -/
theorem Sound.abortFailover (h : Sound c s) (hb : (s.masters m).failoverInProgress = true)
    (hstate : (s.masters m).failoverState.code ≤ 4) :
    Sat (abortFailover env s m) (Sound c) (fun _ => False) := by
  unfold Sentinel.abortFailover sentinelAbortFailover
  have hcode : ¬ FailoverState.waitPromotion.code < (s.masters m).failoverState.code := by
    have : FailoverState.waitPromotion.code = 4 := rfl
    omega
  simp only [hb, Bool.not_true, Bool.false_eq_true, if_false, if_neg hcode]
  refine h.set ?_
  unfold Master.Inv
  dsimp only
  rw [clearPromoted_keys]
  exact (h.inv m).abort hstate

theorem Sound.waitStart (h : Sound c s) (hb : (s.masters m).failoverInProgress = true)
    (hstate : (s.masters m).failoverState = .waitStart) :
    Sat (sentinelFailoverWaitStart env s m) (Sound c) (fun _ => False) := by
  unfold sentinelFailoverWaitStart
  refine (h.getLeader env m _ hb).bind ?_
  intro p hp
  obtain ⟨hsound, hst, hb'⟩ := hp
  rw [hstate] at hst
  dsimp only
  refine Sat.ite (fun _ => ?_) (fun _ => ?_)
  · refine Sat.ite (fun _ => ?_) (fun _ => hsound)
    exact hsound.abortFailover env m hb' (by rw [hst]; decide)
  · refine (hsound.emit (by simp)).set ?_
    exact (hsound.inv m).advance hst (by decide) (by decide) (by decide) env.now

/-- A selected slave is one of the slaves. -/
theorem sentinelSelectSlave_mem {now : Int} {master : Master} {slave : Slave}
    (h : sentinelSelectSlave now master = some slave) : slave ∈ master.slaves := by
  unfold sentinelSelectSlave at h
  have hmem := List.mem_of_mem_head? h
  rw [List.mem_insertionSort] at hmem
  exact List.mem_of_mem_filter hmem

section

variable (h : Sound c s) (hb : (s.masters m).failoverInProgress = true)

include h hb

theorem Sound.selectSlave (hstate : (s.masters m).failoverState = .selectSlave) :
    Sat (sentinelFailoverSelectSlave env s m) (Sound c) (fun _ => False) := by
  unfold sentinelFailoverSelectSlave
  dsimp only
  cases hsel : sentinelSelectSlave env.now (s.masters m) with
  | none => exact h.abortFailover env m hb (by rw [hstate]; decide)
  | some slave =>
    refine h.set ?_
    have hinv : FailoverInv ((s.masters m).slaves.map Slave.key) (s.masters m).promotedSlave
        (s.masters m).failoverInProgress .selectSlave := hstate ▸ h.inv m
    have hmem : ∃ k ∈ (s.masters m).slaves.map Slave.key, k.1 = slave.name :=
      ⟨slave.key, List.mem_map_of_mem (sentinelSelectSlave_mem hsel), rfl⟩
    have hkeys : (updateSlave (s.masters m).slaves slave.name
        (fun slave => { slave with promoted := true })).map Slave.key =
        ((s.masters m).slaves.map Slave.key).map
          (fun k => if k.1 = slave.name then (k.1, true, k.2.2) else k) := by
      simp only [updateSlave, List.map_map]
      apply List.map_congr_left
      intro sl _
      by_cases hn : sl.name = slave.name
      · simp [Slave.key, hn]
      · simp [Slave.key, hn]
    unfold Master.Inv
    dsimp only
    rw [hkeys]
    exact hinv.choose hmem

theorem Sound.sendSlaveOfNoOne (hstate : (s.masters m).failoverState = .sendSlaveofNoone) :
    Sat (sentinelFailoverSendSlaveOfNoOne env s m) (Sound c) (fun _ => False) := by
  obtain ⟨slave, -, hslave, -, -⟩ := (h.inv m).promoted_some (by rw [hstate]; decide)
  unfold sentinelFailoverSendSlaveOfNoOne
  dsimp only
  rw [hslave]
  dsimp only
  refine Sat.ite (fun _ => ?_) (fun _ => ?_)
  · refine Sat.ite (fun _ => ?_) (fun _ => h)
    exact h.abortFailover env m hb (by rw [hstate]; decide)
  · refine Sat.ite (fun _ => ?_) (fun _ => ?_)
    · refine h.put ?_ (fun _ => spared_noone env m slave)
      exact (h.inv m).advance hstate (by decide) (by decide) (by decide) env.now
    · exact h.put (h.inv m) (fun _ => spared_noone env m slave)

theorem Sound.waitPromotion (hstate : (s.masters m).failoverState = .waitPromotion) :
    Sat (sentinelFailoverWaitPromotion env s m) (Sound c) (fun _ => False) := by
  unfold sentinelFailoverWaitPromotion
  refine Sat.ite (fun _ => ?_) (fun _ => h)
  exact h.abortFailover env m hb (by rw [hstate]; decide)

end

theorem Sound.reconfNextSlave (h : Sound c s)
    (hstate : (s.masters m).failoverState = .reconfSlaves)
    (hc : c → ¬ TimeoutHits env (s.masters m)) :
    Sat (sentinelFailoverReconfNextSlave env s m) (Sound c) (fun _ => False) := by
  obtain ⟨slave, hmem, hslave, -, hp⟩ := (h.inv m).promoted_some (by rw [hstate]; decide)
  unfold sentinelFailoverReconfNextSlave
  dsimp only
  rw [hslave]
  refine (reconfNextSlaves_spec env m slave.addr _ _ _).bind (fun p hspec => ?_)
  obtain ⟨hrel, hspared⟩ := hspec
  -- the promoted slave is as it was
  have hpromoted : Master.promoted { s.masters m with slaves := p.1 } = some slave := by
    unfold Master.promoted at hslave ⊢
    obtain ⟨name, hname, hfind⟩ := Option.bind_eq_some_iff.mp hslave
    dsimp only
    rw [hname]
    exact promoted_of_reconfigured hrel hfind hp
  have hinv : Master.Inv { s.masters m with slaves := p.1 } := by
    exact (h.inv m).withSlaves (by rw [hstate]; decide) (map_of_reconfigured hrel)
  have hspec := detectEnd_spec env m hinv hstate
  refine h.put hspec.1 (fun hc' => hspared.append (hspec.2 ?_))
  intro hhit
  refine hc hc' ⟨hhit.1, ?_⟩
  obtain ⟨sl, hsl, hrest⟩ := hhit.2
  rw [hpromoted] at hsl
  obtain rfl := Option.some.inj hsl
  exact ⟨slave, hslave, hrest⟩

theorem Sound.stateMachine (h : Sound c s)
    (hc : c → (s.masters m).failoverState = .reconfSlaves → ¬ TimeoutHits env (s.masters m)) :
    Sat (sentinelFailoverStateMachine env s m) (Sound c) (fun _ => False) := by
  unfold sentinelFailoverStateMachine
  refine Sat.ite (fun hb => ?_) (fun _ => h)
  cases hstate : (s.masters m).failoverState with
  | none => exact h
  | waitStart => exact h.waitStart env m hb hstate
  | selectSlave => exact h.selectSlave env m hb hstate
  | sendSlaveofNoone => exact h.sendSlaveOfNoOne env m hb hstate
  | waitPromotion => exact h.waitPromotion env m hb hstate
  | reconfSlaves => exact h.reconfNextSlave env m hstate (fun hc' => hc hc' hstate)
  | updateConfig => exact h

end States

/-! ## The timer -/

section Timer

variable {c : Prop} {s : SentinelState M} (env : Env) (m : M)

theorem checkSubjectivelyDown_addr (now : Int) (isMaster : Bool) (ri : Instance) :
    (sentinelCheckSubjectivelyDown now isMaster ri).addr = ri.addr := by
  unfold sentinelCheckSubjectivelyDown
  dsimp only
  generalize (if ri.link.actPingTime ≠ 0 then now - ri.link.actPingTime
    else if ri.link.disconnected then now - ri.link.lastAvailTime else 0) = elapsed
  split
  · split <;> rfl
  · rfl

/-- The checks of the timer touch neither the failover nor the slaves. -/
theorem checks_eq (now : Int) (r : Master) :
    ∃ i o t, sentinelCheckObjectivelyDown now
      { r with toInstance := sentinelCheckSubjectivelyDown now true r.toInstance } =
      { r with toInstance := i, oDown := o, oDownSinceTime := t } ∧ i.addr = r.addr := by
  have haddr : (sentinelCheckSubjectivelyDown now true r.toInstance).addr = r.addr :=
    checkSubjectivelyDown_addr now true r.toInstance
  unfold sentinelCheckObjectivelyDown
  dsimp only
  split
  · split
    · exact ⟨_, _, _, rfl, haddr⟩
    · exact ⟨_, _, _, rfl, haddr⟩
  · exact ⟨_, _, _, rfl, haddr⟩

/-- A failover that was just started is in its first state. -/
theorem startFailoverIfNeeded_reconf (s : SentinelState M)
    (h : ((sentinelStartFailoverIfNeeded env s m).masters m).failoverState = .reconfSlaves) :
    sentinelStartFailoverIfNeeded env s m = s := by
  unfold sentinelStartFailoverIfNeeded at h ⊢
  by_cases hn : failoverNeeded env.now (s.masters m) = true
  · rw [if_pos hn] at h
    simp [sentinelAskMasterStateToOtherSentinels, sentinelStartFailover, SentinelState.set] at h
  · rw [if_neg hn]

theorem Sound.handleMaster (h : Sound c s)
    (hc : c → (Sentinel.leaveTilt env.now s).tilt = false →
      (s.masters m).failoverState = .reconfSlaves → ¬ TimeoutHits env (s.masters m)) :
    Sat (sentinelHandleMaster env s m) (Sound c) (fun _ => False) := by
  have hs := h.leaveTilt env.now
  unfold sentinelHandleMaster
  dsimp only
  refine Sat.ite (fun _ => hs) (fun htilt => ?_)
  rw [leaveTilt_masters]
  obtain ⟨i, o, t, he, -⟩ := checks_eq env.now (s.masters m)
  rw [he]
  have hinv : Master.Inv { s.masters m with toInstance := i, oDown := o, oDownSinceTime := t } :=
    (h.inv m).congr rfl rfl rfl rfl
  have hset := hs.set (m := m) hinv
  refine ((hset.startFailoverIfNeeded env m).stateMachine env m ?_).bind
    (fun u hu => hu.ask env m false)
  intro hc' hstate
  have hsame := startFailoverIfNeeded_reconf env m _ hstate
  rw [hsame, set_masters_self] at hstate ⊢
  exact hc hc' (by simpa using htilt) hstate

theorem Sound.handleSlave (h : Sound c s) (name : Bytes) : Sound c (sentinelHandleSlave env s m name) := by
  have hs := h.leaveTilt env.now
  unfold sentinelHandleSlave
  dsimp only
  split
  · exact hs
  · exact hs.set ((hs.inv m).congr (updateSlave_map _ _ _ (fun _ _ _ => rfl)) rfl rfl rfl)

theorem Sound.handlePeer (h : Sound c s) (runid : Bytes) : Sound c (sentinelHandlePeer env s m runid) := by
  have hs := h.leaveTilt env.now
  unfold sentinelHandlePeer
  dsimp only
  split
  · exact hs
  · exact hs.set ((hs.inv m).congr rfl rfl rfl rfl)

end Timer

/-! ## Creation and reset -/

section Reset

variable {c : Prop} {s : SentinelState M} (R : Resolver) (env : Env) (m : M)

theorem Master.Inv.createSlave (h : r.Inv) (now : Int) (host : Bytes) (port : Int) :
    (createSlave R now r host port).Inv := by
  unfold Sentinel.createSlave
  cases createSentinelAddr R now host port with
  | none => exact h
  | some addr =>
    dsimp only
    by_cases hany : r.slaves.any (·.name = anetFormatAddr host port) = true
    · rw [if_pos hany]
      exact h
    · rw [if_neg hany]
      unfold Master.Inv
      dsimp only
      rw [List.map_append]
      refine FailoverInv.append h ?_
      intro k hk hn
      obtain ⟨slave, hslave, rfl⟩ := List.mem_map.mp hk
      exact hany (List.any_eq_true.mpr ⟨slave, hslave, decide_eq_true hn⟩)

theorem Master.Inv.createSlaves (h : r.Inv) (now : Int) (addrs : List Addr) :
    (addrs.foldl (fun r a => Sentinel.createSlave R now r a.ip a.port) r).Inv := by
  induction addrs generalizing r with
  | nil => exact h
  | cons a addrs ih => exact ih (h.createSlave R now a.ip a.port)

theorem resetMaster_inv (now : Int) (noSentinels : Bool) (r : Master) :
    (sentinelResetMaster now noSentinels r).Inv :=
  FailoverInv.nil

theorem switchAddress_inv (now : Int) (r : Master) (addr : Addr) :
    (switchAddress R now r addr).Inv := by
  unfold switchAddress
  apply Master.Inv.createSlaves
  exact FailoverInv.nil

theorem Sound.changeAddress (h : Sound c s) (ip : Bytes) (port : Int) :
    Sound c (sentinelResetMasterAndChangeAddress R env s m ip port) := by
  unfold sentinelResetMasterAndChangeAddress
  cases createSentinelAddr R env.now ip port with
  | none => exact h
  | some addr => exact (h.set (switchAddress_inv R env.now (s.masters m) addr)).flush

omit [DecidableEq M] in
theorem Sound.resetCommand (h : Sound c s) (pattern : M → Bool) :
    Sound c (resetCommand env pattern s) where
  inv := by
    intro k
    unfold Sentinel.resetCommand
    dsimp only
    split
    · exact resetMaster_inv env.now false (s.masters k)
    · exact h.inv k
  spared := h.spared

theorem Sound.failoverCommand (h : Sound c s) : Sound c (failoverCommand env s m) := by
  unfold Sentinel.failoverCommand
  dsimp only
  by_cases hb : (s.masters m).failoverInProgress = true
  · rw [if_pos hb]
    exact h
  · rw [if_neg hb]
    split
    · exact h
    · have hstart := h.startFailover env m (by simpa using hb)
      exact hstart.set ((hstart.inv m).congr rfl rfl rfl rfl)

end Reset

/-! ## INFO -/

section Info

variable {c : Prop} {s : SentinelState M} (R : Resolver) (env : Env) (m : M)

theorem Sound.masterInfo (h : Sound c s) (info : List InfoLine) :
    Sound c (sentinelRefreshMasterInfo R env s m info) := by
  have hlines : Sound c (info.foldl (masterInfoLine R env.now m) s) := by
    induction info generalizing s with
    | nil => exact h
    | cons line info ih =>
      refine ih ?_
      cases line with
      | slave ip port =>
        unfold masterInfoLine
        dsimp only
        split
        · exact h
        · split
          · exact (h.set ((h.inv m).createSlave R env.now ip port)).flush
          · exact h
      | _ => exact h
  exact hlines.set ((hlines.inv m).congr rfl rfl rfl rfl)

/-- `INFO` changes neither the name nor the flags of a slave. -/
theorem slaveInfoLine_key (now : Int) (p : Slave × Role) (line : InfoLine) :
    (slaveInfoLine now p line).1.key = p.1.key := by
  unfold slaveInfoLine
  dsimp only
  split <;> (try split) <;> rfl

theorem slaveAfterInfo_key (now : Int) (slave : Slave) (info : List InfoLine) :
    (slaveAfterInfo now slave info).1.key = slave.key := by
  have hlines : ∀ p : Slave × Role, (info.foldl (slaveInfoLine now) p).1.key = p.1.key := by
    induction info with
    | nil => exact fun _ => rfl
    | cons line info ih => exact fun p => (ih _).trans (slaveInfoLine_key now p line)
  exact hlines _

/-- The report reaches the table. -/
theorem Sound.slaveReport (h : Sound c s) {ri slave : Slave} (hri : ri ∈ (s.masters m).slaves)
    (hkey : slave.key = ri.key) :
    Sound c (s.set m { s.masters m with
      slaves := updateSlave (s.masters m).slaves ri.name (fun _ => slave) }) := by
  refine h.set ((h.inv m).congr (updateSlave_map _ _ _ ?_) rfl rfl rfl)
  intro other hother hname
  have hnodup : ((s.masters m).slaves.map (·.name)).Nodup := by
    have := (h.inv m).names
    rwa [List.map_map] at this
  rw [List.inj_on_of_nodup_map hnodup hother hri hname]
  exact hkey

theorem Sound.reportsMaster (h : Sound c s) (ri : Slave) :
    Sound c (slaveReportsMaster env s m ri) := by
  unfold slaveReportsMaster
  dsimp only
  split
  · rename_i hprom
    simp only [Bool.and_eq_true, decide_eq_true_eq] at hprom
    have hadv : Master.Inv { s.masters m with
        failoverState := .reconfSlaves, failoverStateChangeTime := env.now } :=
      (h.inv m).advance hprom.2 (by decide) (by decide) (by decide) env.now
    unfold promotionDone
    refine (h.set ?_).flush
    exact hadv.congr rfl rfl rfl rfl
  · split
    · rename_i hconv
      simp only [Bool.and_eq_true, Bool.not_eq_true'] at hconv
      exact h.put (h.inv m) (fun _ => spared_other env m hconv.1.1.1 _)
    · exact h

/-- `+fix-slave-config` is sent to the promoted slave. -/
def FixHits (env : Env) (master : Master) (ri : Slave) : Prop :=
  ri.promoted = true ∧ replicatesElsewhere master ri = .ok true ∧
    sentinelMasterLooksSane env.now master = true ∧
    sentinelRedisInstanceNoDownFor env.now master.failoverTimeout ri.toInstance = true ∧
    env.now - ri.slaveConfChangeTime > master.failoverTimeout ∧ 2 ≤ env.accept ri.name

omit [DecidableEq M] in
theorem fixSlaveConfig_spec (master : Master) (ri : Slave) :
    Sat (fixSlaveConfig env m master ri) (fun es => ¬ FixHits env master ri → Spared es)
      (fun f => f = .slaveMasterHost) := by
  have helse : Sat (replicatesElsewhere master ri)
      (fun b => replicatesElsewhere master ri = .ok b) (fun f => f = .slaveMasterHost) := by
    unfold replicatesElsewhere
    refine Sat.ite (fun hp => ?_) (fun hp => ?_)
    · rw [if_pos hp]
      rfl
    · rw [if_neg hp]
      cases ri.slaveMasterHost with
      | none | some host => rfl
  unfold fixSlaveConfig
  refine helse.bind (fun b hb => ?_)
  refine Sat.ite (fun hcond => ?_) (fun _ => fun _ => Spared.nil)
  intro hno
  simp only [Bool.and_eq_true, decide_eq_true_eq] at hcond
  obtain ⟨⟨⟨hb', hsane⟩, hdown⟩, hconf⟩ := hcond
  cases hp : ri.promoted with
  | false => exact spared_other env m hp _
  | true =>
    have hacc : env.accept ri.name < 2 := by
      refine Nat.lt_of_not_le (fun hacc => hno ?_)
      exact ⟨hp, by rw [hb, hb'], hsane, hdown, hconf, hacc⟩
    unfold sentinelSendSlaveOf
    dsimp only
    rw [if_neg (by omega)]
    exact Spared.nil

theorem reconfFinished_key (ri : Slave) : (reconfFinished ri).key = ri.key := by
  unfold reconfFinished
  split <;> rfl

/-- A slave of the table with another `SRI_RECONF_SENT`, late in a failover. -/
theorem Master.Inv.withReconf (h : r.Inv) (hlate : 5 ≤ r.failoverState.code) {ri slave : Slave}
    (hri : ri ∈ r.slaves) (hname : slave.name = ri.name) (hp : slave.promoted = ri.promoted) :
    Master.Inv { r with slaves := updateSlave r.slaves ri.name (fun _ => slave) } := by
  refine h.withSlaves hlate (updateSlave_map _ _ _ fun other hother hn => ?_)
  have hnodup : (r.slaves.map (·.name)).Nodup := by
    have := h.names
    rwa [List.map_map] at this
  obtain rfl := List.inj_on_of_nodup_map hnodup hother hri hn
  simp only [hname, hp]

theorem Sound.reportsSlave (h : Sound c s) {ri : Slave} (hri : ri ∈ (s.masters m).slaves)
    (hc : c → ¬ FixHits env (s.masters m) ri) :
    Sat (slaveReportsSlave env s m ri) (Sound c) (fun f => f = .slaveMasterHost) := by
  unfold slaveReportsSlave
  dsimp only
  refine (fixSlaveConfig_spec env m (s.masters m) ri).bind (fun es hes => ?_)
  have hes' : c → Spared es := fun hc' => hes (hc hc')
  refine Sat.ite (fun _ => ?_) (fun _ => h.put (h.inv m) hes')
  cases hsent : ri.reconfSent with
  | false =>
    -- nothing is left to acknowledge
    have hsame : reconfInprogress (s.masters m) ri = .ok ri := by
      unfold reconfInprogress
      rw [hsent]
      rfl
    refine Sat.bind_ok hsame ?_
    refine h.put ?_ hes'
    have := (h.slaveReport m hri (reconfFinished_key ri)).inv m
    rwa [set_masters_self] at this
  | true =>
    have hlate : 5 ≤ (s.masters m).failoverState.code :=
      (h.inv m).sent ri.key (List.mem_map_of_mem hri) hsent
    obtain ⟨slave, -, hslave, -, -⟩ := (h.inv m).promoted_some (by omega)
    have hstep : Sat (reconfInprogress (s.masters m) ri)
        (fun ri' => ri'.name = ri.name ∧ ri'.promoted = ri.promoted)
        (fun f => f = .slaveMasterHost) := by
      unfold reconfInprogress
      rw [hsent, hslave]
      cases ri.slaveMasterHost with
      | none => exact ⟨rfl, rfl⟩
      | some host =>
        dsimp only
        split
        · exact ⟨rfl, rfl⟩
        · exact ⟨rfl, rfl⟩
    refine hstep.bind (fun ri' hri' => ?_)
    have hkey := reconfFinished_key ri'
    simp only [Slave.key, Prod.mk.injEq] at hkey
    refine h.put ?_ hes'
    rw [hri'.1]
    exact (h.inv m).withReconf hlate hri (hkey.1.trans hri'.1) (hkey.2.1.trans hri'.2)

theorem Sound.slaveInfo (h : Sound c s) {ri : Slave} (hri : ri ∈ (s.masters m).slaves)
    (info : List InfoLine)
    (hc : c → s.tilt = false → (slaveAfterInfo env.now ri info).2 = .slave →
      ¬ FixHits env (s.masters m) (slaveAfterInfo env.now ri info).1) :
    Sat (sentinelRefreshSlaveInfo env s m ri info) (Sound c) (fun f => f = .slaveMasterHost) := by
  have hkey := slaveAfterInfo_key env.now ri info
  have hs := h.slaveReport m hri hkey
  unfold sentinelRefreshSlaveInfo
  dsimp only
  refine Sat.ite (fun _ => hs) (fun htilt => ?_)
  cases hrole : (slaveAfterInfo env.now ri info).2 with
  | unknown => exact hs
  | master => exact hs.reportsMaster env m _
  | slave =>
    refine hs.reportsSlave env m ?_ ?_
    · rw [set_masters_self]
      refine List.mem_map.mpr ⟨ri, hri, ?_⟩
      rw [if_pos rfl]
    · intro hc'
      rw [set_masters_self]
      exact hc hc' (by simpa [SentinelState.set] using htilt) hrole

end Info

/-! ## Hello messages -/

section Hello

variable {c : Prop} {s : SentinelState M} (R : Resolver) (env : Env) (h : Sound c s)

include h

omit [DecidableEq M] in
theorem Sound.updatePeers (runid : Bytes) (addr : Addr) :
    Sound c (sentinelUpdateSentinelAddressInAllMasters s runid addr) where
  inv := fun k => (h.inv k).congr rfl rfl rfl rfl
  spared := h.spared

/-- The table of Sentinels of a master changed. -/
theorem Sound.setPeers (m : M) (sentinels : List Peer) :
    Sound c (s.set m { s.masters m with sentinels := sentinels }) :=
  h.set ((h.inv m).congr rfl rfl rfl rfl)

omit [DecidableEq M] in
theorem Sound.invalidateOther (m : M) (addr : Addr) :
    Sound c (invalidateOther s m addr) := by
  unfold Sentinel.invalidateOther
  split
  · exact h.updatePeers _ _
  · exact h

theorem Sound.insertPeer (now : Int) (m : M) (runid : Bytes) (addr : Addr) :
    Sound c (insertPeer now s m runid addr) :=
  h.setPeers m _

theorem Sound.addPeer (now : Int) (hello : Hello M) :
    Sound c (addPeer R now s hello).2 := by
  have hkept : Sound c (removeMatchingSentinelFromMaster s hello.master hello.runid) :=
    h.setPeers hello.master _
  unfold Sentinel.addPeer
  dsimp only
  cases (s.masters hello.master).sentinels.any (·.runid = hello.runid) with
  | true =>
    rw [if_pos rfl]
    split
    · exact hkept
    · exact ((hkept.insertPeer now hello.master hello.runid _).updatePeers _ _).flush
  | false =>
    rw [if_neg Bool.false_ne_true]
    have hother := hkept.invalidateOther hello.master hello.addr
    split
    · exact hother
    · exact (hother.insertPeer now hello.master hello.runid _).flush

theorem Sound.hello (hello : Hello M) :
    Sound c (sentinelProcessHelloMessage R env s hello) := by
  have hp : Sound c (helloPeer R env.now s hello).2 := by
    unfold helloPeer
    split
    · exact h
    · exact h.addPeer R env.now hello
  have hraise := hp.raiseEpoch hello.currentEpoch
  unfold sentinelProcessHelloMessage
  dsimp only
  split
  · refine Sound.setPeers ?_ hello.master _
    unfold configUpdateFrom
    dsimp only
    split
    · have hinv : Master.Inv { (Sentinel.raiseEpoch (helloPeer R env.now s hello).2
          hello.currentEpoch).masters hello.master with configEpoch := hello.masterConfigEpoch } :=
        (hraise.inv hello.master).congr rfl rfl rfl rfl
      have hset := hraise.set (m := hello.master) hinv
      split
      · exact hset
      · exact hset.changeAddress R env hello.master _ _
    · exact hraise
  · exact hraise

end Hello

/-! ## Whole runs -/

/-- The steps that send the promoted slave no `SLAVEOF` with an address: no failover ends by
    timeout while the promoted slave takes commands, and no `INFO` reply of the promoted slave
    makes `+fix-slave-config` act on it. -/
def PromotedSpared (env : Env) (s : SentinelState M) : Action M → Prop
  | .handleMaster m =>
    (leaveTilt env.now s).tilt = false → (s.masters m).failoverState = .reconfSlaves →
      ¬ TimeoutHits env (s.masters m)
  | .slaveInfo m ri info =>
    s.tilt = false → (slaveAfterInfo env.now ri info).2 = .slave →
      ¬ FixHits env (s.masters m) (slaveAfterInfo env.now ri info).1
  | _ => True

/-- Every action keeps the invariant; only an `INFO` reply without `master_host` can crash. -/
theorem Sound.step {c : Prop} {s : SentinelState M} (h : Sound c s) (R : Resolver) (env : Env)
    {a : Action M} (ha : a.Enabled s) (hc : c → PromotedSpared env s a) :
    Sat (step R env s a) (Sound c) (fun f => f = .slaveMasterHost) := by
  cases a with
  | masterLink m link => exact h.set ((h.inv m).congr rfl rfl rfl rfl)
  | slaveLink m name link =>
    exact h.set ((h.inv m).congr (updateSlave_map _ _ _ (fun _ _ _ => rfl)) rfl rfl rfl)
  | peerLink m runid link => exact h.setPeers m _
  | checkTilt =>
    show Sound c (sentinelCheckTiltCondition env.now s)
    unfold sentinelCheckTiltCondition
    dsimp only
    split
    · exact ⟨h.inv, h.spared⟩
    · exact ⟨h.inv, h.spared⟩
  | handleMaster m => exact (h.handleMaster env m hc).mono (fun _ hs => hs) (fun _ hf => hf.elim)
  | handleSlave m name => exact h.handleSlave env m name
  | handlePeer m runid => exact h.handlePeer env m runid
  | switchToPromoted m => exact h.changeAddress R env m _ _
  | masterInfo m info => exact h.masterInfo R env m info
  | slaveInfo m ri info => exact h.slaveInfo env m ha info hc
  | downReply m runid r => exact h.setPeers m _
  | hello hello => exact h.hello R env hello
  | downRequest ri req =>
    show Sound c (isMasterDownByAddr env s ri req).1
    unfold isMasterDownByAddr
    cases ri with
    | none => exact h
    | some m =>
      cases req.runid with
      | none => exact h
      | some runid => exact (h.voteLeader env m _ runid).emit (by simp)
  | failover m => exact h.failoverCommand env m
  | reset pattern => exact h.resetCommand env pattern

omit [DecidableEq M] in
/-- A Sentinel that has just read its configuration. -/
theorem Sound.start [Fintype M] (c : Prop) (R : Resolver) (now : Int) (conf : Config M) :
    Sound c (sentinelHandleConfiguration R now conf []) where
  inv := by
    intro m
    refine Master.Inv.congr (Master.Inv.createSlaves R (r := loadMonitor now (conf.masters m))
      FailoverInv.nil now (conf.masters m).knownSlaves) rfl rfl rfl rfl
  spared := fun _ => Spared.nil

/-- What the invariant says in the words of the source. -/
theorem Master.Inv.only_promoted (h : r.Inv)
    (hstate : r.failoverState = .sendSlaveofNoone ∨ r.failoverState = .waitPromotion ∨
      r.failoverState = .reconfSlaves ∨ r.failoverState = .updateConfig) :
    ∃ slave ∈ r.slaves, r.promotedSlave = some slave.name ∧ slave.promoted = true ∧
      ∀ other ∈ r.slaves, other.promoted = true → other = slave := by
  have h3 : 3 ≤ r.failoverState.code := by
    rcases hstate with hs | hs | hs | hs <;> rw [hs] <;> decide
  obtain ⟨slave, hmem, hslave, hname, hp⟩ := h.promoted_some h3
  exact ⟨slave, hmem, hname, hp, fun other hother hp' => h.promoted_unique hslave hother hp'⟩

theorem Master.Inv.no_reconfSent (h : r.Inv) (hnone : r.promotedSlave = none) :
    ∀ slave ∈ r.slaves, slave.reconfSent = false := by
  intro slave hslave
  by_contra hsent
  have hsent' : slave.reconfSent = true := by simpa using hsent
  have hlate := h.sent slave.key (List.mem_map_of_mem hslave) hsent'
  have hsome := h.chosen.mpr (show 3 ≤ r.failoverState.code by omega)
  rw [hnone] at hsome
  cases hsome

/-- **The failover state machine.**  In every run the promoted slave, the flags and the state
    agree and no assertion fails: the one crash left is an `INFO` reply of a slave without
    `master_host`.  In a run whose steps spare the promoted slave it is never sent a `SLAVEOF`
    with an address. -/
theorem failover_machine [Fintype M] (R : Resolver) (now : Int) (conf : Config M)
    {s : SentinelState M}
    (hrun : Steps R (fun _ _ _ => True) (sentinelHandleConfiguration R now conf []) s) :
    (∀ m, ((s.masters m).failoverState = .sendSlaveofNoone ∨
        (s.masters m).failoverState = .waitPromotion ∨
        (s.masters m).failoverState = .reconfSlaves ∨
        (s.masters m).failoverState = .updateConfig) →
      ∃ slave ∈ (s.masters m).slaves, (s.masters m).promotedSlave = some slave.name ∧
        slave.promoted = true ∧
        ∀ other ∈ (s.masters m).slaves, other.promoted = true → other = slave) ∧
    (∀ m, (s.masters m).failoverInProgress = true ↔ (s.masters m).failoverState ≠ .none) ∧
    (∀ env a f, a.Enabled s → step R env s a = .error f → f = .slaveMasterHost) ∧
    (∀ m, (s.masters m).promotedSlave = none →
      ∀ slave ∈ (s.masters m).slaves, slave.reconfSent = false) ∧
    (Steps R PromotedSpared (sentinelHandleConfiguration R now conf []) s →
      ∀ m name addr, .slaveOf m name true (some addr) ∉ s.trace) := by
  have hsound : Sound False s := hrun.invariant (Sound False) (Sound.start False R now conf)
    (fun env a u v ha _ hv hu => (hu.step R env ha (fun hf => hf.elim)).of_eq_ok hv)
  refine ⟨fun m => (hsound.inv m).only_promoted, fun m => (hsound.inv m).running, ?_,
    fun m => (hsound.inv m).no_reconfSent, ?_⟩
  · intro env a f ha he
    have hsat := hsound.step R env ha (fun hf => hf.elim)
    rwa [he] at hsat
  · intro hspared
    have hs : Sound True s := hspared.invariant (Sound True) (Sound.start True R now conf)
      (fun env a u v ha hp hv hu => (hu.step R env ha (fun _ => hp)).of_eq_ok hv)
    exact hs.spared trivial

/-! ## A failover that ends by timeout -/

/-- One master with two slaves, and a failover timeout of a second. -/
def timeoutConfig : Config Unit where
  myid := [97]
  masters := fun _ =>
    { addr := ⟨[109], 1⟩, quorum := 1, downAfterPeriod := 30000, failoverTimeout := 1000,
      parallelSyncs := 1, configEpoch := 0, leaderEpoch := 0,
      knownSlaves := [⟨[115], 2⟩, ⟨[116], 3⟩], knownSentinels := [] }
  currentEpoch := 0

/-- The state this configuration is read into, with the names of the slaves written out. -/
def timeoutStart : SentinelState Unit where
  myid := [97]
  currentEpoch := 0
  masters := fun _ =>
    let master := loadMonitor 0 (timeoutConfig.masters ())
    { master with slaves :=
      [newSlave 0 [115, 58, 50] ⟨[115], 2⟩ master, newSlave 0 [116, 58, 51] ⟨[116], 3⟩ master] }
  tilt := false
  tiltStartTime := 0
  previousTime := 0
  trace := []

theorem timeoutStart_eq :
    sentinelHandleConfiguration literalResolver 0 timeoutConfig [] = timeoutStart := by
  have hs : anetFormatAddr [115] 2 = [115, 58, 50] := by
    simp [anetFormatAddr, strchr, cstr, formatLd, decimal_of_lt]
  have ht : anetFormatAddr [116] 3 = [116, 58, 51] := by
    simp [anetFormatAddr, strchr, cstr, formatLd, decimal_of_lt]
  unfold sentinelHandleConfiguration timeoutStart
  simp [timeoutConfig, loadMaster, createSlave, createSentinelAddr, literalResolver, hs, ht,
    loadMonitor]
  rfl

/-- The first slave of the table reports. -/
def firstSlaveInfo (info : List InfoLine) (s : SentinelState Unit) : Action Unit :=
  match (s.masters ()).slaves with
  | slave :: _ => .slaveInfo () slave info
  | [] => .checkTilt

theorem firstSlaveInfo_enabled (info : List InfoLine) (s : SentinelState Unit) :
    (firstSlaveInfo info s).Enabled s := by
  unfold firstSlaveInfo
  split
  · rename_i slave slaves h
    show slave ∈ (s.masters ()).slaves
    rw [h]
    exact List.mem_cons_self
  · trivial

/-- A slave is connected, and the operator asks for a failover. -/
def requestedRun : List (Env × (SentinelState Unit → Action Unit)) :=
  [(envAt 100, fun _ => .slaveLink () [115, 58, 50] (connectedLink 100)),
   (envAt 160, fun _ => .failover ())]

/-- The failover goes on; the other slave stays disconnected until the timeout. -/
def timeoutRun : List (Env × (SentinelState Unit → Action Unit)) :=
  requestedRun ++
  [(envAt 200, fun _ => .handleMaster ()),
   (envAt 300, fun _ => .handleMaster ()),
   (envAt 400, fun _ => .handleMaster ()),
   (envAt 450, firstSlaveInfo [.role .master]),
   (envAt 1500, fun _ => .handleMaster ())]

/-- The `SLAVEOF` commands of a trace. -/
def slaveOfs (es : List (Effect M)) : List (M × Bytes × Bool × Option Addr) :=
  es.filterMap (fun e =>
    match e with
    | .slaveOf m name promoted target => some (m, name, promoted, target)
    | _ => none)

omit [DecidableEq M] in
theorem mem_of_slaveOfs {es : List (Effect M)} {m : M} {name : Bytes} {promoted : Bool}
    {target : Option Addr} (h : (m, name, promoted, target) ∈ slaveOfs es) :
    .slaveOf m name promoted target ∈ es := by
  obtain ⟨e, he, heq⟩ := List.mem_filterMap.mp h
  cases e with
  | slaveOf m' name' promoted' target' =>
    simp only [Option.some.injEq, Prod.mk.injEq] at heq
    obtain ⟨rfl, rfl, rfl, rfl⟩ := heq
    exact he
  | _ => cases heq

theorem failover_machine_requested :
    ∃ s, Steps literalResolver PromotedSpared
        (sentinelHandleConfiguration literalResolver 0 timeoutConfig []) s ∧
      (s.masters ()).failoverState = .waitStart ∧ (s.masters ()).failoverInProgress = true ∧
      ∀ m name addr, .slaveOf m name true (some addr) ∉ s.trace := by
  obtain ⟨s, hs, hstate⟩ : ∃ s, exec literalResolver requestedRun timeoutStart = .ok s ∧
      (s.masters ()).failoverState = .waitStart := ⟨_, rfl, rfl⟩
  have hrun : Steps literalResolver PromotedSpared
      (sentinelHandleConfiguration literalResolver 0 timeoutConfig []) s := by
    rw [timeoutStart_eq]
    refine steps_of_exec hs ?_
    intro p hp u
    simp only [requestedRun, List.mem_cons, List.not_mem_nil, or_false] at hp
    rcases hp with rfl | rfl <;> exact ⟨trivial, trivial⟩
  have h := failover_machine literalResolver 0 timeoutConfig (hrun.mono (fun _ _ _ _ => trivial))
  exact ⟨s, hrun, hstate, (h.2.1 ()).mpr (by rw [hstate]; decide), h.2.2.2.2 hrun⟩

/-- At the timeout the promoted slave is told to replicate from its own address. -/
theorem promoted_sent_own_address :
    ∃ s, Steps literalResolver (fun _ _ _ => True)
        (sentinelHandleConfiguration literalResolver 0 timeoutConfig []) s ∧
      .slaveOf () [115, 58, 50] true (some ⟨[115], 2⟩) ∈ s.trace := by
  obtain ⟨s, hs⟩ : ∃ s, exec literalResolver timeoutRun timeoutStart = .ok s := ⟨_, rfl⟩
  have hmem : ∀ t, exec literalResolver timeoutRun timeoutStart = .ok t →
      ((), [115, 58, 50], true, some ⟨[115], 2⟩) ∈ slaveOfs t.trace := by
    have hb : (match exec literalResolver timeoutRun timeoutStart with
        | .ok t => decide (((), [115, 58, 50], true, some ⟨[115], 2⟩) ∈ slaveOfs t.trace)
        | .error _ => true) = true := by rfl
    intro t ht
    rw [ht] at hb
    exact of_decide_eq_true hb
  refine ⟨s, ?_, mem_of_slaveOfs (hmem s hs)⟩
  rw [timeoutStart_eq]
  refine steps_of_exec hs ?_
  intro p hp u
  simp only [timeoutRun, requestedRun, List.cons_append, List.nil_append, List.mem_cons,
    List.not_mem_nil, or_false] at hp
  rcases hp with rfl | rfl | rfl | rfl | rfl | rfl | rfl
  all_goals first
    | exact ⟨trivial, trivial⟩
    | exact ⟨firstSlaveInfo_enabled _ u, trivial⟩

end Redis.Sentinel
