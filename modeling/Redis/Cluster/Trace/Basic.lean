import Redis.Cluster.Action

namespace Redis

open Outcome Simulation Transition

/-!
# Handlers as sequences of actions

* `acts A` — a handler that only takes the actions `A`; it may follow a bad pointer, and
  the assertion that a slave has no slots may fail if a slave has got slots;
* `memory` — nothing is said about the changes: used where a function is described exactly;
* the rules for the operations handlers are made of.
-/

/-- A bad pointer is followed. -/
def MemoryFault (e : ClusterFault) : Prop := e = .dangling ∨ e = .nullPointer

/-- This node is a slave that owns slots. -/
def ClusterView.SlaveWithSlots (v : ClusterView) : Prop :=
  ∃ me, v.heap v.myself = some me ∧ me.slave = true ∧ me.numslots ≠ 0

/-- Only the actions `A` are taken. -/
def acts (A : ClusterAction → Prop) : Behaviour ClusterState ClusterFault where
  rel := fun s t => Steps A s.view t.view
  fault := fun s e => MemoryFault e ∨
    (e = .assertion .masterWithoutSlots ∧ ∃ v, Steps A s.view v ∧ v.SlaveWithSlots)
  refl := fun s => Actions.Steps.refl s.view
  trans := fun h h' => h.trans h'
  fault_of_rel := by
    rintro s t e hst (he | ⟨he, v, hv, hbad⟩)
    · exact Or.inl he
    · exact Or.inr ⟨he, v, hst.trans hv, hbad⟩

/-- Any change is allowed. -/
def memory : Behaviour ClusterState ClusterFault where
  rel := fun _ _ => True
  fault := fun _ e => MemoryFault e
  refl := fun _ => trivial
  trans := fun _ _ => trivial
  fault_of_rel := fun _ he => he

/-- The handler takes the actions `A` and ends with `Q`. -/
abbrev Does {α : Type} (A : ClusterAction → Prop) (m : ClusterM α) (s : ClusterState)
    (Q : α → ClusterState → Prop) : Prop :=
  (acts A).Sim m s Q

/-- The function ends with `Q`, if it ends. -/
abbrev Yields {α : Type} (m : ClusterM α) (s : ClusterState) (Q : α → ClusterState → Prop) : Prop :=
  memory.Sim m s Q

/-- Bad pointers are tolerated. -/
class Tolerant (B : Behaviour ClusterState ClusterFault) : Prop where
  fault : ∀ s e, MemoryFault e → B.fault s e

instance (A : ClusterAction → Prop) : Tolerant (acts A) := ⟨fun _ _ he => Or.inl he⟩

instance : Tolerant memory := ⟨fun _ _ he => he⟩

variable {α β γ : Type} {A A' : ClusterAction → Prop} {B : Behaviour ClusterState ClusterFault}
  {s : ClusterState}

/-! ### From one behaviour to another -/

variable {m : ClusterM α} {f : ClusterNode → ClusterM β} {R : β → ClusterState → Prop}
  {g : ClusterNode → ClusterNode} {Q : Unit → ClusterState → Prop}

theorem Does.mono {Q : α → ClusterState → Prop} (h : Does A m s Q) (hA : ∀ a, A a → A' a) : Does A' m s Q := by
  refine Sim.lift h (fun t ht => ht.mono hA) ?_
  rintro e (he | ⟨he, v, hv, hbad⟩)
  · exact Or.inl he
  · exact Or.inr ⟨he, v, hv.mono hA, hbad⟩

/-- The actions that were taken, as a fact about the end. -/
theorem Does.keep {Q : α → ClusterState → Prop} (h : Does A m s Q) :
    Does A m s fun a t => Steps A s.view t.view ∧ Q a t :=
  Sim.weaken h (fun _ _ hst hq => ⟨hst, hq⟩)

theorem Does.of_yields {Q : α → ClusterState → Prop} (h : Yields m s Q)
    (hQ : ∀ a t, Q a t → Steps A s.view t.view) : Does A m s Q :=
  Sat.mono h (fun r hr => ⟨hQ r.1 r.2 hr.2, hr.2⟩) (fun _ he => Or.inl he)

/-- One action. -/
theorem Steps.action {v : ClusterView} {a : ClusterAction} (ha : A a) (he : a.Enabled v) :
    Steps A v (a.apply v) :=
  Actions.Steps.single ha he

/-- A change that is not seen in the view. -/
theorem Steps.unseen {t : ClusterState} (h : t.view = s.view) : Steps A s.view t.view :=
  Actions.Steps.of_eq h

/-! ### Operations -/

theorem sim_getNode [Tolerant B] {r : Ref} (h : ∀ n, s.heap r = some n → B.Sim (f n) s R) :
    B.Sim (getNode r >>= f) s R := by
  cases hr : s.heap r with
  | none =>
    have hrun : (getNode r >>= f).run s = .error .dangling := by
      simp only [getNode, StateT.run_bind, StateT.run_get, pure_bind, hr]
      rfl
    rw [Behaviour.Sim, hrun]
    exact Tolerant.fault s _ (Or.inl rfl)
  | some n =>
    have hrun : (getNode r >>= f).run s = (f n).run s := by
      simp [getNode, hr, StateT.run_bind]
    rw [Behaviour.Sim, hrun]
    exact h n hr

theorem sim_getMyself [Tolerant B] (h : ∀ me, s.heap s.myself = some me → B.Sim (f me) s R) :
    B.Sim (getMyself >>= f) s R := by
  show B.Sim ((get >>= fun s => getNode s.myself) >>= f) s R
  rw [bind_assoc]
  exact Sim.get_bind (sim_getNode h)

theorem sim_modify_bind {g : ClusterState → ClusterState} {f : PUnit → ClusterM β} (hrel : B.rel s (g s))
    (h : B.Sim (f ⟨⟩) (g s) R) :
    B.Sim (modify g >>= f) s R := by
  refine Sim.bind (Sim.modify (Q := fun _ t => t = g s) hrel rfl) ?_
  rintro ⟨⟩ t _ rfl
  exact h

theorem sim_modifyNode [Tolerant B] {r : Ref} (h : ∀ n, s.heap r = some n →
      B.rel s (s.updateNode r g) ∧ Q () (s.updateNode r g)) : B.Sim (modifyNode r g) s Q :=
  sim_getNode (fun n hn => Sim.modify (h n hn).1 (h n hn).2)

theorem sim_modifyNode_bind [Tolerant B] {r : Ref} {f : Unit → ClusterM β} (h : ∀ n, s.heap r = some n →
      B.rel s (s.updateNode r g) ∧ B.Sim (f ()) (s.updateNode r g) R) :
    B.Sim (modifyNode r g >>= f) s R := by
  refine Sim.bind (sim_modifyNode (Q := fun _ t => t = s.updateNode r g ∧ B.Sim (f ()) t R)
    (fun n hn => ⟨(h n hn).1, rfl, (h n hn).2⟩)) ?_
  rintro ⟨⟩ t _ ⟨-, ht⟩
  exact ht

theorem sim_whenDo {c : Prop} [Decidable c] {m : ClusterM Unit} (hm : c → B.Sim m s Q) (hn : ¬ c → Q () s) :
    B.Sim (whenDo c m) s Q :=
  Sim.ite hm (fun h => Sim.pure (hn h))

theorem sim_ifSome {o : Option α} {f : α → ClusterM Unit} (hm : ∀ a, o = some a → B.Sim (f a) s Q)
    (hn : o = none → Q () s) : B.Sim (ifSome o f) s Q := by
  cases o with
  | none => exact Sim.pure (hn rfl)
  | some a => exact hm a rfl

theorem sim_discard (h : B.Sim m s fun _ => Q ()) : B.Sim (discard m) s Q := by
  have hmap : (discard m : ClusterM Unit) = m >>= fun _ => pure () := by
    rw [bind_pure_comp]
    rfl
  rw [hmap]
  exact Sim.bind h (fun a t _ hq => Sim.pure hq)

theorem sim_assert_bind {a : ClusterAssertion} {c : Prop} [Decidable c] {f : Unit → ClusterM β} (hc : c)
    (h : B.Sim (f ()) s R) :
    B.Sim (serverAssert a c >>= f) s R := by
  rw [serverAssert, if_pos hc, pure_bind]
  exact h

/-- Nodes are only read. -/
theorem sim_getNodes [Tolerant B] (rs : List Ref) : B.Sim (getNodes rs) s fun _ t => t = s := by
  have hloop : ∀ rs : List Ref, B.Sim (rs.mapM getNode) s fun _ t => t = s := by
    intro rs
    induction rs with
    | nil =>
      rw [List.mapM_nil]
      exact Sim.pure rfl
    | cons r rs ih =>
      rw [List.mapM_cons]
      refine sim_getNode (fun n _ => Sim.bind ih ?_)
      rintro ns t _ rfl
      exact Sim.pure rfl
  exact hloop rs

theorem sim_getNodes_bind [Tolerant B] {rs : List Ref} {f : List ClusterNode → ClusterM β}
    (h : ∀ ns, B.Sim (f ns) s R) : B.Sim (getNodes rs >>= f) s R := by
  refine Sim.bind (sim_getNodes rs) ?_
  rintro ns t _ rfl
  exact h ns

/-- A flag of the work before sleep is not seen. -/
theorem does_clusterDoBeforeSleep {flags : ClusterTodo} (h : ∀ t, t.view = s.view → Q () t) :
    Does A (clusterDoBeforeSleep flags) s Q :=
  Sim.modify (Steps.unseen rfl) (h _ rfl)

end Redis
