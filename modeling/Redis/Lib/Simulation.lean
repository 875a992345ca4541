import Redis.Lib.Outcome

/-!
# Stateful programs as sequences of steps

A program in `StateT σ (Except ε)` is specified by what it may do to the state: a
`Behaviour` is a preorder on states together with the faults that are tolerated from each
state.  `Sim m s Q` says that running `m` at `s` only makes allowed changes and returns a
result with `Q`, or faults as allowed.

* `Sim.pure`, `Sim.bind`, `Sim.ite` — the structural rules;
* `Sim.get_bind`, `Sim.modify`, `Sim.throw` — the primitive operations;
* `Sim.forM`, `Sim.forM_all`, `Sim.forM_rest`, `Sim.foldlM` — the loop rules;
* `Sim.lift` — a behaviour that allows more;
* `Sim.exists_ok` — programs without faults.
-/

namespace Redis.Simulation

open Outcome

/-- Allowed changes of the state, and tolerated faults. -/
structure Behaviour (σ ε : Type) where
  rel : σ → σ → Prop
  fault : σ → ε → Prop
  refl : ∀ s, rel s s
  trans : ∀ {s t u}, rel s t → rel t u → rel s u
  fault_of_rel : ∀ {s t e}, rel s t → fault t e → fault s e

variable {σ ε α β γ : Type} {B : Behaviour σ ε}

/-- Running `m` at `s` only makes allowed changes and ends with `Q`. -/
def Behaviour.Sim (B : Behaviour σ ε) (m : StateT σ (Except ε) α) (s : σ) (Q : α → σ → Prop) : Prop :=
  Sat (m.run s) (fun r => B.rel s r.2 ∧ Q r.1 r.2) (B.fault s)

open Behaviour

variable {s : σ} {Q : α → σ → Prop} {m : StateT σ (Except ε) α} {R : β → σ → Prop} {l : List γ}
  {f : γ → StateT σ (Except ε) PUnit}

theorem Sim.pure {a : α} (h : Q a s) :
    B.Sim (Pure.pure a : StateT σ (Except ε) α) s Q :=
  ⟨B.refl s, h⟩

theorem Sim.weaken {Q Q' : α → σ → Prop} (h : B.Sim m s Q) (hQ : ∀ a t, B.rel s t → Q a t → Q' a t) : B.Sim m s Q' :=
  Sat.weaken h (fun r hr => ⟨hr.1, hQ r.1 r.2 hr.1 hr.2⟩)

/-- Sequencing: the second program is run at a state the first one may lead to. -/
theorem Sim.bind {f : α → StateT σ (Except ε) β} (hm : B.Sim m s Q)
    (hf : ∀ a t, B.rel s t → Q a t → B.Sim (f a) t R) : B.Sim (m >>= f) s R := by
  rw [Behaviour.Sim, StateT.run_bind]
  refine Sat.bind hm ?_
  rintro ⟨a, t⟩ ⟨hrel, hq⟩
  exact (hf a t hrel hq).mono (fun r hr => ⟨B.trans hrel hr.1, hr.2⟩)
    (fun e he => B.fault_of_rel hrel he)

/-- Sequencing when nothing is known about the result of the first program. -/
theorem Sim.seq {f : α → StateT σ (Except ε) β} (hm : B.Sim m s fun _ _ => True)
    (hf : ∀ a t, B.rel s t → B.Sim (f a) t R) : B.Sim (m >>= f) s R :=
  Sim.bind hm (fun a t h _ => hf a t h)

theorem Sim.ite {c : Prop} [Decidable c] {m m' : StateT σ (Except ε) α} (hm : c → B.Sim m s Q)
    (hm' : ¬ c → B.Sim m' s Q) : B.Sim (if c then m else m') s Q := by
  by_cases h : c
  · rw [if_pos h]; exact hm h
  · rw [if_neg h]; exact hm' h

/-- Reading the state. -/
theorem Sim.get_bind {f : σ → StateT σ (Except ε) β} (h : B.Sim (f s) s R) : B.Sim (get >>= f) s R := h

theorem Sim.modify {g : σ → σ} {Q : Unit → σ → Prop} (hrel : B.rel s (g s)) (h : Q () (g s)) : B.Sim (modify g) s Q :=
  ⟨hrel, h⟩

/-- **Loop rule**: `I` holds before and after every iteration. -/
theorem Sim.forM (I : σ → Prop) (h0 : I s)
    (hstep : ∀ x ∈ l, ∀ t, B.rel s t → I t → B.Sim (f x) t fun _ u => I u) :
    B.Sim (l.forM f) s fun _ t => I t := by
  induction l generalizing s with
  | nil => exact Sim.pure h0
  | cons x l ih =>
    show B.Sim (f x >>= fun _ => l.forM f) s _
    refine Sim.bind (hstep x (by simp) s (B.refl s) h0) (fun _ t hst hI => ih hI ?_)
    exact fun y hy u htu => hstep y (by simp [hy]) u (B.trans hst htu)

/-- Loop rule when every iteration establishes something of its element that the others
    keep. -/
theorem Sim.forM_all (P : γ → σ → Prop)
    (hstep : ∀ x ∈ l, ∀ t, B.rel s t → B.Sim (f x) t fun _ u => P x u ∧ ∀ y, P y t → P y u) :
    B.Sim (l.forM f) s fun _ t => (∀ x ∈ l, P x t) ∧ ∀ y, P y s → P y t := by
  induction l generalizing s with
  | nil => exact Sim.pure ⟨by simp, fun _ h => h⟩
  | cons x l ih =>
    show B.Sim (f x >>= fun _ => l.forM f) s _
    refine Sim.bind (hstep x (by simp) s (B.refl s)) (fun _ t hst hP => ?_)
    refine Sim.weaken (ih (fun y hy u htu => hstep y (by simp [hy]) u (B.trans hst htu))) ?_
    intro _ u _ hu
    refine ⟨?_, fun y hy => hu.2 y (hP.2 y hy)⟩
    intro y hy
    rcases List.mem_cons.mp hy with rfl | hy
    · exact hu.2 y hP.1
    · exact hu.1 y hy

/-- Loop rule with an invariant of the part of the list that is left. -/
theorem Sim.forM_rest (I : List γ → σ → Prop) (h0 : I l s)
    (hstep : ∀ x rest t, B.rel s t → I (x :: rest) t → B.Sim (f x) t fun _ u => I rest u) :
    B.Sim (l.forM f) s fun _ t => I [] t := by
  induction l generalizing s with
  | nil => exact Sim.pure h0
  | cons x l ih =>
    show B.Sim (f x >>= fun _ => l.forM f) s _
    refine Sim.bind (hstep x l s (B.refl s) h0) (fun _ t hst hI => ih hI ?_)
    exact fun y rest u htu => hstep y rest u (B.trans hst htu)

/-- Loop rule for a loop with an accumulator. -/
theorem Sim.foldlM {f : α → γ → StateT σ (Except ε) α} {a : α} (I : α → σ → Prop) (h0 : I a s)
    (hstep : ∀ b, ∀ x ∈ l, ∀ t, B.rel s t → I b t → B.Sim (f b x) t I) :
    B.Sim (l.foldlM f a) s I := by
  induction l generalizing s a with
  | nil => exact Sim.pure h0
  | cons x l ih =>
    rw [List.foldlM_cons]
    refine Sim.bind (hstep a x (by simp) s (B.refl s) h0) (fun b t hst hI => ih hI ?_)
    exact fun c y hy u htu => hstep c y (by simp [hy]) u (B.trans hst htu)

/-- More may be allowed. -/
theorem Sim.lift {B' : Behaviour σ ε} (h : B.Sim m s Q) (hrel : ∀ t, B.rel s t → B'.rel s t)
    (hfault : ∀ e, B.fault s e → B'.fault s e) :
    B'.Sim m s Q :=
  Sat.mono h (fun r hr => ⟨hrel r.2 hr.1, hr.2⟩) hfault

/-- A program without faults has a result. -/
theorem Sim.exists_ok (h : B.Sim m s Q) (hB : ∀ e, ¬ B.fault s e) :
    ∃ a t, m.run s = .ok (a, t) ∧ B.rel s t ∧ Q a t := by
  obtain ⟨⟨a, t⟩, hrun, hrel, hq⟩ := Sat.exists_ok (Sat.mono h (fun _ hr => hr) hB)
  exact ⟨a, t, hrun, hrel, hq⟩

end Redis.Simulation
