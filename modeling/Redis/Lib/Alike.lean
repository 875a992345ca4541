import Redis.Lib.Outcome

/-!
# Two programs side by side

`Alike R m m'` says that two fallible programs end the same way: both fault with the same
fault, or both return, with results related by `R`.

* `Alike.pure`, `Alike.error`, `Alike.bind`, `Alike.ite` — the structural rules;
* `Alike.foldlM` — a loop over the same list on both sides;
* `Alike.of_ok` — what one program has returned, the other has returned too.
-/

namespace Redis.Outcome

universe u v w

variable {ε : Type u} {α β : Type v} {α' β' : Type w}

/-- Both programs fault alike, or return results that are related. -/
def Alike (R : α → α' → Prop) : Except ε α → Except ε α' → Prop
  | .ok a, .ok a'       => R a a'
  | .error e, .error e' => e = e'
  | _, _                => False

variable {R : α → α' → Prop}

@[simp] theorem alike_ok (a : α) (a' : α') :
    Alike R (.ok a : Except ε α) (.ok a') ↔ R a a' := Iff.rfl

@[simp] theorem alike_error (e e' : ε) :
    Alike R (.error e : Except ε α) (.error e' : Except ε α') ↔ e = e' := Iff.rfl

/-- Sequencing: the continuations are compared on related results. -/
theorem Alike.bind {S : β → β' → Prop} {m : Except ε α} {m' : Except ε α'} {f : α → Except ε β}
    {f' : α' → Except ε β'} (h : Alike R m m') (hf : ∀ a a', R a a' → Alike S (f a) (f' a')) :
    Alike S (m >>= f) (m' >>= f') := by
  cases m with
  | ok a =>
    cases m' with
    | ok a' => exact hf a a' h
    | error e => exact h.elim
  | error e =>
    cases m' with
    | ok a' => exact h.elim
    | error e' => exact h

/-- A guard that both programs decide alike. -/
theorem Alike.ite {c c' : Prop} [Decidable c] [Decidable c'] {m n : Except ε α} {m' n' : Except ε α'}
    (hc : c ↔ c') (hm : c → Alike R m m') (hn : ¬ c → Alike R n n') :
    Alike R (if c then m else n) (if c' then m' else n') := by
  by_cases h : c
  · rw [if_pos h, if_pos (hc.mp h)]
    exact hm h
  · rw [if_neg h, if_neg (fun h' => h (hc.mpr h'))]
    exact hn h

/-- **Loop rule.**  A relation that one iteration keeps is kept by the whole loop. -/
theorem Alike.foldlM {γ : Type*} {f : α → γ → Except ε α} {f' : α' → γ → Except ε α'} (l : List γ)
    (hstep : ∀ x ∈ l, ∀ a a', R a a' → Alike R (f a x) (f' a' x)) :
    ∀ {a : α} {a' : α'}, R a a' → Alike R (l.foldlM f a) (l.foldlM f' a') := by
  induction l with
  | nil => exact fun h => h
  | cons x l ih =>
    intro a a' h
    rw [List.foldlM_cons, List.foldlM_cons]
    refine (hstep x List.mem_cons_self a a' h).bind (fun b b' hb => ?_)
    exact ih (fun y hy => hstep y (List.mem_cons_of_mem x hy)) hb

/-- What the first program has returned. -/
theorem Alike.of_ok {m : Except ε α} {m' : Except ε α'} {a : α} (h : Alike R m m') (hm : m = .ok a) :
    ∃ a', m' = .ok a' ∧ R a a' := by
  subst hm
  cases m' with
  | ok a' => exact ⟨a', rfl, h⟩
  | error e => exact h.elim

end Redis.Outcome
