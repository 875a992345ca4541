import Mathlib.Logic.Basic

/-!
# Outcomes of fallible programs

`Except`-valued programs are specified by `Sat m Q E`: a run of `m` that returns
satisfies `Q`, and a run that faults satisfies `E`.  Choosing `E := fun _ => False`
makes the statement total (the program returns); choosing a set of tolerated faults
says exactly which ones remain possible.

* `Sat.pure`, `Sat.error`, `Sat.mono`, `Sat.and`, `Sat.bind` — the rules of consequence,
  conjunction and sequencing;
* `Sat.ite` — both branches of a guard;
* `ok_bind`, `bind_eq_ok`, `mapM_cons_eq_ok` — what a sequence that returns has done;
* `ok_iff_of_cases` — a program that returns under a condition only;
* `sat_foldlM` — the loop rule: an invariant indexed by the part of the list that has
  been consumed.
-/

namespace Redis.Outcome

universe u v

variable {ε : Type u} {α β : Type v}

/-- Every outcome of `m` is acceptable: a result satisfies `Q`, a fault satisfies `E`. -/
def Sat (m : Except ε α) (Q : α → Prop) (E : ε → Prop) : Prop :=
  match m with
  | .ok a    => Q a
  | .error e => E e

@[simp] theorem sat_ok (a : α) (Q : α → Prop) (E : ε → Prop) :
    Sat (.ok a : Except ε α) Q E ↔ Q a := Iff.rfl

@[simp] theorem sat_error (e : ε) (Q : α → Prop) (E : ε → Prop) :
    Sat (.error e : Except ε α) Q E ↔ E e := Iff.rfl

@[simp] theorem sat_pure (a : α) (Q : α → Prop) (E : ε → Prop) :
    Sat (pure a : Except ε α) Q E ↔ Q a := Iff.rfl

variable {m : Except ε α} {E : ε → Prop} {f : α → Except ε β} {Q : α → Prop}

/-- Weakening of both postconditions. -/
theorem Sat.mono {Q Q' : α → Prop} {E E' : ε → Prop} (h : Sat m Q E) (hQ : ∀ a, Q a → Q' a)
    (hE : ∀ e, E e → E' e) : Sat m Q' E' := by
  cases m with
  | ok a    => exact hQ a h
  | error e => exact hE e h

/-- Weakening of the result postcondition only. -/
theorem Sat.weaken {Q Q' : α → Prop} (h : Sat m Q E) (hQ : ∀ a, Q a → Q' a) : Sat m Q' E :=
  h.mono hQ (fun _ he => he)

/-- Two specifications of the same program. -/
theorem Sat.and {Q Q' : α → Prop} {E E' : ε → Prop} (h : Sat m Q E) (h' : Sat m Q' E') :
    Sat m (fun a => Q a ∧ Q' a) (fun e => E e ∧ E' e) := by
  cases m with
  | ok a | error e => exact ⟨h, h'⟩

/-- Sequencing: the continuation is run on a result that satisfies the first
    postcondition. -/
theorem Sat.bind {R : β → Prop} (hm : Sat m Q E) (hf : ∀ a, Q a → Sat (f a) R E) :
    Sat (m >>= f) R E := by
  cases m with
  | ok a    => exact hf a hm
  | error e => exact hm

/-- Sequencing after a program whose result is known. -/
theorem Sat.bind_ok {a : α} {R : β → Prop} (hm : m = .ok a) (hf : Sat (f a) R E) : Sat (m >>= f) R E := by
  subst hm
  exact hf

/-- A guard: each branch is checked under its own condition. -/
theorem Sat.ite {c : Prop} [Decidable c] {m m' : Except ε α} (hm : c → Sat m Q E) (hm' : ¬ c → Sat m' Q E) :
    Sat (if c then m else m') Q E := by
  by_cases h : c
  · rw [if_pos h]; exact hm h
  · rw [if_neg h]; exact hm' h

/-- Reading a specification back at a known result. -/
theorem Sat.of_eq_ok {a : α} (h : Sat m Q E) (hm : m = .ok a) : Q a := by
  subst hm; exact h

/-- A total specification produces the result. -/
theorem Sat.exists_ok (h : Sat m Q (fun _ => False)) :
    ∃ a, m = .ok a ∧ Q a := by
  cases m with
  | ok a    => exact ⟨a, rfl, h⟩
  | error e => exact h.elim

/-- Sequencing after a result. -/
theorem ok_bind (a : α) (f : α → Except ε β) : ((Except.ok a : Except ε α) >>= f) = f a := rfl

/-- A sequence that returns: both parts do. -/
theorem bind_eq_ok {b : β} :
    (m >>= f) = .ok b ↔ ∃ a, m = .ok a ∧ f a = .ok b := by
  cases m with
  | ok a =>
    constructor
    · intro h
      exact ⟨a, rfl, h⟩
    · intro ⟨a', ha, h⟩
      cases ha
      exact h
  | error e =>
    constructor
    · intro h
      cases h
    · intro ⟨a, ha, _⟩
      cases ha

/-- A program that returns under a condition only. -/
theorem ok_iff_of_cases {c : Prop} (hok : c → ∃ a, m = .ok a ∧ Q a) (herror : ¬ c → ∃ e, m = .error e) :
    ((∃ a, m = .ok a) ↔ c) ∧ ∀ a, m = .ok a → Q a := by
  by_cases hc : c
  · obtain ⟨a, rfl, ha⟩ := hok hc
    refine ⟨iff_of_true ⟨a, rfl⟩ hc, fun a' ha' => ?_⟩
    cases ha'
    exact ha
  · obtain ⟨e, rfl⟩ := herror hc
    refine ⟨iff_of_false (fun ⟨a, ha⟩ => ?_) hc, fun a ha => ?_⟩
    · cases ha
    · cases ha

theorem mapM_cons_eq_ok {γ : Type*} {f : γ → Except ε α} {x : γ} {l : List γ} {r : List α} :
    (x :: l).mapM f = .ok r ↔ ∃ a as, f x = .ok a ∧ l.mapM f = .ok as ∧ r = a :: as := by
  rw [List.mapM_cons, bind_eq_ok]
  constructor
  · intro ⟨a, ha, h⟩
    obtain ⟨as, has, h⟩ := bind_eq_ok.mp h
    exact ⟨a, as, ha, has, (Except.ok.inj h).symm⟩
  · intro ⟨a, as, ha, has, hr⟩
    exact ⟨a, ha, bind_eq_ok.mpr ⟨as, has, congrArg Except.ok hr.symm⟩⟩

/-- **Loop rule.**  An invariant `I` that relates the consumed part of the list to the
    accumulator, and is kept by one iteration, holds after the whole loop. -/
theorem sat_foldlM {γ : Type*} {f : β → γ → Except ε β} (I : List γ → β → Prop) (l : List γ) (b : β)
    (h0 : I [] b) (hstep : ∀ done x rest b, l = done ++ x :: rest → I done b →
      Sat (f b x) (I (done ++ [x])) E) :
    Sat (l.foldlM f b) (I l) E := by
  suffices h : ∀ (rest done : List γ) (b : β), l = done ++ rest → I done b →
      Sat (rest.foldlM f b) (I l) E from h l [] b rfl h0
  intro rest
  induction rest with
  | nil =>
    intro done b hl hI
    rw [List.append_nil] at hl
    subst hl
    simpa using hI
  | cons x rest ih =>
    intro done b hl hI
    rw [List.foldlM_cons]
    refine Sat.bind (hstep done x rest b hl hI) (fun b' hb' => ih (done ++ [x]) b' ?_ hb')
    rw [hl, List.append_assoc, List.singleton_append]

end Redis.Outcome
