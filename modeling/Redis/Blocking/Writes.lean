import Redis.Blocking.Delivery
import Redis.Lib.Transition

namespace Redis.Blocking

open Outcome Server Transition

/-!
# Blocked list clients — what a command writes

Every command is a sequence of writes to the keys, unless it blocks the client or selects a
database.

* `Write`, `writes` — a key is added, deleted, changed in place; `replace` puts a list in the
  place of a value of another type;
* `Wrote` — writes without a `replace`; `Wrote.frame`, `Wrote.awake`, `Wrote.queued`;
* `Effect`, `runCommand_effect` — what a command can do.
-/

variable {C X : Type}

/-- A write to the keys. -/
inductive Write (X : Type)
  | add (p : Place) (v : Value X)
  | delete (p : Place)
  | keep (f : Place → Bool)
  /-- The value is changed in place, or overwritten by one that is no list. -/
  | change (p : Place) (v : Value X)
  /-- A value of another type is overwritten by a list. -/
  | replace (p : Place) (l : List Bytes)

/-- The writes, as `dbAdd`, `dbDelete` and `dbOverwrite` do them. -/
def writes : Actions (Server C X) (Write X) where
  enabled
    | .add p _, s => s.dict p = none
    | .delete _, _ => True
    | .keep _, _ => True
    | .change p v, s => s.dict p ≠ none ∧ ((∃ l, v = .list l) → IsList s p)
    | .replace p _, s => ∃ x, s.dict p = some (.other x)
  apply
    | .add p (.list l), s => signalListAsReady (s.setDict p (some (.list l))) p
    | .add p (.other x), s => s.setDict p (some (.other x))
    | .delete p, s => s.setDict p none
    | .keep f, s => keepKeys s f
    | .change p v, s => s.setDict p (some v)
    | .replace p l, s => s.setDict p (some (.list l))

/-- The list does not come into being under a key that held something else. -/
def Ordinary : Write X → Prop
  | .replace _ _ => False
  | _ => True

/-- From `s` to `t` only ordinary writes were done. -/
def Wrote (s t : Server C X) : Prop := writes.Steps Ordinary s t

/-- What no write looks at. -/
def frame (s : Server C X) :
    List C × (C → Client) × (Place → Option (List C)) × Nat × List (Service C) × Nat :=
  (s.clients, s.client, s.blockingKeys, s.clock, s.served, s.dbnum)

variable (s : Server C X) (multi : Bool)

theorem signalListAsReady_frame (p : Place) :
    frame (signalListAsReady s p) = frame s := by
  obtain ⟨r, k, h, _⟩ := signalListAsReady_spec s p
  rw [h]
  rfl

theorem writes_frame (a : Write X) (s : Server C X) : frame (writes.apply a s) = frame s := by
  cases a with
  | add p v =>
    cases v with
    | list l => exact signalListAsReady_frame (s.setDict p (some (.list l))) p
    | other x => rfl
  | delete p | keep f | change p v | replace p l => rfl

namespace Wrote

variable {s t u : Server C X}

theorem refl (s : Server C X) : Wrote s s := Actions.Steps.refl s

theorem trans (h : Wrote s t) (h' : Wrote t u) : Wrote s u := Actions.Steps.trans h h'

theorem frame (h : Wrote s t) : frame t = frame s :=
  Actions.Steps.frame h Blocking.frame (fun a u _ _ => writes_frame a u)

theorem client (h : Wrote s t) : t.client = s.client := congrArg (·.2.1) h.frame

theorem add {p : Place} (hp : s.dict p = none) (v : Value X) :
    Wrote s (writes.apply (.add p v) s) := Actions.Steps.single trivial hp

theorem delete (s : Server C X) (p : Place) : Wrote s (s.setDict p none) :=
  Actions.Steps.single (M := writes) (a := .delete p) trivial trivial

theorem keep (s : Server C X) (f : Place → Bool) : Wrote s (keepKeys s f) :=
  Actions.Steps.single (M := writes) (a := .keep f) trivial trivial

theorem setList {p : Place} (hp : IsList s p) (l : List Bytes) :
    Wrote s (s.setDict p (some (.list l))) := by
  obtain ⟨m, hm⟩ := hp
  exact Actions.Steps.single (M := writes) (a := .change p (.list l)) trivial
    ⟨by simp [hm], fun _ => ⟨m, hm⟩⟩

theorem setOther {p : Place} (hp : s.dict p ≠ none) (x : X) :
    Wrote s (s.setDict p (some (.other x))) :=
  Actions.Steps.single (M := writes) (a := .change p (.other x)) trivial
    ⟨hp, fun ⟨l, hl⟩ => by cases hl⟩

/-- Every key that is signaled is in the list of ready keys. -/
theorem queued (h : Wrote s t) (hs : ∀ p, s.ready p = true → p ∈ s.readyKeys) :
    ∀ p, t.ready p = true → p ∈ t.readyKeys := by
  refine Actions.Steps.invariant h (fun u => ∀ p, u.ready p = true → p ∈ u.readyKeys) hs ?_
  intro a u _ _ hu
  cases a with
  | add p v =>
    cases v with
    | list l =>
      obtain ⟨r, k, heq, _, _, hqueued, hsub, _⟩ :=
        signalListAsReady_spec (u.setDict p (some (.list l))) p
      intro q hq
      simp only [writes, heq] at hq ⊢
      rcases hqueued q hq with hold | hnew
      · exact hsub q (hu q hold)
      · exact hnew
    | other x => exact hu
  | delete p | keep f | change p v | replace p l => exact hu

/-- **Ordinary writes signal.**  A list comes into being by `dbAdd` alone. -/
theorem awake (h : Wrote s t) (hs : Awake s) : Awake t := by
  refine Actions.Steps.invariant h Awake hs ?_
  intro a u ha he hu
  cases a with
  | add p v =>
    cases v with
    | list l =>
      obtain ⟨r, k, heq, hwait, hkept, _⟩ := signalListAsReady_spec (u.setDict p (some (.list l))) p
      intro q hq hl
      simp only [writes, heq] at hq hl ⊢
      by_cases hqp : q = p
      · rw [hqp] at hq ⊢
        exact hwait.resolve_left hq
      · obtain ⟨m, hm⟩ := hl
        exact hkept q (hu q hq ⟨m, by simpa [setDict, hqp] using hm⟩)
    | other x =>
      intro q hq hl
      obtain ⟨m, hm⟩ := hl
      by_cases hqp : q = p
      · subst hqp
        simp [writes, setDict] at hm
      · exact hu q hq ⟨m, by simpa [writes, setDict, hqp] using hm⟩
  | delete p =>
    intro q hq hl
    obtain ⟨m, hm⟩ := hl
    by_cases hqp : q = p
    · subst hqp
      simp [writes, setDict] at hm
    · exact hu q hq ⟨m, by simpa [writes, setDict, hqp] using hm⟩
  | keep f =>
    intro q hq hl
    obtain ⟨m, hm⟩ := hl
    by_cases hf : f q = true
    · exact hu q hq ⟨m, by simpa [writes, keepKeys, hf] using hm⟩
    · simp [writes, keepKeys, hf] at hm
  | change p v =>
    intro q hq hl
    obtain ⟨m, hm⟩ := hl
    by_cases hqp : q = p
    · subst hqp
      have hv : v = .list m := by simpa [writes, setDict] using hm
      exact hu q hq (he.2 ⟨m, hv⟩)
    · exact hu q hq ⟨m, by simpa [writes, setDict, hqp] using hm⟩
  | replace p l => exact ha.elim

end Wrote

/-! ## The commands -/

/-- A result that only ordinary writes lead to. -/
abbrev Writing (s : Server C X) (m : Except Fault (Server C X)) : Prop :=
  Sat m (fun t => Wrote s t) (fun _ => True)

theorem dbAdd_wrote (p : Place) (v : Value X) : Writing s (dbAdd s p v) := by
  unfold dbAdd
  refine Sat.ite (fun _ => trivial) (fun h => ?_)
  have hp : s.dict p = none := by simpa using h
  cases v with
  | list l => exact Wrote.add hp (.list l)
  | other x => exact Wrote.add hp (.other x)

theorem dbOverwrite_wrote (p : Place) (x : X) :
    Writing s (dbOverwrite s p (.other x)) := by
  unfold dbOverwrite
  refine Sat.ite (fun _ => trivial) (fun h => Wrote.setOther ?_ x)
  simpa using h

theorem setKey_wrote (p : Place) (x : X) : Writing s (setKey s p (.other x)) :=
  Sat.ite (fun _ => dbAdd_wrote s p _) (fun _ => dbOverwrite_wrote s p x)

theorem pushTo_wrote (p : Place) (v : Bytes) (w : Where) :
    Writing s (pushTo s p v w) := by
  unfold pushTo
  cases hp : s.dict p with
  | none => trivial
  | some o =>
    cases o with
    | list l => exact Wrote.setList ⟨l, hp⟩ _
    | other x => trivial

theorem pushAll_wrote (p : Place) (w : Where) (values : List Bytes) (s : Server C X) :
    Writing s (values.foldlM (fun s v => pushTo s p v w) s) :=
  sat_foldlM (fun _ t => Wrote s t) values s (Wrote.refl s)
    (fun _ v _ t _ ht => (pushTo_wrote t p v w).weaken (fun _ hu => ht.trans hu))

theorem popFrom_wrote (p : Place) (w : Where) :
    Sat (popFrom s p w) (fun r => Wrote s r.2) (fun _ => True) := by
  unfold popFrom
  cases hp : s.dict p with
  | none => trivial
  | some o =>
    cases o with
    | list l =>
      cases hpop : listTypePop l w with
      | none =>
        simp only [hpop]
        exact Wrote.refl s
      | some r =>
        simp only [hpop]
        exact Wrote.setList ⟨l, hp⟩ _
    | other x => trivial

theorem deleteIfEmpty_wrote (p : Place) : Writing s (deleteIfEmpty s p) := by
  unfold deleteIfEmpty
  cases hp : s.dict p with
  | none => trivial
  | some o =>
    cases o with
    | list l =>
      by_cases hl : l.length = 0
      · simp only [if_pos hl]
        exact Wrote.delete s p
      · simp only [if_neg hl]
        exact Wrote.refl s
    | other x => trivial

theorem rpoplpushHandlePush_wrote (c : C) (dst : Bytes) (exist : Bool) (v : Bytes) :
    Writing s (rpoplpushHandlePush s c dst exist v) := by
  cases exist with
  | true => exact pushTo_wrote s ((s.client c).db, dst) v .head
  | false =>
    exact Sat.bind (dbAdd_wrote s ((s.client c).db, dst) (.list []))
      (fun t ht => (pushTo_wrote t _ v .head).weaken (fun _ hu => ht.trans hu))

theorem pushGenericCommand_wrote (p : Place) (values : List Bytes) (w : Where) :
    Writing s (pushGenericCommand s p values w) := by
  unfold pushGenericCommand
  cases s.dict p with
  | none =>
    exact Sat.bind (dbAdd_wrote s p (.list []))
      (fun t ht => (pushAll_wrote p w values t).weaken (fun _ hu => ht.trans hu))
  | some o =>
    cases o with
    | list l => exact pushAll_wrote p w values s
    | other x => exact Wrote.refl s

theorem pushxGenericCommand_wrote (p : Place) (v : Bytes) (w : Where) :
    Writing s (pushxGenericCommand s p v w) := by
  unfold pushxGenericCommand
  cases s.dict p with
  | none => exact Wrote.refl s
  | some o =>
    cases o with
    | list l => exact pushTo_wrote s p v w
    | other x => exact Wrote.refl s

theorem popGenericCommand_wrote (p : Place) (w : Where) :
    Writing s (popGenericCommand s p w) := by
  unfold popGenericCommand
  cases s.dict p with
  | none => exact Wrote.refl s
  | some o =>
    cases o with
    | list l =>
      refine Sat.bind (popFrom_wrote s p w) (fun r hr => ?_)
      cases r.1 with
      | none => exact hr
      | some v => exact (deleteIfEmpty_wrote r.2 p).weaken (fun _ hu => hr.trans hu)
    | other x => exact Wrote.refl s

theorem editCommand_wrote (p : Place) (f : List Bytes → List Bytes) (trim : Bool) :
    Writing s (editCommand s p f trim) := by
  unfold editCommand
  cases hp : s.dict p with
  | none => exact Wrote.refl s
  | some o =>
    cases o with
    | list l =>
      have hset : Wrote s (s.setDict p (some (.list (f l)))) := Wrote.setList ⟨l, hp⟩ _
      exact Sat.ite (fun _ => (deleteIfEmpty_wrote _ p).weaken (fun _ hu => hset.trans hu))
        (fun _ => hset)
    | other x => exact Wrote.refl s

theorem rpoplpushCommand_wrote (c : C) (src dst : Bytes) :
    Writing s (rpoplpushCommand s c src dst) := by
  have hpush : ∀ exist v r, Wrote s r → Writing s (do
      let s' ← rpoplpushHandlePush r c dst exist v
      deleteIfEmpty s' ((s.client c).db, src)) := by
    intro exist v r hr
    refine Sat.bind (rpoplpushHandlePush_wrote r c dst exist v) (fun t ht => ?_)
    exact (deleteIfEmpty_wrote t _).weaken (fun _ hu => (hr.trans ht).trans hu)
  simp only [rpoplpushCommand]
  cases s.dict ((s.client c).db, src) with
  | none => exact Wrote.refl s
  | some o =>
    cases o with
    | list l =>
      refine Sat.ite (fun _ => Wrote.refl s) (fun _ => ?_)
      cases s.dict ((s.client c).db, dst) with
      | none =>
        refine Sat.bind (popFrom_wrote s _ .tail) (fun r hr => ?_)
        cases r.1 with
        | none => trivial
        | some v => exact hpush _ v r.2 hr
      | some dobj =>
        cases dobj with
        | list m =>
          refine Sat.bind (popFrom_wrote s _ .tail) (fun r hr => ?_)
          cases r.1 with
          | none => trivial
          | some v => exact hpush _ v r.2 hr
        | other x => exact Wrote.refl s
    | other x => exact Wrote.refl s

theorem updateCommand_wrote (p : Place) (f : Option X → Option X) :
    Writing s (updateCommand s p f) := by
  unfold updateCommand
  cases s.dict p with
  | none =>
    cases f none with
    | none => exact Wrote.refl s
    | some y => exact dbAdd_wrote s p _
  | some o =>
    cases o with
    | list l => exact Wrote.refl s
    | other x =>
      cases hf : f (some x) with
      | none =>
        simp only [hf]
        exact Wrote.delete s p
      | some y =>
        simp only [hf]
        exact dbOverwrite_wrote s p y

theorem storeCommand_wrote (p : Place) (x : Option X) :
    Writing s (storeCommand s p x) := by
  cases x with
  | none => exact Wrote.delete s p
  | some x =>
    exact (dbAdd_wrote (dbDelete s p) p (.other x)).weaken (fun _ hu => (Wrote.delete s p).trans hu)

theorem renameGenericCommand_wrote (d : Nat) (key newkey : Bytes) (nx : Bool) :
    Writing s (renameGenericCommand s d key newkey nx) := by
  unfold renameGenericCommand
  cases s.dict (d, key) with
  | none => exact Wrote.refl s
  | some o =>
    refine Sat.ite (fun _ => Wrote.refl s) (fun _ => Sat.ite (fun _ => Wrote.refl s) (fun _ => ?_))
    obtain ⟨u, hu⟩ : ∃ u, u = if (s.dict (d, newkey)).isSome then dbDelete s (d, newkey) else s :=
      ⟨_, rfl⟩
    have hwrote : Wrote s u := by
      rw [hu]
      by_cases hnew : (s.dict (d, newkey)).isSome = true
      · rw [if_pos hnew]
        exact Wrote.delete s _
      · rw [if_neg hnew]
        exact Wrote.refl s
    simp only [← hu]
    exact Sat.bind (dbAdd_wrote u (d, newkey) o)
      (fun t ht => (hwrote.trans ht).trans (Wrote.delete t (d, key)))

theorem moveCommand_wrote (src : Nat) (key : Bytes) (dst : Nat) :
    Writing s (moveCommand s src key dst) := by
  unfold moveCommand
  refine Sat.ite (fun _ => Wrote.refl s) (fun _ => Sat.ite (fun _ => Wrote.refl s) (fun _ => ?_))
  cases s.dict (src, key) with
  | none => exact Wrote.refl s
  | some o =>
    refine Sat.ite (fun _ => Wrote.refl s) (fun _ => ?_)
    exact Sat.bind (dbAdd_wrote s (dst, key) o) (fun t ht => ht.trans (Wrote.delete t (src, key)))

theorem restoreCommand_wrote (p : Place) (payload : Option (Value X)) (replace : Bool) :
    Writing s (restoreCommand s p payload replace) := by
  unfold restoreCommand
  refine Sat.ite (fun _ => Wrote.refl s) (fun _ => ?_)
  cases payload with
  | none => exact Wrote.refl s
  | some o =>
    cases replace with
    | false => exact dbAdd_wrote s p o
    | true => exact (dbAdd_wrote (dbDelete s p) p o).weaken (fun _ hu => (Wrote.delete s p).trans hu)

theorem del_wrote (d : Nat) (keys : List Bytes) :
    Wrote s (keys.foldl (fun s key => dbDelete s (d, key)) s) := by
  induction keys generalizing s with
  | nil => exact Wrote.refl s
  | cons key keys ih => exact (Wrote.delete s (d, key)).trans (ih _)

/-! ## What a command can do -/

/-- There is nothing to pop: the key does not exist, or holds an empty list. -/
def NoElement (s : Server C X) (p : Place) : Prop := s.dict p = none ∨ s.dict p = some (.list [])

/-- The keys that a command can block on. -/
def Command.waitKeys : Command X → List Bytes
  | .blpop key keys _ => key :: keys
  | .brpop key keys _ => key :: keys
  | .brpoplpush src _ _ => [src]
  | _ => []

theorem popFirst_spec (d : Nat) (w : Where) (keys : List Bytes) :
    Sat (popFirst s d w keys)
      (fun r => (∀ t, r = some t → Wrote s t) ∧ (r = none → ∀ key ∈ keys, NoElement s (d, key)))
      (fun _ => True) := by
  induction keys with
  | nil => exact ⟨by simp, by simp⟩
  | cons key keys ih =>
    have hnext : NoElement s (d, key) → Sat (popFirst s d w keys)
        (fun r => (∀ t, r = some t → Wrote s t) ∧
          (r = none → ∀ k ∈ key :: keys, NoElement s (d, k))) (fun _ => True) := by
      intro hkey
      refine ih.weaken (fun r hr => ⟨hr.1, fun hnone k hk => ?_⟩)
      rcases List.mem_cons.mp hk with rfl | hk
      · exact hkey
      · exact hr.2 hnone k hk
    simp only [popFirst]
    cases hp : s.dict (d, key) with
    | none => exact hnext (Or.inl hp)
    | some o =>
      cases o with
      | list l =>
        refine Sat.ite (fun hl => ?_) (fun _ => ?_)
        · rw [List.length_eq_zero_iff.mp hl] at hp
          exact hnext (Or.inr hp)
        · refine Sat.bind (popFrom_wrote s (d, key) w) (fun r hr => ?_)
          cases r.1 with
          | none => trivial
          | some v =>
            refine Sat.bind (deleteIfEmpty_wrote r.2 (d, key)) (fun t ht => ⟨?_, by simp⟩)
            intro t' ht'
            cases ht'
            exact hr.trans ht
      | other x =>
        refine ⟨fun t ht => ?_, by simp⟩
        cases ht
        exact Wrote.refl s

variable [DecidableEq C]

/-- What a command of a client can do. -/
inductive Effect (multi : Bool) (s : Server C X) (c : C) : Command X → Server C X → Prop
  | wrote {cmd : Command X} {t : Server C X} (h : Wrote s t) : Effect multi s c cmd t
  /-- `SORT … STORE` overwrites a value of another type. -/
  | replaced {key : Bytes} {l : List Bytes} {x : X} (hl : l ≠ [])
      (h : s.dict ((s.client c).db, key) = some (.other x)) :
      Effect multi s c (.sortStore key l) (s.setDict ((s.client c).db, key) (some (.list l)))
  | selected {d : Nat} :
      Effect multi s c (.select d) (s.setClient c { s.client c with db := d })
  | blocked {cmd : Command X} {timeout : Int} {target : Option Bytes}
      (hm : multi = false) (hkeys : cmd.waitKeys ≠ [])
      (h : ∀ key ∈ cmd.waitKeys, NoElement s ((s.client c).db, key)) :
      Effect multi s c cmd (blockForKeys s c cmd.waitKeys timeout target)

theorem sortStoreCommand_effect (s : Server C X) (c : C) (key : Bytes) (result : List Bytes) :
    Sat (sortStoreCommand s ((s.client c).db, key) result)
      (fun t => Effect multi s c (.sortStore key result) t) (fun _ => True) := by
  unfold sortStoreCommand
  refine Sat.ite (fun _ => .wrote (Wrote.delete s _)) (fun hresult => ?_)
  have hne : result ≠ [] := fun h => hresult (List.length_eq_zero_iff.mpr h)
  refine Sat.ite (fun _ => (dbAdd_wrote s _ _).weaken (fun _ ht => .wrote ht)) (fun hsome => ?_)
  unfold dbOverwrite
  refine Sat.ite (fun _ => trivial) (fun _ => ?_)
  cases hp : s.dict ((s.client c).db, key) with
  | none => simp [hp] at hsome
  | some o =>
    cases o with
    | list l => exact .wrote (Wrote.setList ⟨l, hp⟩ result)
    | other x => exact .replaced hne hp

theorem blockingPop_effect (s : Server C X) (c : C) (cmd : Command X) (hkeys : cmd.waitKeys ≠ [])
    (timeout : Option Int) (w : Where) :
    Sat (blockingPopGenericCommand multi s c cmd.waitKeys timeout w)
      (fun t => Effect multi s c cmd t) (fun _ => True) := by
  cases timeout with
  | none => exact .wrote (Wrote.refl s)
  | some timeout =>
    refine Sat.bind (popFirst_spec s (s.client c).db w cmd.waitKeys) (fun r hr => ?_)
    cases r with
    | some t => exact .wrote (hr.1 t rfl)
    | none =>
      cases multi with
      | true => exact .wrote (Wrote.refl s)
      | false => exact .blocked rfl hkeys (hr.2 rfl)

theorem brpoplpushCommand_effect (s : Server C X) (c : C) (src dst : Bytes) (timeout : Option Int) :
    Sat (brpoplpushCommand multi s c src dst timeout)
      (fun t => Effect multi s c (.brpoplpush src dst timeout) t) (fun _ => True) := by
  cases timeout with
  | none => exact .wrote (Wrote.refl s)
  | some timeout =>
    simp only [brpoplpushCommand]
    cases hp : s.dict ((s.client c).db, src) with
    | none =>
      cases multi with
      | true => exact .wrote (Wrote.refl s)
      | false =>
        have hwait : ∀ key ∈ (Command.brpoplpush (X := X) src dst (some timeout)).waitKeys,
            NoElement s ((s.client c).db, key) := by
          intro key hkey
          rw [List.mem_singleton.mp hkey]
          exact Or.inl hp
        exact .blocked rfl (List.cons_ne_nil _ _) hwait
    | some o =>
      cases o with
      | list l =>
        exact Sat.ite (fun _ => trivial)
          (fun _ => (rpoplpushCommand_wrote s c src dst).weaken (fun _ ht => .wrote ht))
      | other x => exact .wrote (Wrote.refl s)

/-- **The commands.** -/
theorem runCommand_effect (s : Server C X) (c : C) (cmd : Command X) :
    Sat (runCommand multi s c cmd) (fun t => Effect multi s c cmd t) (fun _ => True) := by
  have hw : ∀ {m : Except Fault (Server C X)}, Writing s m →
      Sat m (fun t => Effect multi s c cmd t) (fun _ => True) :=
    fun h => h.weaken (fun _ ht => .wrote ht)
  cases cmd with
  | push key value values w => exact hw (pushGenericCommand_wrote s _ _ w)
  | pushx key value w => exact hw (pushxGenericCommand_wrote s _ value w)
  | pop key w => exact hw (popGenericCommand_wrote s _ w)
  | edit key f trim => exact hw (editCommand_wrote s _ f trim)
  | rpoplpush src dst => exact hw (rpoplpushCommand_wrote s c src dst)
  | blpop key keys timeout =>
    exact blockingPop_effect multi s c (.blpop key keys timeout) (List.cons_ne_nil _ _) timeout .head
  | brpop key keys timeout =>
    exact blockingPop_effect multi s c (.brpop key keys timeout) (List.cons_ne_nil _ _) timeout .tail
  | brpoplpush src dst timeout => exact brpoplpushCommand_effect multi s c src dst timeout
  | set key x => exact hw (setKey_wrote s _ x)
  | update key f => exact hw (updateCommand_wrote s _ f)
  | store key x => exact hw (storeCommand_wrote s _ x)
  | del keys => exact .wrote (del_wrote s (s.client c).db keys)
  | rename key newkey nx => exact hw (renameGenericCommand_wrote s _ key newkey nx)
  | move key dst => exact hw (moveCommand_wrote s _ key dst)
  | restore key payload replace => exact hw (restoreCommand_wrote s _ payload replace)
  | sortStore key result => exact sortStoreCommand_effect multi s c key result
  | flushdb | flushall => exact .wrote (Wrote.keep s _)
  | select dst =>
    simp only [runCommand]
    by_cases hdst : dst < s.dbnum
    · rw [if_pos hdst]
      exact .selected
    · rw [if_neg hdst]
      exact .wrote (Wrote.refl s)
  | read => exact .wrote (Wrote.refl s)

end Redis.Blocking
