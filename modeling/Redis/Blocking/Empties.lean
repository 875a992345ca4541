import Redis.Blocking.Copies

namespace Redis.Blocking

open Outcome Server

/-!
# Blocked list clients — empty lists and destinations

Two things that hold whenever a command begins.

* `EmptyOnlyAt`, `runCommand_fills` — an empty list stands under a key only inside a command, as
  long as the command does not store one (`Command.Fills`);
* `Targets`, `callCommand_targets` — a client with a destination is blocked, and its last command
  was no `BLPOP`.
-/

variable {C X : Type} {s : Server C X}

/-! ## Empty lists -/

/-- Empty lists stand under the keys `ps` only. -/
def EmptyOnlyAt (ps : List Place) (s : Server C X) : Prop :=
  ∀ q, s.dict q = some (.list []) → q ∈ ps

theorem emptyOnlyAt_nil : EmptyOnlyAt [] s ↔ NoEmptyList s :=
  ⟨fun h q hq => List.not_mem_nil (h q hq), fun h q hq => (h q hq).elim⟩

theorem EmptyOnlyAt.mono {ps qs : List Place} (h : EmptyOnlyAt ps s) (hsub : ∀ q ∈ ps, q ∈ qs) :
    EmptyOnlyAt qs s := fun q hq => hsub q (h q hq)

variable {ps : List Place}

/-- The key may get an empty list. -/
theorem EmptyOnlyAt.setAny {p : Place} (h : EmptyOnlyAt ps s) (v : Option (Value X)) :
    EmptyOnlyAt (p :: ps) (s.setDict p v) := by
  intro q hq
  by_cases hqp : q = p
  · exact List.mem_cons.mpr (Or.inl hqp)
  · rw [setDict_dict, Function.update_of_ne hqp] at hq
    exact List.mem_cons_of_mem p (h q hq)

/-- The key gets something else. -/
theorem EmptyOnlyAt.setFull {p : Place} (h : EmptyOnlyAt (p :: ps) s) {v : Option (Value X)}
    (hv : v ≠ some (.list [])) : EmptyOnlyAt ps (s.setDict p v) := by
  intro q hq
  by_cases hqp : q = p
  · rw [setDict_dict, hqp, Function.update_self] at hq
    exact absurd hq hv
  · rw [setDict_dict, Function.update_of_ne hqp] at hq
    exact (List.mem_cons.mp (h q hq)).resolve_left hqp

theorem EmptyOnlyAt.signal (h : EmptyOnlyAt ps s) (p : Place) :
    EmptyOnlyAt ps (signalListAsReady s p) := by
  obtain ⟨_, _, hs, _⟩ := signalListAsReady_spec s p
  rw [hs]
  exact h

/-- A result with empty lists under the keys `ps` only. -/
abbrev Fills (ps : List Place) (a : Except Fault (Server C X)) : Prop :=
  Sat a (EmptyOnlyAt ps) (fun _ => True)

section

variable {ps : List Place} {p : Place}

theorem dbAdd_any (h : EmptyOnlyAt ps s) (p : Place) (v : Value X) : Fills (p :: ps) (dbAdd s p v) := by
  refine Sat.ite (fun _ => trivial) (fun _ => ?_)
  cases v with
  | list l => exact (h.setAny (some (.list l))).signal p
  | other x => exact h.setAny (some (.other x))

theorem dbAdd_fills (h : EmptyOnlyAt (p :: ps) s) {v : Value X} (hv : v ≠ .list []) :
    Fills ps (dbAdd s p v) := by
  have hset := h.setFull (v := some v) (fun he => hv (Option.some.inj he))
  refine Sat.ite (fun _ => trivial) (fun _ => ?_)
  cases v with
  | list l => exact hset.signal p
  | other x => exact hset

theorem dbOverwrite_fills (h : EmptyOnlyAt (p :: ps) s) {v : Value X} (hv : v ≠ .list []) :
    Fills ps (dbOverwrite s p v) :=
  Sat.ite (fun _ => trivial) (fun _ => h.setFull (fun he => hv (Option.some.inj he)))

theorem setKey_fills (h : EmptyOnlyAt (p :: ps) s) {v : Value X} (hv : v ≠ .list []) :
    Fills ps (setKey s p v) :=
  Sat.ite (fun _ => dbAdd_fills h hv) (fun _ => dbOverwrite_fills h hv)

theorem listTypePush_ne_nil (l : List Bytes) (v : Bytes) (w : Where) : listTypePush l v w ≠ [] := by
  cases w with
  | head => exact List.cons_ne_nil v l
  | tail => exact List.append_ne_nil_of_right_ne_nil l (List.cons_ne_nil v [])

theorem pushTo_fills (h : EmptyOnlyAt (p :: ps) s) (v : Bytes) (w : Where) :
    Fills ps (pushTo s p v w) := by
  unfold pushTo
  cases s.dict p with
  | none => trivial
  | some o =>
    cases o with
    | list l =>
      refine h.setFull (fun he => listTypePush_ne_nil l v w ?_)
      injection Option.some.inj he
    | other x => trivial

theorem pushAll_fills (w : Where) (value : Bytes) (values : List Bytes) (h : EmptyOnlyAt (p :: ps) s) :
    Fills ps ((value :: values).foldlM (fun s v => pushTo s p v w) s) := by
  rw [List.foldlM_cons]
  refine (pushTo_fills h value w).bind (fun t ht => ?_)
  refine sat_foldlM (fun _ u => EmptyOnlyAt ps u) values t ht (fun _ v _ u _ hu => ?_)
  exact pushTo_fills (hu.mono (fun q hq => List.mem_cons_of_mem p hq)) v w

theorem popFrom_any (h : EmptyOnlyAt ps s) (w : Where) :
    Sat (popFrom s p w) (fun a => EmptyOnlyAt (p :: ps) a.2) (fun _ => True) := by
  unfold popFrom
  cases s.dict p with
  | none => trivial
  | some o =>
    cases o with
    | list l =>
      cases hpop : listTypePop l w with
      | none =>
        simp only [hpop]
        exact h.mono (fun q hq => List.mem_cons_of_mem p hq)
      | some a =>
        simp only [hpop]
        exact h.setAny _
    | other x => trivial

theorem deleteIfEmpty_fills (h : EmptyOnlyAt (p :: ps) s) : Fills ps (deleteIfEmpty s p) := by
  unfold deleteIfEmpty
  cases hp : s.dict p with
  | none => trivial
  | some o =>
    cases o with
    | other x => trivial
    | list l =>
      by_cases hl : l.length = 0
      · simp only [if_pos hl]
        exact h.setFull (by simp)
      · simp only [if_neg hl]
        intro q hq
        refine (List.mem_cons.mp (h q hq)).resolve_left (fun hqp => hl ?_)
        rw [hqp, hp] at hq
        cases hq
        rfl

theorem rpoplpushHandlePush_fills (h : EmptyOnlyAt ps s) (c : C) (dst : Bytes) (exist : Bool)
    (v : Bytes) : Fills ps (rpoplpushHandlePush s c dst exist v) := by
  cases exist with
  | true => exact pushTo_fills (h.mono (fun q hq => List.mem_cons_of_mem _ hq)) v .head
  | false =>
    refine Sat.bind (m := dbAdd s ((s.client c).db, dst) (.list []))
      (Q := fun t => EmptyOnlyAt (((s.client c).db, dst) :: ps) t ∧ t.client = s.client) ?_ ?_
    · exact Sat.mono (Sat.and (dbAdd_any h _ _) (dbAdd_wrote s _ _))
        (fun t ht => ⟨ht.1, ht.2.client⟩) (fun _ _ => trivial)
    · intro t ht
      simp only [ht.2]
      exact pushTo_fills ht.1 v .head

end

theorem pushGenericCommand_fills (h : NoEmptyList s) (p : Place) (value : Bytes) (values : List Bytes)
    (w : Where) : Fills [] (pushGenericCommand s p (value :: values) w) := by
  have hany : EmptyOnlyAt [p] s := (emptyOnlyAt_nil.mpr h).mono (by simp)
  unfold pushGenericCommand
  cases s.dict p with
  | none =>
    exact (dbAdd_any (emptyOnlyAt_nil.mpr h) p (.list [])).bind
      (fun t ht => pushAll_fills w value values ht)
  | some o =>
    cases o with
    | list l => exact pushAll_fills w value values hany
    | other x => exact emptyOnlyAt_nil.mpr h

theorem popGenericCommand_fills (h : NoEmptyList s) (p : Place) (w : Where) :
    Fills [] (popGenericCommand s p w) := by
  unfold popGenericCommand
  cases hp : s.dict p with
  | none => exact emptyOnlyAt_nil.mpr h
  | some o =>
    cases o with
    | other x => exact emptyOnlyAt_nil.mpr h
    | list l =>
      have hne : l ≠ [] := fun he => h p (he ▸ hp)
      cases hpop : listTypePop l w with
      | none => exact absurd (listTypePop_none.mp hpop) hne
      | some a =>
        simp only [popFrom, hp, hpop, ok_bind]
        exact deleteIfEmpty_fills ((emptyOnlyAt_nil.mpr h).setAny _)

theorem rpoplpushCommand_fills (h : NoEmptyList s) (c : C) (src dst : Bytes) :
    Fills [] (rpoplpushCommand s c src dst) := by
  have hpush : ∀ exist v (t : Server C X), EmptyOnlyAt [((s.client c).db, src)] t → Fills [] (do
      let s' ← rpoplpushHandlePush t c dst exist v
      deleteIfEmpty s' ((s.client c).db, src)) := by
    intro exist v t ht
    exact (rpoplpushHandlePush_fills ht c dst exist v).bind (fun _ hu => deleteIfEmpty_fills hu)
  simp only [rpoplpushCommand]
  cases s.dict ((s.client c).db, src) with
  | none => exact emptyOnlyAt_nil.mpr h
  | some o =>
    cases o with
    | other x => exact emptyOnlyAt_nil.mpr h
    | list l =>
      refine Sat.ite (fun _ => emptyOnlyAt_nil.mpr h) (fun _ => ?_)
      cases s.dict ((s.client c).db, dst) with
      | none =>
        refine (popFrom_any (emptyOnlyAt_nil.mpr h) .tail).bind (fun a ha => ?_)
        cases a.1 with
        | none => trivial
        | some v => exact hpush _ v a.2 ha
      | some dobj =>
        cases dobj with
        | list k =>
          refine (popFrom_any (emptyOnlyAt_nil.mpr h) .tail).bind (fun a ha => ?_)
          cases a.1 with
          | none => trivial
          | some v => exact hpush _ v a.2 ha
        | other x => exact emptyOnlyAt_nil.mpr h

/-- The command puts no empty list under a key: `LSET` and `LINSERT` leave no list empty, and an
    empty list is no payload for `RESTORE`. -/
def Command.StoresElements : Command X → Prop
  | .edit _ f trim => trim = false → ∀ l, l ≠ [] → f l ≠ []
  | .restore _ payload _ => payload ≠ some (.list [])
  | _ => True

theorem editCommand_fills (h : NoEmptyList s) (p : Place) {f : List Bytes → List Bytes} {trim : Bool}
    (hf : trim = false → ∀ l, l ≠ [] → f l ≠ []) : Fills [] (editCommand s p f trim) := by
  unfold editCommand
  cases hp : s.dict p with
  | none => exact emptyOnlyAt_nil.mpr h
  | some o =>
    cases o with
    | other x => exact emptyOnlyAt_nil.mpr h
    | list l =>
      have hset := (emptyOnlyAt_nil.mpr h).setAny (p := p) (some (.list (f l)))
      refine Sat.ite (fun _ => deleteIfEmpty_fills hset) (fun htrim => ?_)
      have hfl : f l ≠ [] := hf (by simpa using htrim) l (fun he => h p (he ▸ hp))
      refine EmptyOnlyAt.setFull ((emptyOnlyAt_nil.mpr h).mono (by simp)) (fun he => hfl ?_)
      injection Option.some.inj he

theorem blockForKeys_fills (h : NoEmptyList s) [DecidableEq C] (c : C) (keys : List Bytes)
    (timeout : Int) (target : Option Bytes) :
    EmptyOnlyAt [] (blockForKeys s c keys timeout target) := by
  intro q hq
  rw [(blockForKeys_same s c keys timeout target).1] at hq
  exact absurd hq (h q)

theorem blockingPop_fills (h : NoEmptyList s) [DecidableEq C] (multi : Bool) (c : C)
    (keys : List Bytes) (timeout : Option Int) (w : Where) :
    Fills [] (blockingPopGenericCommand multi s c keys timeout w) := by
  cases timeout with
  | none => exact emptyOnlyAt_nil.mpr h
  | some t =>
    cases hkey : popKey s (s.client c).db keys with
    | some key =>
      rw [blockingPop_some t w hkey]
      exact popGenericCommand_fills h _ w
    | none =>
      simp only [blockingPopGenericCommand]
      rcases popFirst_none w keys hkey with hfirst | hfirst
      · rw [hfirst, ok_bind]
        exact Sat.ite (fun _ => emptyOnlyAt_nil.mpr h) (fun _ => blockForKeys_fills h c keys t none)
      · rw [hfirst, ok_bind]
        exact emptyOnlyAt_nil.mpr h

theorem brpoplpush_fills (h : NoEmptyList s) [DecidableEq C] (multi : Bool) (c : C)
    (src dst : Bytes) (timeout : Option Int) :
    Fills [] (brpoplpushCommand multi s c src dst timeout) := by
  cases timeout with
  | none => exact emptyOnlyAt_nil.mpr h
  | some t =>
    simp only [brpoplpushCommand]
    cases s.dict ((s.client c).db, src) with
    | none =>
      exact Sat.ite (fun _ => emptyOnlyAt_nil.mpr h) (fun _ => blockForKeys_fills h c _ t _)
    | some o =>
      cases o with
      | other x => exact emptyOnlyAt_nil.mpr h
      | list l => exact Sat.ite (fun _ => trivial) (fun _ => rpoplpushCommand_fills h c src dst)

/-- A value is moved to another key, whose own value is gone. -/
theorem renameGenericCommand_fills (h : NoEmptyList s) (d : Nat) (key newkey : Bytes) (nx : Bool) :
    Fills [] (renameGenericCommand s d key newkey nx) := by
  have hs := emptyOnlyAt_nil.mpr h
  unfold renameGenericCommand
  cases hp : s.dict (d, key) with
  | none => exact hs
  | some o =>
    have ho : o ≠ .list [] := fun he => h (d, key) (he ▸ hp)
    refine Sat.ite (fun _ => hs) (fun _ => Sat.ite (fun _ => hs) (fun _ => ?_))
    have hmove : ∀ {u : Server C X}, EmptyOnlyAt [(d, newkey)] u →
        Fills [] (dbAdd u (d, newkey) o >>= fun t => pure (dbDelete t (d, key))) := by
      intro u hu
      have hadd : Fills [] (dbAdd u (d, newkey) o) := dbAdd_fills hu ho
      exact hadd.bind (fun t ht => EmptyOnlyAt.setFull (ht.mono (by simp)) (by simp))
    by_cases hnew : (s.dict (d, newkey)).isSome = true
    · simp only [if_pos hnew]
      exact hmove (hs.setAny none)
    · simp only [if_neg hnew]
      exact hmove (hs.mono (by simp))

theorem moveCommand_fills (h : NoEmptyList s) (src : Nat) (key : Bytes) (dst : Nat) :
    Fills [] (moveCommand s src key dst) := by
  have hs := emptyOnlyAt_nil.mpr h
  unfold moveCommand
  refine Sat.ite (fun _ => hs) (fun _ => Sat.ite (fun _ => hs) (fun _ => ?_))
  cases hp : s.dict (src, key) with
  | none => exact hs
  | some o =>
    have ho : o ≠ .list [] := fun he => h (src, key) (he ▸ hp)
    refine Sat.ite (fun _ => hs) (fun _ => ?_)
    have hadd : Fills [] (dbAdd s (dst, key) o) := dbAdd_fills (hs.mono (by simp)) ho
    exact hadd.bind (fun t ht => EmptyOnlyAt.setFull (ht.mono (by simp)) (by simp))

theorem del_fills (d : Nat) (keys : List Bytes) : ∀ {s : Server C X}, NoEmptyList s →
    EmptyOnlyAt [] (keys.foldl (fun s key => dbDelete s (d, key)) s) := by
  induction keys with
  | nil => exact fun h => emptyOnlyAt_nil.mpr h
  | cons key keys ih =>
    intro s h
    refine ih (emptyOnlyAt_nil.mp (EmptyOnlyAt.setFull (p := (d, key)) ?_ (by simp)))
    exact (emptyOnlyAt_nil.mpr h).mono (by simp)

theorem keepKeys_fills (h : NoEmptyList s) (f : Place → Bool) : EmptyOnlyAt [] (keepKeys s f) := by
  intro q hq
  by_cases hf : f q = true
  · simp only [keepKeys, if_pos hf] at hq
    exact absurd hq (h q)
  · simp only [keepKeys, if_neg hf] at hq
    cases hq

/-- **Every command** that stores no empty list leaves none. -/
theorem runCommand_fills [DecidableEq C] (h : NoEmptyList s) (multi : Bool) (c : C) {cmd : Command X}
    (hcmd : cmd.StoresElements) : Fills [] (runCommand multi s c cmd) := by
  have hs := emptyOnlyAt_nil.mpr h
  have hany : ∀ p, EmptyOnlyAt [p] s := fun p => hs.mono (by simp)
  have hdel : ∀ p, EmptyOnlyAt [] (dbDelete s p) := fun p => (hany p).setFull (by simp)
  cases cmd with
  | push key value values w => exact pushGenericCommand_fills h _ value values w
  | pushx key value w =>
    simp only [runCommand, pushxGenericCommand]
    cases s.dict ((s.client c).db, key) with
    | none => exact hs
    | some o =>
      cases o with
      | list l => exact pushTo_fills (hany _) value w
      | other x => exact hs
  | pop key w => exact popGenericCommand_fills h _ w
  | edit key f trim => exact editCommand_fills h _ hcmd
  | rpoplpush src dst => exact rpoplpushCommand_fills h c src dst
  | blpop key keys timeout => exact blockingPop_fills h multi c _ timeout .head
  | brpop key keys timeout => exact blockingPop_fills h multi c _ timeout .tail
  | brpoplpush src dst timeout => exact brpoplpush_fills h multi c src dst timeout
  | set key x => exact setKey_fills (hany _) (by simp)
  | update key f =>
    simp only [runCommand, updateCommand]
    cases s.dict ((s.client c).db, key) with
    | none =>
      cases f none with
      | none => exact hs
      | some y => exact dbAdd_fills (hany _) (by simp)
    | some o =>
      cases o with
      | list l => exact hs
      | other x =>
        cases hf : f (some x) with
        | none =>
          simp only [hf]
          exact hdel _
        | some y =>
          simp only [hf]
          exact dbOverwrite_fills (hany _) (by simp)
  | store key x =>
    cases x with
    | none => exact hdel _
    | some x =>
      have hx : (Value.other x : Value X) ≠ .list [] := by simp
      exact dbAdd_fills ((hdel ((s.client c).db, key)).mono (by simp)) hx
  | del keys => exact del_fills _ keys h
  | rename key newkey nx => exact renameGenericCommand_fills h _ key newkey nx
  | move key dst => exact moveCommand_fills h _ key dst
  | restore key payload replace =>
    refine Sat.ite (fun _ => hs) (fun _ => ?_)
    cases payload with
    | none => exact hs
    | some o =>
      have ho : o ≠ .list [] := fun he => hcmd (he ▸ rfl)
      cases replace with
      | true => exact dbAdd_fills ((hdel ((s.client c).db, key)).mono (by simp)) ho
      | false => exact dbAdd_fills (hany _) ho
  | sortStore key result =>
    refine Sat.ite (fun _ => hdel _) (fun hres => setKey_fills (hany _) (fun he => hres ?_))
    injection he with he
    rw [he]
    rfl
  | flushdb | flushall => exact keepKeys_fills h _
  | select dst =>
    simp only [runCommand]
    by_cases hdst : dst < s.dbnum
    · rw [if_pos hdst]
      exact hs
    · rw [if_neg hdst]
      exact hs
  | read => exact hs

/-! ## Destinations -/

/-- A client with a destination is blocked, and its last command was no `BLPOP`. -/
def Targets (s : Server C X) : Prop :=
  ∀ c dst, (s.client c).target = some dst → (s.client c).blocked = true ∧ (s.client c).lastBlpop = false

theorem Targets.congr {t : Server C X} (h : Targets s) (hc : t.client = s.client) : Targets t := by
  intro c dst hdst
  rw [hc] at hdst ⊢
  exact h c dst hdst

variable [DecidableEq C]

/-- One client without a destination changes. -/
theorem Targets.setClient (h : Targets s) (c : C) {cl : Client} (hcl : cl.target = none) :
    Targets (s.setClient c cl) := by
  intro c' dst hdst
  by_cases hcc : c' = c
  · simp [hcc, Server.setClient, hcl] at hdst
  · simp only [Server.setClient, Function.update_of_ne hcc] at hdst ⊢
    exact h c' dst hdst

theorem Targets.unblocked (h : Targets s) (c : C) : Targets (s.unblocked c) := by
  intro c' dst hdst
  by_cases hcc : c' = c
  · rw [hcc, client_unblocked_self] at hdst
    cases hdst
  · rw [client_unblocked_ne s hcc] at hdst ⊢
    exact h c' dst hdst

omit [DecidableEq C] in
theorem Targets.idle (h : Targets s) {c : C} (hc : (s.client c).blocked = false) :
    (s.client c).target = none := by
  cases htarget : (s.client c).target with
  | none => rfl
  | some dst =>
    rw [(h c dst htarget).1] at hc
    cases hc

/-- A client blocks, after a `BLPOP` without a destination. -/
theorem Targets.blockForKeys (h : Targets s) {c : C} (hkeys : (s.client c).keys = [])
    (keys : List Bytes) (timeout : Int) {target : Option Bytes}
    (htarget : target = none ∨ (s.client c).lastBlpop = false) :
    Targets (blockForKeys s c keys timeout target) := by
  rw [blockForKeys_eq hkeys]
  intro c' dst hdst
  by_cases hcc : c' = c
  · rw [hcc, client_blockedOn_self] at hdst ⊢
    refine ⟨rfl, htarget.resolve_left (fun hnone => ?_)⟩
    rw [hnone] at hdst
    cases hdst
  · rw [client_blockedOn_ne s hcc] at hdst ⊢
    exact h c' dst hdst

/-- A command that does not block leaves the destinations alone. -/
theorem Effect.targets {multi : Bool} {c : C} {cmd : Command X} {t : Server C X}
    (he : Effect multi s c cmd t) (h : Targets s) (hidle : (s.client c).blocked = false)
    (hnot : multi = true ∨ cmd.waitKeys = []) : Targets t := by
  cases he with
  | wrote hw => exact h.congr hw.client
  | replaced => exact h.congr rfl
  | selected => exact h.setClient c (h.idle hidle)
  | blocked hm hkeys =>
    rcases hnot with hmulti | hnil
    · exact absurd (hm.symm.trans hmulti) Bool.false_ne_true
    · exact absurd hnil hkeys

/-- A command by itself may block its client. -/
theorem callCommand_targets {c : C} (h : Targets s) (hs : Running s c) (cmd : Command X) :
    Sat (callCommand s c cmd) Targets (fun _ => True) := by
  obtain ⟨u, hu⟩ : ∃ u, u = s.setClient c { s.client c with lastBlpop := isBlpop cmd } := ⟨_, rfl⟩
  have hut : Targets u := by
    rw [hu]
    exact h.setClient c (h.idle hs.idle)
  have hrun : Running u c := by
    rw [hu]
    exact hs.setLast (isBlpop cmd)
  have hlast : (u.client c).lastBlpop = isBlpop cmd := by
    rw [hu]
    simp [Server.setClient]
  have hkeys := (hrun.book.idle hrun.idle).1
  have hpop : ∀ (keys : List Bytes) (timeout : Option Int) (w : Where),
      Sat (blockingPopGenericCommand false u c keys timeout w) Targets (fun _ => True) := by
    intro keys timeout w
    cases timeout with
    | none => exact hut
    | some t =>
      refine Sat.bind (popFirst_spec u (u.client c).db w keys) (fun a ha => ?_)
      cases a with
      | some t => exact hut.congr (ha.1 t rfl).client
      | none => exact hut.blockForKeys hkeys keys t (Or.inl rfl)
  rw [callCommand, ← hu]
  cases cmd with
  | blpop key keys timeout => exact hpop _ timeout .head
  | brpop key keys timeout => exact hpop _ timeout .tail
  | brpoplpush src dst timeout =>
    cases timeout with
    | none => exact hut
    | some t =>
      simp only [runCommand, brpoplpushCommand]
      cases u.dict ((u.client c).db, src) with
      | none => exact hut.blockForKeys hkeys _ t (Or.inr hlast)
      | some o =>
        cases o with
        | other x => exact hut
        | list l =>
          exact Sat.ite (fun _ => trivial)
            (fun _ => (rpoplpushCommand_wrote u c src dst).weaken (fun _ ht => hut.congr ht.client))
  | _ => exact (runCommand_effect false u c _).weaken (fun t ht => ht.targets hut hrun.idle (Or.inr rfl))

end Redis.Blocking
