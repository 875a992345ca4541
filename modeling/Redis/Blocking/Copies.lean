import Redis.Lib.Alike
import Redis.Blocking.Propagate

namespace Redis.Blocking

open Outcome Server

/-!
# Blocked list clients — commands on a copy

A command that is `Dirty` does to a copy of the keys what it has done to the keys, and a command
that is not leaves them as they are.  Who waits for which key makes no difference to that.

* `Copies` — two servers with the same keys, and a client of each with the same database;
* `dbAdd_alike` .. `sortStoreCommand_alike` — the commands, on both servers;
* `runCommand_alike` — a command that counts, and the vector it leaves;
* `runCommand_unchanged` — a command that does not count.
-/

variable {C R X : Type} {c : C} {m : R} {s : Server C X} {r : Server R X}

@[simp] theorem setDict_dict (s : Server C X) (p : Place) (v : Option (Value X)) :
    (s.setDict p v).dict = Function.update s.dict p v := rfl

/-- The servers hold the same keys, and the clients have the same database. -/
structure Copies (c : C) (m : R) (s : Server C X) (r : Server R X) : Prop where
  dict : r.dict = s.dict
  dbnum : r.dbnum = s.dbnum
  db : (r.client m).db = (s.client c).db

theorem Copies.setDict (h : Copies c m s r) (p : Place) (v : Option (Value X)) :
    Copies c m (s.setDict p v) (r.setDict p v) where
  dict := by simp only [Server.setDict, h.dict]
  dbnum := h.dbnum
  db := h.db

theorem Copies.keepKeys (h : Copies c m s r) (f : Place → Bool) :
    Copies c m (keepKeys s f) (keepKeys r f) where
  dict := by simp only [Blocking.keepKeys, h.dict]
  dbnum := h.dbnum
  db := h.db

/-- No key holds an empty list. -/
def NoEmptyList (s : Server C X) : Prop := ∀ p, s.dict p ≠ some (.list [])

section

variable (h : Copies c m s r)

include h

/-- A signal changes no key. -/
theorem Copies.signal (p : Place) :
    Copies c m (signalListAsReady s p) (signalListAsReady r p) := by
  obtain ⟨_, _, hs, _⟩ := signalListAsReady_spec s p
  obtain ⟨_, _, hr, _⟩ := signalListAsReady_spec r p
  rw [hs, hr]
  exact ⟨h.dict, h.dbnum, h.db⟩

/-! ## The keyspace -/

theorem dbAdd_alike (p : Place) (v : Value X) :
    Alike (Copies c m) (dbAdd s p v) (dbAdd r p v) := by
  unfold dbAdd
  refine Alike.ite (by rw [h.dict]) (fun _ => rfl) (fun _ => ?_)
  cases v with
  | list l => exact (h.setDict p _).signal p
  | other x => exact h.setDict p _

theorem dbOverwrite_alike (p : Place) (v : Value X) :
    Alike (Copies c m) (dbOverwrite s p v) (dbOverwrite r p v) :=
  Alike.ite (by rw [h.dict]) (fun _ => rfl) (fun _ => h.setDict p _)

theorem setKey_alike (p : Place) (v : Value X) :
    Alike (Copies c m) (setKey s p v) (setKey r p v) :=
  Alike.ite (by rw [h.dict]) (fun _ => dbAdd_alike h p v) (fun _ => dbOverwrite_alike h p v)

theorem pushTo_alike (p : Place) (v : Bytes) (w : Where) :
    Alike (Copies c m) (pushTo s p v w) (pushTo r p v w) := by
  unfold pushTo
  rw [h.dict]
  cases s.dict p with
  | none => rfl
  | some o =>
    cases o with
    | list l => exact h.setDict p _
    | other x => rfl

theorem pushAll_alike (p : Place) (w : Where) (values : List Bytes) :
    Alike (Copies c m) (values.foldlM (fun s v => pushTo s p v w) s)
      (values.foldlM (fun s v => pushTo s p v w) r) :=
  Alike.foldlM values (fun v _ _ _ h => pushTo_alike h p v w) h

theorem popFrom_alike (p : Place) (w : Where) :
    Alike (fun a b => b.1 = a.1 ∧ Copies c m a.2 b.2) (popFrom s p w) (popFrom r p w) := by
  unfold popFrom
  rw [h.dict]
  cases s.dict p with
  | none => rfl
  | some o =>
    cases o with
    | list l =>
      cases hpop : listTypePop l w with
      | none =>
        simp only [hpop]
        exact ⟨rfl, h⟩
      | some a =>
        simp only [hpop]
        exact ⟨rfl, h.setDict p _⟩
    | other x => rfl

theorem deleteIfEmpty_alike (p : Place) :
    Alike (Copies c m) (deleteIfEmpty s p) (deleteIfEmpty r p) := by
  unfold deleteIfEmpty
  rw [h.dict]
  cases s.dict p with
  | none => rfl
  | some o =>
    cases o with
    | list l =>
      by_cases hl : l.length = 0
      · simp only [if_pos hl]
        exact h.setDict p none
      · simp only [if_neg hl]
        exact h
    | other x => rfl

/-! ## Lists -/

theorem rpoplpushHandlePush_alike (dst : Bytes) (exist : Bool) (v : Bytes) :
    Alike (Copies c m) (rpoplpushHandlePush s c dst exist v) (rpoplpushHandlePush r m dst exist v) := by
  have hpush : ∀ {t : Server C X} {u : Server R X}, Copies c m t u →
      Alike (Copies c m) (pushTo t ((t.client c).db, dst) v .head)
        (pushTo u ((u.client m).db, dst) v .head) := by
    intro t u htu
    rw [htu.db]
    exact pushTo_alike htu _ v .head
  cases exist with
  | true => exact hpush h
  | false =>
    simp only [rpoplpushHandlePush, h.db]
    exact (dbAdd_alike h ((s.client c).db, dst) (.list [])).bind (fun _ _ h' => hpush h')

theorem pushGenericCommand_alike (p : Place) (values : List Bytes) (w : Where) :
    Alike (Copies c m) (pushGenericCommand s p values w) (pushGenericCommand r p values w) := by
  unfold pushGenericCommand
  rw [h.dict]
  cases s.dict p with
  | none => exact (dbAdd_alike h p (.list [])).bind (fun _ _ h' => pushAll_alike h' p w values)
  | some o =>
    cases o with
    | list l => exact pushAll_alike h p w values
    | other x => exact h

theorem pushxGenericCommand_alike (p : Place) (v : Bytes) (w : Where) :
    Alike (Copies c m) (pushxGenericCommand s p v w) (pushxGenericCommand r p v w) := by
  unfold pushxGenericCommand
  rw [h.dict]
  cases s.dict p with
  | none => exact h
  | some o =>
    cases o with
    | list l => exact pushTo_alike h p v w
    | other x => exact h

theorem popGenericCommand_alike (p : Place) (w : Where) :
    Alike (Copies c m) (popGenericCommand s p w) (popGenericCommand r p w) := by
  unfold popGenericCommand
  rw [h.dict]
  cases s.dict p with
  | none => exact h
  | some o =>
    cases o with
    | list l =>
      refine (popFrom_alike h p w).bind (fun a b hab => ?_)
      rw [hab.1]
      cases a.1 with
      | none => exact hab.2
      | some v => exact deleteIfEmpty_alike hab.2 p
    | other x => exact h

theorem editCommand_alike (p : Place) (f : List Bytes → List Bytes) (trim : Bool) :
    Alike (Copies c m) (editCommand s p f trim) (editCommand r p f trim) := by
  unfold editCommand
  rw [h.dict]
  cases s.dict p with
  | none => exact h
  | some o =>
    cases o with
    | list l =>
      exact Alike.ite Iff.rfl (fun _ => deleteIfEmpty_alike (h.setDict p _) p) (fun _ => h.setDict p _)
    | other x => exact h

theorem rpoplpushCommand_alike (src dst : Bytes) :
    Alike (Copies c m) (rpoplpushCommand s c src dst) (rpoplpushCommand r m src dst) := by
  obtain ⟨d, hd⟩ : ∃ d, d = (s.client c).db := ⟨_, rfl⟩
  have hpush : ∀ exist v (t : Server C X) (u : Server R X), Copies c m t u → Alike (Copies c m)
      (do
        let s' ← rpoplpushHandlePush t c dst exist v
        deleteIfEmpty s' (d, src))
      (do
        let s' ← rpoplpushHandlePush u m dst exist v
        deleteIfEmpty s' (d, src)) := by
    intro exist v t u htu
    exact (rpoplpushHandlePush_alike htu dst exist v).bind (fun _ _ h' => deleteIfEmpty_alike h' (d, src))
  simp only [rpoplpushCommand, h.db, h.dict, ← hd]
  cases s.dict (d, src) with
  | none => exact h
  | some o =>
    cases o with
    | list l =>
      refine Alike.ite Iff.rfl (fun _ => h) (fun _ => ?_)
      cases s.dict (d, dst) with
      | none =>
        refine (popFrom_alike h (d, src) .tail).bind (fun a b hab => ?_)
        rw [hab.1]
        cases a.1 with
        | none => rfl
        | some v => exact hpush _ v a.2 b.2 hab.2
      | some dobj =>
        cases dobj with
        | list k =>
          refine (popFrom_alike h (d, src) .tail).bind (fun a b hab => ?_)
          rw [hab.1]
          cases a.1 with
          | none => rfl
          | some v => exact hpush _ v a.2 b.2 hab.2
        | other x => exact h
    | other x => exact h

/-! ## The other commands -/

theorem updateCommand_alike (p : Place) (f : Option X → Option X) :
    Alike (Copies c m) (updateCommand s p f) (updateCommand r p f) := by
  unfold updateCommand
  rw [h.dict]
  cases s.dict p with
  | none =>
    cases f none with
    | none => exact h
    | some y => exact dbAdd_alike h p _
  | some o =>
    cases o with
    | list l => exact h
    | other x =>
      cases hf : f (some x) with
      | none =>
        simp only [hf]
        exact h.setDict p none
      | some y =>
        simp only [hf]
        exact dbOverwrite_alike h p _

theorem storeCommand_alike (p : Place) (x : Option X) :
    Alike (Copies c m) (storeCommand s p x) (storeCommand r p x) := by
  cases x with
  | none => exact h.setDict p none
  | some x => exact dbAdd_alike (h.setDict p none) p (.other x)

end

theorem del_copies (d : Nat) (keys : List Bytes) : ∀ {s : Server C X} {r : Server R X},
    Copies c m s r → Copies c m (keys.foldl (fun s key => dbDelete s (d, key)) s)
      (keys.foldl (fun s key => dbDelete s (d, key)) r) := by
  induction keys with
  | nil => exact fun h => h
  | cons key keys ih => exact fun h => ih (h.setDict (d, key) none)

theorem renameGenericCommand_alike (h : Copies c m s r) (d : Nat) (key newkey : Bytes) (nx : Bool) :
    Alike (Copies c m) (renameGenericCommand s d key newkey nx)
      (renameGenericCommand r d key newkey nx) := by
  unfold renameGenericCommand
  rw [h.dict]
  cases s.dict (d, key) with
  | none => exact h
  | some o =>
    refine Alike.ite Iff.rfl (fun _ => h) (fun _ => Alike.ite Iff.rfl (fun _ => h) (fun _ => ?_))
    by_cases hnew : (s.dict (d, newkey)).isSome = true
    · simp only [if_pos hnew]
      exact (dbAdd_alike (h.setDict (d, newkey) none) (d, newkey) o).bind
        (fun _ _ h' => h'.setDict (d, key) none)
    · simp only [if_neg hnew]
      exact (dbAdd_alike h (d, newkey) o).bind (fun _ _ h' => h'.setDict (d, key) none)

theorem moveCommand_alike (h : Copies c m s r) (src : Nat) (key : Bytes) (dst : Nat) :
    Alike (Copies c m) (moveCommand s src key dst) (moveCommand r src key dst) := by
  unfold moveCommand
  rw [h.dict, h.dbnum]
  refine Alike.ite Iff.rfl (fun _ => h) (fun _ => Alike.ite Iff.rfl (fun _ => h) (fun _ => ?_))
  cases s.dict (src, key) with
  | none => exact h
  | some o =>
    refine Alike.ite Iff.rfl (fun _ => h) (fun _ => ?_)
    exact (dbAdd_alike h (dst, key) o).bind (fun _ _ h' => h'.setDict (src, key) none)

theorem restoreCommand_alike (h : Copies c m s r) (p : Place) (payload : Option (Value X))
    (replace : Bool) :
    Alike (Copies c m) (restoreCommand s p payload replace) (restoreCommand r p payload replace) := by
  unfold restoreCommand
  rw [h.dict]
  refine Alike.ite Iff.rfl (fun _ => h) (fun _ => ?_)
  cases payload with
  | none => exact h
  | some o =>
    cases replace with
    | true => exact dbAdd_alike (h.setDict p none) p o
    | false => exact dbAdd_alike h p o

theorem sortStoreCommand_alike (h : Copies c m s r) (p : Place) (result : List Bytes) :
    Alike (Copies c m) (sortStoreCommand s p result) (sortStoreCommand r p result) :=
  Alike.ite Iff.rfl (fun _ => h.setDict p none) (fun _ => setKey_alike h p _)

/-! ## Blocking pops -/

theorem hasElement_iff {p : Place} :
    hasElement s p = true ↔ ∃ l, s.dict p = some (.list l) ∧ l ≠ [] := by
  rw [hasElement, decide_eq_true_iff, Server.content]
  cases s.dict p with
  | none => simp
  | some o =>
    cases o with
    | list l | other x => simp

theorem popGenericCommand_list {p : Place} {l l' : List Bytes} {v : Bytes} {w : Where}
    (hp : s.dict p = some (.list l)) (hpop : listTypePop l w = some (v, l')) :
    popGenericCommand s p w = deleteIfEmpty (s.setDict p (some (.list l'))) p := by
  simp only [popGenericCommand, popFrom, hp, hpop, ok_bind]

/-- The key that is popped from holds a list with elements, and `LPOP` or `RPOP` do the same. -/
theorem popFirst_some {d : Nat} {key : Bytes} (w : Where) (keys : List Bytes)
    (h : popKey s d keys = some key) : hasElement s (d, key) = true ∧
      popFirst s d w keys = (popGenericCommand s (d, key) w).map some := by
  induction keys with
  | nil => cases h
  | cons key' keys ih =>
    rw [popKey] at h
    rw [popFirst]
    cases hp : s.dict (d, key') with
    | none =>
      simp only [hp] at h ⊢
      exact ih h
    | some o =>
      cases o with
      | other x => simp [hp] at h
      | list l =>
        simp only [hp] at h ⊢
        by_cases hl : l.length = 0
        · rw [if_pos hl] at h ⊢
          exact ih h
        rw [if_neg hl] at h ⊢
        cases h
        have hne : l ≠ [] := fun he => hl (List.length_eq_zero_iff.mpr he)
        refine ⟨hasElement_iff.mpr ⟨l, hp, hne⟩, ?_⟩
        cases hpop : listTypePop l w with
        | none => exact absurd (listTypePop_none.mp hpop) hne
        | some a =>
          rw [popGenericCommand_list hp hpop]
          simp only [popFrom, hp, hpop, ok_bind]
          cases deleteIfEmpty (s.setDict (d, key) (some (.list a.2))) (d, key) with
          | error f | ok t => rfl

/-- Without a key to pop from, the loop replies with an error or does nothing. -/
theorem popFirst_none {d : Nat} (w : Where) (keys : List Bytes) (h : popKey s d keys = none) :
    popFirst s d w keys = .ok none ∨ popFirst s d w keys = .ok (some s) := by
  induction keys with
  | nil => exact Or.inl rfl
  | cons key keys ih =>
    rw [popKey] at h
    rw [popFirst]
    cases hp : s.dict (d, key) with
    | none =>
      simp only [hp] at h ⊢
      exact ih h
    | some o =>
      cases o with
      | other x => exact Or.inr rfl
      | list l =>
        simp only [hp] at h ⊢
        by_cases hl : l.length = 0
        · rw [if_pos hl] at h ⊢
          exact ih h
        · rw [if_neg hl] at h
          cases h

variable [DecidableEq C] [DecidableEq R]

theorem blockingPop_some {multi : Bool} {key : Bytes} {keys : List Bytes} (timeout : Int) (w : Where)
    (h : popKey s (s.client c).db keys = some key) :
    blockingPopGenericCommand multi s c keys (some timeout) w
      = popGenericCommand s ((s.client c).db, key) w := by
  simp only [blockingPopGenericCommand, (popFirst_some w keys h).2]
  cases popGenericCommand s ((s.client c).db, key) w with
  | error f | ok t => rfl

/-! ## Calls -/

/-- **A command that counts** does the same to a copy, with the vector that it leaves. -/
theorem runCommand_alike (h : Copies c m s r) (multi : Bool) {cmd : Command X}
    (hdirty : Dirty s (s.client c).db cmd true) :
    Alike (Copies c m) (runCommand multi s c cmd)
      (runCommand multi r m (cmd.rewritten s (s.client c).db)) := by
  have hpop : ∀ {keys : List Bytes} {key : Bytes} (w : Where) (timeout : Int),
      popKey s (s.client c).db keys = some key →
      Alike (Copies c m) (blockingPopGenericCommand multi s c keys (some timeout) w)
        (runCommand multi r m (.pop key w)) := by
    intro keys key w timeout hkey
    rw [blockingPop_some timeout w hkey]
    simp only [runCommand, h.db]
    exact popGenericCommand_alike h _ w
  cases cmd with
  | blpop key keys timeout | brpop key keys timeout =>
    obtain ⟨ht, hkey⟩ := Bool.and_eq_true_iff.mp hdirty.symm
    obtain ⟨t, rfl⟩ := Option.isSome_iff_exists.mp ht
    obtain ⟨k, hk⟩ := Option.isSome_iff_exists.mp hkey
    simp only [Command.rewritten, hk, Option.elim_some]
    exact hpop _ t hk
  | brpoplpush src dst timeout =>
    simp only [Dirty, Bool.true_eq, Bool.and_eq_true] at hdirty
    obtain ⟨⟨ht, hsrc⟩, _⟩ := hdirty
    obtain ⟨t, rfl⟩ := Option.isSome_iff_exists.mp ht
    obtain ⟨l, hl, hne⟩ := hasElement_iff.mp hsrc
    simp only [Command.rewritten, runCommand, brpoplpushCommand, h.db, h.dict, hl]
    exact Alike.ite Iff.rfl (fun _ => rfl) (fun _ => rpoplpushCommand_alike h src dst)
  | select d | read => cases hdirty
  | push key value values w =>
    simp only [Command.rewritten, runCommand, h.db]
    exact pushGenericCommand_alike h _ _ w
  | pushx key value w =>
    simp only [Command.rewritten, runCommand, h.db]
    exact pushxGenericCommand_alike h _ value w
  | pop key w =>
    simp only [Command.rewritten, runCommand, h.db]
    exact popGenericCommand_alike h _ w
  | edit key f trim =>
    simp only [Command.rewritten, runCommand, h.db]
    exact editCommand_alike h _ f trim
  | rpoplpush src dst => exact rpoplpushCommand_alike h src dst
  | set key x =>
    simp only [Command.rewritten, runCommand, h.db]
    exact setKey_alike h _ (.other x)
  | update key f =>
    simp only [Command.rewritten, runCommand, h.db]
    exact updateCommand_alike h _ f
  | store key x =>
    simp only [Command.rewritten, runCommand, h.db]
    exact storeCommand_alike h _ x
  | del keys =>
    simp only [Command.rewritten, runCommand, h.db]
    exact del_copies _ keys h
  | rename key newkey nx =>
    simp only [Command.rewritten, runCommand, h.db]
    exact renameGenericCommand_alike h _ key newkey nx
  | move key dst =>
    simp only [Command.rewritten, runCommand, h.db]
    exact moveCommand_alike h _ key dst
  | restore key payload replace =>
    simp only [Command.rewritten, runCommand, h.db]
    exact restoreCommand_alike h _ payload replace
  | sortStore key result =>
    simp only [Command.rewritten, runCommand, h.db]
    exact sortStoreCommand_alike h _ result
  | flushdb =>
    simp only [Command.rewritten, runCommand, h.db]
    exact h.keepKeys _
  | flushall => exact h.keepKeys _

/-- Blocking changes no key. -/
theorem blockForKeys_same (s : Server C X) (c : C) (keys : List Bytes) (timeout : Int)
    (target : Option Bytes) : (blockForKeys s c keys timeout target).dict = s.dict ∧
      (blockForKeys s c keys timeout target).dbnum = s.dbnum := by
  have hkey : ∀ (t : Server C X) (key : Bytes),
      (blockForKey c t key).dict = t.dict ∧ (blockForKey c t key).dbnum = t.dbnum := by
    intro t key
    unfold blockForKey
    by_cases hin : key ∈ (t.client c).keys
    · simp only [if_pos hin, and_self]
    · simp only [if_neg hin]
      cases (t.setClient c { t.client c with keys := (t.client c).keys ++ [key] }).blockingKeys
        ((t.client c).db, key) with
      | none => exact ⟨rfl, rfl⟩
      | some l => exact ⟨rfl, rfl⟩
  have hkeys : ∀ t : Server C X, (keys.foldl (blockForKey c) t).dict = t.dict ∧
      (keys.foldl (blockForKey c) t).dbnum = t.dbnum := by
    induction keys with
    | nil => exact fun _ => ⟨rfl, rfl⟩
    | cons key keys ih =>
      intro t
      obtain ⟨hdict, hnum⟩ := ih (blockForKey c t key)
      exact ⟨hdict.trans (hkey t key).1, hnum.trans (hkey t key).2⟩
  exact hkeys (s.setClient c { s.client c with timeout := timeout, target := target })

/-- A result with the same keys. -/
abbrev Unchanged (s : Server C X) (a : Except Fault (Server C X)) : Prop :=
  Sat a (fun t => t.dict = s.dict) (fun _ => True)

theorem blockingPop_unchanged (multi : Bool) (keys : List Bytes) (timeout : Option Int) (w : Where)
    (h : (timeout.isSome && (popKey s (s.client c).db keys).isSome) = false) :
    Unchanged s (blockingPopGenericCommand multi s c keys timeout w) := by
  cases timeout with
  | none => exact rfl
  | some t =>
    have hkey : popKey s (s.client c).db keys = none := by simpa using h
    simp only [blockingPopGenericCommand]
    rcases popFirst_none w keys hkey with hfirst | hfirst
    · rw [hfirst, ok_bind]
      exact Sat.ite (fun _ => rfl) (fun _ => (blockForKeys_same s c keys t none).1)
    · rw [hfirst, ok_bind]
      exact rfl

omit [DecidableEq C] in
theorem rpoplpush_unchanged (src dst : Bytes)
    (h : (hasElement s ((s.client c).db, src) && !holdsOther s ((s.client c).db, dst)) = false) :
    Unchanged s (rpoplpushCommand s c src dst) := by
  simp only [rpoplpushCommand]
  cases hsrc : s.dict ((s.client c).db, src) with
  | none => exact rfl
  | some o =>
    cases o with
    | other x => exact rfl
    | list l =>
      refine Sat.ite (fun _ => rfl) (fun hl => ?_)
      have hne : l ≠ [] := fun he => hl (List.length_eq_zero_iff.mpr he)
      rw [hasElement_iff.mpr ⟨l, hsrc, hne⟩, Bool.true_and, Bool.not_eq_false', holdsOther] at h
      cases hdst : s.dict ((s.client c).db, dst) with
      | none => simp [hdst] at h
      | some o =>
        cases o with
        | list k => simp [hdst] at h
        | other x => exact rfl

omit [DecidableEq C] in
theorem dbDelete_none {p : Place} (h : s.dict p = none) : (dbDelete s p).dict = s.dict := by
  rw [dbDelete, Server.setDict, ← h]
  exact Function.update_eq_self _ _

omit [DecidableEq C] in
theorem del_unchanged (d : Nat) (keys : List Bytes) : ∀ {s : Server C X},
    (∀ key ∈ keys, s.dict (d, key) = none) →
    (keys.foldl (fun s key => dbDelete s (d, key)) s).dict = s.dict := by
  induction keys with
  | nil => exact fun _ => rfl
  | cons key keys ih =>
    intro s h
    have hkey := dbDelete_none (h key List.mem_cons_self)
    exact (ih (fun key' hk => by rw [hkey]; exact h key' (List.mem_cons_of_mem _ hk))).trans hkey

theorem runCommand_dbnum (s : Server C X) (multi : Bool) (c : C) (cmd : Command X) :
    Sat (runCommand multi s c cmd) (fun t => t.dbnum = s.dbnum) (fun _ => True) := by
  refine (runCommand_effect multi s c cmd).weaken (fun t ht => ?_)
  cases ht with
  | wrote h => exact congrArg (·.2.2.2.2.2) h.frame
  | replaced | selected => rfl
  | blocked => exact (blockForKeys_same ..).2

/-- **A command that does not count** leaves the keys as they are. -/
theorem runCommand_unchanged (hfull : NoEmptyList s) (multi : Bool) {cmd : Command X}
    (hclean : Dirty s (s.client c).db cmd false) : Unchanged s (runCommand multi s c cmd) := by
  cases cmd with
  | push key value values w =>
    simp only [Dirty, Bool.false_eq, Bool.not_eq_false', holdsOther] at hclean
    simp only [runCommand, pushGenericCommand]
    cases hp : s.dict ((s.client c).db, key) with
    | none => simp [hp] at hclean
    | some o =>
      cases o with
      | list l => simp [hp] at hclean
      | other x => exact rfl
  | pushx key value w =>
    simp only [Dirty, Bool.false_eq, holdsList] at hclean
    simp only [runCommand, pushxGenericCommand]
    cases hp : s.dict ((s.client c).db, key) with
    | none => exact rfl
    | some o =>
      cases o with
      | list l => simp [hp] at hclean
      | other x => exact rfl
  | pop key w =>
    simp only [runCommand, popGenericCommand]
    cases hp : s.dict ((s.client c).db, key) with
    | none => exact rfl
    | some o =>
      cases o with
      | list l =>
        have hne : l ≠ [] := fun he => hfull _ (he ▸ hp)
        exact absurd (hclean.trans (hasElement_iff.mpr ⟨l, hp, hne⟩)) Bool.false_ne_true
      | other x => exact rfl
  | edit key f trim =>
    simp only [runCommand, editCommand]
    cases hp : s.dict ((s.client c).db, key) with
    | none => exact rfl
    | some o =>
      cases o with
      | list l =>
        have hne : l ≠ [] := fun he => hfull _ (he ▸ hp)
        have hsame : s.setDict ((s.client c).db, key) (some (.list (f l))) = s := by
          rw [hclean.2 rfl l hp, ← hp]
          exact congrArg (fun dict => { s with dict := dict }) (Function.update_eq_self _ _)
        simp only [hsame]
        refine Sat.ite (fun _ => ?_) (fun _ => rfl)
        simp only [deleteIfEmpty, hp, if_neg (fun he => hne (List.length_eq_zero_iff.mp he))]
        exact rfl
      | other x => exact rfl
  | rpoplpush src dst => exact rpoplpush_unchanged src dst hclean.symm
  | blpop key keys timeout => exact blockingPop_unchanged multi _ timeout .head hclean.symm
  | brpop key keys timeout => exact blockingPop_unchanged multi _ timeout .tail hclean.symm
  | brpoplpush src dst timeout =>
    cases timeout with
    | none => exact rfl
    | some t =>
      simp only [runCommand, brpoplpushCommand]
      cases hsrc : s.dict ((s.client c).db, src) with
      | none => exact Sat.ite (fun _ => rfl) (fun _ => (blockForKeys_same s c _ t _).1)
      | some o =>
        cases o with
        | other x => exact rfl
        | list l =>
          refine Sat.ite (fun _ => trivial) (fun _ => rpoplpush_unchanged src dst ?_)
          simpa [Dirty] using hclean.symm
  | set key x => cases hclean
  | update key f =>
    simp only [runCommand, updateCommand]
    cases hp : s.dict ((s.client c).db, key) with
    | none =>
      rw [hclean.2 rfl none hp]
      exact rfl
    | some o =>
      cases o with
      | list l => exact rfl
      | other x =>
        have hsame : (s.setDict ((s.client c).db, key) (some (.other x))).dict = s.dict := by
          rw [← hp]
          exact Function.update_eq_self _ _
        simp only [hclean.2 rfl (some x) hp, dbOverwrite, hp]
        exact hsame
  | store key x =>
    obtain ⟨rfl, hp⟩ := hclean rfl
    exact dbDelete_none hp
  | del keys =>
    refine del_unchanged _ keys (fun key hkey => ?_)
    have hall := List.any_eq_false.mp hclean.symm key hkey
    simpa using hall
  | rename key newkey nx =>
    simp only [runCommand, renameGenericCommand]
    cases hp : s.dict ((s.client c).db, key) with
    | none => exact rfl
    | some o =>
      refine Sat.ite (fun _ => rfl) (fun hne => Sat.ite (fun _ => rfl) (fun hnx => ?_))
      simp only [Dirty, hp, hne, Option.isSome_some, ne_eq, not_false_eq_true, decide_true,
        Bool.true_and, Bool.false_eq, Bool.not_eq_false', Bool.and_eq_true] at hclean
      exact absurd hclean.symm hnx
  | move key dst =>
    simp only [runCommand, moveCommand]
    refine Sat.ite (fun _ => rfl) (fun hnum => Sat.ite (fun _ => rfl) (fun hne => ?_))
    cases hp : s.dict ((s.client c).db, key) with
    | none => exact rfl
    | some o =>
      refine Sat.ite (fun _ => rfl) (fun hnew => ?_)
      simp [Dirty, hp, hne, Nat.lt_of_not_le hnum] at hclean
      simp [hclean] at hnew
  | restore key payload replace =>
    simp only [runCommand, restoreCommand]
    refine Sat.ite (fun _ => rfl) (fun hold => ?_)
    cases payload with
    | none => exact rfl
    | some o =>
      simp only [Dirty, Option.isSome_some, Bool.true_and, Bool.false_eq, Bool.or_eq_false_iff] at hclean
      exact absurd ⟨hclean.1, by simpa using hclean.2⟩ hold
  | sortStore key result =>
    simp only [Dirty, Bool.false_eq, Bool.or_eq_false_iff] at hclean
    obtain ⟨hres, hp⟩ := hclean
    have hnil : result.length = 0 := by simpa using hres
    simp only [runCommand, sortStoreCommand, if_pos hnil]
    exact dbDelete_none (by simpa using hp)
  | flushdb =>
    have hnone : ¬ ∃ key, (s.dict ((s.client c).db, key)).isSome = true :=
      fun h => Bool.false_ne_true (hclean.mpr h)
    refine funext (fun p => ?_)
    by_cases hp : p.1 = (s.client c).db
    · simp only [keepKeys, hp, ne_eq, not_true_eq_false, decide_false, Bool.false_eq_true, if_false]
      by_contra hne
      refine hnone ⟨p.2, ?_⟩
      rw [← hp]
      exact Option.isSome_iff_ne_none.mpr (Ne.symm hne)
    · simp [keepKeys, hp]
  | flushall => cases hclean
  | select dst =>
    simp only [runCommand]
    by_cases hdst : dst < s.dbnum
    · rw [if_pos hdst]
      exact rfl
    · rw [if_neg hdst]
      exact rfl
  | read => exact rfl

end Redis.Blocking
