import Redis.Blocking.Empties

namespace Redis.Blocking

open Outcome Server

/-!
# Blocked list clients — serving on a replica

While a key is served its list may be empty on the master; on the replica the key is gone then,
since every pop there deletes an emptied list and every push creates a missing one.

* `live`, `Mirrors` — the keys of the replica: those of the master without empty lists;
* `ServedAs`, `serveTurn_served` — one turn of the serving loop, in terms of the keys;
* `replay_pop`, `replay_push` — the replica;
* `Mirrored` — what was propagated takes a replica of the one state to a replica of the other;
* `serveClients_mirrored`, `handleReadyKey_mirrored`, `handleLoop_mirrored` — the loops, from the
  inside out.
-/

variable {C R X : Type} [DecidableEq C]

/-! ## One turn -/

/-- What a turn has done with the element `v` of the list under `p`, which leaves `l'`. -/
inductive ServedAs (s t : Server C X) (p : Place) (c : C) (v : Bytes) (l' : List Bytes) : Fate → Prop
  | handed (htarget : (s.client c).target = none)
      (hdict : t.dict = Function.update s.dict p (some (.list l'))) : ServedAs s t p c v l' .handed
  | moved {dst : Bytes} {m : List Bytes} (htarget : (s.client c).target = some dst)
      (hnot : ∀ x, s.dict ((s.client c).db, dst) ≠ some (.other x))
      (hm : m = if ((s.client c).db, dst) = p then l' else s.content ((s.client c).db, dst))
      (hdict : t.dict = Function.update (Function.update s.dict p (some (.list l')))
        ((s.client c).db, dst) (some (.list (v :: m)))) :
      ServedAs s t p c v l' (.moved ((s.client c).db, dst))
  | putBack (hdict : t.dict = s.dict) : ServedAs s t p c v l' .putBack

/-- The end at which an element is popped for a client. -/
def popSide (s : Server C X) (c : C) : Where := if (s.client c).lastBlpop then .head else .tail

variable {s : Server C X} {p : Place}

/-- **One turn**, in terms of the keys. -/
theorem serveTurn_served (h : Bookkeeping s) {c : C} {rest : List C} (hw : s.waiters p = c :: rest)
    {l : List Bytes} (hd : s.dict p = some (.list l)) :
    Sat (serveTurn s p)
      (fun a => (a.2 = false ∧ a.1 = s) ∨ (a.2 = true ∧ ∃ v l' fate,
        listTypePop l (popSide s c) = some (v, l') ∧ a.1.served = s.served ++ [⟨c, p, v, fate⟩] ∧
        a.1.client = (s.unblocked c).client ∧ a.1.dbnum = s.dbnum ∧ ServedAs s a.1 p c v l' fate))
      (fun _ => True) := by
  rcases serveTurn_cases h hw hd (w := popSide s c) rfl with
    ⟨-, hrun⟩ | ⟨v, l', u, hpop, hu, ⟨htarget, hrun⟩ | hrun | ⟨dst, htarget, hnot, hserve⟩⟩
  · rw [hrun]
    exact Or.inl ⟨rfl, rfl⟩
  · rw [hrun, hu]
    exact Or.inr ⟨rfl, v, l', .handed, hpop, rfl, rfl, rfl, .handed htarget rfl⟩
  · rw [hrun]
    exact Or.inr ⟨rfl, v, l', .putBack, hpop, rfl, rfl, rfl, .putBack rfl⟩
  · obtain ⟨r, k, hpush, _⟩ := rpoplpushHandlePush_ok u c dst v hnot
    have hdb : (u.client c).db = (s.client c).db := by
      rw [hu]
      exact db_unblocked s c c
    rw [hserve _ hpush]
    rw [hdb] at hnot ⊢
    refine Or.inr ⟨rfl, v, l', .moved _, hpop, by rw [hu]; rfl, by rw [hu]; rfl, by rw [hu]; rfl,
      .moved (m := u.content ((s.client c).db, dst)) htarget (fun x hx => ?_) ?_ ?_⟩
    · by_cases hp : ((s.client c).db, dst) = p
      · rw [hp, hd] at hx
        cases hx
      · refine hnot x (Eq.trans ?_ hx)
        rw [hu]
        exact Function.update_of_ne hp ..
    · rw [hu]
      exact content_setDict_list _ _ _ _
    · rw [hu]
      rfl

/-! ## The replica -/

/-- The value that a replica holds: none for an empty list. -/
def live : Option (Value X) → Option (Value X)
  | some (.list []) => none
  | v => v

theorem live_list (l : List Bytes) :
    live (some (.list l) : Option (Value X)) = if l.length = 0 then none else some (.list l) := by
  cases l with
  | nil | cons v l => rfl

theorem live_eq {v : Option (Value X)} (h : v ≠ some (.list [])) : live v = v := by
  cases v with
  | none => rfl
  | some o =>
    cases o with
    | other x => rfl
    | list l =>
      cases l with
      | nil => exact absurd rfl h
      | cons v l => rfl

/-- The replica holds the keys of the master without empty lists. -/
structure Mirrors (s : Server C X) (r : Server R X) : Prop where
  dict : ∀ q, r.dict q = live (s.dict q)
  dbnum : r.dbnum = s.dbnum

omit [DecidableEq C] in
theorem Mirrors.of_full {r : Server R X} (h : NoEmptyList s) (hdict : r.dict = s.dict)
    (hnum : r.dbnum = s.dbnum) : Mirrors s r :=
  ⟨fun q => by rw [hdict, live_eq (h q)], hnum⟩

omit [DecidableEq C] in
theorem Mirrors.dict_eq {r : Server R X} (h : Mirrors s r) (hs : NoEmptyList s) :
    r.dict = s.dict :=
  funext (fun q => by rw [h.dict q, live_eq (hs q)])

omit [DecidableEq C] in
theorem Mirrors.content {r : Server R X} (h : Mirrors s r) (q : Place) :
    r.content q = s.content q := by
  simp only [Server.content, h.dict q]
  cases s.dict q with
  | none => rfl
  | some o =>
    cases o with
    | other x => rfl
    | list l =>
      cases l with
      | nil | cons v l => rfl

variable [DecidableEq R] {m : R} {r : Server R X}

/-- A pop takes one element, and deletes a list that is empty then. -/
theorem replay_pop {d : Nat} {key : Bytes} {l l' : List Bytes} {v : Bytes} {w : Where}
    (hl : r.dict (d, key) = some (.list l)) (hpop : listTypePop l w = some (v, l')) :
    ∃ t, replay m r ⟨false, d, .pop key w⟩ = .ok t ∧
      t.dict = Function.update r.dict (d, key) (live (some (.list l'))) ∧ t.dbnum = r.dbnum := by
  obtain ⟨u, hu⟩ : ∃ u, u = r.setClient m { r.client m with db := d } := ⟨_, rfl⟩
  have hudict : u.dict = r.dict := by rw [hu]; rfl
  have hunum : u.dbnum = r.dbnum := by rw [hu]; rfl
  have hdb : (u.client m).db = d := by
    rw [hu]
    simp [Server.setClient]
  rw [← hudict] at hl
  have hreplay : replay m r ⟨false, d, .pop key w⟩
      = deleteIfEmpty (u.setDict (d, key) (some (.list l'))) (d, key) := by
    rw [replay, ← hu]
    simp only [runCommand, hdb]
    exact popGenericCommand_list hl hpop
  rw [hreplay, deleteIfEmpty, setDict_dict, Function.update_self, ← hudict, ← hunum]
  refine ⟨_, rfl, ?_⟩
  by_cases hnil : l'.length = 0
  · rw [if_pos hnil, live_list, if_pos hnil]
    refine ⟨?_, rfl⟩
    rw [dbDelete, setDict_dict, setDict_dict, Function.update_idem]
  · rw [if_neg hnil, live_list, if_neg hnil]
    exact ⟨rfl, rfl⟩

/-- A push adds to the list, or creates it. -/
theorem replay_push {d : Nat} {key : Bytes} (v : Bytes) (h : ∀ x, r.dict (d, key) ≠ some (.other x)) :
    ∃ t, replay m r ⟨false, d, .push key v [] .head⟩ = .ok t ∧
      t.dict = Function.update r.dict (d, key) (some (.list (v :: r.content (d, key)))) ∧
      t.dbnum = r.dbnum := by
  obtain ⟨u, hu⟩ : ∃ u, u = r.setClient m { r.client m with db := d } := ⟨_, rfl⟩
  have hudict : u.dict = r.dict := by rw [hu]; rfl
  have hunum : u.dbnum = r.dbnum := by rw [hu]; rfl
  have hcontent : u.content (d, key) = r.content (d, key) := content_congr (congrFun hudict _)
  have hdb : (u.client m).db = d := by
    rw [hu]
    simp [Server.setClient]
  rw [← hudict, ← hunum, ← hcontent]
  rw [← hudict] at h
  have hreplay : replay m r ⟨false, d, .push key v [] .head⟩
      = pushGenericCommand u (d, key) [v] .head := by
    rw [replay, ← hu]
    simp only [runCommand, hdb]
  rw [hreplay]
  cases hp : u.dict (d, key) with
  | none =>
    obtain ⟨ready, keys, hsignal, _⟩ :=
      signalListAsReady_spec (u.setDict (d, key) (some (.list []))) (d, key)
    simp only [pushGenericCommand, hp, dbAdd, Option.isSome_none, Bool.false_eq_true, if_false, hsignal,
      ok_bind, List.foldlM_cons, List.foldlM_nil, pushTo, setDict_dict, Function.update_self, listTypePush]
    refine ⟨_, rfl, ?_, rfl⟩
    rw [content_none hp]
    exact Function.update_idem ..
  | some o =>
    cases o with
    | other x => exact absurd hp (h x)
    | list l =>
      simp only [pushGenericCommand, hp, List.foldlM_cons, List.foldlM_nil, pushTo, ok_bind, listTypePush,
        content_list hp]
      exact ⟨_, rfl, rfl, rfl⟩

/-! ## What is propagated -/

/-- What was propagated from `s` to `t` takes a replica of `s` to a replica of `t`. -/
structure Mirrored (m : R) (s t : Server C X) : Prop where
  last : ∀ c, (t.client c).lastBlpop = (s.client c).lastBlpop
  replays : ∃ es, t.served = s.served ++ es ∧ ∀ r : Server R X, Mirrors s r →
    ∃ u, Replays m r (es.flatMap (·.propagates s)) u ∧ Mirrors t u

omit [DecidableEq C] in
/-- A step that propagates nothing, and changes no key that a replica has. -/
theorem Mirrored.still {s t : Server C X} (hclient : t.client = s.client) (hserved : t.served = s.served)
    (hmirrors : ∀ r : Server R X, Mirrors s r → Mirrors t r) : Mirrored m s t where
  last := fun c => by rw [hclient]
  replays := ⟨[], by rw [hserved, List.append_nil], fun r hr => ⟨r, .nil r, hmirrors r hr⟩⟩

omit [DecidableEq C] in
theorem Mirrored.trans {s t u : Server C X} (h : Mirrored m s t) (h' : Mirrored m t u) :
    Mirrored m s u where
  last := fun c => (h'.last c).trans (h.last c)
  replays := by
    obtain ⟨es, hes, hrep⟩ := h.replays
    obtain ⟨es', hes', hrep'⟩ := h'.replays
    have hsame : ∀ e : Service C, (e.propagates t : List (Propagated X)) = e.propagates s := by
      intro e
      simp only [Service.propagates, h.last]
    refine ⟨es ++ es', by rw [hes', hes, List.append_assoc], fun r hr => ?_⟩
    obtain ⟨v, hv, hmv⟩ := hrep r hr
    obtain ⟨w, hw, hmw⟩ := hrep' v hmv
    simp only [hsame] at hw
    refine ⟨w, ?_, hmw⟩
    rw [List.flatMap_append]
    exact hv.append hw

omit [DecidableEq C] [DecidableEq R] in
theorem Mirrors.update {s t : Server C X} {r u : Server R X} (h : Mirrors s r) {v : Option (Value X)}
    (ht : t.dict = Function.update s.dict p v) (hu : u.dict = Function.update r.dict p (live v))
    (htnum : t.dbnum = s.dbnum) (hunum : u.dbnum = r.dbnum) : Mirrors t u where
  dict := by
    intro q
    rw [ht, hu]
    by_cases hqp : q = p
    · rw [hqp, Function.update_self, Function.update_self]
    · rw [Function.update_of_ne hqp, Function.update_of_ne hqp]
      exact h.dict q
  dbnum := by rw [htnum, hunum, h.dbnum]

omit [DecidableEq C] in
/-- **One service** takes a replica along. -/
theorem ServedAs.replays {s t : Server C X} {c : C} {l l' : List Bytes} {v : Bytes} {fate : Fate}
    (h : ServedAs s t p c v l' fate) (hnum : t.dbnum = s.dbnum) (hd : s.dict p = some (.list l))
    (hpop : listTypePop l (popSide s c) = some (v, l')) (hdb : p.1 = (s.client c).db) (htargets : Targets s)
    (hr : Mirrors s r) :
    ∃ u, Replays m r ((⟨c, p, v, fate⟩ : Service C).propagates s) u ∧ Mirrors t u := by
  have hne : l ≠ [] := by
    rintro rfl
    cases hside : popSide s c with
    | head | tail => simp [hside, listTypePop] at hpop
  have hrd : r.dict p = some (.list l) := by
    rw [hr.dict p, hd, live_eq]
    exact fun he => hne (by injection Option.some.inj he)
  have hfound : ∀ w, ∀ key ∈ (Command.pop (X := X) p.2 w).popKeys, hasElement r (p.1, key) = true := by
    intro w key hkey
    rw [List.mem_singleton.mp hkey]
    exact hasElement_iff.mpr ⟨l, hrd, hne⟩
  cases h with
  | handed htarget hdict =>
    obtain ⟨u, hu, hudict, hunum⟩ := replay_pop (m := m) hrd hpop
    exact ⟨u, .single (hfound _) hu, hr.update hdict hudict hnum hunum⟩
  | @moved dst k htarget hnot hk hdict =>
    -- the client of a `BRPOPLPUSH` is served from the tail
    have hside : popSide s c = .tail := by
      rw [popSide, (htargets c dst htarget).2]
      rfl
    rw [hside] at hpop
    obtain ⟨u, hu, hudict, hunum⟩ := replay_pop (m := m) hrd hpop
    have hmid : Mirrors (s.setDict p (some (.list l'))) u := hr.update rfl hudict rfl hunum
    obtain ⟨q, hq⟩ : ∃ q : Place, q = ((s.client c).db, dst) := ⟨_, rfl⟩
    have hqdb : (p.1, dst) = q := by rw [hq, hdb]
    rw [← hq] at hnot hk hdict
    have hunot : ∀ x, u.dict (p.1, dst) ≠ some (.other x) := by
      intro x hx
      rw [hqdb, hmid.dict q, setDict_dict] at hx
      by_cases hqp : q = p
      · rw [hqp, Function.update_self, live_list] at hx
        by_cases hnil : l'.length = 0
        · simp [hnil] at hx
        · simp [hnil] at hx
      · rw [Function.update_of_ne hqp] at hx
        refine hnot x ?_
        rw [← hx]
        refine (live_eq (fun he => ?_)).symm
        simp [he, live] at hx
    obtain ⟨t', ht', htdict, htnum⟩ := replay_push (m := m) v hunot
    have hcontent : u.content (p.1, dst) = k := by
      rw [hqdb, hmid.content q, content_setDict_list, hk]
    refine ⟨t', ?_, hmid.update (p := q) (v := some (.list (v :: k))) hdict ?_ hnum htnum⟩
    · exact .cons (hfound _) hu (.single (fun key hkey => absurd hkey List.not_mem_nil) ht')
    · rw [htdict, hcontent, hqdb]
      rfl
  | putBack hdict => exact ⟨r, .nil r, ⟨fun q => by rw [hr.dict q, hdict], by rw [hr.dbnum, hnum]⟩⟩

theorem lastBlpop_unblocked (s : Server C X) (c c' : C) :
    ((s.unblocked c).client c').lastBlpop = (s.client c').lastBlpop := by
  by_cases hcc : c' = c
  · rw [hcc, client_unblocked_self]
  · rw [client_unblocked_ne s hcc]

omit [DecidableEq C] in
theorem ServedAs.empties {s t : Server C X} {c : C} {l' : List Bytes} {v : Bytes} {fate : Fate}
    (h : ServedAs s t p c v l' fate) (hs : EmptyOnlyAt [p] s) : EmptyOnlyAt [p] t := by
  have hpop : EmptyOnlyAt [p] (s.setDict p (some (.list l'))) :=
    EmptyOnlyAt.mono (hs.setAny _) (by simp)
  intro q hq
  cases h with
  | handed _ hdict =>
    rw [hdict] at hq
    exact hpop q hq
  | moved _ _ _ hdict =>
    rw [hdict] at hq
    refine EmptyOnlyAt.setFull (hpop.mono (by simp)) (v := some (.list (v :: _))) ?_ q hq
    simp
  | putBack hdict =>
    rw [hdict] at hq
    exact hs q hq

/-! ## The loops -/

/-- What holds while a key is served, whose list may be empty. -/
structure Serving (s : Server C X) (p : Place) : Prop where
  book : Bookkeeping s
  targets : Targets s
  empties : EmptyOnlyAt [p] s
  isList : IsList s p

/-- The loop over the clients that wait for a key. -/
theorem serveClients_mirrored (m : R) (p : Place) : ∀ (n : Nat) (s : Server C X), Serving s p →
    (s.waiters p).length = n →
    Sat (serveClients n s p) (fun t => Mirrored m s t ∧ Serving t p) (fun _ => True) := by
  intro n
  induction n with
  | zero => exact fun s h _ => ⟨Mirrored.still rfl rfl (fun _ hr => hr), h⟩
  | succ n ih =>
    intro s h hlen
    obtain ⟨c, rest, hw⟩ := List.exists_cons_of_length_eq_add_one hlen
    obtain ⟨l, hd⟩ := h.isList
    have hmem : c ∈ s.waiters p := by
      rw [hw]
      exact List.mem_cons_self
    have hdb := ((h.book.waiting c p).mp hmem).1
    refine Sat.bind ((serveTurn_served h.book hw hd).and
      (serveTurn_spec h.book hw h.isList) |>.mono (fun _ ha => ha) (fun _ _ => trivial)) (fun a ha => ?_)
    obtain ⟨hserved, hspec⟩ := ha
    rcases hserved with ⟨hbreak, hsame⟩ | ⟨hnext, v, l', fate, hpop, hes, hclient, hnum, has⟩
    · rw [hbreak, hsame]
      exact ⟨Mirrored.still rfl rfl (fun _ hr => hr), h⟩
    rcases hspec with ⟨hbreak, _⟩ | ⟨_, e, hturn⟩
    · rw [hbreak] at hnext
      cases hnext
    have hone : Mirrored m s a.1 := by
      refine ⟨fun c' => ?_, [⟨c, p, v, fate⟩], hes, fun r hr => ?_⟩
      · rw [hclient]
        exact lastBlpop_unblocked s c c'
      · rw [List.flatMap_singleton]
        exact has.replays hnum hd hpop hdb h.targets hr
    have hserving : Serving a.1 p :=
      ⟨hturn.book, (h.targets.unblocked c).congr hclient, has.empties h.empties, hturn.isList⟩
    have hlen' : (a.1.waiters p).length = n := by
      have hrest : a.1.waiters p = (s.waiters p).erase c := by
        rw [hturn.delivers.waiters p, unserved]
        simp only [served, List.map_cons, List.map_nil, hturn.client, List.mem_singleton]
        rw [(h.book.once p).erase_eq_filter c]
        refine List.filter_congr (fun c' _ => ?_)
        by_cases hcc : c' = c
        · simp [hcc]
        · simp [hcc]
      rw [hrest, List.length_erase_of_mem hmem, hlen]
      rfl
    rw [if_pos hnext]
    exact (ih a.1 hserving hlen').weaken (fun t ht => ⟨hone.trans ht.1, ht.2⟩)

/-- What holds between two keys. -/
structure Ready (s : Server C X) : Prop where
  book : Bookkeeping s
  targets : Targets s
  full : NoEmptyList s

/-- One ready key: at the end an empty list is deleted on the master as well. -/
theorem handleReadyKey_mirrored (m : R) (h : Ready s) (p : Place) :
    Sat (handleReadyKey s p) (fun t => Mirrored m s t ∧ Ready t) (fun _ => True) := by
  suffices hkey : Sat (handleReadyKey s p) (fun t => Mirrored m s t ∧ Targets t ∧ NoEmptyList t)
      (fun _ => True) by
    refine (hkey.and (handleReadyKey_spec h.book p)).mono (fun t ht => ?_) (fun _ _ => trivial)
    obtain ⟨⟨hmirrored, htargets, hfull⟩, _, _, hbook, _⟩ := ht
    exact ⟨hmirrored, hbook, htargets, hfull⟩
  obtain ⟨u, hu⟩ : ∃ u, u = s.setReady p false := ⟨_, rfl⟩
  have hus : Mirrored m s u := by
    rw [hu]
    exact Mirrored.still rfl rfl (fun _ hr => ⟨hr.dict, hr.dbnum⟩)
  have hut : Targets u := by
    rw [hu]
    exact h.targets.congr rfl
  have huf : NoEmptyList u := by
    rw [hu]
    exact h.full
  have hubook : Bookkeeping u := by
    rw [hu]
    exact h.book.congr rfl rfl rfl rfl
  simp only [handleReadyKey, ← hu]
  cases hd : u.dict p with
  | none => exact ⟨hus, hut, huf⟩
  | some o =>
    cases o with
    | other x => exact ⟨hus, hut, huf⟩
    | list l =>
      have hserving : Serving u p :=
        ⟨hubook, hut, (emptyOnlyAt_nil.mpr huf).mono (by simp), ⟨l, hd⟩⟩
      have hserve : Sat (serveKey u p) (fun t => Mirrored m u t ∧ Serving t p) (fun _ => True) := by
        unfold serveKey
        cases hb : u.blockingKeys p with
        | none => exact ⟨Mirrored.still rfl rfl (fun _ hr => hr), hserving⟩
        | some clients => exact serveClients_mirrored m p _ u hserving (by rw [waiters_some hb])
      refine hserve.bind (fun t ht => ?_)
      obtain ⟨k, hk⟩ := ht.2.isList
      have hmt := hus.trans ht.1
      have hfull := deleteIfEmpty_fills ht.2.empties
      rw [deleteIfEmpty, hk] at hfull ⊢
      by_cases hnil : k.length = 0
      · simp only [if_pos hnil] at hfull ⊢
        refine ⟨hmt.trans (Mirrored.still rfl rfl (fun r hr => ⟨fun q => ?_, hr.dbnum⟩)),
          ht.2.targets.congr rfl, emptyOnlyAt_nil.mp hfull⟩
        -- the replica has deleted the key when it popped the last element
        rw [hr.dict q, dbDelete, setDict_dict]
        by_cases hqp : q = p
        · rw [hqp, hk, Function.update_self, List.length_eq_zero_iff.mp hnil]
          rfl
        · rw [Function.update_of_ne hqp]
      · simp only [if_neg hnil] at hfull ⊢
        exact ⟨hmt, ht.2.targets, emptyOnlyAt_nil.mp hfull⟩

/-- The loops over the ready keys. -/
theorem handleLoop_mirrored (m : R) : ∀ (turns : Nat) (l : List Place) (s : Server C X), Ready s →
    Sat (handleLoop turns l s) (fun t => Mirrored m s t ∧ Ready t) (fun _ => True) := by
  intro turns
  induction turns with
  | zero => exact fun l s _ => trivial
  | succ turns ih =>
    intro l s h
    cases l with
    | nil =>
      cases hk : s.readyKeys with
      | nil =>
        simp only [handleLoop, hk]
        exact ⟨Mirrored.still rfl rfl (fun _ hr => hr), h⟩
      | cons p l =>
        have hswap : Mirrored m s { s with readyKeys := [] } :=
          Mirrored.still rfl rfl (fun _ hr => ⟨hr.dict, hr.dbnum⟩)
        have hready : Ready ({ s with readyKeys := [] } : Server C X) :=
          ⟨h.book.congr rfl rfl rfl rfl, h.targets.congr rfl, h.full⟩
        simp only [handleLoop, hk]
        exact (ih (p :: l) _ hready).weaken (fun t ht => ⟨hswap.trans ht.1, ht.2⟩)
    | cons p l =>
      simp only [handleLoop]
      exact (handleReadyKey_mirrored m h p).bind
        (fun u hu => (ih l u hu.2).weaken (fun t ht => ⟨hu.1.trans ht.1, ht.2⟩))

end Redis.Blocking
