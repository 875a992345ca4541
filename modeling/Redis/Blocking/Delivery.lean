import Mathlib.Data.List.Count
import Redis.Blocking.Waiters

namespace Redis.Blocking

open Outcome Server

/-!
# Blocked list clients — delivery

What the serving loop does with the elements, the waiters and the signals.

* `Delivers` — the clients are served in the order of the lists of waiters, and every element
  that is popped is with one client, or in a list;
* `Signals` — a list that comes into being is signaled, and no signal is lost;
* `serveTurn_spec`, `serveClients_spec`, `handleReadyKey_spec` — the loops, from the inside out;
* `handleLoop_spec` — the whole, and a number of turns that is enough.
-/

variable {C X : Type} [DecidableEq C]

/-! ## Specification -/

/-- The element of the service has left the list of a key. -/
def Service.takenFrom (e : Service C) (p : Place) (v : Bytes) : Bool :=
  decide (e.fate ≠ .putBack) && decide (e.place = p) && decide (e.value = v)

/-- The element of the service has come into the list of a key. -/
def Service.landedAt (e : Service C) (p : Place) (v : Bytes) : Bool :=
  decide (e.fate = .moved p) && decide (e.value = v)

/-- The clients of some services. -/
def served (es : List (Service C)) : List C := es.map (·.client)

/-- The clients that wait for a key and have not been served. -/
def unserved (s : Server C X) (p : Place) (es : List (Service C)) : List C :=
  (s.waiters p).filter (fun c => decide (c ∉ served es))

/-- The blocked clients. -/
def blockedCount (s : Server C X) : Nat := s.clients.countP (fun c => (s.client c).blocked)

/-- From `s` to `t` exactly the services `es` were rendered. -/
structure Delivers (s t : Server C X) (es : List (Service C)) : Prop where
  served : t.served = s.served ++ es
  waiters : ∀ p, t.waiters p = unserved s p es
  /-- Each of them to the client that was then the first of those who waited for the key. -/
  inOrder : ∀ before e after, es = before ++ e :: after →
    (unserved s e.place before).head? = some e.client
  /-- An element is taken from the list of one key, and lands in a list or stays with the client. -/
  conserved : ∀ p v, (t.content p).count v + es.countP (·.takenFrom p v)
    = (s.content p).count v + es.countP (·.landedAt p v)
  others : ∀ p x, t.dict p = some (.other x) ↔ s.dict p = some (.other x)
  /-- A client that is served does not wait any more, and every other one is as before. -/
  released : ∀ c ∈ Blocking.served es, (t.client c).blocked = false
  untouched : ∀ c, c ∉ Blocking.served es → t.client c = s.client c
  /-- Every service ends a blocking operation, and signals at most one key. -/
  progress : 2 * t.readyKeys.length + 3 * blockedCount t + es.length
    ≤ 2 * s.readyKeys.length + 3 * blockedCount s

/-- From `s` to `t` the signals that were due have been given. -/
structure Signals (s t : Server C X) : Prop where
  given : ∀ p, IsList t p → IsList s p ∨ t.waiters p = [] ∨ t.ready p = true
  kept : ∀ p, s.ready p = true → t.ready p = true
  queued : ∀ p, t.ready p = true → s.ready p = true ∨ p ∈ t.readyKeys
  readyKeys : ∀ p ∈ s.readyKeys, p ∈ t.readyKeys

theorem unserved_nil (s : Server C X) (p : Place) : unserved s p [] = s.waiters p := by
  simp [unserved, served]

variable {s t : Server C X}

theorem unserved_append {es : List (Service C)} {p : Place} (h : t.waiters p = unserved s p es)
    (es' : List (Service C)) :
    unserved t p es' = unserved s p (es ++ es') := by
  unfold unserved
  rw [h, unserved, List.filter_filter]
  refine List.filter_congr (fun c _ => ?_)
  rw [Bool.eq_iff_iff, Bool.and_eq_true, decide_eq_true_iff, decide_eq_true_iff, decide_eq_true_iff]
  simp only [served, List.map_append, List.mem_append, not_or]
  exact and_comm

namespace Delivers

variable {s t u : Server C X} {es es' : List (Service C)}

theorem refl (s : Server C X) : Delivers s s [] where
  served := (List.append_nil _).symm
  waiters := fun p => (unserved_nil s p).symm
  inOrder := by
    intro before e after h
    simp at h
  conserved := fun p v => rfl
  others := fun p x => Iff.rfl
  released := by
    intro c hc
    simp [Blocking.served] at hc
  untouched := fun c _ => rfl
  progress := le_refl _

theorem trans (h : Delivers s t es) (h' : Delivers t u es') : Delivers s u (es ++ es') where
  served := by rw [h'.served, h.served, List.append_assoc]
  waiters := fun p => (h'.waiters p).trans (unserved_append (h.waiters p) es')
  inOrder := by
    intro before e after heq
    rcases List.append_eq_append_iff.mp heq with ⟨rest, rfl, hes'⟩ | ⟨rest, hes, hrest⟩
    · -- the service is one of the second part
      rw [← unserved_append (h.waiters e.place)]
      exact h'.inOrder rest e after hes'
    · cases rest with
      | nil =>
        rw [List.append_nil] at hes
        subst hes
        have hfirst := h'.inOrder [] e after (by simpa using hrest.symm)
        rw [unserved_append (h.waiters e.place), List.append_nil] at hfirst
        exact hfirst
      | cons e' rest =>
        -- the service is one of the first part
        rw [List.cons_append, List.cons.injEq] at hrest
        obtain ⟨rfl, _⟩ := hrest
        exact h.inOrder before e rest hes
  conserved := by
    intro p v
    have h1 := h.conserved p v
    have h2 := h'.conserved p v
    rw [List.countP_append, List.countP_append]
    omega
  others := fun p x => (h'.others p x).trans (h.others p x)
  released := by
    intro c hc
    by_cases hc' : c ∈ Blocking.served es'
    · exact h'.released c hc'
    · rw [h'.untouched c hc']
      simp only [Blocking.served, List.map_append, List.mem_append] at hc hc'
      exact h.released c (hc.resolve_right hc')
  untouched := by
    intro c hc
    simp only [Blocking.served, List.map_append, List.mem_append, not_or] at hc
    rw [h'.untouched c hc.2, h.untouched c hc.1]
  progress := by
    have h1 := h.progress
    have h2 := h'.progress
    rw [List.length_append]
    omega

/-- The waiters of a key only become fewer. -/
theorem waiters_nil (h : Delivers s t es) {p : Place} (hp : s.waiters p = []) :
    t.waiters p = [] := by
  rw [h.waiters p, unserved, hp, List.filter_nil]

end Delivers

namespace Signals

variable {s t u : Server C X}

omit [DecidableEq C]

theorem refl (s : Server C X) : Signals s s where
  given := fun _ h => Or.inl h
  kept := fun _ h => h
  queued := fun _ h => Or.inl h
  readyKeys := fun _ h => h

theorem trans (h : Signals s t) (h' : Signals t u)
    (hw : ∀ p, t.waiters p = [] → u.waiters p = []) : Signals s u where
  given := by
    intro p hp
    rcases h'.given p hp with ht | hu | hu
    · rcases h.given p ht with hs | ht | ht
      · exact Or.inl hs
      · exact Or.inr (Or.inl (hw p ht))
      · exact Or.inr (Or.inr (h'.kept p ht))
    · exact Or.inr (Or.inl hu)
    · exact Or.inr (Or.inr hu)
  kept := fun p hp => h'.kept p (h.kept p hp)
  queued := by
    intro p hp
    rcases h'.queued p hp with ht | hu
    · rcases h.queued p ht with hs | ht
      · exact Or.inl hs
      · exact Or.inr (h'.readyKeys p ht)
    · exact Or.inr hu
  readyKeys := fun p hp => h'.readyKeys p (h.readyKeys p hp)

end Signals

/-! ## One turn -/

section

omit [DecidableEq C]

/-- The bookkeeping does not look at the keys, the signals and the replies. -/
theorem Bookkeeping.congr {s t : Server C X} (h : Bookkeeping s)
    (hb : t.blockingKeys = s.blockingKeys) (hc : t.client = s.client) (hl : t.clients = s.clients)
    (hk : t.clock = s.clock) : Bookkeeping t := by
  have hw : ∀ p, t.waiters p = s.waiters p := by
    intro p
    rw [Server.waiters, hb]
    rfl
  constructor
  · simpa only [hw, hc] using h.waiting
  · simpa only [hw] using h.once
  · simpa only [hb] using h.nonempty
  · simpa only [hc] using h.keys
  · simpa only [hc] using h.blocked
  · simpa only [hc, hl] using h.connected
  · simpa only [hw, hc] using h.ordered
  · simpa only [hc, hk] using h.clock

theorem content_list {s : Server C X} {p : Place} {l : List Bytes}
    (h : s.dict p = some (.list l)) : s.content p = l := by
  simp [Server.content, h]

theorem content_none {s : Server C X} {p : Place} (h : s.dict p = none) : s.content p = [] := by
  simp [Server.content, h]

theorem content_congr {s t : Server C X} {p : Place} (h : t.dict p = s.dict p) :
    t.content p = s.content p := by
  simp only [Server.content, h]

theorem content_setDict_list (s : Server C X) (p q : Place) (l : List Bytes) :
    (s.setDict p (some (.list l))).content q = if q = p then l else s.content q := by
  by_cases h : q = p
  · subst h
    simp [Server.content, setDict]
  · simp [Server.content, setDict, h]

/-- `signalListAsReady` leaves the key signaled if a client waits for it. -/
theorem signalListAsReady_spec (s : Server C X) (p : Place) :
    ∃ r k, signalListAsReady s p = { s with ready := r, readyKeys := k } ∧
      (s.waiters p = [] ∨ r p = true) ∧ (∀ q, s.ready q = true → r q = true) ∧
      (∀ q, r q = true → s.ready q = true ∨ q ∈ k) ∧ (∀ q ∈ s.readyKeys, q ∈ k) ∧
      k.length ≤ s.readyKeys.length + 1 := by
  unfold signalListAsReady
  by_cases hb : (s.blockingKeys p).isNone = true
  · rw [if_pos hb]
    refine ⟨s.ready, s.readyKeys, rfl, Or.inl ?_, fun _ h => h, fun _ h => Or.inl h, fun _ h => h,
      Nat.le_succ _⟩
    exact waiters_none (Option.isNone_iff_eq_none.mp hb)
  · rw [if_neg hb]
    by_cases hr : s.ready p = true
    · rw [if_pos hr]
      exact ⟨s.ready, s.readyKeys, rfl, Or.inr hr, fun _ h => h, fun _ h => Or.inl h, fun _ h => h,
        Nat.le_succ _⟩
    · rw [if_neg hr]
      refine ⟨Function.update s.ready p true, s.readyKeys ++ [p], rfl, Or.inr (Function.update_self ..),
        ?_, ?_, fun q hq => List.mem_append_left _ hq, by simp⟩
      · intro q hq
        by_cases hqp : q = p
        · rw [hqp, Function.update_self]
        · rwa [Function.update_of_ne hqp]
      · intro q hq
        by_cases hqp : q = p
        · exact Or.inr (by simp [hqp])
        · rw [Function.update_of_ne hqp] at hq
          exact Or.inl hq

end

theorem countP_lt {l : List C} {c : C} (h : c ∈ l) {P Q : C → Bool} (hP : P c = true)
    (hQ : Q c = false) (hPQ : ∀ c', c' ≠ c → Q c' = P c') : l.countP Q + 1 ≤ l.countP P := by
  have hle : ∀ m : List C, m.countP Q ≤ m.countP P := by
    intro m
    refine List.countP_mono_left (fun c' _ hc' => ?_)
    by_cases hcc : c' = c
    · rw [hcc, hQ] at hc'
      cases hc'
    · rwa [← hPQ c' hcc]
  obtain ⟨a, b, rfl⟩ := List.append_of_mem h
  have h1 := hle a
  have h2 := hle b
  simp only [List.countP_append, List.countP_cons, hP, hQ]
  simp only [Bool.false_eq_true, if_false, if_true]
  omega

/-- The first client that waits for a key has been served. -/
theorem delivers_turn {s : Server C X} (h : Bookkeeping s) {e : Service C} {rest : List C}
    (hw : s.waiters e.place = e.client :: rest) {D : Place → Option (Value X)} {r : Place → Bool}
    {k : List Place} (hk : k.length ≤ s.readyKeys.length + 1) {t : Server C X}
    (ht : t = { s.unblocked e.client with
      dict := D, ready := r, readyKeys := k, served := s.served ++ [e] })
    (hcons : ∀ p v, (t.content p).count v + [e].countP (·.takenFrom p v)
      = (s.content p).count v + [e].countP (·.landedAt p v))
    (hothers : ∀ p x, D p = some (.other x) ↔ s.dict p = some (.other x)) :
    Delivers s t [e] ∧ Bookkeeping t := by
  have hmem : e.client ∈ s.waiters e.place := by
    rw [hw]
    exact List.mem_cons_self
  have hblocked := h.blocked_of_mem hmem
  have hclient : t.client = (s.unblocked e.client).client := by rw [ht]
  have hself : (t.client e.client).blocked = false := by rw [hclient, client_unblocked_self]
  have hne : ∀ c, c ≠ e.client → t.client c = s.client c := by
    intro c hc
    rw [hclient, client_unblocked_ne s hc]
  constructor
  · constructor
    case served => rw [ht]
    case waiters =>
      intro p
      have htw : t.waiters p = (s.waiters p).erase e.client := by
        rw [ht]
        exact waiters_unblocked s e.client p
      rw [htw, (h.once p).erase_eq_filter, unserved]
      refine List.filter_congr (fun c _ => ?_)
      rw [Bool.eq_iff_iff]
      simp [Blocking.served]
    case inOrder =>
      intro before e' after heq
      cases before with
      | nil =>
        rw [List.nil_append, List.cons.injEq] at heq
        rw [← heq.1, unserved_nil, hw]
        rfl
      | cons e'' before =>
        simp at heq
    case conserved => exact hcons
    case others =>
      rw [ht]
      exact hothers
    case released =>
      intro c hc
      simp only [Blocking.served, List.map_cons, List.map_nil, List.mem_singleton] at hc
      rw [hc, hself]
    case untouched =>
      intro c hc
      simp only [Blocking.served, List.map_cons, List.map_nil, List.mem_singleton] at hc
      exact hne c hc
    case progress =>
      have hcount : blockedCount t + 1 ≤ blockedCount s := by
        have hclients : t.clients = s.clients := by rw [ht]; rfl
        simp only [blockedCount, hclients]
        exact countP_lt (h.connected _ hblocked) hblocked hself (fun c hc => by rw [hne c hc])
      have hlen : t.readyKeys.length = k.length := by rw [ht]
      rw [hlen, List.length_singleton]
      omega
  · rw [ht]
    exact (h.unblocked e.client).congr rfl rfl rfl rfl

theorem listTypePop_none {l : List Bytes} {w : Where} : listTypePop l w = none ↔ l = [] := by
  cases w with
  | head => cases l <;> simp [listTypePop]
  | tail =>
    simp only [listTypePop]
    cases hl : l.getLast? with
    | none => simpa using List.getLast?_eq_none_iff.mp hl
    | some v =>
      have hne : l ≠ [] := fun h => by simp [h] at hl
      simp [hne]

/-- A push at the end that was popped undoes the pop. -/
theorem listTypePop_some {l l' : List Bytes} {w : Where} {v : Bytes}
    (h : listTypePop l w = some (v, l')) : listTypePush l' v w = l := by
  cases w with
  | head =>
    cases l with
    | nil => simp [listTypePop] at h
    | cons a l =>
      simp only [listTypePop, Option.some.injEq, Prod.mk.injEq] at h
      rw [listTypePush, h.1, h.2]
  | tail =>
    simp only [listTypePop] at h
    cases hl : l.getLast? with
    | none => simp [hl] at h
    | some a =>
      simp only [hl, Option.some.injEq, Prod.mk.injEq] at h
      obtain ⟨rfl, rfl⟩ := h
      exact List.dropLast_append_getLast? a hl

theorem count_listTypePush (l : List Bytes) (v u : Bytes) (w : Where) :
    (listTypePush l v w).count u = l.count u + if v = u then 1 else 0 := by
  cases w <;> simp [listTypePush, List.count_cons, List.count_append]

theorem unblocked_setDict (s : Server C X) (c : C) (p : Place) (v : Option (Value X)) :
    (s.setDict p v).unblocked c = (s.unblocked c).setDict p v := rfl

/-- What a turn that serves a client has done. -/
structure Turn (s t : Server C X) (p : Place) (c : C) (e : Service C) : Prop where
  client : e.client = c
  place : e.place = p
  delivers : Delivers s t [e]
  signals : Signals s t
  book : Bookkeeping t
  isList : IsList t p

section

variable {s : Server C X} (h : Bookkeeping s) {p : Place} {c : C} {rest : List C}
  (hw : s.waiters p = c :: rest) {l l' : List Bytes} (hd : s.dict p = some (.list l)) {v : Bytes}
  {w : Where} (hpop : listTypePop l w = some (v, l'))
include h hw hd hpop

/-- The element is sent to the client. -/
theorem turn_handed :
    Turn s (((s.unblocked c).setDict p (some (.list l'))).reply ⟨c, p, v, .handed⟩) p c
      ⟨c, p, v, .handed⟩ := by
  have hcons : ∀ q u, ((((s.unblocked c).setDict p (some (.list l'))).reply
        ⟨c, p, v, .handed⟩).content q).count u
        + [(⟨c, p, v, .handed⟩ : Service C)].countP (·.takenFrom q u)
      = (s.content q).count u + [(⟨c, p, v, .handed⟩ : Service C)].countP (·.landedAt q u) := by
    intro q u
    have hc : (((s.unblocked c).setDict p (some (.list l'))).reply ⟨c, p, v, .handed⟩).content q
        = if q = p then l' else s.content q := content_setDict_list _ _ _ _
    rw [hc]
    by_cases hq : q = p
    · subst hq
      rw [if_pos rfl, content_list hd, ← listTypePop_some hpop, count_listTypePush]
      simp [Service.takenFrom, Service.landedAt, List.countP_cons]
    · rw [if_neg hq]
      simp [Service.takenFrom, Service.landedAt, Ne.symm hq]
  have hothers : ∀ q x, Function.update s.dict p (some (.list l')) q = some (.other x)
      ↔ s.dict q = some (.other x) := by
    intro q x
    by_cases hq : q = p
    · subst hq
      simp [hd]
    · rw [Function.update_of_ne hq]
  obtain ⟨hdel, hbook⟩ := delivers_turn (e := ⟨c, p, v, .handed⟩) h hw (Nat.le_succ _) rfl hcons hothers
  refine ⟨rfl, rfl, hdel, ⟨?_, fun _ hq => hq, fun _ hq => Or.inl hq, fun _ hq => hq⟩, hbook,
    ⟨l', Function.update_self ..⟩⟩
  intro q hq
  refine Or.inl ?_
  by_cases hqp : q = p
  · rw [hqp]
    exact ⟨l, hd⟩
  · obtain ⟨m, hm⟩ := hq
    refine ⟨m, ?_⟩
    rw [← hm]
    exact (Function.update_of_ne hqp ..).symm

omit hpop in
/-- The destination holds a value of another type, and the element is put back. -/
theorem turn_putBack :
    Turn s (((s.unblocked c).reply ⟨c, p, v, .putBack⟩)) p c ⟨c, p, v, .putBack⟩ := by
  have hcons : ∀ q u, (((s.unblocked c).reply ⟨c, p, v, .putBack⟩).content q).count u
        + [(⟨c, p, v, .putBack⟩ : Service C)].countP (·.takenFrom q u)
      = (s.content q).count u + [(⟨c, p, v, .putBack⟩ : Service C)].countP (·.landedAt q u) := by
    intro q u
    have hc : ((s.unblocked c).reply ⟨c, p, v, .putBack⟩).content q = s.content q := rfl
    rw [hc]
    simp [Service.takenFrom, Service.landedAt]
  obtain ⟨hdel, hbook⟩ := delivers_turn (e := ⟨c, p, v, .putBack⟩) h hw (Nat.le_succ _) rfl hcons
    (fun _ _ => Iff.rfl)
  exact ⟨rfl, rfl, hdel, ⟨fun _ hq => Or.inl hq, fun _ hq => hq, fun _ hq => Or.inl hq,
    fun _ hq => hq⟩, hbook, ⟨l, hd⟩⟩

/-- The element is pushed to the destination `q`, which held the elements `m`. -/
theorem turn_moved {q : Place} {m : List Bytes} {r : Place → Bool} {k : List Place}
    (hm : m = if q = p then l' else s.content q) (hnot : ∀ x, s.dict q ≠ some (.other x))
    (hr : IsList s q ∨ (s.unblocked c).waiters q = [] ∨ r q = true) (hkept : ∀ x, s.ready x = true → r x = true)
    (hqueued : ∀ x, r x = true → s.ready x = true ∨ x ∈ k) (hsub : ∀ x ∈ s.readyKeys, x ∈ k)
    (hk : k.length ≤ s.readyKeys.length + 1) :
    Turn s (({ ((s.unblocked c).setDict p (some (.list l'))).setDict q (some (.list (v :: m))) with
        ready := r, readyKeys := k } : Server C X).reply ⟨c, p, v, .moved q⟩) p c
      ⟨c, p, v, .moved q⟩ := by
  obtain ⟨t, ht⟩ : ∃ t, t = ({ ((s.unblocked c).setDict p (some (.list l'))).setDict q
      (some (.list (v :: m))) with ready := r, readyKeys := k } : Server C X).reply
        ⟨c, p, v, .moved q⟩ := ⟨_, rfl⟩
  rw [← ht]
  have hdict : t.dict = Function.update (Function.update s.dict p (some (.list l'))) q
      (some (.list (v :: m))) := by
    rw [ht]
    rfl
  have hcons : ∀ x u, (t.content x).count u
        + [(⟨c, p, v, .moved q⟩ : Service C)].countP (·.takenFrom x u)
      = (s.content x).count u + [(⟨c, p, v, .moved q⟩ : Service C)].countP (·.landedAt x u) := by
    intro x u
    have hc : t.content x
        = if x = q then v :: m else if x = p then l' else s.content x := by
      rw [ht]
      exact (content_setDict_list _ _ _ _).trans (by rw [content_setDict_list]; rfl)
    -- without the element that has landed
    have hbase : (if x = p then l' else s.content x).count u
        + [(⟨c, p, v, .moved q⟩ : Service C)].countP (·.takenFrom x u) = (s.content x).count u := by
      by_cases hx : x = p
      · subst hx
        rw [if_pos rfl, content_list hd, ← listTypePop_some hpop, count_listTypePush]
        simp [Service.takenFrom, List.countP_cons]
      · rw [if_neg hx]
        simp [Service.takenFrom, Ne.symm hx]
    rw [hc, ← hbase]
    by_cases hx : x = q
    · subst hx
      rw [if_pos rfl, hm, List.count_cons]
      simp only [Service.landedAt, List.countP_cons, List.countP_nil, decide_true, Bool.true_and,
        decide_eq_true_eq, beq_iff_eq]
      omega
    · rw [if_neg hx]
      simp [Service.landedAt, Ne.symm hx]
  have hothers : ∀ x y, Function.update (Function.update s.dict p (some (.list l'))) q
      (some (.list (v :: m))) x = some (.other y) ↔ s.dict x = some (.other y) := by
    intro x y
    by_cases hx : x = q
    · subst hx
      rw [Function.update_self]
      exact iff_of_false (by simp) (hnot y)
    · rw [Function.update_of_ne hx]
      by_cases hxp : x = p
      · subst hxp
        simp [hd]
      · rw [Function.update_of_ne hxp]
  obtain ⟨hdel, hbook⟩ := delivers_turn (e := ⟨c, p, v, .moved q⟩) h hw hk ht hcons hothers
  refine ⟨rfl, rfl, hdel, ⟨?_, ?_, ?_, ?_⟩, hbook, ?_⟩
  · intro x hx
    by_cases hxq : x = q
    · subst hxq
      rcases hr with hl | hn | hr
      · exact Or.inl hl
      · refine Or.inr (Or.inl ?_)
        rw [ht]
        exact hn
      · exact Or.inr (Or.inr (by rw [ht]; exact hr))
    · by_cases hxp : x = p
      · rw [hxp]
        exact Or.inl ⟨l, hd⟩
      · obtain ⟨y, hy⟩ := hx
        rw [hdict, Function.update_of_ne hxq, Function.update_of_ne hxp] at hy
        exact Or.inl ⟨y, hy⟩
  · rw [ht]
    exact hkept
  · rw [ht]
    exact hqueued
  · rw [ht]
    exact hsub
  · by_cases hpq : p = q
    · exact ⟨v :: m, by rw [hdict, hpq, Function.update_self]⟩
    · exact ⟨l', by rw [hdict, Function.update_of_ne hpq, Function.update_self]⟩

end

omit [DecidableEq C] in
/-- `rpoplpushHandlePush` on a key that holds a list or nothing. -/
theorem rpoplpushHandlePush_ok (s : Server C X) (c : C) (dst v : Bytes)
    (hnot : ∀ x, s.dict ((s.client c).db, dst) ≠ some (.other x)) :
    ∃ r k, rpoplpushHandlePush s c dst (s.dict ((s.client c).db, dst)).isSome v
        = .ok { s.setDict ((s.client c).db, dst)
            (some (.list (v :: s.content ((s.client c).db, dst)))) with ready := r, readyKeys := k } ∧
      (IsList s ((s.client c).db, dst) ∨ s.waiters ((s.client c).db, dst) = [] ∨
        r ((s.client c).db, dst) = true) ∧
      (∀ q, s.ready q = true → r q = true) ∧ (∀ q, r q = true → s.ready q = true ∨ q ∈ k) ∧
      (∀ q ∈ s.readyKeys, q ∈ k) ∧ k.length ≤ s.readyKeys.length + 1 := by
  cases hq : s.dict ((s.client c).db, dst) with
  | some o =>
    cases o with
    | list m =>
      refine ⟨s.ready, s.readyKeys, ?_, Or.inl ⟨m, hq⟩, fun _ h => h, fun _ h => Or.inl h,
        fun _ h => h, Nat.le_succ _⟩
      simp only [rpoplpushHandlePush, Option.isSome_some, if_true, ok_bind, pushTo, hq, listTypePush,
        content_list hq]
      rfl
    | other x => exact absurd hq (hnot x)
  | none =>
    obtain ⟨r, k, hsignal, hwait, hkept, hqueued, hsub, hk⟩ :=
      signalListAsReady_spec (s.setDict ((s.client c).db, dst) (some (.list []))) ((s.client c).db, dst)
    refine ⟨r, k, ?_, Or.inr hwait, hkept, hqueued, hsub, hk⟩
    simp only [rpoplpushHandlePush, dbAdd, hq, Option.isSome_none, Bool.false_eq_true, if_false, hsignal,
      ok_bind]
    simp only [pushTo, setDict, Function.update_self, listTypePush, content_none hq,
      Function.update_idem]

omit [DecidableEq C] in
/-- The element is pushed for a receiver whose destination is a list or is missing. -/
theorem serveClientBlockedOnList_moved {c : C} {dst v : Bytes} (p : Place)
    (hnot : ∀ x, s.dict ((s.client c).db, dst) ≠ some (.other x))
    (hpush : rpoplpushHandlePush s c dst (s.dict ((s.client c).db, dst)).isSome v = .ok t) :
    serveClientBlockedOnList s c p (some dst) v
      = .ok (t.reply ⟨c, p, v, .moved ((s.client c).db, dst)⟩, true) := by
  simp only [serveClientBlockedOnList]
  cases hdst : s.dict ((s.client c).db, dst) with
  | none =>
    rw [hdst] at hpush
    simp only [hpush, ok_bind]
    rfl
  | some o =>
    cases o with
    | list m =>
      rw [hdst] at hpush
      simp only [hpush, ok_bind]
      rfl
    | other x => exact absurd hdst (hnot x)

/-- What a turn does with the element that it pops; `u` is the state after the pop. -/
theorem serveTurn_cases {s : Server C X} (h : Bookkeeping s) {p : Place} {c : C} {rest : List C}
    (hw : s.waiters p = c :: rest) {l : List Bytes} (hd : s.dict p = some (.list l)) {w : Where}
    (hwhere : w = if (s.client c).lastBlpop then .head else .tail) :
    (listTypePop l w = none ∧ serveTurn s p = .ok (s, false)) ∨
    ∃ v l' u, listTypePop l w = some (v, l') ∧ u = (s.unblocked c).setDict p (some (.list l')) ∧
      (((s.client c).target = none ∧ serveTurn s p = .ok (u.reply ⟨c, p, v, .handed⟩, true)) ∨
        serveTurn s p = .ok ((s.unblocked c).reply ⟨c, p, v, .putBack⟩, true) ∨
        ∃ dst, (s.client c).target = some dst ∧ (∀ x, u.dict ((u.client c).db, dst) ≠ some (.other x)) ∧
          ∀ t, rpoplpushHandlePush u c dst (u.dict ((u.client c).db, dst)).isSome v = .ok t →
            serveTurn s p = .ok (t.reply ⟨c, p, v, .moved ((u.client c).db, dst)⟩, true)) := by
  have hmem : c ∈ s.waiters p := by
    rw [hw]
    exact List.mem_cons_self
  have hb := blockingKeys_of_mem hmem
  rw [hw] at hb
  simp only [serveTurn, hb, ← hwhere, popFrom, hd]
  cases hpop : listTypePop l w with
  | none => exact Or.inl ⟨rfl, rfl⟩
  | some r =>
    obtain ⟨v, l'⟩ := r
    have hbook : Bookkeeping (s.setDict p (some (.list l'))) := h.congr rfl rfl rfl rfl
    simp only [ok_bind, unblockClient_ok hbook (c := c) (h.blocked_of_mem hmem), unblocked_setDict]
    obtain ⟨u, hu⟩ : ∃ u, u = (s.unblocked c).setDict p (some (.list l')) := ⟨_, rfl⟩
    refine Or.inr ⟨v, l', u, rfl, hu, ?_⟩
    rw [← hu]
    cases htarget : (s.client c).target with
    | none => exact Or.inl ⟨rfl, rfl⟩
    | some dst =>
      by_cases hother : ∃ x, u.dict ((u.client c).db, dst) = some (.other x)
      · -- the destination has the wrong type: the element goes back where it was
        obtain ⟨x, hx⟩ := hother
        have hp : (u.reply ⟨c, p, v, .putBack⟩).dict p = some (.list l') := by
          rw [hu]
          exact Function.update_self ..
        have hback : (u.reply ⟨c, p, v, .putBack⟩).setDict p (some (.list (listTypePush l' v w)))
            = (s.unblocked c).reply ⟨c, p, v, .putBack⟩ := by
          rw [hu, listTypePop_some hpop, ← hd]
          simp only [setDict, reply, Function.update_idem]
          congr 1
          exact Function.update_eq_self p s.dict
        simp only [serveClientBlockedOnList, hx, ok_bind, Bool.false_eq_true, if_false, pushTo, hp, hback]
        exact Or.inr (Or.inl rfl)
      · have hnot : ∀ x, u.dict ((u.client c).db, dst) ≠ some (.other x) := fun x hx => hother ⟨x, hx⟩
        refine Or.inr (Or.inr ⟨dst, rfl, hnot, fun t hpush => ?_⟩)
        simp only [serveClientBlockedOnList_moved p hnot hpush, ok_bind, if_true]
        rfl

/-- **One turn.**  With a client waiting, the loop is left because the list is empty, or the
    client is served. -/
theorem serveTurn_spec {s : Server C X} (h : Bookkeeping s) {p : Place} {c : C} {rest : List C}
    (hw : s.waiters p = c :: rest) (hl : IsList s p) :
    Sat (serveTurn s p)
      (fun r => (r.2 = false ∧ r.1 = s ∧ s.content p = []) ∨
        (r.2 = true ∧ ∃ e, Turn s r.1 p c e))
      (fun _ => False) := by
  obtain ⟨l, hd⟩ := hl
  rcases serveTurn_cases h hw hd rfl with
    ⟨hpop, hrun⟩ | ⟨v, l', u, hpop, hu, ⟨-, hrun⟩ | hrun | ⟨dst, -, hnot, hserve⟩⟩
  · rw [hrun]
    exact Or.inl ⟨rfl, rfl, (content_list hd).trans (listTypePop_none.mp hpop)⟩
  · rw [hrun, hu]
    exact Or.inr ⟨rfl, _, turn_handed h hw hd hpop⟩
  · rw [hrun]
    exact Or.inr ⟨rfl, _, turn_putBack h hw hd⟩
  · obtain ⟨r, k, hpush, hsignal, hkept, hqueued, hsub, hk⟩ := rpoplpushHandlePush_ok u c dst v hnot
    obtain ⟨q, hq⟩ : ∃ q : Place, q = ((u.client c).db, dst) := ⟨_, rfl⟩
    rw [hserve _ hpush]
    rw [← hq] at hsignal hnot ⊢
    refine Or.inr ⟨rfl, ⟨c, p, v, .moved q⟩, ?_⟩
    have hcontent : u.content q = if q = p then l' else s.content q := by
      rw [hu]
      exact content_setDict_list _ _ _ _
    have hdictq : q ≠ p → u.dict q = s.dict q := by
      intro hqp
      rw [hu]
      exact Function.update_of_ne hqp ..
    have hsnot : ∀ x, s.dict q ≠ some (.other x) := by
      intro x hx
      by_cases hqp : q = p
      · rw [hqp, hd] at hx
        cases hx
      · exact hnot x ((hdictq hqp).trans hx)
    have hssignal : IsList s q ∨ (s.unblocked c).waiters q = [] ∨ r q = true := by
      rcases hsignal with hlist | hwait | hr
      · by_cases hqp : q = p
        · exact Or.inl ⟨l, by rw [hqp, hd]⟩
        · obtain ⟨m, hm⟩ := hlist
          exact Or.inl ⟨m, (hdictq hqp) ▸ hm⟩
      · rw [hu] at hwait
        exact Or.inr (Or.inl hwait)
      · exact Or.inr (Or.inr hr)
    rw [hu] at hkept hqueued hsub hk ⊢
    exact turn_moved h hw hd hpop (by rw [← hu]; exact hcontent) hsnot hssignal hkept hqueued hsub hk

/-! ## The loops -/

/-- The loop over the clients that wait for a key ends with no client or no element. -/
theorem serveClients_spec (p : Place) : ∀ (n : Nat) (s : Server C X), Bookkeeping s → IsList s p →
    (s.waiters p).length = n →
    Sat (serveClients n s p)
      (fun t => ∃ es, Delivers s t es ∧ Signals s t ∧ Bookkeeping t ∧ IsList t p ∧
        (t.waiters p = [] ∨ t.content p = []))
      (fun _ => False) := by
  intro n
  induction n with
  | zero =>
    intro s h hl hlen
    exact ⟨[], Delivers.refl s, Signals.refl s, h, hl, Or.inl (List.length_eq_zero_iff.mp hlen)⟩
  | succ n ih =>
    intro s h hl hlen
    obtain ⟨c, rest, hw⟩ := List.exists_cons_of_length_eq_add_one hlen
    refine (serveTurn_spec h hw hl).bind (fun r hr => ?_)
    rcases hr with ⟨hbreak, hr, hempty⟩ | ⟨hnext, e, hturn⟩
    · rw [hbreak, hr]
      exact ⟨[], Delivers.refl s, Signals.refl s, h, hl, Or.inr hempty⟩
    · -- the client that was served is gone from the list
      have hlen' : (r.1.waiters p).length = n := by
        have hrest : r.1.waiters p = rest := by
          rw [hturn.delivers.waiters p, unserved, hw]
          have hnodup := h.once p
          rw [hw, List.nodup_cons] at hnodup
          have hout : rest.filter (fun c' => decide (c' ∉ served [e])) = rest := by
            refine List.filter_eq_self.mpr (fun c' hc' => ?_)
            have hne : c' ≠ c := fun he => hnodup.1 (he ▸ hc')
            simpa [served, hturn.client] using hne
          have hin : decide (c ∉ served [e]) = false := by simp [served, hturn.client]
          rw [List.filter_cons, hin, hout]
          rfl
        rw [hw, List.length_cons] at hlen
        rw [hrest]
        omega
      rw [hnext]
      refine (ih r.1 hturn.book hturn.isList hlen').weaken (fun t ht => ?_)
      obtain ⟨es, hdel, hsig, hbook, hlist, hend⟩ := ht
      exact ⟨e :: es, hturn.delivers.trans hdel, hturn.signals.trans hsig (fun q => hdel.waiters_nil),
        hbook, hlist, hend⟩

/-- A step in which no client is served and no element moves. -/
theorem delivers_nil (hserved : t.served = s.served) (hb : t.blockingKeys = s.blockingKeys)
    (hcontent : ∀ p, t.content p = s.content p)
    (hothers : ∀ p x, t.dict p = some (.other x) ↔ s.dict p = some (.other x)) (hc : t.client = s.client)
    (hl : t.clients = s.clients) (hk : t.readyKeys.length ≤ s.readyKeys.length) : Delivers s t [] where
  served := by rw [hserved, List.append_nil]
  waiters := by
    intro p
    rw [unserved_nil, Server.waiters, hb]
    rfl
  inOrder := by
    intro before e after h
    simp at h
  conserved := by
    intro p v
    rw [hcontent p]
    rfl
  others := hothers
  released := by
    intro c hc
    simp [Blocking.served] at hc
  untouched := fun c _ => congrFun hc c
  progress := by
    have hcount : blockedCount t = blockedCount s := by rw [blockedCount, hc, hl]; rfl
    rw [hcount, List.length_nil]
    omega

/-- Whoever waits for a key that holds a list has been signaled. -/
def Awake (s : Server C X) : Prop :=
  ∀ p, s.waiters p ≠ [] → IsList s p → s.ready p = true

/-- **One ready key.** -/
theorem handleReadyKey_spec {s : Server C X} (h : Bookkeeping s) (p : Place) :
    Sat (handleReadyKey s p)
      (fun t => ∃ es, Delivers s t es ∧ Bookkeeping t ∧
        (∀ q, t.ready q = true → (q ≠ p ∧ s.ready q = true) ∨ q ∈ t.readyKeys) ∧
        (∀ q ∈ s.readyKeys, q ∈ t.readyKeys) ∧ (Awake s → Awake t))
      (fun _ => False) := by
  obtain ⟨u, hu⟩ : ∃ u, u = s.setReady p false := ⟨_, rfl⟩
  have hudel : Delivers s u [] := by
    rw [hu]
    exact delivers_nil rfl rfl (fun _ => rfl) (fun _ _ => Iff.rfl) rfl rfl (le_refl _)
  have hubook : Bookkeeping u := by
    rw [hu]
    exact h.congr rfl rfl rfl rfl
  have huready : ∀ q, u.ready q = true → q ≠ p ∧ s.ready q = true := by
    intro q hq
    rw [hu] at hq
    by_cases hqp : q = p
    · subst hqp
      simp [setReady] at hq
    · exact ⟨hqp, by simpa [setReady, hqp] using hq⟩
  have hukeep : ∀ q, q ≠ p → s.ready q = true → u.ready q = true := by
    intro q hqp hq
    rw [hu]
    simpa [setReady, hqp] using hq
  have hukeys : u.readyKeys = s.readyKeys := by rw [hu]; rfl
  have hudict : u.dict = s.dict := by rw [hu]; rfl
  by_cases hl : IsList u p
  · obtain ⟨l, hd⟩ := hl
    have hserve : Sat (serveKey u p)
        (fun t => ∃ es, Delivers u t es ∧ Signals u t ∧ Bookkeeping t ∧ IsList t p ∧
          (t.waiters p = [] ∨ t.content p = [])) (fun _ => False) := by
      unfold serveKey
      cases hb : u.blockingKeys p with
      | none =>
        exact ⟨[], Delivers.refl u, Signals.refl u, hubook, ⟨l, hd⟩, Or.inl (waiters_none hb)⟩
      | some clients =>
        exact serveClients_spec p clients.length u hubook ⟨l, hd⟩ (by rw [waiters_some hb])
    simp only [handleReadyKey, ← hu, hd]
    refine hserve.bind (fun t ht => ?_)
    obtain ⟨es, hdel, hsig, hbook, ⟨m, hm⟩, hend⟩ := ht
    -- before the empty list is deleted
    have hawake : Awake s → ∀ q, q ≠ p → t.waiters q ≠ [] → IsList t q → t.ready q = true := by
      intro hs q hqp hwait hlist
      rcases hsig.given q hlist with hul | hnil | hr
      · have hsl : IsList s q := by
          rw [IsList, ← hudict]
          exact hul
        have hswait : s.waiters q ≠ [] := by
          intro hnil
          exact hwait ((hudel.trans hdel).waiters_nil hnil)
        exact hsig.kept q (hukeep q hqp (hs q hswait hsl))
      · exact absurd hnil hwait
      · exact hr
    have hready : ∀ q, t.ready q = true → (q ≠ p ∧ s.ready q = true) ∨ q ∈ t.readyKeys := by
      intro q hq
      exact (hsig.queued q hq).imp (huready q) id
    have hkeys : ∀ q ∈ s.readyKeys, q ∈ t.readyKeys := by
      rw [← hukeys]
      exact hsig.readyKeys
    simp only [deleteIfEmpty, hm]
    by_cases hempty : m.length = 0
    · rw [if_pos hempty]
      have hmnil := List.length_eq_zero_iff.mp hempty
      have hdelete : Delivers t (dbDelete t p) [] := by
        refine delivers_nil rfl rfl ?_ ?_ rfl rfl (le_refl _)
        · intro q
          by_cases hqp : q = p
          · rw [hqp, content_list hm, hmnil]
            exact content_none (Function.update_self ..)
          · exact content_congr (Function.update_of_ne hqp ..)
        · intro q x
          by_cases hqp : q = p
          · subst hqp
            simp [dbDelete, setDict, hm]
          · simp [dbDelete, setDict, hqp]
      refine ⟨[] ++ es ++ [], (hudel.trans hdel).trans hdelete, hbook.congr rfl rfl rfl rfl, hready,
        hkeys, fun hs q hwait hlist => ?_⟩
      obtain ⟨m', hm'⟩ := hlist
      by_cases hqp : q = p
      · rw [hqp] at hm'
        simp [dbDelete, setDict] at hm'
      · exact hawake hs q hqp hwait ⟨m', by simpa [dbDelete, setDict, hqp] using hm'⟩
    · rw [if_neg hempty]
      refine ⟨[] ++ es, hudel.trans hdel, hbook, hready, hkeys, fun hs q hwait hlist => ?_⟩
      by_cases hqp : q = p
      · subst hqp
        rcases hend with hnil | hnil
        · exact absurd hnil hwait
        · rw [content_list hm] at hnil
          exact absurd (List.length_eq_zero_iff.mpr hnil) hempty
      · exact hawake hs q hqp hwait hlist
  · -- the key does not hold a list any more
    have hskip : handleReadyKey s p = .ok u := by
      simp only [handleReadyKey, ← hu]
      cases hd : u.dict p with
      | none => rfl
      | some o =>
        cases o with
        | list l => exact absurd ⟨l, hd⟩ hl
        | other x => rfl
    rw [hskip]
    refine ⟨[], hudel, hubook, fun q hq => Or.inl (huready q hq), fun q hq => by rwa [hukeys], ?_⟩
    intro hs q hwait hlist
    have hqp : q ≠ p := fun he => hl (he ▸ hlist)
    rw [IsList, hudict] at hlist
    refine hukeep q hqp (hs q ?_ hlist)
    rw [hu] at hwait
    exact hwait

/-- The turns that the loops take at most. -/
def potential (l : List Place) (s : Server C X) : Nat :=
  l.length + 2 * s.readyKeys.length + 3 * blockedCount s

/-- **The loops.**  They do not fail, they end within the turns of the potential, and whoever was
    due a signal has been served. -/
theorem handleLoop_spec : ∀ (turns : Nat) (l : List Place) (s : Server C X), Bookkeeping s →
    Sat (handleLoop turns l s)
      (fun t => ∃ es, Delivers s t es ∧ Bookkeeping t ∧ t.readyKeys = [] ∧
        ((∀ q, s.ready q = true → q ∈ l ∨ q ∈ s.readyKeys) → ∀ q, t.ready q = false) ∧
        (Awake s → Awake t))
      (fun f => f = .unfinished ∧ turns ≤ potential l s) := by
  intro turns
  induction turns with
  | zero => exact fun l s _ => ⟨rfl, Nat.zero_le _⟩
  | succ turns ih =>
    intro l s h
    cases l with
    | nil =>
      cases hk : s.readyKeys with
      | nil =>
        simp only [handleLoop, hk]
        refine ⟨[], Delivers.refl s, h, hk, fun hready q => ?_, id⟩
        by_contra hq
        rw [Bool.not_eq_false] at hq
        simpa [hk] using hready q hq
      | cons p l =>
        -- the keys that were signaled meanwhile
        have hswap : Delivers s { s with readyKeys := [] } [] :=
          delivers_nil rfl rfl (fun _ => rfl) (fun _ _ => Iff.rfl) rfl rfl (Nat.zero_le _)
        have hbook : Bookkeeping ({ s with readyKeys := [] } : Server C X) := h.congr rfl rfl rfl rfl
        simp only [handleLoop, hk]
        refine (ih (p :: l) { s with readyKeys := [] } hbook).mono (fun t ht => ?_) (fun f hf => ?_)
        · obtain ⟨es, hdel, hbook', hnil, hready, hawake⟩ := ht
          refine ⟨[] ++ es, hswap.trans hdel, hbook', hnil, fun hs => hready (fun q hq => ?_), hawake⟩
          exact Or.inl (by simpa using hs q hq)
        · refine ⟨hf.1, ?_⟩
          have hle := hf.2
          have hcount : blockedCount ({ s with readyKeys := [] } : Server C X) = blockedCount s := rfl
          simp only [potential, hcount, hk, List.length_cons, List.length_nil] at hle ⊢
          omega
    | cons p l =>
      simp only [handleLoop]
      refine Sat.bind (Q := fun u => ∃ es, Delivers s u es ∧ Bookkeeping u ∧
        (∀ q, u.ready q = true → (q ≠ p ∧ s.ready q = true) ∨ q ∈ u.readyKeys) ∧
        (∀ q ∈ s.readyKeys, q ∈ u.readyKeys) ∧ (Awake s → Awake u)) ?_ (fun u hu => ?_)
      · exact (handleReadyKey_spec h p).mono (fun _ hu => hu) (fun _ hf => hf.elim)
      · obtain ⟨es, hdel, hbook, hready, hkeys, hawake⟩ := hu
        refine (ih l u hbook).mono (fun t ht => ?_) (fun f hf => ⟨hf.1, ?_⟩)
        · obtain ⟨es', hdel', hbook', hnil, hready', hawake'⟩ := ht
          refine ⟨es ++ es', hdel.trans hdel', hbook', hnil, fun hs => hready' (fun q hq => ?_),
            fun hs => hawake' (hawake hs)⟩
          rcases hready q hq with ⟨hqp, hsq⟩ | hq
          · rcases hs q hsq with hl | hsk
            · exact Or.inl ((List.mem_cons.mp hl).resolve_left hqp)
            · exact Or.inr (hkeys q hsk)
          · exact Or.inr hq
        · have hle := hf.2
          have hprogress := hdel.progress
          simp only [potential, List.length_cons] at hle ⊢
          omega

end Redis.Blocking
