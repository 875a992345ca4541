import Mathlib.Data.List.Nodup
import Redis.Blocking.Command

namespace Redis.Blocking

open Outcome Server

/-!
# Blocked list clients — the lists of waiters

`db->blocking_keys` and the `bpop.keys` of the clients are two sides of one relation.

* `Bookkeeping` — a client is in the list of a key, once, exactly if the key is in its `bpop.keys`,
  no list is empty, and every list is in the order in which its clients blocked;
* `unblockClient_ok` — `unblockClient` does not fail, and removes the client from every list;
* `Bookkeeping.unblocked`, `Bookkeeping.blockForKeys` — both functions keep it.
-/

variable {C X : Type} [DecidableEq C]

/-- The two sides of the blocking relation agree. -/
structure Bookkeeping (s : Server C X) : Prop where
  waiting : ∀ c p, c ∈ s.waiters p ↔ p.1 = (s.client c).db ∧ p.2 ∈ (s.client c).keys
  once : ∀ p, (s.waiters p).Nodup
  nonempty : ∀ p, s.blockingKeys p ≠ some []
  keys : ∀ c, (s.client c).keys.Nodup
  blocked : ∀ c, (s.client c).blocked = true ↔ (s.client c).keys ≠ []
  connected : ∀ c, (s.client c).blocked = true → c ∈ s.clients
  ordered : ∀ p, (s.waiters p).Pairwise (fun c c' => (s.client c).since < (s.client c').since)
  clock : ∀ c, (s.client c).blocked = true → (s.client c).since < s.clock

omit [DecidableEq C] in
theorem waiters_some {s : Server C X} {p : Place} {l : List C} (h : s.blockingKeys p = some l) :
    s.waiters p = l := by
  simp [Server.waiters, h]

omit [DecidableEq C] in
theorem waiters_none {s : Server C X} {p : Place} (h : s.blockingKeys p = none) :
    s.waiters p = [] := by
  simp [Server.waiters, h]

omit [DecidableEq C] in
theorem blockingKeys_of_mem {s : Server C X} {p : Place} {c : C} (h : c ∈ s.waiters p) :
    s.blockingKeys p = some (s.waiters p) := by
  cases hp : s.blockingKeys p with
  | none =>
    rw [waiters_none hp] at h
    exact absurd h List.not_mem_nil
  | some l => rw [waiters_some hp]

omit [DecidableEq C] in
theorem Bookkeeping.blocked_of_mem {s : Server C X} (h : Bookkeeping s) {c : C} {p : Place}
    (hc : c ∈ s.waiters p) : (s.client c).blocked = true :=
  (h.blocked c).mpr (List.ne_nil_of_mem ((h.waiting c p).mp hc).2)

/-! ## Unblocking -/

/-- What is left of a list of waiters, with no list for an empty one. -/
def withoutWaiter (c : C) (l : List C) : Option (List C) :=
  if (l.erase c).length = 0 then none else some (l.erase c)

@[simp] theorem getD_withoutWaiter (c : C) (l : List C) :
    (withoutWaiter c l).getD [] = l.erase c := by
  unfold withoutWaiter
  by_cases h : (l.erase c).length = 0
  · rw [if_pos h, List.length_eq_zero_iff.mp h]
    rfl
  · rw [if_neg h]
    rfl

theorem withoutWaiter_ne (c : C) (l : List C) : withoutWaiter c l ≠ some [] := by
  unfold withoutWaiter
  by_cases h : (l.erase c).length = 0
  · simp [h]
  · rw [if_neg h]
    intro heq
    exact h (by rw [Option.some.inj heq]; rfl)

/-- The client waits for nothing any more. -/
def Server.unblocked (s : Server C X) (c : C) : Server C X :=
  { s with
    blockingKeys := fun p => if c ∈ s.waiters p then withoutWaiter c (s.waiters p) else s.blockingKeys p
    client := Function.update s.client c
      { s.client c with keys := [], target := none, blocked := false } }

/-- The lists of some keys of a database without the client. -/
def Server.withoutKeys (s : Server C X) (c : C) (d : Nat) (keys : List Bytes) : Server C X :=
  { s with
    blockingKeys := fun p =>
      if p.1 = d ∧ p.2 ∈ keys then withoutWaiter c (s.waiters p) else s.blockingKeys p }

theorem unblockForKey_ok {s : Server C X} {c : C} {key : Bytes}
    (h : c ∈ s.waiters ((s.client c).db, key)) :
    unblockForKey c s key = .ok (s.withoutKeys c (s.client c).db [key]) := by
  have hp := blockingKeys_of_mem h
  have hs : s.withoutKeys c (s.client c).db [key]
      = s.setBlocking ((s.client c).db, key) (withoutWaiter c (s.waiters ((s.client c).db, key))) := by
    simp only [Server.withoutKeys, setBlocking]
    congr 1
    funext p
    by_cases hpk : p = ((s.client c).db, key)
    · subst hpk
      simp
    · have hne : ¬ (p.1 = (s.client c).db ∧ p.2 ∈ [key]) := by
        rintro ⟨h1, h2⟩
        exact hpk (Prod.ext h1 (List.mem_singleton.mp h2))
      rw [if_neg hne, Function.update_of_ne hpk]
  rw [hs]
  simp only [unblockForKey, hp, if_pos h, withoutWaiter]
  by_cases hl : ((s.waiters ((s.client c).db, key)).erase c).length = 0
  · rw [if_pos hl, if_pos hl]
  · rw [if_neg hl, if_neg hl]

variable (s : Server C X)

theorem waiters_withoutKeys (c : C) (d : Nat) (keys : List Bytes) (p : Place) :
    (s.withoutKeys c d keys).waiters p
      = if p.1 = d ∧ p.2 ∈ keys then (s.waiters p).erase c else s.waiters p := by
  by_cases hp : p.1 = d ∧ p.2 ∈ keys
  · simp [Server.waiters, Server.withoutKeys, hp]
  · simp [Server.waiters, Server.withoutKeys, hp]

theorem withoutKeys_cons (c : C) (d : Nat) {key : Bytes} {keys : List Bytes} (h : key ∉ keys) :
    (s.withoutKeys c d [key]).withoutKeys c d keys = s.withoutKeys c d (key :: keys) := by
  have hp : ∀ p, ((s.withoutKeys c d [key]).withoutKeys c d keys).blockingKeys p
      = (s.withoutKeys c d (key :: keys)).blockingKeys p := by
    intro p
    by_cases hk : p.1 = d ∧ p.2 ∈ keys
    · have hne : p.2 ≠ key := fun he => h (he ▸ hk.2)
      simp [Server.withoutKeys, hk, hne, Server.waiters]
    · by_cases hkey : p.1 = d ∧ p.2 = key
      · have hnot : p.2 ∉ keys := by rw [hkey.2]; exact h
        simp [Server.withoutKeys, hkey, h]
      · have hnot : ¬ (p.1 = d ∧ (p.2 = key ∨ p.2 ∈ keys)) := by tauto
        simp [Server.withoutKeys, hk, hkey, hnot]
  have hf : ((s.withoutKeys c d [key]).withoutKeys c d keys).blockingKeys
      = (s.withoutKeys c d (key :: keys)).blockingKeys := funext hp
  simp only [Server.withoutKeys] at hf ⊢
  rw [hf]

/-- The loop of `unblockClientWaitingData`. -/
theorem unblockKeys_ok (c : C) (keys : List Bytes) : ∀ (s : Server C X), keys.Nodup →
    (∀ key ∈ keys, c ∈ s.waiters ((s.client c).db, key)) →
    keys.foldlM (unblockForKey c) s = .ok (s.withoutKeys c (s.client c).db keys) := by
  induction keys with
  | nil =>
    intro s _ _
    simp [Server.withoutKeys, pure, Except.pure]
  | cons key keys ih =>
    intro s hnodup hin
    obtain ⟨hnot, hnodup⟩ := List.nodup_cons.mp hnodup
    rw [List.foldlM_cons, unblockForKey_ok (hin key List.mem_cons_self), ok_bind]
    rw [ih _ hnodup, ← withoutKeys_cons s c _ hnot]
    · rfl
    · intro k hk
      have hne : k ≠ key := fun he => hnot (he ▸ hk)
      rw [waiters_withoutKeys]
      simp only [Server.withoutKeys, List.mem_singleton, hne, and_false, if_false]
      exact hin k (List.mem_cons_of_mem _ hk)

/-- `unblockClient` does not fail. -/
theorem unblockClient_ok {s : Server C X} (h : Bookkeeping s) {c : C}
    (hc : (s.client c).blocked = true) : unblockClient s c = .ok (s.unblocked c) := by
  have hkeys := (h.blocked c).mp hc
  have hlen : (s.client c).keys.length ≠ 0 := fun hl => hkeys (List.length_eq_zero_iff.mp hl)
  have hloop := unblockKeys_ok c (s.client c).keys s (h.keys c)
    (fun key hk => (h.waiting c _).mpr ⟨rfl, hk⟩)
  have hblocking : (s.unblocked c).blockingKeys
      = (s.withoutKeys c (s.client c).db (s.client c).keys).blockingKeys := by
    funext p
    simp only [Server.unblocked, Server.withoutKeys, h.waiting c p]
  simp only [unblockClient, unblockClientWaitingData, if_neg hlen, hloop, pure, Except.pure,
    bind, Except.bind]
  simp only [Server.unblocked] at hblocking
  simp only [Server.unblocked, setClient, hblocking, Server.withoutKeys, Function.update_self,
    Function.update_idem]

@[simp] theorem waiters_unblocked (c : C) (p : Place) :
    (s.unblocked c).waiters p = (s.waiters p).erase c := by
  by_cases h : c ∈ s.waiters p
  · have hb : (s.unblocked c).blockingKeys p = withoutWaiter c (s.waiters p) := if_pos h
    rw [Server.waiters, hb, getD_withoutWaiter]
  · have hb : (s.unblocked c).blockingKeys p = s.blockingKeys p := if_neg h
    rw [Server.waiters, hb, List.erase_of_not_mem h]
    rfl

theorem client_unblocked_self (c : C) : (s.unblocked c).client c
    = { s.client c with keys := [], target := none, blocked := false } := Function.update_self ..

theorem client_unblocked_ne {c c' : C} (h : c' ≠ c) :
    (s.unblocked c).client c' = s.client c' := Function.update_of_ne h ..

theorem since_unblocked (c c' : C) :
    ((s.unblocked c).client c').since = (s.client c').since := by
  by_cases h : c' = c
  · rw [h, client_unblocked_self]
  · rw [client_unblocked_ne s h]

theorem db_unblocked (c c' : C) :
    ((s.unblocked c).client c').db = (s.client c').db := by
  by_cases h : c' = c
  · rw [h, client_unblocked_self]
  · rw [client_unblocked_ne s h]

theorem Bookkeeping.unblocked {s : Server C X} (h : Bookkeeping s) (c : C) :
    Bookkeeping (s.unblocked c) where
  waiting := by
    intro c' p
    rw [waiters_unblocked, (h.once p).mem_erase_iff]
    by_cases hc : c' = c
    · subst hc
      simp [client_unblocked_self]
    · rw [client_unblocked_ne s hc, ← h.waiting c' p]
      simp [hc]
  once := by
    intro p
    rw [waiters_unblocked]
    exact (h.once p).erase c
  nonempty := by
    intro p
    by_cases hc : c ∈ s.waiters p
    · simp only [Server.unblocked, if_pos hc]
      exact withoutWaiter_ne c _
    · simp only [Server.unblocked, if_neg hc]
      exact h.nonempty p
  keys := by
    intro c'
    by_cases hc : c' = c
    · rw [hc, client_unblocked_self]
      exact List.nodup_nil
    · rw [client_unblocked_ne s hc]
      exact h.keys c'
  blocked := by
    intro c'
    by_cases hc : c' = c
    · rw [hc, client_unblocked_self]
      simp
    · rw [client_unblocked_ne s hc]
      exact h.blocked c'
  connected := by
    intro c' hb
    by_cases hc : c' = c
    · rw [hc, client_unblocked_self] at hb
      cases hb
    · rw [client_unblocked_ne s hc] at hb
      exact h.connected c' hb
  ordered := by
    intro p
    simp only [since_unblocked, waiters_unblocked]
    exact (h.ordered p).sublist List.erase_sublist
  clock := by
    intro c' hb
    by_cases hc : c' = c
    · rw [hc, client_unblocked_self] at hb
      cases hb
    · rw [client_unblocked_ne s hc] at hb ⊢
      exact h.clock c' hb

/-! ## Blocking -/

/-- `dictAdd` to `bpop.keys`. -/
def addKey (keys : List Bytes) (key : Bytes) : List Bytes :=
  if key ∈ keys then keys else keys ++ [key]

theorem addKeys_nodup (keys : List Bytes) : ∀ ks : List Bytes, ks.Nodup →
    (keys.foldl addKey ks).Nodup := by
  induction keys with
  | nil => exact fun ks h => h
  | cons key keys ih =>
    intro ks h
    rw [List.foldl_cons]
    refine ih _ ?_
    by_cases hk : key ∈ ks
    · rw [addKey, if_pos hk]
      exact h
    · rw [addKey, if_neg hk]
      exact List.nodup_append.mpr ⟨h, List.nodup_singleton _, by
        intro a ha b hb
        rw [List.mem_singleton.mp hb]
        exact fun he => hk (he ▸ ha)⟩

theorem mem_addKeys (keys : List Bytes) (key : Bytes) : ∀ ks : List Bytes,
    key ∈ keys.foldl addKey ks ↔ key ∈ keys ∨ key ∈ ks := by
  induction keys with
  | nil => simp
  | cons k keys ih =>
    intro ks
    rw [List.foldl_cons, ih]
    by_cases hk : k ∈ ks
    · rw [addKey, if_pos hk]
      grind
    · rw [addKey, if_neg hk]
      grind

/-- The client in the lists of some keys of its database. -/
def Server.withKeys (s : Server C X) (c : C) (keys : List Bytes) : Server C X :=
  { s with
    client := Function.update s.client c { s.client c with keys := keys }
    blockingKeys := fun p =>
      if p.1 = (s.client c).db ∧ p.2 ∈ keys then some (s.waiters p ++ [c]) else s.blockingKeys p }

theorem blockForKey_withKeys (c : C) (keys : List Bytes) (key : Bytes) :
    blockForKey c (s.withKeys c keys) key = s.withKeys c (addKey keys key) := by
  by_cases hk : key ∈ keys
  · simp [blockForKey, addKey, hk, Server.withKeys]
  · have hlist : ∀ p : Place, p ≠ ((s.client c).db, key) →
        ((p.1 = (s.client c).db ∧ p.2 ∈ keys ++ [key]) ↔ (p.1 = (s.client c).db ∧ p.2 ∈ keys)) := by
      intro p hp
      rw [List.mem_append, List.mem_singleton]
      constructor
      · rintro ⟨h1, h2 | h2⟩
        · exact ⟨h1, h2⟩
        · exact absurd (Prod.ext h1 h2) hp
      · exact fun h => ⟨h.1, Or.inl h.2⟩
    have hblocking : Function.update (s.withKeys c keys).blockingKeys ((s.client c).db, key)
          (some (s.waiters ((s.client c).db, key) ++ [c]))
        = (s.withKeys c (keys ++ [key])).blockingKeys := by
      funext p
      by_cases hp : p = ((s.client c).db, key)
      · subst hp
        simp [Server.withKeys]
      · rw [Function.update_of_ne hp]
        simp only [Server.withKeys, hlist p hp]
    have hold : (s.withKeys c keys).blockingKeys ((s.client c).db, key)
        = s.blockingKeys ((s.client c).db, key) := by
      simp [Server.withKeys, hk]
    have hself : (s.withKeys c keys).client c = { s.client c with keys := keys } :=
      Function.update_self ..
    simp only [blockForKey, hself, if_neg hk, addKey]
    cases hb : s.blockingKeys ((s.client c).db, key) with
    | none =>
      rw [waiters_none hb] at hblocking
      simp only [setClient, setBlocking, hold, hb]
      simp only [List.nil_append] at hblocking
      rw [hblocking]
      simp [Server.withKeys]
    | some l =>
      rw [waiters_some hb] at hblocking
      simp only [setClient, setBlocking, hold, hb]
      rw [hblocking]
      simp [Server.withKeys]

/-- The state in which a client has blocked. -/
def Server.blockedOn (s : Server C X) (c : C) (keys : List Bytes) (timeout : Int)
    (target : Option Bytes) : Server C X :=
  { s with
    client := Function.update s.client c
      { s.client c with
        keys := keys.foldl addKey []
        timeout := timeout
        target := target
        blocked := true
        since := s.clock }
    blockingKeys := fun p =>
      if p.1 = (s.client c).db ∧ p.2 ∈ keys then some (s.waiters p ++ [c]) else s.blockingKeys p
    clock := s.clock + 1 }

theorem blockForKeys_eq {s : Server C X} {c : C} (hkeys : (s.client c).keys = [])
    (keys : List Bytes) (timeout : Int) (target : Option Bytes) :
    blockForKeys s c keys timeout target = s.blockedOn c keys timeout target := by
  have hfold : ∀ (ks done : List Bytes) (u : Server C X),
      ks.foldl (blockForKey c) (u.withKeys c done) = u.withKeys c (ks.foldl addKey done) := by
    intro ks
    induction ks with
    | nil => exact fun done u => rfl
    | cons key ks ih =>
      intro done u
      rw [List.foldl_cons, blockForKey_withKeys, ih, List.foldl_cons]
  have hstart : s.setClient c { s.client c with timeout := timeout, target := target }
      = (s.setClient c { s.client c with timeout := timeout, target := target }).withKeys c [] := by
    simp [Server.withKeys, setClient, hkeys]
  have hmem : ∀ key, key ∈ keys.foldl addKey [] ↔ key ∈ keys := by
    intro key
    simp [mem_addKeys]
  simp only [blockForKeys]
  rw [hstart, hfold]
  simp [Server.withKeys, setClient, Server.blockedOn, hmem, Server.waiters]

theorem waiters_blockedOn (c : C) (keys : List Bytes) (timeout : Int) (target : Option Bytes) (p : Place) :
    (s.blockedOn c keys timeout target).waiters p
      = if p.1 = (s.client c).db ∧ p.2 ∈ keys then s.waiters p ++ [c] else s.waiters p := by
  by_cases h : p.1 = (s.client c).db ∧ p.2 ∈ keys
  · simp [Server.waiters, Server.blockedOn, h]
  · simp [Server.waiters, Server.blockedOn, h]

theorem client_blockedOn_ne {c c' : C} (h : c' ≠ c) (keys : List Bytes) (timeout : Int) (target : Option Bytes) :
    (s.blockedOn c keys timeout target).client c' = s.client c' := Function.update_of_ne h ..

theorem client_blockedOn_self (c : C) (keys : List Bytes) (timeout : Int) (target : Option Bytes) :
    (s.blockedOn c keys timeout target).client c
      = { s.client c with
          keys := keys.foldl addKey [], timeout := timeout, target := target, blocked := true
          since := s.clock } := Function.update_self ..

omit [DecidableEq C] in
/-- A client that is not blocked waits for nothing. -/
theorem Bookkeeping.idle {s : Server C X} (h : Bookkeeping s) {c : C}
    (hc : (s.client c).blocked = false) : (s.client c).keys = [] ∧ ∀ p, c ∉ s.waiters p := by
  constructor
  · by_contra hne
    rw [(h.blocked c).mpr hne] at hc
    cases hc
  · intro p hp
    rw [h.blocked_of_mem hp] at hc
    cases hc

theorem Bookkeeping.blockedOn {s : Server C X} (h : Bookkeeping s) {c : C}
    (hc : (s.client c).blocked = false) (hin : c ∈ s.clients) {keys : List Bytes}
    (hkeys : keys ≠ []) (timeout : Int) (target : Option Bytes) :
    Bookkeeping (s.blockedOn c keys timeout target) := by
  obtain ⟨_, hout⟩ := h.idle hc
  have hmem : ∀ key, key ∈ keys.foldl addKey [] ↔ key ∈ keys := by
    intro key
    simp [mem_addKeys]
  have hne : keys.foldl addKey [] ≠ [] := by
    obtain ⟨key, hkey⟩ := List.exists_mem_of_ne_nil keys hkeys
    exact List.ne_nil_of_mem ((hmem key).mpr hkey)
  constructor
  case waiting =>
    intro c' p
    rw [waiters_blockedOn]
    by_cases hcc : c' = c
    · subst hcc
      rw [client_blockedOn_self]
      by_cases hp : p.1 = (s.client c').db ∧ p.2 ∈ keys
      · simp [hp, hmem]
      · rw [if_neg hp]
        simp only [hmem]
        exact iff_of_false (hout p) hp
    · rw [client_blockedOn_ne s hcc, ← h.waiting c' p]
      by_cases hp : p.1 = (s.client c).db ∧ p.2 ∈ keys
      · simp [hp, hcc]
      · rw [if_neg hp]
  case once =>
    intro p
    rw [waiters_blockedOn]
    by_cases hp : p.1 = (s.client c).db ∧ p.2 ∈ keys
    · rw [if_pos hp]
      exact (h.once p).append (List.nodup_singleton c) (by simpa using hout p)
    · rw [if_neg hp]
      exact h.once p
  case nonempty =>
    intro p
    by_cases hp : p.1 = (s.client c).db ∧ p.2 ∈ keys
    · simp [Server.blockedOn, hp]
    · simp only [Server.blockedOn, if_neg hp]
      exact h.nonempty p
  case keys =>
    intro c'
    by_cases hcc : c' = c
    · rw [hcc, client_blockedOn_self]
      exact addKeys_nodup keys [] List.nodup_nil
    · rw [client_blockedOn_ne s hcc]
      exact h.keys c'
  case blocked =>
    intro c'
    by_cases hcc : c' = c
    · rw [hcc, client_blockedOn_self]
      simp [hne]
    · rw [client_blockedOn_ne s hcc]
      exact h.blocked c'
  case connected =>
    intro c' hb
    by_cases hcc : c' = c
    · rw [hcc]
      exact hin
    · rw [client_blockedOn_ne s hcc] at hb
      exact h.connected c' hb
  case ordered =>
    -- everyone who waits already has blocked before the clock was read
    have hold : ∀ p, ∀ c' ∈ s.waiters p, c' ≠ c := fun p c' hc' he => hout p (he ▸ hc')
    have hsince : ∀ p, (s.waiters p).Pairwise (fun a b =>
        ((s.blockedOn c keys timeout target).client a).since
          < ((s.blockedOn c keys timeout target).client b).since) := by
      intro p
      refine (h.ordered p).imp_of_mem ?_
      intro a b ha hb hlt
      rw [client_blockedOn_ne s (hold p a ha), client_blockedOn_ne s (hold p b hb)]
      exact hlt
    intro p
    rw [waiters_blockedOn]
    by_cases hp : p.1 = (s.client c).db ∧ p.2 ∈ keys
    · rw [if_pos hp]
      refine List.pairwise_append.mpr ⟨hsince p, List.pairwise_singleton _ _, ?_⟩
      intro a ha b hb
      rw [List.mem_singleton.mp hb, client_blockedOn_self, client_blockedOn_ne s (hold p a ha)]
      exact h.clock a (h.blocked_of_mem ha)
    · rw [if_neg hp]
      exact hsince p
  case clock =>
    intro c' hb
    by_cases hcc : c' = c
    · rw [hcc, client_blockedOn_self]
      exact Nat.lt_succ_self s.clock
    · rw [client_blockedOn_ne s hcc] at hb ⊢
      exact Nat.lt_succ_of_lt (h.clock c' hb)

end Redis.Blocking
