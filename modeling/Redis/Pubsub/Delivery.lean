import Redis.Pubsub.Links
import Mathlib.Algebra.BigOperators.Group.List.Basic

namespace Redis.Pubsub

open Outcome

/-!
# Runs, and the delivery of messages

* `Good` — both records agree, and `CLIENT_PUBSUB` is set for the clients with a subscription;
* `step_good`, `reachable_good` — no event fails, and it holds in every state;
* `publish_delivers` — what `PUBLISH` queues for each client, and the number it replies;
* `pubsub_exact` — all of it for the states that can be reached.
-/

variable {s t u : Server} {c d : ClientId} {p : Finset Bytes × List Bytes}

/-- The flag says whether there is a subscription. -/
structure Good (s : Server) : Prop where
  linked : Linked s
  flag : ∀ c, s.flagOf c = true ↔ s.subsOf c ≠ (∅, [])

theorem good_start : Good .start :=
  ⟨linked_start, fun c => by simp [Server.start, Server.flagOf, Server.subsOf, Server.channelsOf, Server.patternsOf]⟩

/-- The client's subscriptions are changed, and then the flag is set or cleared as they say. -/
theorem good_of_changes (hs : Good s) (h : Changes s t c p) {b : Bool} (hb : b = true ↔ p ≠ (∅, []))
    (hu : ∀ d, u.flagOf d = if d = c then b else t.flagOf d) (hsame : SameLinks t u) : Good u := by
  refine ⟨hsame.linked h.linked, fun d => ?_⟩
  rw [hu, hsame.subs, h.subs, Function.update_apply]
  by_cases hd : d = c
  · rw [if_pos hd, if_pos hd]
    exact hb
  · rw [if_neg hd, if_neg hd, h.flag]
    exact hs.flag d

/-- Writing the flag of a client. -/
theorem flagOf_write (x : Client) (b : Bool) (d : ClientId) :
    (s.setClient c (some { x with pubsub := b })).flagOf d = if d = c then b else s.flagOf d := by
  by_cases hd : d = c <;> simp [Server.flagOf, hd]

/-- `SUBSCRIBE` and `PSUBSCRIBE` end with the flag. -/
theorem setPubsub_good (hs : Good s) (hc : s.Connected c) (h : Changes s t c p) (hp : p ≠ (∅, [])) :
    ∃ u, setPubsub t c = .ok u ∧ Good u := by
  obtain ⟨x, hx, hfind⟩ := find_eq ((h.connected c).mpr hc)
  refine ⟨t.setClient c (some { x with pubsub := true }), ?_,
    good_of_changes hs h (iff_of_true rfl hp) (flagOf_write x true) (sameLinks_setClient hx rfl rfl)⟩
  rw [setPubsub, hfind]
  rfl

/-- `UNSUBSCRIBE` and `PUNSUBSCRIBE` too; they do not make the first subscription. -/
theorem clearPubsub_good (hs : Good s) (hc : s.Connected c) (h : Changes s t c p)
    (hp : p ≠ (∅, []) → s.subsOf c ≠ (∅, [])) : ∃ u, clearPubsub t c = .ok u ∧ Good u := by
  obtain ⟨x, hx, hfind⟩ := find_eq ((h.connected c).mpr hc)
  obtain ⟨-, hch, hpat, hflag⟩ := t.views hx
  have hself : p = (x.channels, x.patterns) := by rw [← h.self, Server.subsOf, hch, hpat]
  have hcount : x.subscriptions = 0 ↔ p = (∅, []) := by
    rw [hself, Client.subscriptions, Nat.add_eq_zero_iff, Finset.card_eq_zero, List.length_eq_zero_iff,
      Prod.mk.injEq]
  -- the flag as it is written back
  have hwrite : (if x.subscriptions = 0 then { x with pubsub := false } else x)
      = { x with pubsub := if x.subscriptions = 0 then false else x.pubsub } := by
    by_cases hzero : x.subscriptions = 0
    · rw [if_pos hzero, if_pos hzero]
    · rw [if_neg hzero, if_neg hzero]
  refine ⟨t.setClient c (some { x with pubsub := if x.subscriptions = 0 then false else x.pubsub }), ?_,
    good_of_changes hs h ?_ (flagOf_write x _) (sameLinks_setClient hx rfl rfl)⟩
  · rw [clearPubsub, hfind, ← hwrite]
    rfl
  · by_cases hzero : x.subscriptions = 0
    · rw [if_pos hzero]
      exact iff_of_false Bool.false_ne_true (not_not.mpr (hcount.mp hzero))
    · have hne : p ≠ (∅, []) := fun h => hzero (hcount.mpr h)
      rw [if_neg hzero, ← hflag, h.flag, hs.flag]
      exact iff_of_true (hp hne) hne

/-! ### The commands -/

variable {upd : Finset Bytes × List Bytes → Bytes → Finset Bytes × List Bytes}
  {one : Server → Bytes → Except Fault (Server × Nat)}

theorem foldl_ne (hupd : ∀ p name, upd p name ≠ (∅, [])) {names : List Bytes} (hne : names ≠ [])
    (p : Finset Bytes × List Bytes) :
    names.foldl upd p ≠ (∅, []) := by
  rw [← List.dropLast_append_getLast hne, List.foldl_append]
  exact hupd _ _

theorem foldl_empty (hupd : ∀ name, upd (∅, []) name = (∅, [])) (names : List Bytes) :
    names.foldl upd (∅, []) = (∅, []) := by
  induction names with
  | nil => rfl
  | cons name names ih => rw [List.foldl_cons, hupd, ih]

theorem addedPattern_ne (p : Finset Bytes × List Bytes) (pattern : Bytes) : addedPattern p pattern ≠ (∅, []) := by
  intro h
  have hlist := congrArg Prod.snd h
  simp only [addedPattern] at hlist
  by_cases hin : pattern ∈ p.2
  · rw [if_pos hin] at hlist
    rw [hlist] at hin
    cases hin
  · rw [if_neg hin] at hlist
    simp at hlist

/-- The commands that subscribe. -/
theorem subscribe_good (hone : Does c one upd) (hupd : ∀ p name, upd p name ≠ (∅, [])) (hs : Good s)
    (hc : s.Connected c) {names : List Bytes} (hne : names ≠ []) :
    ∃ u, (forEach one s names >>= fun t => setPubsub t c) = .ok u ∧ Good u := by
  obtain ⟨t, ht, hchanges⟩ := forEach_spec hone hs.linked hc names
  rw [ht]
  exact setPubsub_good hs hc hchanges (foldl_ne hupd hne _)

/-- Those that unsubscribe, from some or from all. -/
theorem unsubscribe_good (hone : Does c one upd) (hupd : ∀ name, upd (∅, []) name = (∅, [])) (hs : Good s)
    (hc : s.Connected c) (names all : List Bytes) (kind : Reply) :
    ∃ u, ((if names = [] then (unsubscribeAll one kind s c true all).map Prod.fst else forEach one s names) >>=
      fun t => clearPubsub t c) = .ok u ∧ Good u := by
  obtain ⟨t, ns, ht, hchanges⟩ : ∃ t ns, (if names = [] then (unsubscribeAll one kind s c true all).map Prod.fst
      else forEach one s names) = .ok t ∧ Changes s t c (List.foldl upd (s.subsOf c) ns) := by
    by_cases hnames : names = []
    · rw [if_pos hnames]
      obtain ⟨t, n, ht, hchanges⟩ := unsubscribeAll_spec hone hs.linked hc kind true all
      exact ⟨t, all, by rw [ht]; rfl, hchanges⟩
    · rw [if_neg hnames]
      obtain ⟨t, ht, hchanges⟩ := forEach_spec hone hs.linked hc names
      exact ⟨t, names, ht, hchanges⟩
  rw [ht]
  refine clearPubsub_good hs hc hchanges fun hne hempty => hne ?_
  rw [hempty]
  exact foldl_empty hupd ns

theorem foldl_removedChannel (di : List Bytes) (p : Finset Bytes × List Bytes) :
    di.foldl removedChannel p = (p.1 \ di.toFinset, p.2) := by
  induction di generalizing p with
  | nil => simp
  | cons channel di ih =>
    rw [List.foldl_cons, ih]
    ext ch
    · simp only [removedChannel, Finset.mem_sdiff, Finset.mem_erase, List.toFinset_cons, Finset.mem_insert]
      tauto
    · rfl

theorem foldl_removedPattern (chans : Finset Bytes) (pats : List Bytes) :
    pats.foldl removedPattern (chans, pats) = (chans, []) := by
  induction pats with
  | nil => rfl
  | cons pattern pats ih =>
    rw [List.foldl_cons, removedPattern]
    simpa using ih

/-- The list of clients changes, but no subscription. -/
theorem good_of_subs (h : Linked s) (hchannels : t.channels = s.channels) (hpatterns : t.patterns = s.patterns)
    (hsubs : t.subsOf = s.subsOf) (hclients : t.clients.Nodup) (hconnected : ∀ d, d ∈ t.clients ↔ t.Connected d)
    (hflag : ∀ d, t.flagOf d = true ↔ s.subsOf d ≠ (∅, [])) : Good t := by
  have hch : ∀ d, t.channelsOf d = s.channelsOf d := fun d => congrArg Prod.fst (congrFun hsubs d)
  have hpat : ∀ d, t.patternsOf d = s.patternsOf d := fun d => congrArg Prod.snd (congrFun hsubs d)
  refine ⟨⟨hclients, hconnected, ?_, ?_, ?_, ?_, ?_⟩, fun d => ?_⟩
  · rw [hchannels]
    exact h.nonempty
  · intro ch
    rw [Server.subscribers, hchannels]
    exact h.once ch
  · intro ch d
    rw [Server.subscribers, hchannels, hch]
    exact h.channels ch d
  · intro d
    rw [hpatterns, hpat]
    exact h.patterns d
  · intro d
    rw [hpat]
    exact h.distinct d
  · rw [hsubs]
    exact hflag d

/-- A client that goes takes its subscriptions with it. -/
theorem freeClient_good (hs : Good s) (hc : s.Connected c) {di : List Bytes}
    (hdi : Enumerates di (s.channelsOf c)) : ∃ u, freeClient s c di = .ok u ∧ Good u := by
  obtain ⟨t, n, ht, hchanges⟩ := unsubscribeAll_spec (pubsubUnsubscribeChannel_spec c false) hs.linked hc
    .unsubscribebulk false di
  rw [foldl_removedChannel, Server.subsOf, hdi.2, Finset.sdiff_self] at hchanges
  have hct := (hchanges.connected c).mpr hc
  obtain ⟨x, hx, hfind⟩ := find_eq hct
  obtain ⟨-, -, hpat, -⟩ := t.views hx
  obtain ⟨v, n', hv, hchanges'⟩ := unsubscribeAll_spec (pubsubUnsubscribePattern_spec c false) hchanges.linked hct
    .punsubscribebulk false x.patterns
  have hnone : t.channelsOf c = ∅ := congrArg Prod.fst hchanges.self
  rw [Server.subsOf, hpat, foldl_removedPattern, hnone] at hchanges'
  have hall := hchanges.trans hchanges'
  have hl := hall.linked
  have hmem : c ∈ v.clients := (hl.connected c).mpr ((hall.connected c).mpr hc)
  refine ⟨{ v.setClient c none with clients := v.clients.erase c }, ?_, good_of_subs hl rfl rfl ?_ (hl.clients.erase c)
    (fun d => ?_) (fun d => ?_)⟩
  · rw [freeClient, pubsubUnsubscribeAllChannels, ht]
    simp only [ok_bind, pubsubUnsubscribeAllPatterns, hfind, hv, if_pos hmem]
    rfl
  · -- nothing is left of this one
    ext1 d
    by_cases hd : d = c
    · rw [hd, hall.self]
      simp [Server.subsOf, Server.channelsOf, Server.patternsOf]
    · simp [Server.subsOf, Server.channelsOf, Server.patternsOf, hd]
  · rw [hl.clients.mem_erase_iff, hl.connected]
    by_cases hd : d = c <;> simp [Server.Connected, hd]
  · by_cases hd : d = c
    · rw [hd, hall.self]
      simp [Server.flagOf]
    · have hold := hs.flag d
      have hsubs := congrFun hall.subs d
      rw [Function.update_of_ne hd] at hsubs
      rw [← congrFun hall.flag d, ← hsubs] at hold
      simpa [Server.flagOf, hd] using hold

theorem createClient_good (hs : Good s) (hc : ¬ s.Connected c) : Good (createClient s c) := by
  have hnone : s.client c = none := by simpa [Server.Connected] using hc
  have hl := hs.linked
  have hout : c ∉ s.clients := fun h => hc ((hl.connected c).mp h)
  refine good_of_subs hl rfl rfl ?_ ?_ (fun d => ?_) (fun d => ?_)
  · ext1 d
    by_cases hd : d = c <;>
      simp [createClient, Server.subsOf, Server.channelsOf, Server.patternsOf, hd, hnone, Client.new]
  · apply List.nodup_append.mpr
    refine ⟨hl.clients, List.nodup_singleton c, ?_⟩
    rintro a ha b hb rfl
    exact hout (List.mem_singleton.mp hb ▸ ha)
  · have hold := hl.connected d
    by_cases hd : d = c
    · simp [createClient, Server.Connected, hd]
    · simpa [createClient, Server.Connected, hd] using hold
  · have hold := hs.flag d
    by_cases hd : d = c
    · simp [createClient, Server.flagOf, Server.subsOf, Server.channelsOf, Server.patternsOf, hd, hnone, Client.new]
    · simpa [createClient, Server.flagOf, hd] using hold

/-! ### Messages -/

/-- What `PUBLISH` queues for a client: one message if it has the channel, and one for each of its patterns that
    match. -/
def delivered (stringmatchlen : Bytes → Bytes → Bool) (s : Server) (channel msg : Bytes) (d : ClientId) : List Reply :=
  (if channel ∈ s.channelsOf d then message channel msg else [])
    ++ ((s.patternsOf d).filter (stringmatchlen · channel)).flatMap (fun pattern => pmessage pattern channel msg)

/-- Their number. -/
def deliveries (stringmatchlen : Bytes → Bytes → Bool) (s : Server) (channel : Bytes) (d : ClientId) : Nat :=
  (if channel ∈ s.channelsOf d then 1 else 0) + ((s.patternsOf d).filter (stringmatchlen · channel)).length

/-- A message to one client. -/
def send (r : Server × Nat) (e : ClientId × List Reply) : Except Fault (Server × Nat) := do
  let s ← addReplies r.1 e.1 e.2
  return (s, r.2 + 1)

/-- The messages, in the order in which they are sent. -/
def outbox (stringmatchlen : Bytes → Bytes → Bool) (s : Server) (channel msg : Bytes) : List (ClientId × List Reply) :=
  (s.subscribers channel).map (fun c => (c, message channel msg))
    ++ (s.patterns.filter (stringmatchlen ·.2 channel)).map (fun e => (e.1, pmessage e.2 channel msg))

theorem pubsubPublishMessage_eq (stringmatchlen : Bytes → Bytes → Bool) (s : Server) (channel msg : Bytes) :
    pubsubPublishMessage stringmatchlen s channel msg = (outbox stringmatchlen s channel msg).foldlM send (s, 0) := by
  rw [outbox, List.foldlM_append, List.foldlM_map, pubsubPublishMessage]
  congr 1
  ext r : 1
  rw [List.foldlM_map, List.foldlM_filter]
  rfl

theorem foldlM_send {l : List (ClientId × List Reply)} (hl : ∀ e ∈ l, s.Connected e.1) (k : Nat) :
    ∃ t, l.foldlM send (s, k) = .ok (t, k + l.length) ∧ SameLinks s t ∧ t.flagOf = s.flagOf ∧
      ∀ d, t.replyOf d = s.replyOf d ++ (l.filter (·.1 = d)).flatMap Prod.snd := by
  induction l generalizing s k with
  | nil => exact ⟨s, rfl, SameLinks.refl s, rfl, fun d => by simp⟩
  | cons e l ih =>
    obtain ⟨t, ht, hsame, hflag, hreply⟩ := addReplies_eq (hl e List.mem_cons_self) e.2
    obtain ⟨u, hu, hsame', hflag', hreply'⟩ :=
      ih (s := t) (fun e' he' => (hsame.connected e'.1).mpr (hl e' (List.mem_cons_of_mem e he'))) (k + 1)
    refine ⟨u, ?_, ?_, hflag'.trans hflag, fun d => ?_⟩
    · rw [List.foldlM_cons, send, ht]
      simp only [ok_bind]
      rw [List.length_cons, ← Nat.add_assoc, Nat.add_right_comm]
      exact hu
    · exact ⟨hsame'.clients.trans hsame.clients, fun d => (hsame'.connected d).trans (hsame.connected d),
        hsame'.channels.trans hsame.channels, hsame'.patterns.trans hsame.patterns, hsame'.subs.trans hsame.subs⟩
    · rw [hreply', hreply]
      by_cases hd : d = e.1
      · simp [hd]
      · simp [hd, Ne.symm hd]

/-- What is sent to one client. -/
theorem outbox_filter (hs : Linked s) (stringmatchlen : Bytes → Bytes → Bool) (channel msg : Bytes) (d : ClientId) :
    ((outbox stringmatchlen s channel msg).filter (·.1 = d)).flatMap Prod.snd
        = delivered stringmatchlen s channel msg d ∧
      ((outbox stringmatchlen s channel msg).filter (·.1 = d)).length = deliveries stringmatchlen s channel d := by
  have hsub : (s.subscribers channel).filter (· = d) = if channel ∈ s.channelsOf d then [d] else [] := by
    have hcount : (s.subscribers channel).count d = if channel ∈ s.channelsOf d then 1 else 0 := by
      rw [(hs.once channel).count]
      simp only [hs.channels channel d]
    rw [List.filter_eq, hcount]
    by_cases hin : channel ∈ s.channelsOf d <;> simp [hin]
  have hpat : (s.patterns.filter (stringmatchlen ·.2 channel)).filter (·.1 = d)
      = (s.patterns.filter (·.1 = d)).filter (stringmatchlen ·.2 channel) := List.filter_comm ..
  have hvals : ((s.patterns.filter (·.1 = d)).filter (stringmatchlen ·.2 channel)).map Prod.snd
      = (s.patternsOf d).filter (stringmatchlen · channel) := by
    rw [← hs.patterns d, List.filter_map]
    rfl
  rw [outbox, List.filter_append, List.filter_map, List.filter_map]
  simp only [Function.comp_def]
  rw [hsub, hpat, List.flatMap_append, List.length_append, List.flatMap_map, List.flatMap_map, List.length_map,
    List.length_map, delivered, deliveries, ← hvals, List.flatMap_map, List.length_map]
  by_cases hin : channel ∈ s.channelsOf d <;> simp [hin]

theorem sum_indicator {l : List ClientId} (hl : l.Nodup) (hc : c ∈ l) :
    (l.map (fun d => if c = d then 1 else 0)).sum = 1 := by
  induction l with
  | nil => cases hc
  | cons d l ih =>
    rw [List.nodup_cons] at hl
    by_cases hd : c = d
    · subst hd
      have hzero : ∀ d ∈ l, (if c = d then 1 else 0) = 0 := by
        intro d hd
        have hne : c ≠ d := fun h => hl.1 (h ▸ hd)
        exact if_neg hne
      simp [List.map_congr_left hzero]
    · simp [hd, ih hl.2 (by simpa [hd] using hc)]

/-- Messages to the clients of a list, counted client by client. -/
theorem sum_filter_length {clients : List ClientId} (hclients : clients.Nodup) {β : Type}
    {l : List (ClientId × β)} (hl : ∀ e ∈ l, e.1 ∈ clients) :
    (clients.map (fun d => (l.filter (·.1 = d)).length)).sum = l.length := by
  induction l with
  | nil => simp
  | cons e l ih =>
    rw [List.length_cons, ← ih fun e' he' => hl e' (List.mem_cons_of_mem e he'),
      ← sum_indicator hclients (hl e List.mem_cons_self), ← List.sum_map_add]
    congr 1
    apply List.map_congr_left
    intro d _
    by_cases hd : e.1 = d <;> simp [hd, Nat.add_comm]

/-- **`PUBLISH`** reaches every subscriber. -/
theorem publish_delivers (hs : Linked s) (stringmatchlen : Bytes → Bytes → Bool) (channel msg : Bytes) :
    ∃ t, pubsubPublishMessage stringmatchlen s channel msg
        = .ok (t, (s.clients.map (deliveries stringmatchlen s channel)).sum) ∧
      SameLinks s t ∧ t.flagOf = s.flagOf ∧
      ∀ d, t.replyOf d = s.replyOf d ++ delivered stringmatchlen s channel msg d := by
  have hmem : ∀ e ∈ outbox stringmatchlen s channel msg, e.1 ∈ s.clients := by
    intro e he
    rw [hs.connected]
    -- a client with a subscription is there
    have hsome : s.channelsOf e.1 ≠ ∅ ∨ s.patternsOf e.1 ≠ [] := by
      rcases List.mem_append.mp he with h | h
      · obtain ⟨c, hc, rfl⟩ := List.mem_map.mp h
        exact Or.inl (Finset.ne_empty_of_mem ((hs.channels channel c).mp hc))
      · obtain ⟨p, hp, rfl⟩ := List.mem_map.mp h
        exact Or.inr (List.ne_nil_of_mem ((hs.mem_patterns p.1 p.2).mp (List.mem_filter.mp hp).1))
    cases hx : s.client e.1 with
    | none => simp [Server.channelsOf, Server.patternsOf, hx] at hsome
    | some x => simp [Server.Connected, hx]
  obtain ⟨t, ht, hsame, hflag, hreply⟩ :=
    foldlM_send (fun e he => (hs.connected e.1).mp (hmem e he)) 0
  have hsum := sum_filter_length hs.clients hmem
  simp only [(outbox_filter hs stringmatchlen channel msg _).2] at hsum
  refine ⟨t, ?_, hsame, hflag, fun d => ?_⟩
  · rw [pubsubPublishMessage_eq, ht, Nat.zero_add, ← hsum]
  · rw [hreply, (outbox_filter hs stringmatchlen channel msg d).1]

/-! ### Runs -/

/-- The command and its reply. -/
theorem publishCommand_good (hs : Good s) (hc : s.Connected c) (stringmatchlen : Bytes → Bytes → Bool)
    (channel msg : Bytes) : ∃ u, publishCommand stringmatchlen s c channel msg = .ok u ∧ Good u ∧
      ∀ d, u.replyOf d = s.replyOf d ++ delivered stringmatchlen s channel msg d
        ++ if d = c then [.longLong (s.clients.map (deliveries stringmatchlen s channel)).sum] else [] := by
  obtain ⟨t, ht, hsame, hflag, hreply⟩ := publish_delivers hs.linked stringmatchlen channel msg
  obtain ⟨u, hu, hsame', hflag', hreply'⟩ := addReplies_eq ((hsame.connected c).mpr hc)
    [.longLong (s.clients.map (deliveries stringmatchlen s channel)).sum]
  refine ⟨u, ?_, ⟨hsame'.linked (hsame.linked hs.linked), fun d => ?_⟩, fun d => ?_⟩
  · rw [publishCommand, ht]
    exact hu
  · rw [hflag', hflag, hsame'.subs, hsame.subs]
    exact hs.flag d
  · rw [hreply']
    by_cases hd : d = c <;> simp [hd, hreply]

/-- **One event** does not fail. -/
theorem step_good (hs : Good s) (stringmatchlen : Bytes → Bytes → Bool) {e : Event} (he : Allowed s e) :
    ∃ u, step stringmatchlen s e = .ok u ∧ Good u := by
  cases e with
  | connect c => exact ⟨_, rfl, createClient_good hs he⟩
  | subscribe c channels =>
    exact subscribe_good (pubsubSubscribeChannel_spec c) (fun p channel => by simp [addedChannel]) hs he.1 he.2
  | psubscribe c patterns => exact subscribe_good (pubsubSubscribePattern_spec c) addedPattern_ne hs he.1 he.2
  | unsubscribe c channels di =>
    exact unsubscribe_good (pubsubUnsubscribeChannel_spec c true) (fun channel => by simp [removedChannel]) hs he.1
      channels di .unsubscribebulk
  | punsubscribe c patterns =>
    obtain ⟨x, -, hfind⟩ := find_eq he
    obtain ⟨u, hu, hgood⟩ := unsubscribe_good (pubsubUnsubscribePattern_spec c true)
      (fun pattern => by simp [removedPattern]) hs he patterns x.patterns .punsubscribebulk
    refine ⟨u, ?_, hgood⟩
    rw [step, punsubscribeCommand, pubsubUnsubscribeAllPatterns, hfind]
    exact hu
  | publish c channel msg =>
    obtain ⟨u, hu, hgood, -⟩ := publishCommand_good hs he stringmatchlen channel msg
    exact ⟨u, hu, hgood⟩
  | disconnect c di => exact freeClient_good hs he.1 he.2

theorem reachable_good {stringmatchlen : Bytes → Bytes → Bool} (hs : Reachable stringmatchlen s) : Good s := by
  induction hs with
  | start => exact good_start
  | step _ he hstep ih =>
    obtain ⟨u, hu, hgood⟩ := step_good ih stringmatchlen he
    obtain rfl := Except.ok.inj (hu.symm.trans hstep)
    exact hgood

/-- **Publish and subscribe.**  In every state that can be reached both records of the subscriptions agree, each
    is stored once, the flag is right, no event fails, and `PUBLISH` delivers what it should and replies how much. -/
theorem pubsub_exact {stringmatchlen : Bytes → Bytes → Bool} (hs : Reachable stringmatchlen s) :
    (∀ channel c, c ∈ s.subscribers channel ↔ channel ∈ s.channelsOf c) ∧
      (∀ channel, (s.subscribers channel).Nodup ∧ s.channels channel ≠ some []) ∧
      (∀ c pattern, (c, pattern) ∈ s.patterns ↔ pattern ∈ s.patternsOf c) ∧
      (∀ c pattern, s.patterns.count (c, pattern) ≤ 1 ∧ (s.patternsOf c).Nodup) ∧
      (∀ c, s.flagOf c = true ↔ (s.channelsOf c, s.patternsOf c) ≠ (∅, [])) ∧
      (∀ e, Allowed s e → ∃ u, step stringmatchlen s e = .ok u) ∧
      ∀ c channel msg, s.Connected c → ∃ u, step stringmatchlen s (.publish c channel msg) = .ok u ∧
        ∀ d, u.replyOf d = s.replyOf d ++ delivered stringmatchlen s channel msg d
          ++ if d = c then [.longLong (s.clients.map (deliveries stringmatchlen s channel)).sum] else [] := by
  have hgood := reachable_good hs
  have hl := hgood.linked
  refine ⟨hl.channels, fun channel => ⟨hl.once channel, hl.nonempty channel⟩, hl.mem_patterns,
    fun c pattern => ⟨hl.count_patterns c pattern, hl.distinct c⟩, hgood.flag, fun e he => ?_,
    fun c channel msg hc => ?_⟩
  · obtain ⟨u, hu, -⟩ := step_good hgood stringmatchlen he
    exact ⟨u, hu⟩
  · obtain ⟨u, hu, -, hreply⟩ := publishCommand_good hgood hc stringmatchlen channel msg
    exact ⟨u, hu, hreply⟩

/-- A client subscribes to a channel. -/
theorem pubsub_exact_subscriber :
    ∃ s, step (fun p ch => p == ch) (createClient .start 7) (.subscribe 7 [[99]]) = .ok s ∧
      (∀ channel c, c ∈ s.subscribers channel ↔ channel ∈ s.channelsOf c) ∧
      ∀ e, Allowed s e → ∃ u, step (fun p ch => p == ch) s e = .ok u := by
  have hnew : ¬ Server.start.Connected 7 := by simp [Server.start, Server.Connected]
  have hallowed : Allowed (createClient .start 7) (.subscribe 7 [[99]]) :=
    ⟨by simp [createClient, Server.Connected], by decide⟩
  obtain ⟨s, hs, -⟩ := step_good (createClient_good good_start hnew) (fun p ch => p == ch) hallowed
  have hreach := Reachable.step (Reachable.step .start (e := .connect 7) hnew rfl) hallowed hs
  have hexact := pubsub_exact hreach
  exact ⟨s, hs, hexact.1, hexact.2.2.2.2.2.1⟩

end Redis.Pubsub
