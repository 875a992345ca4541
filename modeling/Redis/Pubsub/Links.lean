import Redis.Pubsub.Basic

namespace Redis.Pubsub

open Outcome

/-!
# Both records of a subscription

* `Linked` — the invariant of the dictionaries and lists: what the server has stored is what
  its clients have stored, once;
* `Changes` — the server changed the subscriptions of one client, and nothing else;
* `addChannel_changes`, `removeChannel_changes`, `addPattern_changes`, `removePattern_changes`
  — the four places where both records are written;
* `pubsubSubscribeChannel_spec` and so on — the functions do not fail;
* `forEach_spec`, `unsubscribeAll_spec` — the loops;
* `step_good` — no event fails, and the flag is right again after it.
-/

variable {s t u : Server} {c d : ClientId} {x y : Client} {channel pattern : Bytes}

namespace Server

/-- Both kinds of subscriptions of a client. -/
def subsOf (s : Server) (c : ClientId) : Finset Bytes × List Bytes := (s.channelsOf c, s.patternsOf c)

/-- The flag of a client. -/
def flagOf (s : Server) (c : ClientId) : Bool := ((s.client c).map Client.pubsub).getD false

@[simp] theorem client_setClient (o : Option Client) (d : ClientId) :
    (s.setClient c o).client d = if d = c then o else s.client d := Function.update_apply ..

@[simp] theorem clients_setClient (o : Option Client) : (s.setClient c o).clients = s.clients := rfl

@[simp] theorem channels_setClient (o : Option Client) : (s.setClient c o).channels = s.channels := rfl

@[simp] theorem patterns_setClient (o : Option Client) : (s.setClient c o).patterns = s.patterns := rfl

variable (o : Option (List ClientId))

@[simp] theorem client_setChannel : (s.setChannel channel o).client = s.client := rfl

@[simp] theorem clients_setChannel :
    (s.setChannel channel o).clients = s.clients := rfl

@[simp] theorem patterns_setChannel :
    (s.setChannel channel o).patterns = s.patterns := rfl

@[simp] theorem channels_setChannel (ch : Bytes) :
    (s.setChannel channel o).channels ch = if ch = channel then o else s.channels ch :=
  Function.update_apply ..

/-- What the fields of a client say. -/
theorem views (hx : s.client c = some x) : s.Connected c ∧ s.channelsOf c = x.channels ∧
    s.patternsOf c = x.patterns ∧ s.flagOf c = x.pubsub := by
  simp [Connected, channelsOf, patternsOf, flagOf, hx]

/-- The subscriptions after a client has been written. -/
theorem subsOf_setClient (y : Client) :
    (s.setClient c (some y)).subsOf = Function.update s.subsOf c (y.channels, y.patterns) := by
  ext d : 1
  rw [Function.update_apply]
  by_cases hd : d = c
  · simp [subsOf, channelsOf, patternsOf, hd]
  · simp [subsOf, channelsOf, patternsOf, hd]

theorem flagOf_setClient (hx : s.client c = some x) (hy : y.pubsub = x.pubsub) :
    (s.setClient c (some y)).flagOf = s.flagOf := by
  ext d : 1
  by_cases hd : d = c
  · simp [flagOf, hd, hx, hy]
  · simp [flagOf, hd]

theorem connected_setClient (hx : s.client c = some x) (y : Client) (d : ClientId) :
    (s.setClient c (some y)).Connected d ↔ s.Connected d := by
  by_cases hd : d = c
  · simp [Connected, hd, hx]
  · simp [Connected, hd]

end Server

/-! ### The invariant -/

/-- Every client is in the list of clients once; every list of a channel has a client, has
    none twice, and has those that have the channel; the list of patterns has for every client
    its patterns, in order; no client has a pattern twice. -/
structure Linked (s : Server) : Prop where
  clients : s.clients.Nodup
  connected : ∀ c, c ∈ s.clients ↔ s.Connected c
  nonempty : ∀ channel, s.channels channel ≠ some []
  once : ∀ channel, (s.subscribers channel).Nodup
  channels : ∀ channel c, c ∈ s.subscribers channel ↔ channel ∈ s.channelsOf c
  patterns : ∀ c, (s.patterns.filter (·.1 = c)).map Prod.snd = s.patternsOf c
  distinct : ∀ c, (s.patternsOf c).Nodup

theorem linked_start : Linked .start where
  clients := List.nodup_nil
  connected c := by simp [Server.start, Server.Connected]
  nonempty _ := by simp [Server.start]
  once _ := List.nodup_nil
  channels _ _ := by simp [Server.start, Server.subscribers, Server.channelsOf]
  patterns _ := rfl
  distinct _ := List.nodup_nil

/-- The server has the pattern of the client exactly if the client has it. -/
theorem Linked.mem_patterns (h : Linked s) (c : ClientId) (pattern : Bytes) :
    (c, pattern) ∈ s.patterns ↔ pattern ∈ s.patternsOf c := by
  rw [← h.patterns c]
  simp

/-- The server has it once. -/
theorem Linked.count_patterns (h : Linked s) (c : ClientId) (pattern : Bytes) :
    s.patterns.count (c, pattern) ≤ 1 := by
  have hone := List.nodup_iff_count_le_one.mp (h.distinct c) pattern
  rw [← h.patterns c] at hone
  have hfilter : (s.patterns.filter (·.1 = c)).count (c, pattern) = s.patterns.count (c, pattern) :=
    List.count_filter (by simp)
  rw [← hfilter]
  exact le_trans (List.count_le_count_map (f := Prod.snd)) hone

/-- Only the output and the flags are different. -/
structure SameLinks (s t : Server) : Prop where
  clients : t.clients = s.clients
  connected : ∀ d, t.Connected d ↔ s.Connected d
  channels : t.channels = s.channels
  patterns : t.patterns = s.patterns
  subs : t.subsOf = s.subsOf

theorem SameLinks.channelsOf (h : SameLinks s t) (d : ClientId) : t.channelsOf d = s.channelsOf d :=
  congrArg Prod.fst (congrFun h.subs d)

theorem SameLinks.patternsOf (h : SameLinks s t) (d : ClientId) : t.patternsOf d = s.patternsOf d :=
  congrArg Prod.snd (congrFun h.subs d)

theorem SameLinks.refl (s : Server) : SameLinks s s := ⟨rfl, fun _ => Iff.rfl, rfl, rfl, rfl⟩

theorem SameLinks.linked (h : SameLinks s t) (hs : Linked s) : Linked t where
  clients := by rw [h.clients]; exact hs.clients
  connected c := by rw [h.clients, h.connected]; exact hs.connected c
  nonempty channel := by rw [h.channels]; exact hs.nonempty channel
  once channel := by rw [Server.subscribers, h.channels]; exact hs.once channel
  channels channel c := by rw [Server.subscribers, h.channels, h.channelsOf]; exact hs.channels channel c
  patterns c := by rw [h.patterns, h.patternsOf]; exact hs.patterns c
  distinct c := by rw [h.patternsOf]; exact hs.distinct c

/-- Writing a client without touching its subscriptions. -/
theorem sameLinks_setClient (hx : s.client c = some x) (hchannels : y.channels = x.channels)
    (hpatterns : y.patterns = x.patterns) : SameLinks s (s.setClient c (some y)) := by
  refine ⟨rfl, s.connected_setClient hx y, rfl, rfl, ?_⟩
  obtain ⟨-, hch, hpat, -⟩ := s.views hx
  rw [s.subsOf_setClient, hchannels, hpatterns, ← hch, ← hpat]
  exact Function.update_eq_self c s.subsOf

/-! ### Changes of one client -/

/-- The subscriptions of `c` are these now, and those of the others are what they were. -/
structure Changes (s t : Server) (c : ClientId) (subs : Finset Bytes × List Bytes) : Prop where
  linked : Linked t
  connected : ∀ d, t.Connected d ↔ s.Connected d
  subs : t.subsOf = Function.update s.subsOf c subs
  flag : t.flagOf = s.flagOf

theorem Changes.refl (h : Linked s) (c : ClientId) : Changes s s c (s.subsOf c) :=
  ⟨h, fun _ => Iff.rfl, (Function.update_eq_self c s.subsOf).symm, rfl⟩

variable {p : Finset Bytes × List Bytes} {one : Server → Bytes → Except Fault (Server × Nat)}
  {upd : Finset Bytes × List Bytes → Bytes → Finset Bytes × List Bytes}

theorem Changes.self (h : Changes s t c p) : t.subsOf c = p := by
  rw [h.subs, Function.update_self]

theorem Changes.trans {p q : Finset Bytes × List Bytes} (h : Changes s t c p) (h' : Changes t u c q) :
    Changes s u c q := by
  refine ⟨h'.linked, fun d => (h'.connected d).trans (h.connected d), ?_, h'.flag.trans h.flag⟩
  rw [h'.subs, h.subs, Function.update_idem]

/-- What is only told to the client does not matter. -/
theorem Changes.same (h : Changes s t c p) (hsame : SameLinks t u) (hflag : u.flagOf = t.flagOf) : Changes s u c p :=
  ⟨hsame.linked h.linked, fun d => (hsame.connected d).trans (h.connected d), hsame.subs.trans h.subs,
    hflag.trans h.flag⟩

/-! ### The four places -/

section

variable (h : Linked s) (hx : s.client c = some x)

include h hx

/-- A new set of channels for the client, and a new list of clients for one channel. -/
theorem changes_channel {chans : Finset Bytes} {o : Option (List ClientId)} (hne : o ≠ some [])
    (honce : (o.getD []).Nodup)
    (hmem : ∀ d, d ∈ o.getD [] ↔ if d = c then channel ∈ chans else d ∈ s.subscribers channel)
    (hother : ∀ ch, ch ≠ channel → (ch ∈ chans ↔ ch ∈ x.channels)) :
    Changes s ((s.setClient c (some { x with channels := chans })).setChannel channel o) c
      (chans, x.patterns) := by
  obtain ⟨-, hch, hpat, -⟩ := s.views hx
  have hsubs := s.subsOf_setClient (c := c) { x with channels := chans }
  have hconn := s.connected_setClient hx { x with channels := chans }
  set t := (s.setClient c (some { x with channels := chans })).setChannel channel o with ht
  have hlist : ∀ ch, t.subscribers ch = if ch = channel then o.getD [] else s.subscribers ch := by
    intro ch
    rw [ht, Server.subscribers, Server.channels_setChannel, apply_ite (Option.getD · [])]
    rfl
  have hchannels : ∀ d, t.channelsOf d = if d = c then chans else s.channelsOf d := by
    intro d
    have hd := congrArg Prod.fst (congrFun hsubs d)
    rw [Function.update_apply, apply_ite Prod.fst] at hd
    exact hd
  have hpatterns : ∀ d, t.patternsOf d = s.patternsOf d := by
    intro d
    have hd := congrArg Prod.snd (congrFun hsubs d)
    rw [Function.update_apply, apply_ite Prod.snd] at hd
    by_cases hdc : d = c
    · rw [if_pos hdc, hdc] at hd
      rw [hdc]
      exact hd.trans hpat.symm
    · rw [if_neg hdc] at hd
      exact hd
  refine ⟨⟨h.clients, ?_, ?_, ?_, ?_, ?_, ?_⟩, hconn, hsubs, s.flagOf_setClient hx rfl⟩
  · intro d
    exact (h.connected d).trans (hconn d).symm
  · intro ch
    rw [ht, Server.channels_setChannel]
    by_cases hc : ch = channel
    · rw [if_pos hc]
      exact hne
    · rw [if_neg hc]
      exact h.nonempty ch
  · intro ch
    rw [hlist]
    by_cases hc : ch = channel
    · rw [if_pos hc]
      exact honce
    · rw [if_neg hc]
      exact h.once ch
  · intro ch d
    have hold := h.channels ch d
    rw [hlist, hchannels]
    by_cases hc : ch = channel
    · subst hc
      rw [if_pos rfl, hmem]
      by_cases hd : d = c
      · rw [if_pos hd, if_pos hd]
      · rw [if_neg hd, if_neg hd, hold]
    · rw [if_neg hc, hold]
      by_cases hd : d = c
      · rw [if_pos hd, hd, hch, hother ch hc]
      · rw [if_neg hd]
  · intro d
    rw [hpatterns]
    exact h.patterns d
  · intro d
    rw [hpatterns]
    exact h.distinct d

/-- A new list of patterns for the client, and a new list of the server. -/
theorem changes_pattern {pats : List Bytes} {l : List (ClientId × Bytes)} (hdistinct : pats.Nodup)
    (hl : ∀ d, (l.filter (·.1 = d)).map Prod.snd = if d = c then pats else s.patternsOf d) :
    Changes s { s.setClient c (some { x with patterns := pats }) with patterns := l } c
      (x.channels, pats) := by
  obtain ⟨-, hch, -, -⟩ := s.views hx
  have hsubs := s.subsOf_setClient (c := c) { x with patterns := pats }
  have hconn := s.connected_setClient hx { x with patterns := pats }
  set t : Server := { s.setClient c (some { x with patterns := pats }) with patterns := l } with ht
  have hpatterns : ∀ d, t.patternsOf d = if d = c then pats else s.patternsOf d := by
    intro d
    have hd := congrArg Prod.snd (congrFun hsubs d)
    rw [Function.update_apply, apply_ite Prod.snd] at hd
    exact hd
  have hchannels : ∀ d, t.channelsOf d = s.channelsOf d := by
    intro d
    have hd := congrArg Prod.fst (congrFun hsubs d)
    rw [Function.update_apply, apply_ite Prod.fst] at hd
    by_cases hdc : d = c
    · rw [if_pos hdc, hdc] at hd
      rw [hdc]
      exact hd.trans hch.symm
    · rw [if_neg hdc] at hd
      exact hd
  refine ⟨⟨h.clients, ?_, h.nonempty, h.once, ?_, ?_, ?_⟩, hconn, hsubs, s.flagOf_setClient hx rfl⟩
  · intro d
    exact (h.connected d).trans (hconn d).symm
  · intro ch d
    rw [hchannels]
    exact h.channels ch d
  · intro d
    rw [hpatterns]
    exact hl d
  · intro d
    rw [hpatterns]
    by_cases hd : d = c
    · rw [if_pos hd]
      exact hdistinct
    · rw [if_neg hd]
      exact h.distinct d

/-- The client has no such channel, so the channel's list has no such client. -/
theorem addChannel_changes (hnew : channel ∉ x.channels) :
    Changes s (addChannel s c x channel) c (insert channel x.channels, x.patterns) := by
  obtain ⟨-, hch, -, -⟩ := s.views hx
  have hout : c ∉ s.subscribers channel := by rwa [h.channels, hch]
  -- both cases put the client behind those that are there
  have hadd : addChannel s c x channel
      = (s.setClient c (some { x with channels := insert channel x.channels })).setChannel channel
          (some (s.subscribers channel ++ [c])) := by
    rw [addChannel, Server.subscribers]
    cases hl : s.channels channel with
    | none | some clients => simp [hl]
  rw [hadd]
  apply changes_channel h hx
  · simp
  · apply List.nodup_append.mpr
    refine ⟨h.once channel, List.nodup_singleton c, ?_⟩
    rintro a ha b hb rfl
    exact hout (List.mem_singleton.mp hb ▸ ha)
  · intro d
    by_cases hd : d = c
    · simp [hd]
    · simp [hd]
  · intro ch hne
    simp [hne]

/-- The client has the channel, so the channel has a list, and the client is in it. -/
theorem removeChannel_changes (hin : channel ∈ x.channels) :
    ∃ t, removeChannel s c x channel = .ok t ∧
      Changes s t c (x.channels.erase channel, x.patterns) := by
  obtain ⟨-, hch, -, -⟩ := s.views hx
  have hmem : c ∈ s.subscribers channel := by rwa [h.channels, hch]
  have honce := h.once channel
  obtain ⟨clients, hl⟩ : ∃ clients, s.channels channel = some clients := by
    cases hl : s.channels channel with
    | none => simp [Server.subscribers, hl] at hmem
    | some clients => exact ⟨clients, rfl⟩
  have hclients : s.subscribers channel = clients := by rw [Server.subscribers, hl, Option.getD_some]
  rw [hclients] at hmem honce
  have hlist : (if clients.erase c = [] then none else some (clients.erase c)).getD []
      = clients.erase c := by
    by_cases hempty : clients.erase c = []
    · rw [if_pos hempty, hempty]
      rfl
    · rw [if_neg hempty]
      rfl
  rw [removeChannel]
  simp only [Server.channels_setClient, hl, if_pos hmem]
  refine ⟨_, rfl, ?_⟩
  apply changes_channel h hx
  · intro hsome
    by_cases hempty : clients.erase c = []
    · rw [if_pos hempty] at hsome
      cases hsome
    · rw [if_neg hempty] at hsome
      exact hempty (Option.some.inj hsome)
  · rw [hlist]
    exact honce.erase c
  · intro d
    rw [hlist, honce.mem_erase_iff, hclients]
    by_cases hd : d = c
    · simp [hd]
    · simp [hd]
  · intro ch hne
    simp [hne]

/-- The client has no such pattern: it becomes the last in both lists. -/
theorem addPattern_changes (hnew : pattern ∉ x.patterns) :
    Changes s (addPattern s c x pattern) c (x.channels, x.patterns ++ [pattern]) := by
  obtain ⟨-, -, hpat, -⟩ := s.views hx
  have hdistinct := h.distinct c
  rw [hpat] at hdistinct
  apply changes_pattern h hx
  · apply List.nodup_append.mpr
    refine ⟨hdistinct, List.nodup_singleton pattern, ?_⟩
    rintro a ha b hb rfl
    exact hnew (List.mem_singleton.mp hb ▸ ha)
  · intro d
    rw [List.filter_append, List.map_append]
    by_cases hd : d = c
    · subst hd
      simp [h.patterns, hpat]
    · simp [h.patterns, hd, Ne.symm hd]

end

/-- Among the entries of one client the pattern decides. -/
theorem map_snd_erase {l : List (ClientId × Bytes)} (hl : ∀ e ∈ l, e.1 = c) :
    (l.erase (c, pattern)).map Prod.snd = (l.map Prod.snd).erase pattern := by
  induction l with
  | nil => rfl
  | cons e l ih =>
    have hrest := ih fun e' he' => hl e' (List.mem_cons_of_mem e he')
    obtain rfl : e.1 = c := hl e List.mem_cons_self
    by_cases he : e.2 = pattern
    · subst he
      simp
    · have hne : ¬ e = (e.1, pattern) := fun h => he (congrArg Prod.snd h)
      rw [List.erase_cons_tail (by simpa using hne), List.map_cons, hrest, List.map_cons,
        List.erase_cons_tail (by simpa using he)]

/-- The client has the pattern, so the server has it too. -/
theorem removePattern_changes (h : Linked s) (hx : s.client c = some x) (hin : pattern ∈ x.patterns) :
    ∃ t, removePattern s c x pattern = .ok t ∧
      Changes s t c (x.channels, x.patterns.erase pattern) := by
  obtain ⟨-, -, hpat, -⟩ := s.views hx
  have hdistinct := h.distinct c
  rw [hpat] at hdistinct
  have hmem : (c, pattern) ∈ (s.setClient c (some { x with patterns := x.patterns.erase pattern })).patterns := by
    rwa [Server.patterns_setClient, h.mem_patterns, hpat]
  rw [removePattern, if_pos hmem]
  refine ⟨_, rfl, changes_pattern h hx (hdistinct.erase pattern) fun d => ?_⟩
  rw [Server.patterns_setClient, ← List.erase_filter]
  by_cases hd : d = c
  · subst hd
    rw [map_snd_erase (by simp), h.patterns, hpat, if_pos rfl]
  · have hout : (c, pattern) ∉ s.patterns.filter (·.1 = d) := by simp [Ne.symm hd]
    rw [List.erase_of_not_mem hout, h.patterns, if_neg hd]

/-! ### The functions -/

theorem find_eq (hc : s.Connected c) : ∃ x, s.client c = some x ∧ s.find c = .ok x := by
  obtain ⟨x, hx⟩ := Option.isSome_iff_exists.mp hc
  exact ⟨x, hx, by rw [Server.find, hx]⟩

/-- Replies touch nothing else. -/
theorem addReplies_eq (hc : s.Connected c) (rs : List Reply) :
    ∃ t, addReplies s c rs = .ok t ∧ SameLinks s t ∧ t.flagOf = s.flagOf ∧
      ∀ d, t.replyOf d = if d = c then s.replyOf c ++ rs else s.replyOf d := by
  obtain ⟨x, hx, hfind⟩ := find_eq hc
  refine ⟨s.setClient c (some { x with reply := x.reply ++ rs }), ?_, sameLinks_setClient hx rfl rfl,
    s.flagOf_setClient hx rfl, fun d => ?_⟩
  · rw [addReplies, hfind]
    rfl
  · by_cases hd : d = c <;> simp [Server.replyOf, hd, hx]

theorem notifyClient_eq (hc : s.Connected c) (kind name : Reply) :
    ∃ t, notifyClient s c kind name = .ok t ∧ SameLinks s t ∧ t.flagOf = s.flagOf := by
  obtain ⟨x, -, hfind⟩ := find_eq hc
  obtain ⟨t, ht, hsame, hflag, -⟩ := addReplies_eq hc [.mbulkhdr 3, kind, name, .longLong x.subscriptions]
  refine ⟨t, ?_, hsame, hflag⟩
  rw [notifyClient, hfind]
  exact ht

/-- The function changes the subscriptions of the client as `upd` says. -/
def Does (c : ClientId) (one : Server → Bytes → Except Fault (Server × Nat))
    (upd : Finset Bytes × List Bytes → Bytes → Finset Bytes × List Bytes) : Prop :=
  ∀ s name, Linked s → s.Connected c → ∃ t n, one s name = .ok (t, n) ∧ Changes s t c (upd (s.subsOf c) name)

def addedChannel (p : Finset Bytes × List Bytes) (channel : Bytes) := (insert channel p.1, p.2)
def removedChannel (p : Finset Bytes × List Bytes) (channel : Bytes) := (p.1.erase channel, p.2)
def removedPattern (p : Finset Bytes × List Bytes) (pattern : Bytes) := (p.1, p.2.erase pattern)

def addedPattern (p : Finset Bytes × List Bytes) (pattern : Bytes) :=
  (p.1, if pattern ∈ p.2 then p.2 else p.2 ++ [pattern])

theorem pubsubSubscribeChannel_spec (c : ClientId) :
    Does c (fun s channel => pubsubSubscribeChannel s c channel) addedChannel := by
  intro s channel hs hc
  obtain ⟨x, hx, hfind⟩ := find_eq hc
  obtain ⟨-, hch, hpat, -⟩ := s.views hx
  have hchanges : Changes s (if channel ∈ x.channels then s else addChannel s c x channel) c
      (addedChannel (s.subsOf c) channel) := by
    rw [addedChannel, Server.subsOf, hch, hpat]
    by_cases hin : channel ∈ x.channels
    · rw [if_pos hin, Finset.insert_eq_of_mem hin, ← hch, ← hpat]
      exact Changes.refl hs c
    · rw [if_neg hin]
      exact addChannel_changes hs hx hin
  obtain ⟨t, ht, hsame, hflag⟩ := notifyClient_eq ((hchanges.connected c).mpr hc) .subscribebulk (.bulk channel)
  refine ⟨t, if channel ∈ x.channels then 0 else 1, ?_, hchanges.same hsame hflag⟩
  simp only [pubsubSubscribeChannel, hfind, ok_bind, ht]
  rfl

theorem pubsubSubscribePattern_spec (c : ClientId) :
    Does c (fun s pattern => pubsubSubscribePattern s c pattern) addedPattern := by
  intro s pattern hs hc
  obtain ⟨x, hx, hfind⟩ := find_eq hc
  obtain ⟨-, hch, hpat, -⟩ := s.views hx
  have hchanges : Changes s (if pattern ∈ x.patterns then s else addPattern s c x pattern) c
      (addedPattern (s.subsOf c) pattern) := by
    rw [addedPattern, Server.subsOf, hch, hpat]
    by_cases hin : pattern ∈ x.patterns
    · simp only [if_pos hin]
      rw [← hch, ← hpat]
      exact Changes.refl hs c
    · simp only [if_neg hin]
      exact addPattern_changes hs hx hin
  obtain ⟨t, ht, hsame, hflag⟩ := notifyClient_eq ((hchanges.connected c).mpr hc) .psubscribebulk (.bulk pattern)
  refine ⟨t, if pattern ∈ x.patterns then 0 else 1, ?_, hchanges.same hsame hflag⟩
  simp only [pubsubSubscribePattern, hfind, ok_bind, ht]
  rfl

/-- The notification at the end of an unsubscription. -/
theorem notify_if (h : Changes s t c p) (hc : s.Connected c) (notify : Bool) (kind name : Reply) :
    ∃ u, (if notify = true then notifyClient t c kind name else .ok t) = .ok u ∧ Changes s u c p := by
  cases notify with
  | false => exact ⟨t, rfl, h⟩
  | true =>
    obtain ⟨u, hu, hsame, hflag⟩ := notifyClient_eq ((h.connected c).mpr hc) kind name
    exact ⟨u, hu, h.same hsame hflag⟩

theorem pubsubUnsubscribeChannel_spec (c : ClientId) (notify : Bool) :
    Does c (fun s channel => pubsubUnsubscribeChannel s c channel notify) removedChannel := by
  intro s channel hs hc
  obtain ⟨x, hx, hfind⟩ := find_eq hc
  obtain ⟨-, hch, hpat, -⟩ := s.views hx
  obtain ⟨t, ht, hchanges⟩ : ∃ t, (if channel ∈ x.channels then removeChannel s c x channel else .ok s) = .ok t ∧
      Changes s t c (removedChannel (s.subsOf c) channel) := by
    rw [removedChannel, Server.subsOf, hch, hpat]
    by_cases hin : channel ∈ x.channels
    · rw [if_pos hin]
      exact removeChannel_changes hs hx hin
    · rw [if_neg hin, Finset.erase_eq_of_notMem hin, ← hch, ← hpat]
      exact ⟨s, rfl, Changes.refl hs c⟩
  obtain ⟨u, hu, hchanges'⟩ := notify_if hchanges hc notify .unsubscribebulk (.bulk channel)
  refine ⟨u, if channel ∈ x.channels then 1 else 0, ?_, hchanges'⟩
  simp only [pubsubUnsubscribeChannel, hfind, ok_bind, ht, hu]
  rfl

theorem pubsubUnsubscribePattern_spec (c : ClientId) (notify : Bool) :
    Does c (fun s pattern => pubsubUnsubscribePattern s c pattern notify) removedPattern := by
  intro s pattern hs hc
  obtain ⟨x, hx, hfind⟩ := find_eq hc
  obtain ⟨-, hch, hpat, -⟩ := s.views hx
  obtain ⟨t, ht, hchanges⟩ : ∃ t, (if pattern ∈ x.patterns then removePattern s c x pattern else .ok s) = .ok t ∧
      Changes s t c (removedPattern (s.subsOf c) pattern) := by
    rw [removedPattern, Server.subsOf, hch, hpat]
    by_cases hin : pattern ∈ x.patterns
    · rw [if_pos hin]
      exact removePattern_changes hs hx hin
    · rw [if_neg hin, List.erase_of_not_mem hin, ← hch, ← hpat]
      exact ⟨s, rfl, Changes.refl hs c⟩
  obtain ⟨u, hu, hchanges'⟩ := notify_if hchanges hc notify .punsubscribebulk (.bulk pattern)
  refine ⟨u, if pattern ∈ x.patterns then 1 else 0, ?_, hchanges'⟩
  simp only [pubsubUnsubscribePattern, hfind, ok_bind, ht, hu]
  rfl

/-! ### The loops -/

theorem forEach_spec (hone : Does c one upd) (hs : Linked s) (hc : s.Connected c) (names : List Bytes) :
    ∃ t, forEach one s names = .ok t ∧ Changes s t c (names.foldl upd (s.subsOf c)) := by
  induction names generalizing s with
  | nil => exact ⟨s, rfl, Changes.refl hs c⟩
  | cons name names ih =>
    obtain ⟨t, n, ht, hchanges⟩ := hone s name hs hc
    obtain ⟨u, hu, hchanges'⟩ := ih hchanges.linked ((hchanges.connected c).mpr hc)
    rw [hchanges.self] at hchanges'
    refine ⟨u, ?_, hchanges.trans hchanges'⟩
    rw [forEach, List.foldlM_cons, ht]
    exact hu

theorem unsubscribeAll_spec (hone : Does c one upd) (hs : Linked s) (hc : s.Connected c) (kind : Reply)
    (notify : Bool) (names : List Bytes) :
    ∃ t n, unsubscribeAll one kind s c notify names = .ok (t, n) ∧
      Changes s t c (names.foldl upd (s.subsOf c)) := by
  obtain ⟨t, n, ht, hchanges⟩ : ∃ t n, names.foldlM (fun r name => do
      let t ← one r.1 name
      return (t.1, r.2 + t.2)) (s, 0) = .ok (t, n) ∧ Changes s t c (names.foldl upd (s.subsOf c)) := by
    generalize 0 = k
    induction names generalizing s k with
    | nil => exact ⟨s, k, rfl, Changes.refl hs c⟩
    | cons name names ih =>
      obtain ⟨t, n, ht, hchanges⟩ := hone s name hs hc
      obtain ⟨u, n', hu, hchanges'⟩ := ih hchanges.linked ((hchanges.connected c).mpr hc) (k + n)
      rw [hchanges.self] at hchanges'
      refine ⟨u, n', ?_, hchanges.trans hchanges'⟩
      rw [List.foldlM_cons]
      simp only [ht, ok_bind]
      exact hu
  obtain ⟨u, hu, hchanges'⟩ := notify_if hchanges hc (notify && decide (n = 0)) kind .nullbulk
  refine ⟨u, n, ?_, hchanges'⟩
  simp only [Bool.and_eq_true, decide_eq_true_eq] at hu
  rw [unsubscribeAll, ht]
  simp only [ok_bind, hu]
  rfl

end Redis.Pubsub
