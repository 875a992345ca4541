import Redis.Migrate.Replies

namespace Redis.Migrate

open Lines Outcome Server RedisDb
open Aof (arg)

/-!
# One attempt

* `Clean` — no cached connection holds bytes that have not been read;
* `Ends`, `migrateAttempt_spec` — what an attempt has done when it returns or fails;
* `migrateKeys_spec` — both of them.
-/

variable {V : Type}

/-! ### Connections -/

/-- On the cached connections everything has been read. -/
def Clean (sockets : List (Bytes × MigrateCachedSocket)) : Prop := ∀ x ∈ sockets, x.2.unread = []

section Sockets

variable {sockets : List (Bytes × MigrateCachedSocket)} {name : Bytes} {f : MigrateCachedSocket → MigrateCachedSocket}

theorem Clean.delete (h : Clean sockets) (name : Bytes) : Clean (deleteSocket sockets name) :=
  fun x hx => h x (List.mem_of_mem_filter hx)

theorem Clean.update (h : Clean sockets) (hf : ∀ cs, cs.unread = [] → (f cs).unread = []) :
    Clean (updateSocket sockets name f) := by
  intro x hx
  obtain ⟨y, hy, rfl⟩ := List.mem_map.mp hx
  split
  · exact hf y.2 (h y hy)
  · exact h y hy

/-- A connection that is closed may have had anything to read. -/
theorem Clean.delete_update (h : Clean sockets) : Clean (deleteSocket (updateSocket sockets name f) name) := by
  intro x hx
  obtain ⟨hx, hne⟩ := List.mem_filter.mp hx
  obtain ⟨y, hy, rfl⟩ := List.mem_map.mp hx
  by_cases hname : y.1 = name
  · simp [hname] at hne
  · rw [if_neg hname]
    exact h y hy

theorem Clean.lookup (h : Clean sockets) {cs : MigrateCachedSocket} (hcs : sockets.lookup name = some cs) :
    cs.unread = [] := by
  obtain ⟨a, b, hsplit, -⟩ := List.lookup_eq_some_iff.mp hcs
  exact h (name, cs) (by simp [hsplit])

end Sockets

/-- What `migrateGetSocket` leaves. -/
structure Got (c : Call V) (got : Call V × Option MigrateCachedSocket) : Prop where
  clean : Clean got.1.sockets
  server : got.1.server = c.server
  dirty : got.1.dirty = c.dirty
  argv : got.1.argv = c.argv
  log : got.1.log = c.log
  refused : got.2 = none → ∃ r, got.1.replies = c.replies ++ [r] ∧ r ≠ .ok
  connected : ∀ cs, got.2 = some cs → cs.unread = [] ∧ got.1.replies = c.replies

theorem migrateGetSocket_spec (x : Exchange) (unixtime : Int) (c : Call V) (host port : Bytes) (hclean : Clean c.sockets) :
    Got c (migrateGetSocket x unixtime c host port) := by
  rw [migrateGetSocket]
  cases hcached : c.sockets.lookup (socketName host port) with
  | some cs =>
    have hread := hclean.lookup hcached
    constructor <;> simp [hread]
    exact hclean.update fun _ h => h
  | none =>
    obtain ⟨c', hc'⟩ : ∃ c', c' = if c.sockets.length = MIGRATE_SOCKET_CACHE_ITEMS then
      { c with sockets := c.sockets.eraseIdx (x.victim % MIGRATE_SOCKET_CACHE_ITEMS) } else c := ⟨_, rfl⟩
    have hclean' : Clean c'.sockets := by
      rw [hc']
      split
      · exact fun y hy => hclean y (List.mem_of_mem_eraseIdx hy)
      · exact hclean
    have hsame : c'.server = c.server ∧ c'.dirty = c.dirty ∧ c'.argv = c.argv ∧ c'.log = c.log ∧ c'.replies = c.replies := by
      rw [hc']
      split <;> exact ⟨rfl, rfl, rfl, rfl, rfl⟩
    obtain ⟨hserver, hdirty, hargv, hlog, hreplies⟩ := hsame
    simp only [← hc']
    cases x.refused with
    | some neterr =>
      constructor <;> simp [Call.reply, hserver, hdirty, hargv, hlog, hreplies]
      exact hclean'
    | none =>
      by_cases hwritable : x.writable = false
      · simp only [if_pos hwritable]
        constructor <;> simp [Call.reply, hserver, hdirty, hargv, hlog, hreplies]
        exact hclean'
      · simp only [if_neg hwritable]
        constructor <;> simp [hserver, hdirty, hargv, hlog, hreplies]
        intro y hy
        rcases List.mem_cons.mp hy with rfl | hy
        · rfl
        · exact hclean' y hy

/-! ### The end of an attempt -/

/-- The keys `acked` have been deleted, and the argument vector says so. -/
structure Tried (d : DbId) (acked : List Bytes) (events : List Event) (c c' : Call V) : Prop where
  server : c'.server = deleteKeys d c.server acked
  dirty : c'.dirty = c.dirty + acked.length
  argv : c'.argv = if acked = [] then c.argv else delName :: acked
  log : c'.log = (acked.map Event.deleted).reverse ++ events ++ c.log

/-- How an attempt ends: `good` says that everything has been acknowledged. -/
def Ends (d : DbId) (acked : List Bytes) (events : List Event) (good : Prop) (c : Call V) : Attempt V → Prop
  | .returned c' => Tried d acked events c c' ∧ Clean c'.sockets ∧ ∃ r, c'.replies = c.replies ++ [r] ∧ (r = .ok ↔ good)
  | .socketErr c' _ _ mayRetry rewritten =>
      Tried d acked events c c' ∧ Clean (cleanup c' rewritten).sockets ∧ c'.replies = c.replies ∧ ¬ good ∧
        (mayRetry = true → acked = [])

/-- The state in which the loop over the replies starts. -/
def Reading.start (c : Call V) (input : Bytes) (lastDbid : Int) : Reading V where
  server := c.server
  dirty := c.dirty
  input := input
  lastDbid := lastDbid
  replies := c.replies
  log := c.log
  newargv := []
  errorFromTarget := false
  socketError := none
  j := 0

/-- Everything has been answered with success. -/
def AllPositive (selected : Bool) (n : Nat) (answers : List Bytes) : Prop :=
  answers.length = n ∧ ∀ l ∈ answers, selected = true ∧ positive l = true

theorem afterReplies_spec {d : DbId} {copy selected : Bool} {keys answers acked : List Bytes} {c : Call V} {r : Reading V}
    {input name : Bytes} {lastDbid : Int} (dbid : Int) (mayRetry : Bool) (hclean : Clean c.sockets)
    (hname : name = socketName (arg c.argv 1) (arg c.argv 2))
    (h : Reads d copy selected keys answers acked (Reading.start c input lastDbid) r) :
    Ends d acked [] (AllPositive selected keys.length answers) c (afterReplies name copy dbid mayRetry c r) := by
  have hgood : AllPositive selected keys.length answers ↔ r.errorFromTarget = false ∧ r.socketError = none := by
    rw [h.success, AllPositive]
    simp [Reading.start]
  have hserver : r.server = deleteKeys d c.server acked := h.server
  have hdirty : r.dirty = c.dirty + acked.length := h.dirty
  have hlog : r.log = (acked.map Event.deleted).reverse ++ [] ++ c.log := by
    rw [h.log, List.append_nil]
    rfl
  have hnewargv : r.newargv = acked := by
    rw [h.newargv]
    rfl
  have hreplies : (r.errorFromTarget = false ∧ r.replies = c.replies) ∨
      (r.errorFromTarget = true ∧ ∃ t, r.replies = c.replies ++ [.targetError t]) := by
    rcases h.replies with hsame | ⟨-, htrue, t, ht⟩
    · exact .inl hsame
    · exact .inr ⟨htrue, t, ht⟩
  have hrewritten : (!copy && !r.newargv.isEmpty) = !acked.isEmpty := by
    rw [hnewargv]
    cases copy with
    | true => rw [h.copied rfl]; rfl
    | false => rfl
  unfold afterReplies
  simp only [hrewritten]
  by_cases hretry : r.errorFromTarget = false ∧ r.socketError = some false ∧ r.j = 0 ∧ mayRetry = true
  · -- the first reply could not be read
    rw [if_pos hretry]
    obtain ⟨herror, hsocket, hj, -⟩ := hretry
    have hacked : acked = [] := (h.start (by rw [hj]; rfl)).1
    have hsame : r.replies = c.replies := by
      rcases hreplies with hr | hr
      · exact hr.2
      · rw [herror] at hr
        cases hr.1
    refine ⟨⟨hserver, hdirty, ?_, hlog⟩, ?_, hsame, ?_, fun _ => hacked⟩
    · rw [if_pos hacked]
    · rw [cleanup, if_neg (by simp), migrateCloseSocket]
      simp only [← hname]
      exact hclean.delete_update
    · rw [hgood, hsocket]
      simp
  · rw [if_neg hretry]
    have hargv : (if (!acked.isEmpty) = true then delName :: r.newargv else c.argv)
        = if acked = [] then c.argv else delName :: acked := by
      rw [hnewargv]
      cases acked <;> rfl
    cases hsocket : r.socketError with
    | some timedOut =>
      -- the connection is closed before the argument vector is rewritten
      have hclosed : Clean (deleteSocket (updateSocket c.sockets name fun cs =>
          { cs with lastDbid := r.lastDbid, unread := r.input }) name) := hclean.delete_update
      have hbad : ¬ AllPositive selected keys.length answers := by
        rw [hgood, hsocket]
        simp
      simp only [Option.isSome_some, if_true, migrateCloseSocket, ← hname]
      rcases hreplies with ⟨herror, hsame⟩ | ⟨herror, t, ht⟩
      · rw [if_neg (by simp [herror])]
        refine ⟨⟨hserver, hdirty, hargv, hlog⟩, ?_, hsame, hbad, fun hf => by cases hf⟩
        rw [cleanup]
        split
        · exact hclosed
        · exact hclosed.delete _
      · rw [if_pos herror]
        exact ⟨⟨hserver, hdirty, hargv, hlog⟩, hclosed, _, ht, iff_of_false (by simp) hbad⟩
    | none =>
      have hinput := h.consumed hsocket
      have hupdated : Clean (updateSocket c.sockets name fun cs => { cs with lastDbid := r.lastDbid, unread := r.input }) :=
        hclean.update fun _ _ => hinput
      simp only [Option.isSome_none, Bool.false_eq_true, if_false]
      rcases hreplies with ⟨herror, hsame⟩ | ⟨herror, t, ht⟩
      · rw [if_neg (by simp [herror])]
        refine ⟨⟨hserver, hdirty, hargv, hlog⟩, ?_, .ok, ?_, ?_⟩
        · exact hupdated.update (f := fun cs => { cs with lastDbid := dbid }) fun _ hcs => hcs
        · simp only [Call.reply, hsame]
        · exact iff_of_true rfl (hgood.mpr ⟨herror, hsocket⟩)
      · rw [if_pos herror]
        refine ⟨⟨hserver, hdirty, hargv, hlog⟩, hupdated, _, ht, iff_of_false (by simp) ?_⟩
        rw [hgood, herror]
        simp

/-! ### An attempt -/

/-- The number of commands that are sent. -/
def commands (select : Bool) (n : Nat) : Nat := (if select then 1 else 0) + n

/-- What an attempt has made of the keys: `sent` says whether everything could be written, and whether with
    a `SELECT`. -/
structure Acknowledges (p : Params V) (x : Exchange) (sent : Option Bool) (acked : List Bytes) : Prop where
  sublist : acked.Sublist (p.kv.map Prod.fst)
  copied : p.opts.copy = true → acked = []
  answered : ∀ key ∈ acked, ∃ (select : Bool) (i : Nat) (l : Bytes), sent = some select ∧ (p.kv.map Prod.fst)[i]? = some key ∧
    (x.answers (commands select p.kv.length))[(if select then 1 else 0) + i]? = some l ∧ positive l = true

/-- Everything could be written, and all of it has been answered with success. -/
def Succeeds (x : Exchange) (n : Nat) (sent : Option Bool) : Prop :=
  ∃ select, sent = some select ∧ AllPositive true (commands select n) (x.answers (commands select n))

theorem restoreCommands_ok (env : KeyEnv) (payload : V → Bytes) (replace : Bool) {db : RedisDb V} (hdb : db.Consistent)
    (kv : List (Bytes × V)) : ∀ i, ∃ buf, restoreCommands env payload replace db i kv = .ok buf := by
  induction kv with
  | nil => exact fun _ => ⟨[], rfl⟩
  | cons x kv ih =>
    intro i
    obtain ⟨buf, hbuf⟩ := ih (i + 1)
    exact ⟨_, bind_eq_ok.mpr ⟨_, getExpire_eq hdb x.1, bind_eq_ok.mpr ⟨buf, hbuf, rfl⟩⟩⟩

variable {p : Params V} {x : Exchange} {acked : List Bytes} {events : List Event} {c c' : Call V}
  {sent : Option Bool} {net : Nat → Exchange}

/-- The rest of an attempt after its commands have been written. -/
theorem readReplies_ends {c : Call V} {ls : List Bytes} (lastDbid : Int) (l : Option Bytes) (n : Nat)
    (mayRetry : Bool) (hinv : KeyspaceInv c.server) (hclean : Clean c.sockets) (hls : Readable ls)
    (hlen : ls.length = p.kv.length) {name : Bytes} (hname : name = socketName (arg c.argv 1) (arg c.argv 2)) :
    ∃ r acked, readReplies x.timedOut p.d p.opts.copy (l.map chop) (p.kv.map Prod.fst)
        (Reading.start c ((unlines 10 ls).take n) lastDbid) = .ok r ∧
      acked.Sublist (p.kv.map Prod.fst) ∧ (p.opts.copy = true → acked = []) ∧
      (∀ key ∈ acked, ∃ (i : Nat) (a : Bytes), (p.kv.map Prod.fst)[i]? = some key ∧ (arrived n ls)[i]? = some a ∧
        positive a = true) ∧
      Ends p.d acked [] (AllPositive (!l.any isError) p.kv.length (arrived n ls)) c
        (afterReplies name p.opts.copy p.dbid mayRetry c r) := by
  obtain ⟨r, acked, hr, hreads⟩ := readReplies_spec (V := V) x.timedOut p.d p.opts.copy (l.map chop) (p.kv.map Prod.fst) (n := n)
    (r := Reading.start c ((unlines 10 ls).take n) lastDbid) hls (by simpa using hlen) rfl rfl hinv
  have hsel : (!(l.map chop).any isError) = !l.any isError := by
    cases l with
    | none => rfl
    | some l => simp [isError_chop]
  rw [hsel] at hreads
  have hends := afterReplies_spec p.dbid mayRetry hclean hname hreads
  rw [List.length_map] at hends
  refine ⟨r, acked, hr, hreads.sublist, hreads.copied, fun key hkey => ?_, hends⟩
  obtain ⟨-, i, a, hi, ha, hpos⟩ := hreads.answered key hkey
  exact ⟨i, a, hi, ha, hpos⟩

section

variable (hserver : c'.server = c.server) (hdirty : c'.dirty = c.dirty) (hargv : c'.argv = c.argv)
  (hlog : c'.log = events ++ c.log) (hreplies : c'.replies = c.replies)

include hserver hdirty hargv hlog hreplies

/-- The calls before are the same but for the connections and what has been noted. -/
theorem Ends.of_start {d : DbId} {good good' : Prop} {a : Attempt V} (hgood : good ↔ good')
    (h : Ends d acked [] good c' a) :
    Ends d acked events good' c a := by
  have htried : ∀ c'' : Call V, Tried d acked [] c' c'' → Tried d acked events c c'' := by
    intro c'' ht
    constructor
    · rw [ht.server, hserver]
    · rw [ht.dirty, hdirty]
    · rw [ht.argv, hargv]
    · rw [ht.log, hlog, List.append_nil, List.append_assoc]
  cases a with
  | returned c'' =>
    obtain ⟨ht, hclean, r, hr, hok⟩ := h
    exact ⟨htried c'' ht, hclean, r, by rw [hr, hreplies], hok.trans hgood⟩
  | socketErr c'' _ _ mayRetry rewritten =>
    obtain ⟨ht, hclean, hr, hbad, hretry⟩ := h
    exact ⟨htried c'' ht, hclean, by rw [hr, hreplies], fun hg => hbad (hgood.mpr hg), hretry⟩

/-- The attempt fails before a reply has been read. -/
theorem Ends.failed {d : DbId} {good : Prop} (hclean : Clean (migrateCloseSocket c').sockets) (hbad : ¬ good)
    (writeError timedOut mayRetry : Bool) :
    Ends d [] events good c (.socketErr c' writeError timedOut mayRetry false) := by
  refine ⟨⟨hserver, ?_, hargv, hlog⟩, hclean, hreplies, hbad, fun _ => rfl⟩
  rw [hdirty]
  exact (add_zero _).symm

end

theorem Acknowledges.nil (p : Params V) (x : Exchange) (sent : Option Bool) : Acknowledges p x sent [] :=
  ⟨List.nil_sublist _, fun _ => rfl, by simp⟩

/-- The answer to the `SELECT`, and the others. -/
theorem answers_select (x : Exchange) (n : Nat) : ∃ ls : List Bytes, ls.length = n ∧
    (List.range (commands true n)).map (fun i => (x.answer i).1) = (x.answer 0).1 :: ls := by
  refine ⟨(List.range n).map fun i => (x.answer (i + 1)).1, by simp, ?_⟩
  rw [commands, if_pos rfl, Nat.add_comm, List.range_succ_eq_map, List.map_cons, List.map_map]
  rfl

theorem allPositive_cons {l : Bytes} {answers : List Bytes} {n : Nat} (hl : l ≠ []) (hn : 0 < n) :
    AllPositive (!isError l) n answers ↔ AllPositive true (1 + n) (l :: answers) := by
  have hpos : positive l = !isError l := by
    rw [positive_eq]
    simp [hl]
  unfold AllPositive
  rw [List.length_cons, List.forall_mem_cons, hpos]
  constructor
  · intro ⟨hlen, hall⟩
    obtain ⟨a, ha⟩ : ∃ a, a ∈ answers := List.exists_mem_of_length_pos (by omega)
    exact ⟨by omega, ⟨rfl, (hall a ha).1⟩, fun b hb => ⟨rfl, (hall b hb).2⟩⟩
  · intro h
    obtain ⟨hlen, ⟨-, hsel⟩, hall⟩ := h
    exact ⟨by omega, fun b hb => ⟨hsel, (hall b hb).2⟩⟩

theorem succeeds_some (x : Exchange) (n : Nat) (select : Bool) : Succeeds x n (some select) ↔
    AllPositive true (commands select n) (x.answers (commands select n)) := by
  constructor
  · intro ⟨s, hs, h⟩
    obtain rfl := Option.some.inj hs
    exact h
  · exact fun h => ⟨select, rfl, h⟩

theorem not_succeeds_none (x : Exchange) (n : Nat) : ¬ Succeeds x n none := by
  intro ⟨select, hselect, _⟩
  cases hselect

/-- What an attempt makes of the keys and of the call. -/
def Outcome (p : Params V) (x : Exchange) (i : Nat) (c : Call V) (m : Except ServerFault (Attempt V)) : Prop :=
  ∃ a sent acked, m = .ok a ∧ Acknowledges p x sent acked ∧
    Ends p.d acked ((sent.map (Event.sent i)).toList ++ [.attempt i]) (Succeeds x p.kv.length sent) c a

/-- The attempt so far: `events` have been noted, and a connection has been made. -/
structure Before (events : List Event) (c c' : Call V) : Prop where
  server : c'.server = c.server
  dirty : c'.dirty = c.dirty
  argv : c'.argv = c.argv
  log : c'.log = events ++ c.log
  replies : c'.replies = c.replies
  clean : Clean c'.sockets

/-- **The answers**, after the commands have been written. -/
theorem readAnswers_spec (p : Params V) (hx : x.Within 1022) {i : Nat} {select : Bool} (mayRetry : Bool)
    (lastDbid : Int) (hinv : KeyspaceInv c.server) (hkv : 0 < p.kv.length)
    (h : Before (((some select).map (Event.sent i)).toList ++ [.attempt i]) c c') :
    Outcome p x i c (readAnswers p x mayRetry select lastDbid (socketName (arg c.argv 1) (arg c.argv 2))
      (x.stream (commands select p.kv.length)) c') := by
  -- what follows the answer to the `SELECT`
  have hends : ∀ {l : Option Bytes} {ls : List Bytes} {n : Nat}, Readable ls → ls.length = p.kv.length →
      (∀ (j : Nat) (a : Bytes), (arrived n ls)[j]? = some a →
        (x.answers (commands select p.kv.length))[(if select then 1 else 0) + j]? = some a) →
      (AllPositive (!l.any isError) p.kv.length (arrived n ls) ↔ Succeeds x p.kv.length (some select)) →
      Outcome p x i c (do
        let r ← readReplies x.timedOut p.d p.opts.copy (l.map chop) (p.kv.map Prod.fst)
          (Reading.start c' ((unlines 10 ls).take n) lastDbid)
        return afterReplies (socketName (arg c.argv 1) (arg c.argv 2)) p.opts.copy p.dbid mayRetry c' r) := by
    intro l ls n hls hlen hanswers hgood
    obtain ⟨r, acked, hr, hsublist, hcopied, hanswered, hafter⟩ := readReplies_ends (p := p) (x := x)
      lastDbid l n mayRetry (h.server ▸ hinv) h.clean hls hlen
      (show socketName (arg c.argv 1) (arg c.argv 2) = socketName (arg c'.argv 1) (arg c'.argv 2) by rw [h.argv])
    refine ⟨_, some select, acked, bind_eq_ok.mpr ⟨r, hr, rfl⟩, ⟨hsublist, hcopied, ?_⟩, ?_⟩
    · intro key hkey
      obtain ⟨j, a, hj, ha, hpos⟩ := hanswered key hkey
      exact ⟨select, j, a, rfl, hj, hanswers j a ha, hpos⟩
    · exact hafter.of_start h.server h.dirty h.argv h.log h.replies hgood
  have hbroken : ∀ timedOut, ¬ Succeeds x p.kv.length (some select) →
      Outcome p x i c (.ok (.socketErr c' false timedOut mayRetry false)) := by
    intro timedOut hbad
    exact ⟨_, some select, [], rfl, Acknowledges.nil p x _,
      Ends.failed h.server h.dirty h.argv h.log h.replies (h.clean.delete _) hbad false timedOut mayRetry⟩
  rw [succeeds_some] at hends hbroken
  unfold readAnswers
  cases select with
  | false =>
    rw [if_neg (by simp)]
    refine hends (l := none) (hx.readable (commands false p.kv.length)) (by simp [commands]) ?_ ?_
    · intro j a ha
      rw [if_neg (by simp), Nat.zero_add]
      exact ha
    · rw [commands, if_neg (by simp), Exchange.answers, Nat.zero_add]
      rfl
  | true =>
    obtain ⟨ls, hlen, hls⟩ := answers_select x p.kv.length
    have hreadable := hx.readable (commands true p.kv.length)
    rw [hls] at hreadable
    have hstream : x.stream (commands true p.kv.length) = (unlines 10 ((x.answer 0).1 :: ls)).take x.arriving := by
      rw [← hls]
      rfl
    have hanswers : x.answers (commands true p.kv.length) = arrived x.arriving ((x.answer 0).1 :: ls) := by
      rw [← hls]
      rfl
    rw [hstream]
    by_cases hlt : (x.answer 0).1.length < x.arriving
    · rw [syncReadLine_next hreadable hlt]
      rw [arrived, if_pos hlt] at hanswers
      by_cases hempty : (x.answer 0).1.length = 0
      · -- an empty line
        rw [if_pos (by simp [hempty])]
        refine hbroken _ ?_
        rw [hanswers, List.length_eq_zero_iff.mp hempty]
        intro hall
        simpa [positive] using (hall.2 [] List.mem_cons_self).2
      · rw [if_neg (by simp [hempty])]
        refine hends (l := some (x.answer 0).1) hreadable.tail hlen ?_ ?_
        · intro j a ha
          rw [hanswers, if_pos rfl, Nat.add_comm 1 j, List.getElem?_cons_succ]
          exact ha
        · rw [hanswers]
          exact allPositive_cons (List.length_eq_zero_iff.not.mp hempty) hkv
    · -- no answer to the `SELECT`
      rw [syncReadLine_cut hreadable hlt]
      rw [arrived, if_neg hlt] at hanswers
      rw [if_pos (by simp)]
      refine hbroken _ ?_
      rw [hanswers, commands, if_pos rfl]
      intro hall
      have hlen' : 0 = 1 + p.kv.length := hall.1
      omega

theorem migrateOver_spec (p : Params V) (hx : x.Within 1022) (i t : Nat) (mayRetry : Bool)
    {cs : MigrateCachedSocket} (hunread : cs.unread = []) (hinv : KeyspaceInv c.server) (hkv : 0 < p.kv.length)
    (h : Before [.attempt i] c c') :
    Outcome p x i c (migrateOver p x i t mayRetry cs (socketName (arg c.argv 1) (arg c.argv 2)) c') := by
  obtain ⟨restores, hrestores⟩ := restoreCommands_ok p.env p.payload p.opts.replace
    (h.server ▸ hinv.consistent p.d : (c'.server.dbs p.d).Consistent) p.kv t
  unfold migrateOver
  rw [hrestores, ok_bind, hunread, List.nil_append]
  generalize decide (cs.lastDbid ≠ p.dbid) = select
  cases transfer x ((if select = true then selectBytes p.dbid else []) ++ restores) with
  | some timedOut =>
    -- the commands cannot be written
    exact ⟨_, none, [], rfl, Acknowledges.nil p x none,
      Ends.failed h.server h.dirty h.argv h.log h.replies (h.clean.delete _) (not_succeeds_none x _) true timedOut mayRetry⟩
  | none =>
    refine readAnswers_spec p hx mayRetry cs.lastDbid hinv hkv ⟨h.server, h.dirty, h.argv, ?_, h.replies, h.clean⟩
    rw [Call.note, h.log]
    rfl

/-- **One attempt.** -/
theorem migrateAttempt_spec (p : Params V) (hx : x.Within 1022) (i t : Nat) (mayRetry : Bool) {c : Call V}
    (hinv : KeyspaceInv c.server) (hclean : Clean c.sockets) (hkv : 0 < p.kv.length) :
    Outcome p x i c (migrateAttempt p x i t mayRetry c) := by
  have hgot := migrateGetSocket_spec x p.unixtime (c.note (.attempt i)) (arg c.argv 1) (arg c.argv 2) hclean
  unfold migrateAttempt
  generalize migrateGetSocket x p.unixtime (c.note (.attempt i)) (arg c.argv 1) (arg c.argv 2) = got at hgot
  obtain ⟨c', found⟩ := got
  cases found with
  | none =>
    -- the connection is refused
    obtain ⟨r, hr, hok⟩ := hgot.refused rfl
    refine ⟨.returned c', none, [], rfl, Acknowledges.nil p x none, ⟨hgot.server, ?_, hgot.argv, hgot.log⟩, hgot.clean, r, hr,
      iff_of_false hok (not_succeeds_none x _)⟩
    rw [hgot.dirty]
    exact (add_zero _).symm
  | some cs =>
    obtain ⟨hunread, hreplies⟩ := hgot.connected cs rfl
    exact migrateOver_spec p hx i t mayRetry hunread hinv hkv
      ⟨hgot.server, hgot.dirty, hgot.argv, hgot.log, hreplies, hgot.clean⟩

/-! ### Both attempts -/

/-- `try_again`. -/
def Event.isAttempt : Event → Bool
  | .attempt _ => true
  | _ => false

/-- What the attempts have done together. -/
structure Migrated (p : Params V) (net : Nat → Exchange) (acked : List Bytes) (events : List Event) (c c' : Call V) : Prop where
  tried : Tried p.d acked events c c'
  clean : Clean c'.sockets
  attempts : events.countP Event.isAttempt ≤ 2
  /-- Before the keys are deleted no other key is. -/
  undeleted : ∀ key, .deleted key ∉ events
  sublist : acked.Sublist (p.kv.map Prod.fst)
  copied : p.opts.copy = true → acked = []
  answered : ∀ key ∈ acked, ∃ (i : Nat) (select : Bool) (j : Nat) (l : Bytes), .sent i select ∈ events ∧
    (p.kv.map Prod.fst)[j]? = some key ∧
    ((net i).answers (commands select p.kv.length))[(if select then 1 else 0) + j]? = some l ∧ positive l = true
  reply : ∃ r, c'.replies = c.replies ++ [r] ∧ (r = .ok ↔ ∃ (i : Nat) (select : Bool), .sent i select ∈ events ∧
    AllPositive true (commands select p.kv.length) ((net i).answers (commands select p.kv.length)))

theorem mem_attempt {i i' : Nat} {select : Bool} :
    Event.sent i' select ∈ (sent.map (Event.sent i)).toList ++ [.attempt i] ↔ i' = i ∧ sent = some select := by
  cases sent with
  | none => simp
  | some s =>
    simp only [Option.map_some, Option.toList_some, List.singleton_append, List.mem_cons, Event.sent.injEq, reduceCtorEq,
      List.not_mem_nil, or_false, Option.some.injEq]
    constructor
    · exact fun h => ⟨h.1, h.2.symm⟩
    · exact fun h => ⟨h.1, h.2.symm⟩

theorem deleted_not_mem (i : Nat) (sent : Option Bool) (key : Bytes) :
    Event.deleted key ∉ (sent.map (Event.sent i)).toList ++ [.attempt i] := by
  cases sent <;> simp

theorem countP_attempt (i : Nat) (sent : Option Bool) :
    ((sent.map (Event.sent i)).toList ++ [Event.attempt i]).countP Event.isAttempt = 1 := by
  cases sent <;> rfl

/-- The only attempt, or the second one. -/
theorem Migrated.single {i : Nat} {r : MigrateReply}
    (htried : Tried p.d acked ((sent.map (Event.sent i)).toList ++ [.attempt i]) c c')
    (hclean : Clean c'.sockets) (hacked : Acknowledges p (net i) sent acked)
    (hr : c'.replies = c.replies ++ [r]) (hok : r = .ok ↔ Succeeds (net i) p.kv.length sent) :
    Migrated p net acked ((sent.map (Event.sent i)).toList ++ [.attempt i]) c c' where
  tried := htried
  clean := hclean
  attempts := by
    rw [countP_attempt]
    omega
  undeleted := deleted_not_mem i sent
  sublist := hacked.sublist
  copied := hacked.copied
  answered := by
    intro key hkey
    obtain ⟨select, j, l, hsent, hj, hl, hpos⟩ := hacked.answered key hkey
    exact ⟨i, select, j, l, mem_attempt.mpr ⟨rfl, hsent⟩, hj, hl, hpos⟩
  reply := by
    refine ⟨r, hr, hok.trans ⟨?_, ?_⟩⟩
    · intro ⟨select, hsent, hall⟩
      exact ⟨i, select, mem_attempt.mpr ⟨rfl, hsent⟩, hall⟩
    · intro ⟨i', select, hmem, hall⟩
      obtain ⟨rfl, hsent⟩ := mem_attempt.mp hmem
      exact ⟨select, hsent, hall⟩

/-- An attempt that has failed, and the next. -/
theorem Migrated.retry {c c' c'' : Call V}
    (htried : Tried p.d [] ((sent.map (Event.sent 0)).toList ++ [.attempt 0]) c c')
    (hreplies : c'.replies = c.replies) (hbad : ¬ Succeeds (net 0) p.kv.length sent)
    (hevents : events.countP Event.isAttempt = 1) (h : Migrated p net acked events c' c'') :
    Migrated p net acked (events ++ ((sent.map (Event.sent 0)).toList ++ [.attempt 0])) c c'' where
  tried := by
    constructor
    · rw [h.tried.server, htried.server]
      rfl
    · rw [h.tried.dirty, htried.dirty]
      simp
    · rw [h.tried.argv, htried.argv, if_pos rfl]
    · rw [h.tried.log, htried.log]
      simp
  clean := h.clean
  attempts := by
    rw [List.countP_append, hevents, countP_attempt]
  undeleted := by
    intro key hmem
    rcases List.mem_append.mp hmem with hmem | hmem
    · exact h.undeleted key hmem
    · exact deleted_not_mem 0 sent key hmem
  sublist := h.sublist
  copied := h.copied
  answered := by
    intro key hkey
    obtain ⟨i, select, j, l, hmem, hrest⟩ := h.answered key hkey
    exact ⟨i, select, j, l, List.mem_append_left _ hmem, hrest⟩
  reply := by
    obtain ⟨r, hr, hok⟩ := h.reply
    refine ⟨r, by rw [hr, hreplies], hok.trans ⟨?_, ?_⟩⟩
    · intro ⟨i, select, hmem, hall⟩
      exact ⟨i, select, List.mem_append_left _ hmem, hall⟩
    · intro ⟨i, select, hmem, hall⟩
      rcases List.mem_append.mp hmem with hmem | hmem
      · exact ⟨i, select, hmem, hall⟩
      · -- the first attempt has not succeeded
        obtain ⟨rfl, hsent⟩ := mem_attempt.mp hmem
        exact absurd ⟨select, hsent, hall⟩ hbad

/-- The cleanup at `socket_err` is about the connections. -/
theorem Tried.cleanup {d : DbId} (h : Tried d acked events c c') (rewritten : Bool) :
    Tried d acked events c (cleanup c' rewritten) ∧ (cleanup c' rewritten).replies = c'.replies := by
  unfold Migrate.cleanup
  split
  · exact ⟨h, rfl⟩
  · exact ⟨⟨h.server, h.dirty, h.argv, h.log⟩, rfl⟩

/-- The error that is replied when an attempt has failed and is not made again. -/
theorem Migrated.giveUp {i : Nat}
    (htried : Tried p.d acked ((sent.map (Event.sent i)).toList ++ [.attempt i]) c c') {rewritten : Bool}
    (hclean : Clean (cleanup c' rewritten).sockets) (hacked : Acknowledges p (net i) sent acked)
    (hreplies : c'.replies = c.replies) (hbad : ¬ Succeeds (net i) p.kv.length sent) (writeError : Bool) :
    Migrated p net acked ((sent.map (Event.sent i)).toList ++ [.attempt i]) c (giveUp (cleanup c' rewritten) writeError) := by
  obtain ⟨htried', hsame⟩ := htried.cleanup rewritten
  refine Migrated.single (r := ioError writeError) ⟨htried'.server, htried'.dirty, htried'.argv, htried'.log⟩ hclean hacked ?_
    (iff_of_false (by simp [ioError]) hbad)
  rw [← hreplies, ← hsame]
  rfl

/-- **Both attempts.** -/
theorem migrateKeys_spec (p : Params V) (hnet : ∀ i, (net i).Within 1022) (t : Nat) {c : Call V}
    (hinv : KeyspaceInv c.server) (hclean : Clean c.sockets) (hkv : 0 < p.kv.length) :
    ∃ c' acked events, migrateKeys p net t c = .ok c' ∧ Migrated p net acked events c c' := by
  obtain ⟨a, sent, acked, ha, hacked, hends⟩ := migrateAttempt_spec p (hnet 0) 0 t true hinv hclean hkv
  unfold migrateKeys
  rw [ha]
  cases a with
  | returned c' =>
    obtain ⟨htried, hclean', r, hr, hok⟩ := hends
    exact ⟨c', acked, _, rfl, Migrated.single htried hclean' hacked hr hok⟩
  | socketErr c' writeError timedOut mayRetry rewritten =>
    obtain ⟨htried, hclean', hreplies, hbad, hretry⟩ := hends
    simp only [ok_bind]
    by_cases hagain : timedOut = false ∧ mayRetry = true
    · rw [if_pos hagain]
      obtain rfl := hretry hagain.2
      obtain ⟨htried', hsame⟩ := htried.cleanup rewritten
      have hinv' : KeyspaceInv (cleanup c' rewritten).server := by
        rw [htried'.server]
        exact hinv
      obtain ⟨a, sent', acked', ha, hacked', hends⟩ :=
        migrateAttempt_spec p (hnet 1) 1 (t + p.kv.length) false hinv' hclean' hkv
      rw [ha]
      cases a with
      | returned c'' =>
        obtain ⟨htried'', hclean'', r, hr, hok⟩ := hends
        exact ⟨c'', acked', _, rfl, Migrated.retry htried' (hsame.trans hreplies) hbad (countP_attempt 1 sent')
          (Migrated.single htried'' hclean'' hacked' hr hok)⟩
      | socketErr c'' writeError' timedOut' mayRetry' rewritten' =>
        obtain ⟨htried'', hclean'', hreplies', hbad', -⟩ := hends
        exact ⟨_, acked', _, rfl, Migrated.retry htried' (hsame.trans hreplies) hbad (countP_attempt 1 sent')
          (Migrated.giveUp htried'' hclean'' hacked' hreplies' hbad' writeError')⟩
    · rw [if_neg hagain]
      exact ⟨_, acked, _, rfl, Migrated.giveUp htried hclean' hacked hreplies hbad writeError⟩

end Redis.Migrate
