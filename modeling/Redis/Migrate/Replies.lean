import Redis.Migrate.Basic

namespace Redis.Migrate

open Lines Outcome Server RedisDb

/-!
# The answers of the target

When no answer is longer than the buffer, the loop of `migrateCommand` reads the answers one by
one.

* `Exchange.answers` — the answers that arrive in full;
* `syncReadLine_next`, `syncReadLine_cut` — one answer is read, or the connection fails;
* `deleteKeys` — the keys that are deleted, one after the other;
* `Reads`, `readReplies_spec` — what the loop has done.
-/

variable {V : Type} {env : KeyEnv} {d : DbId} {s : Server V}

/-- The answers to `n` commands that arrive in full. -/
def Exchange.answers (x : Exchange) (n : Nat) : List Bytes :=
  arrived x.arriving ((List.range n).map fun i => (x.answer i).1)

/-- No answer is longer. -/
def Exchange.Within (M : Nat) (x : Exchange) : Prop := ∀ i, (x.answer i).1.length ≤ M

/-- An answer that is no error. -/
def positive (l : Bytes) : Bool := l.head?.any fun c => c ≠ 45

/-- Lines that fit into the buffer. -/
structure Readable (ls : List Bytes) : Prop where
  newline : ∀ l ∈ ls, (10 : UInt8) ∉ l
  short : ∀ l ∈ ls, l.length ≤ 1022

theorem Exchange.Within.readable {x : Exchange} (h : x.Within 1022) (n : Nat) :
    Readable ((List.range n).map fun i => (x.answer i).1) := by
  constructor
  · intro l hl
    obtain ⟨i, -, rfl⟩ := List.mem_map.mp hl
    exact (x.answer i).2
  · intro l hl
    obtain ⟨i, -, rfl⟩ := List.mem_map.mp hl
    exact h i

theorem Readable.tail {l : Bytes} {ls : List Bytes} (h : Readable (l :: ls)) : Readable ls :=
  ⟨fun k hk => h.newline k (List.mem_cons_of_mem l hk), fun k hk => h.short k (List.mem_cons_of_mem l hk)⟩

/-! ### One line -/

/-- The text of a line, without its carriage return. -/
def chop (l : Bytes) : Bytes := if l.getLast? = some 13 then l.dropLast else l

theorem isError_chop (l : Bytes) : isError (chop l) = isError l := by
  unfold chop isError
  split
  · rename_i hlast
    -- a line that is the carriage return alone is no error either
    cases l with
    | nil => simp at hlast
    | cons c l =>
      cases l with
      | nil =>
        obtain rfl : c = 13 := by simpa using hlast
        decide
      | cons c' l => rfl
  · rfl

theorem positive_eq (l : Bytes) : positive l = (!l.isEmpty && !isError l) := by
  cases l with
  | nil => rfl
  | cons c l => simp [positive, isError]

section Stream

variable {l : Bytes} {ls : List Bytes} {n : Nat}

/-- An answer that has arrived is read. -/
theorem syncReadLine_next (h : Readable (l :: ls)) (hn : l.length < n) :
    syncReadLine 1024 ((unlines 10 (l :: ls)).take n)
      = (some (l.length, chop l), (unlines 10 ls).take (n - (l.length + 1))) := by
  have hline := h.newline l List.mem_cons_self
  have hshort := h.short l List.mem_cons_self
  rw [syncReadLine, takeLine_next hline (by omega) hn]
  simp [chop]

/-- An answer that has not arrived is not. -/
theorem syncReadLine_cut (h : Readable (l :: ls)) (hn : ¬ l.length < n) :
    syncReadLine 1024 ((unlines 10 (l :: ls)).take n) = (none, []) := by
  have hline := h.newline l List.mem_cons_self
  have hshort := h.short l List.mem_cons_self
  rw [syncReadLine, takeLine_cut hline (by omega) hn]
  rfl

end Stream

/-! ### The keys that are deleted -/

/-- A key is deleted and its watchers are told. -/
def deleteKey (d : DbId) (s : Server V) (key : Bytes) : Server V := (s.setDb d ((s.dbs d).erase key)).tell d key

/-- Some keys are deleted, one after the other. -/
def deleteKeys (d : DbId) (s : Server V) (keys : List Bytes) : Server V := keys.foldl (deleteKey d) s

theorem deleteKeys_cons (key : Bytes) (keys : List Bytes) :
    deleteKeys d s (key :: keys) = deleteKeys d (deleteKey d s key) keys := rfl

theorem KeyspaceInv.deleteKey (h : KeyspaceInv s) (key : Bytes) : KeyspaceInv (deleteKey d s key) :=
  KeyspaceInv.tell (KeyspaceInv.setDb h ((h.consistent d).erase key) rfl) d key

theorem KeyspaceInv.deleteKeys (h : KeyspaceInv s) (keys : List Bytes) : KeyspaceInv (deleteKeys d s keys) := by
  induction keys generalizing s with
  | nil => exact h
  | cons key keys ih => exact ih (KeyspaceInv.deleteKey h key)

theorem binding_deleteKey (key : Bytes) (wk : WatchedKey) :
    (deleteKey d s key).binding wk = if wk = ⟨key, d⟩ then (none, none) else s.binding wk := by
  obtain ⟨k, e⟩ := wk
  simp only [deleteKey, Server.binding, dbs_tell, dbs_setDb, WatchedKey.mk.injEq]
  by_cases he : e = d
  · by_cases hk : k = key <;> simp [he, hk]
  · simp [he]

theorem binding_deleteKeys (keys : List Bytes) (wk : WatchedKey) :
    (deleteKeys d s keys).binding wk = if wk.db = d ∧ wk.key ∈ keys then (none, none) else s.binding wk := by
  induction keys generalizing s with
  | nil => simp [deleteKeys]
  | cons key keys ih =>
    rw [deleteKeys_cons, ih, binding_deleteKey]
    obtain ⟨k, e⟩ := wk
    by_cases he : e = d <;> by_cases hk : k = key <;> simp [he, hk]

/-! ### The loop -/

/-- What the loop over the replies has done: the keys `acked` are deleted. -/
structure Reads (d : DbId) (copy selected : Bool) (keys answers acked : List Bytes) (r r' : Reading V) : Prop where
  server : r'.server = deleteKeys d r.server acked
  newargv : r'.newargv = r.newargv ++ acked
  dirty : r'.dirty = r.dirty + acked.length
  log : r'.log = (acked.map Event.deleted).reverse ++ r.log
  sublist : acked.Sublist keys
  /-- Only what has been answered with success is deleted. -/
  answered : ∀ key ∈ acked, selected = true ∧ ∃ (i : Nat) (l : Bytes), keys[i]? = some key ∧ answers[i]? = some l ∧ positive l = true
  copied : copy = true → acked = []
  /-- At most one error is passed on. -/
  replies : (r'.errorFromTarget = r.errorFromTarget ∧ r'.replies = r.replies) ∨
    (r.errorFromTarget = false ∧ r'.errorFromTarget = true ∧ ∃ t, r'.replies = r.replies ++ [.targetError t])
  success : r'.errorFromTarget = false ∧ r'.socketError = none ↔
    r.errorFromTarget = false ∧ answers.length = keys.length ∧ ∀ l ∈ answers, selected = true ∧ positive l = true
  /-- All of the answers have been read. -/
  consumed : r'.socketError = none → r'.input = []
  le : r.j ≤ r'.j
  /-- Nothing has been processed before the first reply. -/
  start : r'.j = r.j → acked = [] ∧ r'.errorFromTarget = r.errorFromTarget

variable {copy selected : Bool} {keys answers acked : List Bytes} {r r' : Reading V}

theorem Reads.of_input {input : Bytes}
    (h : Reads d copy selected keys answers acked { r with input := input } r') :
    Reads d copy selected keys answers acked r r' :=
  ⟨h.server, h.newargv, h.dirty, h.log, h.sublist, h.answered, h.copied, h.replies, h.success, h.consumed, h.le, h.start⟩

@[simp] theorem input_fail (r : Reading V) (text : Bytes) : (r.fail text).input = r.input := by
  unfold Reading.fail
  split <;> rfl

@[simp] theorem socketError_fail (r : Reading V) (text : Bytes) : (r.fail text).socketError = r.socketError := by
  unfold Reading.fail
  split <;> rfl

@[simp] theorem server_fail (r : Reading V) (text : Bytes) : (r.fail text).server = r.server := by
  unfold Reading.fail
  split <;> rfl

/-- The state after a success. -/
def Reading.acknowledged (d : DbId) (copy : Bool) (r : Reading V) (key : Bytes) : Reading V :=
  if copy then { r with j := r.j + 1 }
  else { r with server := deleteKey d r.server key, dirty := r.dirty + 1, newargv := r.newargv ++ [key],
                log := .deleted key :: r.log, j := r.j + 1 }

theorem succeed_eq (d : DbId) (copy : Bool) (r : Reading V) (key : Bytes) (hinv : KeyspaceInv r.server) :
    r.succeed d copy key = .ok (r.acknowledged d copy key) := by
  have hsignal : signalModifiedKey (r.server.setDb d (dbDelete (r.server.dbs d) key).1) d key
      = .ok (deleteKey d r.server key) :=
    signal_setDb_eq hinv ((hinv.consistent d).erase key) rfl key
  cases copy with
  | true => rfl
  | false =>
    rw [Reading.succeed, if_neg (by simp)]
    show (signalModifiedKey _ d key >>= _) = _
    rw [hsignal]
    rfl

@[simp] theorem input_acknowledged (d : DbId) (copy : Bool) (r : Reading V) (key : Bytes) :
    (r.acknowledged d copy key).input = r.input := by
  unfold Reading.acknowledged
  split <;> rfl

@[simp] theorem errorFromTarget_acknowledged (d : DbId) (copy : Bool) (r : Reading V) (key : Bytes) :
    (r.acknowledged d copy key).errorFromTarget = r.errorFromTarget := by
  unfold Reading.acknowledged
  split <;> rfl

@[simp] theorem socketError_acknowledged (d : DbId) (copy : Bool) (r : Reading V) (key : Bytes) :
    (r.acknowledged d copy key).socketError = r.socketError := by
  unfold Reading.acknowledged
  split <;> rfl

theorem KeyspaceInv.acknowledged (h : KeyspaceInv r.server) (d : DbId) (copy : Bool) (key : Bytes) :
    KeyspaceInv (r.acknowledged d copy key).server := by
  unfold Reading.acknowledged
  split
  · exact h
  · exact KeyspaceInv.deleteKey h key

/-- The loop ends at a line that cannot be read. -/
theorem Reads.broken (hr : ∃ b, r' = { r with input := r'.input, socketError := some b })
    (hanswers : ¬ (answers.length = keys.length ∧ ∀ l ∈ answers, selected = true ∧ positive l = true)) :
    Reads d copy selected keys answers [] r r' := by
  obtain ⟨b, hr⟩ := hr
  rw [hr]
  exact {
    server := rfl
    newargv := (List.append_nil _).symm
    dirty := (add_zero _).symm
    log := rfl
    sublist := List.nil_sublist keys
    answered := by simp
    copied := fun _ => rfl
    replies := .inl ⟨rfl, rfl⟩
    success := ⟨fun h => by simp at h, fun h => absurd h.2 hanswers⟩
    consumed := fun h => by simp at h
    le := Nat.le_refl _
    start := fun _ => ⟨rfl, rfl⟩ }

/-- An error of the target, and the rest of the loop. -/
theorem Reads.fail {key l : Bytes} {text : Bytes} (hl : ¬ (selected = true ∧ positive l = true))
    (h : Reads d copy selected keys answers acked (r.fail text) r') :
    Reads d copy selected (key :: keys) (l :: answers) acked r r' := by
  have hfail : (r.fail text).server = r.server ∧ (r.fail text).newargv = r.newargv ∧ (r.fail text).dirty = r.dirty ∧
      (r.fail text).log = r.log ∧ (r.fail text).errorFromTarget = true ∧ (r.fail text).j = r.j + 1 := by
    unfold Reading.fail
    split <;> simp_all
  obtain ⟨hserver, hnewargv, hdirty, hlog, herror, hj⟩ := hfail
  have hkept : r'.errorFromTarget = true ∧ r'.replies = (r.fail text).replies := by
    rcases h.replies with hsame | ⟨hfalse, -⟩
    · rw [herror] at hsame
      exact hsame
    · rw [herror] at hfalse
      cases hfalse
  constructor
  · rw [h.server, hserver]
  · rw [h.newargv, hnewargv]
  · rw [h.dirty, hdirty]
  · rw [h.log, hlog]
  · exact h.sublist.cons key
  · intro k hk
    obtain ⟨hsel, i, a, hi, ha, hpos⟩ := h.answered k hk
    exact ⟨hsel, i + 1, a, hi, ha, hpos⟩
  · exact h.copied
  · rw [hkept.1, hkept.2]
    unfold Reading.fail
    by_cases he : r.errorFromTarget = true
    · simp [he]
    · have hfalse : r.errorFromTarget = false := by simpa using he
      simp [hfalse]
  · rw [hkept.1]
    constructor
    · intro hs
      cases hs.1
    · intro hs
      exact absurd (hs.2.2 l List.mem_cons_self) hl
  · exact h.consumed
  · have := h.le
    omega
  · intro hstart
    have := h.le
    omega

/-- A success, and the rest of the loop. -/
theorem Reads.acknowledged {key l : Bytes} (hl : positive l = true)
    (h : Reads d copy true keys answers acked (r.acknowledged d copy key) r') :
    Reads d copy true (key :: keys) (l :: answers) (if copy then acked else key :: acked) r r' := by
  cases copy with
  | true =>
    have hle : r.j + 1 ≤ r'.j := h.le
    rw [if_pos rfl]
    constructor
    · exact h.server
    · exact h.newargv
    · exact h.dirty
    · exact h.log
    · exact h.sublist.cons key
    · intro k hk
      rw [h.copied rfl] at hk
      cases hk
    · exact h.copied
    · exact h.replies
    · simpa [hl] using h.success
    · exact h.consumed
    · omega
    · intro hstart
      omega
  | false =>
    have hle : r.j + 1 ≤ r'.j := h.le
    rw [if_neg (by simp)]
    constructor
    · exact h.server
    · rw [h.newargv, Reading.acknowledged, if_neg (by simp), List.append_assoc]
      rfl
    · rw [h.dirty, Reading.acknowledged, if_neg (by simp), List.length_cons]
      push_cast
      ring
    · rw [h.log, Reading.acknowledged, if_neg (by simp), List.map_cons, List.reverse_cons, List.append_assoc]
      rfl
    · exact h.sublist.cons_cons key
    · intro k hk
      rcases List.mem_cons.mp hk with rfl | hk
      · exact ⟨rfl, 0, l, rfl, rfl, hl⟩
      · obtain ⟨hsel, i, a, hi, ha, hpos⟩ := h.answered k hk
        exact ⟨hsel, i + 1, a, hi, ha, hpos⟩
    · intro hcopy
      cases hcopy
    · exact h.replies
    · simpa [hl] using h.success
    · exact h.consumed
    · omega
    · intro hstart
      omega

/-- **The loop over the replies**, when the answers fit into the buffer. -/
theorem readReplies_spec (timedOut : Bool) (d : DbId) (copy : Bool) (buf1 : Option Bytes) (keys : List Bytes) :
    ∀ {ls : List Bytes} {n : Nat} {r : Reading V}, Readable ls → ls.length = keys.length →
      r.input = (unlines 10 ls).take n → r.socketError = none → KeyspaceInv r.server →
      ∃ r' acked, readReplies timedOut d copy buf1 keys r = .ok r' ∧
        Reads d copy (!buf1.any isError) keys (arrived n ls) acked r r' := by
  induction keys with
  | nil =>
    intro ls n r hls hlen hinput hnone hinv
    obtain rfl : ls = [] := List.length_eq_zero_iff.mp hlen
    refine ⟨r, [], rfl, ?_⟩
    rw [unlines_nil, List.take_nil] at hinput
    constructor <;> simp [deleteKeys, arrived, hinput, hnone]
  | cons key keys ih =>
    intro ls n r hls hlen hinput hnone hinv
    obtain ⟨l, ls, rfl⟩ : ∃ l ls', ls = l :: ls' := by
      cases ls with
      | nil => simp at hlen
      | cons l ls => exact ⟨l, ls, rfl⟩
    have hlen' : ls.length = keys.length := by simpa using hlen
    by_cases hn : l.length < n
    · -- the answer has arrived
      obtain ⟨m, hm⟩ : ∃ m, m = n - (l.length + 1) := ⟨_, rfl⟩
      have harrived : arrived n (l :: ls) = l :: arrived m ls := by rw [arrived, if_pos hn, hm]
      have hread := syncReadLine_next hls hn
      rw [← hinput, ← hm] at hread
      rw [readReplies, hread, harrived]
      by_cases hempty : l.length = 0
      · -- a line with nothing in it ends the loop
        obtain rfl := List.length_eq_zero_iff.mp hempty
        refine ⟨_, [], by simp only [if_pos hempty]; rfl, Reads.broken ⟨false, rfl⟩ ?_⟩
        intro h
        have := (h.2 [] List.mem_cons_self).2
        simp [positive] at this
      · simp only [if_neg hempty]
        by_cases hsel : buf1.any isError = true
        · rw [if_pos hsel]
          obtain ⟨r', acked, hr', hreads⟩ := ih (r := Reading.fail { r with input := (unlines 10 ls).take m }
            (errorText (buf1.getD []))) (n := m) hls.tail hlen' (by simp) (by simpa using hnone) (by simpa using hinv)
          have hl : ¬ ((!buf1.any isError) = true ∧ positive l = true) := by simp [hsel]
          exact ⟨r', acked, hr', (hreads.fail hl).of_input⟩
        · rw [if_neg hsel]
          by_cases herr : isError (chop l) = true
          · rw [if_pos herr]
            obtain ⟨r', acked, hr', hreads⟩ := ih (r := Reading.fail { r with input := (unlines 10 ls).take m }
              (errorText (chop l))) (n := m) hls.tail hlen' (by simp) (by simpa using hnone) (by simpa using hinv)
            have hl : ¬ ((!buf1.any isError) = true ∧ positive l = true) := by
              rw [isError_chop] at herr
              simp [positive_eq, herr]
            exact ⟨r', acked, hr', (hreads.fail hl).of_input⟩
          · rw [if_neg herr]
            have hpos : positive l = true := by
              rw [isError_chop] at herr
              rw [positive_eq]
              simp [herr, List.length_eq_zero_iff.not.mp hempty]
            have hsel' : (!buf1.any isError) = true := by simpa using hsel
            obtain ⟨q, hq⟩ : ∃ q : Reading V, q = { r with input := (unlines 10 ls).take m } := ⟨_, rfl⟩
            have hinv' : KeyspaceInv q.server := by
              rw [hq]
              exact hinv
            obtain ⟨r', acked, hr', hreads⟩ := ih (r := q.acknowledged d copy key) (n := m) hls.tail hlen' (by simp [hq])
              (by simpa [hq] using hnone) (KeyspaceInv.acknowledged hinv' d copy key)
            rw [hsel'] at hreads ⊢
            rw [← hq]
            have hreads' := hreads.acknowledged hpos
            rw [hq] at hreads'
            exact ⟨r', _, bind_eq_ok.mpr ⟨_, succeed_eq d copy q key hinv', hr'⟩, hreads'.of_input⟩
    · -- it has not
      have hread := syncReadLine_cut hls hn
      rw [← hinput] at hread
      rw [readReplies, hread]
      refine ⟨_, [], rfl, Reads.broken ⟨timedOut, rfl⟩ ?_⟩
      intro h
      rw [arrived, if_neg hn] at h
      simp at h

end Redis.Migrate
