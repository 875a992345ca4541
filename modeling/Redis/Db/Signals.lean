import Redis.Db.Keyspace

namespace Redis

open Outcome Server RedisDb

/-!
# Signals of modified keys

A command that changes a key has to tell the clients that watch it.  Each command does so
by hand, and two of them do not.

* `Told` — the clients that watch a key are flagged;
* `Signals` — every change between two states has been told;
* `Unsignalled` — a `MOVE` or a `PERSIST` that changes a key somebody watches;
* `changes_signalled_iff` — all other commands tell what they change, and these do not.
-/

section Signals

variable {V : Type} {env : KeyEnv} {s t u : Server V} {d : DbId} {key : Bytes} {c : ClientId} {cl : Client}
  {wk : WatchedKey}

/-- The clients that watch a key in `s` are flagged in `t`. -/
def Told (s t : Server V) (wk : WatchedKey) : Prop :=
  ∀ c cl, s.clients c = some cl → wk ∈ cl.watchedKeys → ∃ cl', t.clients c = some cl' ∧ cl'.dirtyCas = true

/-- A client that watches a key is not flagged. -/
def Unaware (s : Server V) (wk : WatchedKey) : Prop :=
  ∃ c cl, s.clients c = some cl ∧ wk ∈ cl.watchedKeys ∧ cl.dirtyCas = false

/-- No key is out of date while a command runs. -/
def NoExpired (env : KeyEnv) (s : Server V) : Prop :=
  ∀ d k i w, (s.dbs d).expires k = some w → env.now i ≤ w

/-- The changes from `s` to `t` have been told, and no client has lost a flag. -/
structure Signals (s t : Server V) : Prop where
  clients : ∀ c cl, s.clients c = some cl →
    ∃ cl', t.clients c = some cl' ∧ cl'.watchedKeys = cl.watchedKeys ∧ (cl.dirtyCas = true → cl'.dirtyCas = true)
  told : ∀ wk, t.binding wk ≠ s.binding wk → Told s t wk

theorem Signals.of_eq (hclients : t.clients = s.clients) (hbinding : ∀ wk, t.binding wk = s.binding wk) :
    Signals s t := by
  constructor
  · intro c cl hcl
    exact ⟨cl, by rw [hclients, hcl], rfl, id⟩
  · intro wk hne
    exact absurd (hbinding wk) hne

theorem Signals.trans (h : Signals s u) (h' : Signals u t) : Signals s t := by
  constructor
  · intro c cl hcl
    obtain ⟨cl', hcl', hkeys, hdirty⟩ := h.clients c cl hcl
    obtain ⟨cl'', hcl'', hkeys', hdirty'⟩ := h'.clients c cl' hcl'
    exact ⟨cl'', hcl'', hkeys'.trans hkeys, fun hd => hdirty' (hdirty hd)⟩
  · intro wk hne c cl hcl hwk
    by_cases hu : u.binding wk = s.binding wk
    · -- it has been changed by the second part
      obtain ⟨cl', hcl', hkeys, -⟩ := h.clients c cl hcl
      exact h'.told wk (by rw [hu]; exact hne) c cl' hcl' (by rw [hkeys]; exact hwk)
    · obtain ⟨cl', hcl', hdirty⟩ := h.told wk hu c cl hcl hwk
      obtain ⟨cl'', hcl'', -, hdirty'⟩ := h'.clients c cl' hcl'
      exact ⟨cl'', hcl'', hdirty' hdirty⟩

/-- The client is flagged if it watches the key. -/
def Client.told (cl : Client) (wk : WatchedKey) : Client :=
  { cl with dirtyCas := cl.dirtyCas || decide (wk ∈ cl.watchedKeys) }

@[simp] theorem Client.watchedKeys_told (cl : Client) (wk : WatchedKey) :
    (cl.told wk).watchedKeys = cl.watchedKeys := rfl

@[simp] theorem Client.dirtyCas_told (cl : Client) (wk : WatchedKey) :
    (cl.told wk).dirtyCas = (cl.dirtyCas || decide (wk ∈ cl.watchedKeys)) := rfl

theorem clients_tell (h : WatchInv s) (hcl : s.clients c = some cl) (d : DbId) (key : Bytes) :
    (s.tell d key).clients c = some (cl.told ⟨key, d⟩) := by
  have hmem : c ∈ (s.watchers ⟨key, d⟩).getD [] ↔ ⟨key, d⟩ ∈ cl.watchedKeys := by
    rw [h.symm c cl hcl]
    cases s.watchers ⟨key, d⟩ with
    | none | some l => simp
  unfold Server.tell
  rw [clients_note, clients_markDirty hcl]
  simp only [hmem, Client.told]

/-- One key is changed, and its watchers are told. -/
theorem Signals.tell (h : WatchInv s) (d : DbId) (key : Bytes) {db : RedisDb V}
    (hwatched : db.watchedKeys = (s.dbs d).watchedKeys)
    (hdb : ∀ k, k ≠ key → db.dict k = (s.dbs d).dict k ∧ db.expires k = (s.dbs d).expires k) :
    Signals s ((s.setDb d db).tell d key) := by
  have hset : WatchInv (s.setDb d db) := h.of_watchers rfl rfl (watchers_setDb hwatched)
  constructor
  · intro c cl hcl
    exact ⟨_, clients_tell hset hcl d key, rfl, fun hd => by simp [hd]⟩
  · intro wk hne c cl hcl hwk
    refine ⟨_, clients_tell hset hcl d key, ?_⟩
    have hkey : wk = ⟨key, d⟩ := by
      by_contra hother
      apply hne
      obtain ⟨k, x⟩ := wk
      unfold Server.binding
      simp only [dbs_tell, dbs_setDb]
      by_cases hx : x = d
      · have hk : k ≠ key := fun hk => hother (by rw [hk, hx])
        rw [if_pos hx, (hdb k hk).1, (hdb k hk).2, hx]
      · rw [if_neg hx]
    rw [hkey] at hwk
    simp [hwk]

/-- Without clients that get a flag, a key is told if and only if nobody is unaware. -/
theorem told_iff (hclients : t.clients = s.clients) : Told s t wk ↔ ¬ Unaware s wk := by
  unfold Told Unaware
  rw [hclients]
  constructor
  · intro h hunaware
    obtain ⟨c, cl, hcl, hwk, hdirty⟩ := hunaware
    obtain ⟨cl', hcl', hdirty'⟩ := h c cl hcl hwk
    rw [hcl] at hcl'
    cases hcl'
    rw [hdirty] at hdirty'
    cases hdirty'
  · intro h c cl hcl hwk
    refine ⟨cl, hcl, ?_⟩
    by_contra hdirty
    exact h ⟨c, cl, hcl, hwk, Bool.eq_false_of_not_eq_true hdirty⟩

theorem NoExpired.evict (h : NoExpired env s) (i : Nat) (d : DbId) (key : Bytes) :
    evict env i (s.dbs d) key = s.dbs d := by
  apply evict_of_false
  cases hw : (s.dbs d).expires key with
  | none => exact keyIsExpired_eq_false hw
  | some w =>
    have hnow := h d key i w hw
    have hlt : ¬ w < env.now i := by omega
    rw [keyIsExpired_some hw, decide_eq_false hlt, Bool.and_false]

section

variable (h : KeyspaceInv s) (hexp : NoExpired env s)

include h hexp

/-- One round of `DEL`. -/
theorem delKey_signals (d : DbId) (i : Nat) (n : Int) (key : Bytes) :
    ∃ r, delKey env d (s, i, n) key = .ok r ∧ KeyspaceInv r.1 ∧ NoExpired env r.1 ∧ Signals s r.1 := by
  have hinv := h.setDb ((h.consistent d).erase key) rfl
  have hexp' : NoExpired env (s.setDb d ((s.dbs d).erase key)) := by
    intro x k j w hw
    rw [dbs_setDb] at hw
    by_cases hx : x = d
    · rw [if_pos hx, expires_erase] at hw
      by_cases hk : k = key
      · rw [if_pos hk] at hw
        cases hw
      · rw [if_neg hk] at hw
        exact hexp d k j w hw
    · rw [if_neg hx] at hw
      exact hexp x k j w hw
  refine ⟨_, delKey_eq h env d i n key, ?_⟩
  rw [hexp.evict]
  cases hfound : (s.dbs d).dict key with
  | some o =>
    refine ⟨hinv.tell d key, hexp', Signals.tell h.watch d key watchedKeys_erase fun k hk => ⟨?_, ?_⟩⟩
    · rw [dict_erase, if_neg hk]
    · rw [expires_erase, if_neg hk]
  | none =>
    -- nothing is there to be deleted
    have hnone := (h.consistent d).expires_eq_none hfound
    have hself : (s.dbs d).erase key = s.dbs d := by
      apply ext_get
      · intro k
        by_cases hk : k = key <;> simp [hk, hfound]
      · intro k
        by_cases hk : k = key <;> simp [hk, hnone]
      · rfl
    refine ⟨hinv, hexp', ?_⟩
    show Signals s (s.setDb d ((s.dbs d).erase key))
    rw [hself, setDb_self]
    exact Signals.of_eq rfl fun _ => rfl

theorem delCommand_signals (d : DbId) (keys : List Bytes) :
    Sat (delCommand env s d keys) (fun r => Signals s r.1) (fun _ => False) := by
  unfold delCommand
  have hloop : Sat (keys.foldlM (delKey env d) (s, 0, 0))
      (fun r => KeyspaceInv r.1 ∧ NoExpired env r.1 ∧ Signals s r.1) (fun _ => False) := by
    refine sat_foldlM (fun _ (r : Server V × Nat × Int) => KeyspaceInv r.1 ∧ NoExpired env r.1 ∧ Signals s r.1)
      keys _ ⟨h, hexp, Signals.of_eq rfl fun _ => rfl⟩ fun done key rest r _ hr => ?_
    obtain ⟨hinv, hr, hsig⟩ := hr
    obtain ⟨r', hr', hinv', hexp', hsig'⟩ := delKey_signals hinv hr d r.2.1 r.2.2 key
    rw [show delKey env d r key = .ok r' from hr']
    exact ⟨hinv', hexp', hsig.trans hsig'⟩
  exact hloop.bind fun r hr => (sat_pure _ _ _).mpr hr.2.2

theorem existsCommand_signals (d : DbId) (keys : List Bytes) :
    Sat (existsCommand env s d keys) (fun r => Signals s r.1) (fun _ => False) := by
  unfold existsCommand
  have hloop : Sat (keys.foldlM (existsKey env d) (s, 0, 0)) (fun r => r.1 = s) (fun _ => False) := by
    refine sat_foldlM (fun _ (r : Server V × Nat × Int) => r.1 = s) keys _ rfl fun done key rest r _ hr => ?_
    obtain ⟨r, i, n⟩ := r
    obtain rfl : r = s := hr
    rw [existsKey_eq h env d i n key, hexp.evict, setDb_self]
    rfl
  refine hloop.bind fun r hr => (sat_pure _ _ _).mpr ?_
  show Signals s r.1
  rw [hr]
  exact Signals.of_eq rfl fun _ => rfl

theorem renameResult_signals (d : DbId) (nx : Bool) (key newkey : Bytes) :
    Signals s (renameResult env s d nx key newkey).1 := by
  have hrefl : Signals s s := Signals.of_eq rfl fun _ => rfl
  unfold renameResult
  simp only [hexp.evict, setDb_self]
  split
  · exact hrefl
  · rename_i o _
    split
    · exact hrefl
    · rename_i hne
      split
      · exact hrefl
      · have hren := h.renamed d key newkey o
        have hclients : ∀ c cl, s.clients c = some cl →
            (((s.setDb d (renamed (s.dbs d) key newkey o)).tell d key).tell d newkey).clients c
              = some ((cl.told ⟨key, d⟩).told ⟨newkey, d⟩) := fun c cl hcl =>
          clients_tell (hren.tell d key).watch (clients_tell hren.watch hcl d key) d newkey
        constructor
        · intro c cl hcl
          exact ⟨_, hclients c cl hcl, rfl, fun hd => by simp [hd]⟩
        · intro wk hne c cl hcl hwk
          refine ⟨_, hclients c cl hcl, ?_⟩
          have hkey : wk = ⟨key, d⟩ ∨ wk = ⟨newkey, d⟩ := by
            by_contra hother
            rw [not_or] at hother
            apply hne
            obtain ⟨k, x⟩ := wk
            unfold Server.binding renamed
            simp only [dbs_tell, dbs_setDb]
            by_cases hx : x = d
            · have hk : k ≠ key := fun hk => hother.1 (by rw [hk, hx])
              have hk' : k ≠ newkey := fun hk => hother.2 (by rw [hk, hx])
              simp [hx, hk, hk']
            · rw [if_neg hx]
          rcases hkey with hkey | hkey
          · rw [hkey] at hwk
            simp [hwk]
          · rw [hkey] at hwk
            simp [hwk]

theorem expireResult_signals (d : DbId) (basetime : Int) (unit : TimeUnit) (key param : Bytes) :
    Signals s (expireResult env s d basetime unit key param).1 := by
  have hrefl : Signals s s := Signals.of_eq rfl fun _ => rfl
  unfold expireResult
  simp only [hexp.evict, setDb_self]
  split
  · exact hrefl
  · split
    · exact hrefl
    · split
      · refine Signals.tell h.watch d key watchedKeys_erase fun k hk => ⟨?_, ?_⟩
        · rw [dict_erase, if_neg hk]
        · rw [expires_erase, if_neg hk]
      · refine Signals.tell h.watch d key (watchedKeys_setExpires _) fun k hk => ⟨rfl, ?_⟩
        rw [expires_setExpires, if_neg hk]

end

/-- The clients that watch a key which is flushed are told. -/
theorem tellFlush_signals (h : KeyspaceInv s) {dbid : Option DbId} {dbs : DbId → RedisDb V}
    (hdbs : ∀ x, dbs x = s.dbs x ∨ dbs x = (s.dbs x).empty ∧ (dbid = none ∨ dbid = some x)) :
    Signals s { s.tellFlush dbid with dbs := dbs } := by
  have hclients : ∀ c cl, s.clients c = some cl → (s.tellFlush dbid).clients c
      = some { cl with dirtyCas := cl.dirtyCas || cl.watchedKeys.any (flushedKey s dbid) } := by
    intro c cl hcl
    unfold Server.tellFlush
    rw [clients_note, clients_markDirty hcl]
    simp [hcl]
  constructor
  · intro c cl hcl
    exact ⟨_, hclients c cl hcl, rfl, fun hd => by simp [hd]⟩
  · intro wk hne c cl hcl hwk
    refine ⟨_, hclients c cl hcl, ?_⟩
    rcases hdbs wk.db with hsame | ⟨hempty, hdb⟩
    · refine absurd ?_ hne
      show ((dbs wk.db).dict wk.key, (dbs wk.db).expires wk.key) = _
      rw [hsame]
      rfl
    · have hsome : ((s.dbs wk.db).dict wk.key).isSome = true := by
        by_contra hnone
        have hdict : (s.dbs wk.db).dict wk.key = none := by simpa using hnone
        apply hne
        show ((dbs wk.db).dict wk.key, (dbs wk.db).expires wk.key) = _
        rw [hempty]
        unfold Server.binding
        rw [hdict, (h.consistent wk.db).expires_eq_none hdict]
        rfl
      have hflushed : flushedKey s dbid wk = true := by
        unfold flushedKey
        rw [hsome]
        rcases hdb with hdb | hdb <;> simp [hdb]
      have hany : cl.watchedKeys.any (flushedKey s dbid) = true := List.any_eq_true.mpr ⟨wk, hwk, hflushed⟩
      simp [hany]

/-- `MOVE` takes the key to another database. -/
def Moves (env : KeyEnv) (s : Server V) (d : DbId) (key arg : Bytes) (dst : DbId) : Prop :=
  env.clusterEnabled = false ∧ moveTarget env arg = some dst ∧ d ≠ dst ∧ ((s.dbs d).dict key).isSome = true ∧
    (s.dbs dst).dict key = none

/-- A command changes a key and does not tell: a `MOVE` or a `PERSIST` of a key that somebody watches. -/
def Unsignalled (env : KeyEnv) (s : Server V) (d : DbId) : KeyCommand → Prop
  | .move key arg => ∃ dst, Moves env s d key arg dst ∧ (Unaware s ⟨key, d⟩ ∨ Unaware s ⟨key, dst⟩)
  | .persist key => ((s.dbs d).expires key).isSome = true ∧ Unaware s ⟨key, d⟩
  | _ => False

/-- All that a command changes is told. -/
def ChangesTold (env : KeyEnv) (s : Server V) (d : DbId) (cmd : KeyCommand) : Prop :=
  ∃ t r, runKeyCommand env s d cmd = .ok (t, r) ∧ ∀ wk, t.binding wk ≠ s.binding wk → Told s t wk

theorem ChangesTold.of_sat {cmd : KeyCommand}
    (h : Sat (runKeyCommand env s d cmd) (fun r => Signals s r.1) (fun _ => False)) : ChangesTold env s d cmd := by
  obtain ⟨r, hr, hsig⟩ := h.exists_ok
  exact ⟨r.1, r.2, hr, hsig.told⟩

theorem changesTold_of_eq {cmd : KeyCommand} {r : Server V × KeyReply} (hrun : runKeyCommand env s d cmd = .ok r) :
    ChangesTold env s d cmd ↔ ∀ wk, r.1.binding wk ≠ s.binding wk → Told s r.1 wk := by
  constructor
  · intro ⟨t, r', hrun', htold⟩
    rw [hrun] at hrun'
    cases hrun'
    exact htold
  · intro htold
    exact ⟨r.1, r.2, hrun, htold⟩

theorem persist_told_iff (h : KeyspaceInv s) (env : KeyEnv) (d : DbId) (key : Bytes) :
    ChangesTold env s d (.persist key) ↔ ¬ Unsignalled env s d (.persist key) := by
  have hrun : runKeyCommand env s d (.persist key) = .ok (persistResult s d key) := persistCommand_eq s d key
  have hclients : (persistResult s d key).1.clients = s.clients := by
    unfold persistResult
    split <;> rfl
  have hchanges : ∀ wk, (persistResult s d key).1.binding wk ≠ s.binding wk ↔
      wk = ⟨key, d⟩ ∧ ((s.dbs d).expires key).isSome = true := by
    intro ⟨k, x⟩
    unfold persistResult Server.binding
    cases hfound : (s.dbs d).dict key with
    | none => simp [(h.consistent d).expires_eq_none hfound]
    | some o =>
      by_cases hx : x = d
      · by_cases hk : k = key
        · cases hw : (s.dbs d).expires key <;> simp [hx, hk, hw]
        · simp [hx, hk]
      · simp [hx]
  rw [changesTold_of_eq hrun]
  constructor
  · intro htold hun
    exact (told_iff hclients).mp (htold ⟨key, d⟩ ((hchanges _).mpr ⟨rfl, hun.1⟩)) hun.2
  · intro hok wk hne
    obtain ⟨rfl, hsome⟩ := (hchanges wk).mp hne
    rw [told_iff hclients]
    exact fun hun => hok ⟨hsome, hun⟩

theorem moveResult_changes (hexp : NoExpired env s) (d : DbId) (key arg : Bytes) (wk : WatchedKey) :
    (moveResult env s d key arg).1.binding wk ≠ s.binding wk ↔
      ∃ dst, Moves env s d key arg dst ∧ (wk = ⟨key, d⟩ ∨ wk = ⟨key, dst⟩) := by
  unfold moveResult Moves
  simp only [hexp.evict, setDb_self]
  cases hcluster : env.clusterEnabled with
  | true => simp
  | false =>
    cases moveTarget env arg with
    | none => simp
    | some dst =>
      by_cases hd : d = dst
      · simp [hd]
      · cases hfound : (s.dbs d).dict key with
        | none => simp [hd]
        | some o =>
          cases hnew : (s.dbs dst).dict key with
          | some o' => simp [hd, hnew]
          | none =>
            obtain ⟨k, x⟩ := wk
            have hd' : dst ≠ d := Ne.symm hd
            by_cases hx : x = d
            · by_cases hk : k = key <;> simp [Server.binding, hd, hx, hk, hfound, hnew]
            · by_cases hx' : x = dst
              · by_cases hk : k = key <;> simp [Server.binding, hd, hd', hx', hk, hnew]
              · simp [Server.binding, hd, hx, hx', Ne.symm hx', hnew]

theorem move_told_iff (h : KeyspaceInv s) (hexp : NoExpired env s) (d : DbId) (key arg : Bytes) :
    ChangesTold env s d (.move key arg) ↔ ¬ Unsignalled env s d (.move key arg) := by
  have hrun : runKeyCommand env s d (.move key arg) = .ok (moveResult env s d key arg) := moveCommand_eq h env d key arg
  have hclients : (moveResult env s d key arg).1.clients = s.clients := by
    unfold moveResult
    repeat' split
    all_goals rfl
  rw [changesTold_of_eq hrun]
  constructor
  · intro htold hun
    obtain ⟨dst, hmoves, hun⟩ := hun
    have htold' : ∀ wk, (wk = ⟨key, d⟩ ∨ wk = ⟨key, dst⟩) → ¬ Unaware s wk := fun wk hwk =>
      (told_iff hclients).mp (htold wk ((moveResult_changes hexp d key arg wk).mpr ⟨dst, hmoves, hwk⟩))
    rcases hun with hun | hun
    · exact htold' _ (.inl rfl) hun
    · exact htold' _ (.inr rfl) hun
  · intro hok wk hne
    obtain ⟨dst, hmoves, hwk⟩ := (moveResult_changes hexp d key arg wk).mp hne
    rw [told_iff hclients]
    intro hun
    rcases hwk with rfl | rfl
    · exact hok ⟨dst, hmoves, .inl hun⟩
    · exact hok ⟨dst, hmoves, .inr hun⟩

/-- **Changes are told**: when no key is out of date, a command tells the watchers of every key that it changes if
    and only if it is not a `MOVE` that moves a key, or a `PERSIST` that removes a time to live, of which some
    watcher is not flagged already. -/
theorem changes_signalled_iff (h : KeyspaceInv s) (hexp : NoExpired env s) (d : DbId) (cmd : KeyCommand) :
    ChangesTold env s d cmd ↔ ¬ Unsignalled env s d cmd := by
  have hrename : ∀ nx key newkey, Sat (renameGenericCommand env s d nx key newkey) (fun r => Signals s r.1)
      (fun _ => False) := by
    intro nx key newkey
    rw [renameGenericCommand_eq h]
    exact renameResult_signals h hexp d nx key newkey
  have hexpire : ∀ basetime unit key param, Sat (expireGenericCommand env s d basetime unit key param)
      (fun r => Signals s r.1) (fun _ => False) := by
    intro basetime unit key param
    rw [expireGenericCommand_eq h]
    exact expireResult_signals h hexp d basetime unit key param
  have httl : ∀ ms key, Sat (ttlGenericCommand env s d ms key) (fun r => Signals s r.1) (fun _ => False) := by
    intro ms key
    rw [ttlGenericCommand_eq h]
    show Signals s (s.setDb d (evict env 0 (s.dbs d) key))
    rw [hexp.evict, setDb_self]
    exact Signals.of_eq rfl fun _ => rfl
  cases cmd with
  | move key arg => exact move_told_iff h hexp d key arg
  | persist key => exact persist_told_iff h env d key
  | del keys => exact iff_of_true (.of_sat (delCommand_signals h hexp d keys)) id
  | existing keys => exact iff_of_true (.of_sat (existsCommand_signals h hexp d keys)) id
  | rename key newkey => exact iff_of_true (.of_sat (hrename false key newkey)) id
  | renamenx key newkey => exact iff_of_true (.of_sat (hrename true key newkey)) id
  | expire key param | expireat key param | pexpire key param | pexpireat key param =>
    exact iff_of_true (.of_sat (hexpire _ _ key param)) id
  | ttl key => exact iff_of_true (.of_sat (httl false key)) id
  | pttl key => exact iff_of_true (.of_sat (httl true key)) id
  | flushdb =>
    refine iff_of_true (.of_sat ?_) id
    show Sat (flushdbCommand s d) _ _
    rw [flushdbCommand_eq h]
    refine tellFlush_signals h fun x => ?_
    by_cases hx : x = d
    · exact .inr ⟨by rw [if_pos hx, hx], .inr (by rw [hx])⟩
    · exact .inl (if_neg hx)
  | flushall =>
    refine iff_of_true (.of_sat ?_) id
    show Sat (flushallCommand env s) _ _
    rw [flushallCommand_eq h]
    refine tellFlush_signals h fun x => ?_
    by_cases hx : x < env.dbnum
    · exact .inr ⟨if_pos hx, .inl rfl⟩
    · exact .inl (if_neg hx)

end Signals

/-! ### A client that watches a key that is moved -/

/-- A master. -/
def plainMaster : KeyEnv := ⟨16, false, false, false, none, false, fun _ => 1000⟩

/-- A client watches `a`, which exists. -/
def watchingA : Server Nat where
  dbs := fun d => ⟨fun k => if d = 0 ∧ k = [97] then some 7 else none, fun _ => none,
    fun k => if d = 0 ∧ k = [97] then some [1] else none⟩
  clients := fun c => if c = 1 then some ⟨0, false, false, false, [⟨[97], 0⟩], []⟩ else none
  clientList := [1]
  log := []

theorem keyspaceInv_watchingA : KeyspaceInv watchingA := by
  have hclient : ∀ c cl, watchingA.clients c = some cl → c = 1 ∧ cl = ⟨0, false, false, false, [⟨[97], 0⟩], []⟩ := by
    intro c cl hcl
    by_cases hc : c = 1
    · refine ⟨hc, ?_⟩
      rw [hc] at hcl
      exact (Option.some.inj hcl).symm
    · rw [show watchingA.clients c = none from if_neg hc] at hcl
      cases hcl
  have hwatchers : ∀ wk l, watchingA.watchers wk = some l → wk = ⟨[97], 0⟩ ∧ l = [1] := by
    intro ⟨k, d⟩ l hl
    by_cases hk : d = 0 ∧ k = [97]
    · rw [show watchingA.watchers ⟨k, d⟩ = some [1] from if_pos hk] at hl
      exact ⟨by rw [hk.1, hk.2], (Option.some.inj hl).symm⟩
    · rw [show watchingA.watchers ⟨k, d⟩ = none from if_neg hk] at hl
      cases hl
  refine ⟨⟨?_, ?_, ?_, ?_, ?_, ?_, ?_⟩, fun d k hk => ?_⟩
  · intro c cl hcl wk
    obtain ⟨rfl, rfl⟩ := hclient c cl hcl
    constructor
    · intro hwk
      rw [List.mem_singleton.mp hwk]
      exact ⟨[1], rfl, List.mem_singleton.mpr rfl⟩
    · intro ⟨l, hl, _⟩
      rw [(hwatchers wk l hl).1]
      exact List.mem_singleton.mpr rfl
  · intro c cl hcl
    rw [(hclient c cl hcl).2]
    exact List.nodup_singleton _
  · intro wk l hl
    rw [(hwatchers wk l hl).2]
    exact List.nodup_singleton _
  · intro wk hl
    cases (hwatchers wk [] hl).2
  · intro wk l hl c hc
    rw [(hwatchers wk l hl).2] at hc
    rw [List.mem_singleton.mp hc]
    rfl
  · intro c
    by_cases hc : c = 1
    · rw [hc]
      exact iff_of_true (List.mem_singleton.mpr rfl) rfl
    · rw [show watchingA.clients c = none from if_neg hc]
      exact iff_of_false (fun hmem => hc (List.mem_singleton.mp hmem)) Bool.false_ne_true
  · exact List.nodup_singleton _
  · cases hk

theorem noExpired_watchingA : NoExpired plainMaster watchingA := by
  intro d k i w hw
  cases hw

/-- `DEL a` tells the client. -/
theorem changes_signalled_del : ChangesTold plainMaster watchingA 0 (.del [[97]]) :=
  (changes_signalled_iff keyspaceInv_watchingA noExpired_watchingA 0 (.del [[97]])).mpr id

/-- `MOVE a 1` does not. -/
theorem move_not_signalled : KeyspaceInv watchingA ∧ NoExpired plainMaster watchingA ∧
    ∃ t, runKeyCommand plainMaster watchingA 0 (.move [97] [49]) = .ok (t, .int 1) ∧
      t.binding ⟨[97], 0⟩ ≠ watchingA.binding ⟨[97], 0⟩ ∧ ¬ Told watchingA t ⟨[97], 0⟩ := by
  have hresult : (moveResult plainMaster watchingA 0 [97] [49]).2 = .int 1 := rfl
  refine ⟨keyspaceInv_watchingA, noExpired_watchingA, (moveResult plainMaster watchingA 0 [97] [49]).1, ?_, ?_, ?_⟩
  · show moveCommand plainMaster watchingA 0 [97] [49] = _
    rw [moveCommand_eq keyspaceInv_watchingA, ← hresult]
  · intro h
    have hdict : none = some 7 := congrArg Prod.fst h
    cases hdict
  · intro htold
    obtain ⟨cl', hcl', hdirty⟩ := htold 1 _ rfl (List.mem_singleton.mpr rfl)
    cases hcl'
    cases hdirty

end Redis
