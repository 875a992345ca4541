import Redis.Migrate.Attempt

namespace Redis.Migrate

open Lines Outcome Server RedisDb
open Aof (arg)

/-!
# No key is lost

* `lookupKeys_spec` — the keys that are migrated are those that are found;
* `Safe` — what the caller of `MIGRATE` relies on;
* `migrateCommand_spec` — it holds when no answer of the target is longer than the buffer;
* `Reachable` — runs of commands, with answers of a bounded length;
* `migrate_safe_iff` — 1022 bytes are the limit.
-/

variable {V : Type} {env : KeyEnv} {d : DbId}

/-- Time stands still during the command. -/
def Still (env : KeyEnv) : Prop := ∀ i, env.mstime i = env.mstime 0

/-! ### The keys that are found -/

theorem Still.keyIsExpired (h : Still env) (i : Nat) (db : RedisDb V) (key : Bytes) :
    keyIsExpired env i db key = keyIsExpired env 0 db key := by
  unfold Redis.keyIsExpired KeyEnv.now
  rw [h i]

theorem Still.evict (h : Still env) (i : Nat) (db : RedisDb V) (key : Bytes) :
    evict env i db key = evict env 0 db key := by
  unfold Redis.evict
  rw [h.keyIsExpired]

theorem Still.readValue (h : Still env) (i : Nat) (db : RedisDb V) (key : Bytes) :
    readValue env i db key = readValue env 0 db key := by
  unfold Redis.readValue
  rw [h.keyIsExpired, h.evict]

/-- Another key is as expired as before. -/
theorem keyIsExpired_evict_of_ne (db : RedisDb V) {k key : Bytes} (hk : k ≠ key) :
    keyIsExpired env 0 (evict env 0 db key) k = keyIsExpired env 0 db k := by
  unfold keyIsExpired
  rw [expires_evict_of_ne hk]

/-- A second look finds what the first has found. -/
theorem evict_evict (db : RedisDb V) (key : Bytes) : evict env 0 (evict env 0 db key) key = evict env 0 db key := by
  by_cases hexpired : keyIsExpired env 0 db key = true ∧ env.slave = false
  · have herase : evict env 0 db key = db.erase key := if_pos hexpired
    rw [herase]
    exact evict_of_false (keyIsExpired_eq_false (by simp))
  · have hsame : evict env 0 db key = db := if_neg hexpired
    rw [hsame, hsame]

theorem readValue_evict (db : RedisDb V) (k key : Bytes) : readValue env 0 (evict env 0 db key) k = readValue env 0 db k := by
  by_cases hk : k = key
  · subst hk
    by_cases hexpired : keyIsExpired env 0 db k = true ∧ env.slave = false
    · have herase : evict env 0 db k = db.erase k := if_pos hexpired
      have hnone : keyIsExpired env 0 (db.erase k) k = false := keyIsExpired_eq_false (by simp)
      unfold readValue
      rw [if_pos (⟨hexpired.1, .inl hexpired.2⟩ : keyIsExpired env 0 db k = true ∧ _), herase, if_neg (by simp [hnone]),
        evict_of_false hnone]
      simp
    · have hsame : evict env 0 db k = db := if_neg hexpired
      rw [hsame]
  · have hdict : (evict env 0 (evict env 0 db key) k).dict k = (evict env 0 db k).dict k := by
      unfold evict
      rw [show keyIsExpired env 0 (if keyIsExpired env 0 db key = true ∧ env.slave = false then db.erase key else db) k
        = keyIsExpired env 0 db k from keyIsExpired_evict_of_ne db hk]
      split
      · simp
      · exact dict_evict_of_ne hk
    unfold readValue
    rw [keyIsExpired_evict_of_ne db hk, hdict]

/-- The key exists and is not out of date. -/
def Live (env : KeyEnv) (s : Server V) (wk : WatchedKey) : Prop := Alive env 0 s wk.db wk.key

theorem live_of_readValue {s : Server V} {key : Bytes} (h : (readValue env 0 (s.dbs d) key).isSome = true) :
    Live env s ⟨key, d⟩ := by
  unfold readValue at h
  split at h
  · cases h
  · exact h

/-- A key that is live survives the lookups of all keys. -/
theorem binding_evict {s : Server V} {wk : WatchedKey} (hlive : Live env s wk) (key : Bytes) :
    (s.setDb d (evict env 0 (s.dbs d) key)).binding wk = s.binding wk := by
  obtain ⟨k, e⟩ := wk
  obtain ⟨v, hv⟩ := Option.isSome_iff_exists.mp hlive
  simp only [Server.binding, dbs_setDb]
  by_cases he : e = d
  · subst he
    rw [if_pos rfl]
    by_cases hk : k = key
    · subst hk
      rw [evict_of_found hv]
    · rw [dict_evict_of_ne hk, expires_evict_of_ne hk]
  · rw [if_neg he]

theorem Live.evict {s : Server V} {wk : WatchedKey} (hlive : Live env s wk) (key : Bytes) :
    Live env (s.setDb d (evict env 0 (s.dbs d) key)) wk := by
  obtain ⟨k, e⟩ := wk
  unfold Live Alive at hlive ⊢
  simp only [dbs_setDb] at hlive ⊢
  by_cases he : e = d
  · subst he
    rw [if_pos rfl]
    by_cases hk : k = key
    · subst hk
      rw [evict_evict]
      exact hlive
    · unfold Redis.evict at hlive ⊢
      rw [show keyIsExpired env 0 (if keyIsExpired env 0 (s.dbs e) key = true ∧ env.slave = false then (s.dbs e).erase key
        else s.dbs e) k = keyIsExpired env 0 (s.dbs e) k from keyIsExpired_evict_of_ne (s.dbs e) hk]
      split at hlive
      · simp at hlive
      · rename_i hexpired
        rw [if_neg hexpired]
        have hsame : (Redis.evict env 0 (s.dbs e) key).dict k = (s.dbs e).dict k := dict_evict_of_ne hk
        unfold Redis.evict at hsame
        rw [hsame]
        exact hlive
  · rw [if_neg he]
    exact hlive

/-- The keys for which a value is found. -/
def found (env : KeyEnv) (s : Server V) (d : DbId) (keys : List Bytes) : List Bytes :=
  keys.filter fun key => (readValue env 0 (s.dbs d) key).isSome

/-- **The lookups** return. -/
theorem lookupKeys_ok (env : KeyEnv) (d : DbId) (keys : List Bytes) : ∀ {s : Server V} (i : Nat), KeyspaceInv s →
    ∃ s' kv, lookupKeys env d i keys s = .ok (s', kv) ∧ KeyspaceInv s' := by
  induction keys with
  | nil => exact fun {s} i hinv => ⟨s, [], rfl, hinv⟩
  | cons key keys ih =>
    intro s i hinv
    obtain ⟨s', kv, hs', hinv'⟩ := ih (i + 1) (hinv.evict env i d key)
    exact ⟨s', _, bind_eq_ok.mpr ⟨_, lookupKeyRead_eq (hinv.consistent d) env i key, bind_eq_ok.mpr ⟨_, hs', rfl⟩⟩, hinv'⟩

/-- What they find, and what they leave. -/
theorem lookupKeys_found (hstill : Still env) (d : DbId) (keys : List Bytes) : ∀ {s s' : Server V} {kv : List (Bytes × V)}
    (i : Nat), KeyspaceInv s → lookupKeys env d i keys s = .ok (s', kv) →
      kv.map Prod.fst = found env s d keys ∧ ∀ wk, Live env s wk → s'.binding wk = s.binding wk := by
  induction keys with
  | nil =>
    intro s s' kv i hinv h
    obtain ⟨rfl, rfl⟩ := Prod.mk.inj (Except.ok.inj h)
    exact ⟨rfl, fun _ _ => rfl⟩
  | cons key keys ih =>
    intro s s' kv i hinv h
    have hlookup := lookupKeyRead_eq (hinv.consistent d) env i key
    rw [hstill.evict, hstill.readValue] at hlookup
    rw [lookupKeys, hlookup, ok_bind] at h
    obtain ⟨r, hr, h⟩ := bind_eq_ok.mp h
    obtain ⟨rfl, rfl⟩ := Prod.mk.inj (Except.ok.inj h)
    obtain ⟨hkv, hbinding⟩ := ih (i + 1) (hinv.evict env 0 d key) hr
    constructor
    · have hsame : found env (s.setDb d (evict env 0 (s.dbs d) key)) d keys = found env s d keys := by
        unfold found
        congr 1
        funext k
        rw [dbs_setDb, if_pos rfl, readValue_evict]
      rw [hsame] at hkv
      unfold found at hkv ⊢
      cases hvalue : readValue env 0 (s.dbs d) key with
      | none | some v => simpa [hvalue] using hkv
    · intro wk hlive
      rw [hbinding wk (hlive.evict key), binding_evict hlive]

/-! ### The guarantee -/

/-- The options, when the arguments are accepted. -/
def accepted (argv : List Bytes) : Option Options := (parseArgs argv).toOption.map Prod.fst

/-- The keys that the command names. -/
def namedKeys (argv : List Bytes) : List Bytes := ((accepted argv).map fun o => o.keys argv).getD []

/-- The `RESTORE` of the key has been answered with success; `keys` are the keys that are sent. -/
def Restored (net : Nat → Exchange) (keys : List Bytes) (log : List Event) (key : Bytes) : Prop :=
  ∃ (i : Nat) (select : Bool) (j : Nat) (l : Bytes), .sent i select ∈ log ∧ keys[j]? = some key ∧
    ((net i).answers (commands select keys.length))[(if select then 1 else 0) + j]? = some l ∧ positive l = true

/-- All of the commands of an attempt have been answered with success. -/
def Acknowledged (net : Nat → Exchange) (keys : List Bytes) (log : List Event) : Prop :=
  ∃ (i : Nat) (select : Bool), .sent i select ∈ log ∧
    AllPositive true (commands select keys.length) ((net i).answers (commands select keys.length))

/-- What the caller of `MIGRATE` relies on. -/
structure Safe (env : KeyEnv) (net : Nat → Exchange) (d : DbId) (argv : List Bytes) (s : State V) (c : Call V) : Prop where
  /-- A key is still there as it was, or the target has it. -/
  kept : ∀ wk, Live env s.server wk → c.server.binding wk = s.server.binding wk ∨
    (wk.db = d ∧ Restored net (found env s.server d (namedKeys argv)) c.log wk.key)
  copied : (accepted argv).any Options.copy = true → ∀ wk, Live env s.server wk → c.server.binding wk = s.server.binding wk
  /-- The `DEL` that is propagated names the keys that are deleted. -/
  propagated : ∃ deleted : List Bytes, deleted.Nodup ∧
    (∀ key, key ∈ deleted ↔ Live env s.server ⟨key, d⟩ ∧ (c.server.binding ⟨key, d⟩).1 = none) ∧
    c.propagated s = if deleted = [] then none else some (delName :: deleted)
  reply : ∃ r, c.replies = [r] ∧ (r = .ok ↔ found env s.server d (namedKeys argv) ≠ [] ∧
    Acknowledged net (found env s.server d (namedKeys argv)) c.log)
  /-- There is one retry at most, and none after a key has been deleted. -/
  retries : c.log.countP Event.isAttempt ≤ 2 ∧
    ∀ later key earlier, c.log = later ++ .deleted key :: earlier → ∀ i, .attempt i ∉ later

variable {argv : List Bytes} {net : Nat → Exchange} {s : State V}

theorem accepted_ok {r : Options × Int × Int} (h : parseArgs argv = .ok r) : accepted argv = some r.1 := by
  rw [accepted, h]
  rfl

/-- The options are refused with an error. -/
theorem parseOptions_error (argv : List Bytes) (args : List Bytes) : ∀ {j : Nat} {copy replace : Bool} {e : MigrateReply},
    parseOptions argv j args copy replace = .error e → e ≠ .ok := by
  induction args with
  | nil =>
    intro j copy replace e h
    cases h
  | cons a args ih =>
    intro j copy replace e h
    rw [parseOptions] at h
    split_ifs at h with hcopy hreplace hkeys hlen
    · exact ih h
    · exact ih h
    · cases h
      simp
    · cases h
      simp

theorem parseArgs_error {e : MigrateReply} (h : parseArgs argv = .error e) : e ≠ .ok := by
  unfold parseArgs at h
  cases hopts : parseOptions argv 6 (argv.drop 6) false false with
  | error e' =>
    rw [hopts] at h
    cases h
    exact parseOptions_error argv _ hopts
  | ok opts =>
    rw [hopts, ok_bind] at h
    cases htimeout : string2ll (arg argv 5) <;> cases hdbid : string2ll (arg argv 4) <;> rw [htimeout, hdbid] at h <;> cases h <;> simp

/-- A command that changes nothing and replies something else than `+OK`. -/
theorem Safe.refused {c : Call V} {r : MigrateReply}
    (hbinding : ∀ wk, Live env s.server wk → c.server.binding wk = s.server.binding wk)
    (hdirty : c.dirty = s.dirty) (hreplies : c.replies = [r]) (hr : r ≠ .ok) (hlog : c.log = []) :
    Safe env net d argv s c where
  kept wk hlive := .inl (hbinding wk hlive)
  copied _ := hbinding
  propagated := by
    refine ⟨[], List.nodup_nil, fun key => ?_, ?_⟩
    · constructor
      · intro hmem
        cases hmem
      · intro ⟨hlive, hnone⟩
        rw [hbinding _ hlive] at hnone
        obtain ⟨v, hv⟩ := Option.isSome_iff_exists.mp hlive
        rw [evict_of_found hv] at hv
        have hnone' : (s.server.dbs d).dict key = none := hnone
        rw [hnone'] at hv
        cases hv
    · rw [Call.propagated, hdirty, if_neg (by omega), if_pos rfl]
  reply := by
    refine ⟨r, hreplies, iff_of_false hr ?_⟩
    intro ⟨_, i, select, hmem, _⟩
    rw [hlog] at hmem
    cases hmem
  retries := by
    rw [hlog]
    refine ⟨by simp, fun later key earlier h => ?_⟩
    simp at h

/-- The attempts keep the guarantee. -/
theorem Migrated.safe {p : Params V} {acked : List Bytes} {events : List Event} {c c' : Call V}
    (h : Migrated p net acked events c c') (hd : p.d = d)
    (hkv : p.kv.map Prod.fst = found env s.server d (namedKeys argv)) (hne : p.kv ≠ [])
    (hnodup : (namedKeys argv).Nodup) (hopts : accepted argv = some p.opts)
    (hbinding : ∀ wk, Live env s.server wk → c.server.binding wk = s.server.binding wk)
    (hdirty : c.dirty = s.dirty) (hreplies : c.replies = []) (hlog : c.log = []) : Safe env net d argv s c' := by
  subst hd
  have hlen : p.kv.length = (found env s.server p.d (namedKeys argv)).length := by rw [← hkv, List.length_map]
  have hafter : ∀ wk, Live env s.server wk → c'.server.binding wk =
      if wk.db = p.d ∧ wk.key ∈ acked then (none, none) else s.server.binding wk := by
    intro wk hlive
    rw [h.tried.server, binding_deleteKeys, hbinding wk hlive]
  have hevents : c'.log = (acked.map Event.deleted).reverse ++ events := by
    rw [h.tried.log, hlog, List.append_nil]
  have hsent : ∀ {i select}, Event.sent i select ∈ c'.log ↔ Event.sent i select ∈ events := by
    intro i select
    rw [hevents]
    simp
  have hlive : ∀ key ∈ acked, Live env s.server ⟨key, p.d⟩ := by
    intro key hkey
    have hmem := h.sublist.mem hkey
    rw [hkv] at hmem
    exact live_of_readValue (List.mem_filter.mp hmem).2
  constructor
  · intro wk hwk
    rw [hafter wk hwk]
    by_cases hmem : wk.db = p.d ∧ wk.key ∈ acked
    · right
      obtain ⟨i, select, j, l, hi, hj, hl, hpos⟩ := h.answered wk.key hmem.2
      rw [hkv] at hj
      rw [hlen] at hl
      exact ⟨hmem.1, i, select, j, l, hsent.mpr hi, hj, hl, hpos⟩
    · exact .inl (if_neg hmem)
  · intro hcopy wk hwk
    rw [hopts] at hcopy
    rw [hafter wk hwk, h.copied hcopy]
    simp
  · refine ⟨acked, (hkv ▸ h.sublist : acked.Sublist _).nodup (hnodup.filter _), fun key => ?_, ?_⟩
    · constructor
      · intro hkey
        exact ⟨hlive key hkey, by rw [hafter _ (hlive key hkey), if_pos ⟨rfl, hkey⟩]⟩
      · intro ⟨hkey, hnone⟩
        by_contra hmem
        rw [hafter _ hkey, if_neg (fun h => hmem h.2)] at hnone
        obtain ⟨v, hv⟩ := Option.isSome_iff_exists.mp hkey
        rw [evict_of_found hv] at hv
        have hnone' : (s.server.dbs p.d).dict key = none := hnone
        rw [hnone'] at hv
        cases hv
    · rw [Call.propagated, h.tried.dirty, h.tried.argv, hdirty]
      cases acked with
      | nil => simp
      | cons key rest =>
        rw [if_pos (by rw [List.length_cons]; push_cast; omega), if_neg (by simp), if_neg (by simp)]
  · obtain ⟨r, hr, hok⟩ := h.reply
    refine ⟨r, by rw [hr, hreplies]; rfl, hok.trans ?_⟩
    rw [hlen]
    have hfound : found env s.server p.d (namedKeys argv) ≠ [] := by
      rw [← hkv]
      simpa using hne
    constructor
    · intro ⟨i, select, hmem, hall⟩
      exact ⟨hfound, i, select, hsent.mpr hmem, hall⟩
    · intro ⟨_, i, select, hmem, hall⟩
      exact ⟨i, select, hsent.mp hmem, hall⟩
  · have hattempt : ∀ e ∈ (acked.map Event.deleted).reverse, e.isAttempt = false := by
      intro e he
      obtain ⟨key, -, rfl⟩ := List.mem_map.mp (List.mem_reverse.mp he)
      rfl
    constructor
    · rw [hevents, List.countP_append, List.countP_eq_zero.mpr (fun e he => by rw [hattempt e he]; simp), Nat.zero_add]
      exact h.attempts
    · intro later key earlier hsplit i hmem
      rw [hevents] at hsplit
      -- the deletions come last
      rcases List.append_eq_append_iff.mp hsplit with ⟨more, hlater, hmore⟩ | ⟨more, hdeleted, hmore⟩
      · refine h.undeleted key ?_
        rw [hmore]
        simp
      · have := hattempt (.attempt i) (by rw [hdeleted]; exact List.mem_append_left _ hmem)
        cases this

variable (env) in
/-- **`MIGRATE`**, when the answers fit into the buffer. -/
theorem migrateCommand_spec (payload : V → Bytes) (hnet : ∀ i, (net i).Within 1022) (unixtime : Int) (d : DbId)
    (hinv : KeyspaceInv s.server) (hclean : Clean s.sockets) (argv : List Bytes) :
    ∃ c, migrateCommand env payload net unixtime d s argv = .ok c ∧ KeyspaceInv c.server ∧ Clean c.sockets ∧
      (Still env → (namedKeys argv).Nodup → Safe env net d argv s c) := by
  unfold migrateCommand
  cases hargs : parseArgs argv with
  | error e =>
    refine ⟨_, rfl, hinv, hclean, fun _ _ => ?_⟩
    exact Safe.refused (fun _ _ => rfl) rfl rfl (parseArgs_error hargs) rfl
  | ok r =>
    obtain ⟨opts, timeout, dbid⟩ := r
    have hopts := accepted_ok hargs
    have hnamed : namedKeys argv = opts.keys argv := by
      rw [namedKeys, hopts]
      rfl
    obtain ⟨s', kv, hlookup, hinv'⟩ := lookupKeys_ok env d (opts.keys argv) (s := s.server) 0 hinv
    simp only [hlookup, ok_bind]
    by_cases hempty : kv = []
    · rw [hempty, if_pos (by rfl)]
      refine ⟨_, rfl, hinv', hclean, fun hstill _ => ?_⟩
      obtain ⟨-, hbinding⟩ := lookupKeys_found hstill d _ 0 hinv hlookup
      exact Safe.refused hbinding rfl rfl (by simp) rfl
    · rw [if_neg (by simpa using hempty)]
      have hkv : 0 < kv.length := List.length_pos_iff.mpr hempty
      obtain ⟨c', acked, events, hc', hmigrated⟩ := migrateKeys_spec ⟨env, d, unixtime, payload, opts, dbid, kv⟩ hnet
        (opts.keys argv).length (c := { s with server := s', argv := argv, replies := [], log := [] }) hinv' hclean hkv
      refine ⟨c', hc', ?_, hmigrated.clean, fun hstill hnodup => ?_⟩
      · rw [hmigrated.tried.server]
        exact KeyspaceInv.deleteKeys hinv' acked
      · obtain ⟨hfound, hbinding⟩ := lookupKeys_found hstill d _ 0 hinv hlookup
        rw [← hnamed] at hfound
        exact hmigrated.safe rfl hfound hempty hnodup hopts hbinding rfl rfl rfl

/-! ### Runs -/

/-- The states of a server whose targets give no answer that is longer than `M` bytes. -/
inductive Reachable (payload : V → Bytes) (M : Nat) : State V → Prop
  | start {s : State V} (hinv : KeyspaceInv s.server) (hsockets : s.sockets = []) : Reachable payload M s
  | migrate {s : State V} {env : KeyEnv} {net : Nat → Exchange} {unixtime : Int} {d : DbId} {argv : List Bytes} {c : Call V}
      (h : Reachable payload M s) (hnet : ∀ i, (net i).Within M)
      (hc : migrateCommand env payload net unixtime d s argv = .ok c) : Reachable payload M c.toState
  | cron {s : State V} (unixtime : Int) (h : Reachable payload M s) :
      Reachable payload M (migrateCloseTimedoutSockets unixtime s)
  /-- Other commands. -/
  | other {s : State V} {server : Server V} (dirty : Int) (h : Reachable payload M s) (hinv : KeyspaceInv server) :
      Reachable payload M { s with server := server, dirty := dirty }

theorem Reachable.inv {payload : V → Bytes} (h : Reachable payload 1022 s) :
    KeyspaceInv s.server ∧ Clean s.sockets := by
  induction h with
  | start hinv hsockets =>
    refine ⟨hinv, ?_⟩
    rw [hsockets]
    intro x hx
    cases hx
  | @migrate s env net unixtime d argv c h hnet hc ih =>
    obtain ⟨c', hc', hinv, hclean, -⟩ := migrateCommand_spec env payload hnet unixtime d ih.1 ih.2 argv
    rw [hc] at hc'
    obtain rfl := Except.ok.inj hc'
    exact ⟨hinv, hclean⟩
  | cron unixtime h ih => exact ⟨ih.1, fun x hx => ih.2 x (List.mem_of_mem_filter hx)⟩
  | other dirty h hinv ih => exact ⟨hinv, ih.2⟩

theorem Reachable.mono {payload : V → Bytes} {M N : Nat} (hle : M ≤ N) (h : Reachable payload M s) :
    Reachable payload N s := by
  induction h with
  | start hinv hsockets => exact .start hinv hsockets
  | migrate h hnet hc ih => exact .migrate ih (fun i k => (hnet i k).trans hle) hc
  | cron unixtime h ih => exact .cron unixtime ih
  | other dirty h hinv ih => exact .other dirty ih hinv

/-! ### Answers that are too long -/

section Long

/-- No client, and two keys. -/
def twoKeys (v : V) : State V where
  server := { dbs := fun _ => { dict := fun k => if k = [97] ∨ k = [98] then some v else none, expires := fun _ => none,
                                watchedKeys := fun _ => none },
              clients := fun _ => none, clientList := [], log := [] }
  sockets := []
  dirty := 0

/-- A master without a cluster. -/
def plainEnv : KeyEnv where
  dbnum := 16
  clusterEnabled := false
  loading := false
  slave := false
  luaTimeStart := none
  readonlyClient := false
  mstime := fun _ => 1000

/-- `MIGRATE h 1 "" <dbid> 1000 KEYS a b`. -/
def migrateBoth (dbid : Bytes) : List Bytes :=
  [[109], [104], [49], [], dbid, [49, 48, 48, 48], keysName, [97], [98]]

/-- The target gives one answer to the first command and another to all others, of which `n` bytes arrive. -/
def answering (first others : Line) (n : Nat) : Exchange where
  victim := 0
  refused := none
  writable := true
  writeFails := fun _ => none
  answer := fun i => if i = 0 then first else others
  arriving := n
  timedOut := true

/-- A line of `n + 1` bytes. -/
def longLine (c : UInt8) (hc : c ≠ 10) (n : Nat) : Line :=
  ⟨c :: List.replicate n 120, by
    intro h
    rcases List.mem_cons.mp h with h | h
    · exact hc h.symm
    · exact absurd (List.eq_of_mem_replicate h) (by decide)⟩

theorem length_longLine (c : UInt8) (hc : c ≠ 10) (n : Nat) : (longLine c hc n).1.length = n + 1 := by
  rw [longLine, List.length_cons, List.length_replicate]

/-- `+OK`. -/
def okLine : Line := ⟨[43, 79, 75, 13], by decide⟩

theorem twoKeys_inv (v : V) : KeyspaceInv (twoKeys v).server := by
  constructor
  · constructor <;> simp [twoKeys, Server.watchers]
  · intro d k hk
    simp [twoKeys] at hk

/-- A run on fixed input, by what is decided of its result. -/
theorem exists_of_any {c : Except ServerFault (Call V)} {f : Call V → Bool} (h : c.toOption.any f = true) :
    ∃ c', c = .ok c' ∧ f c' = true := by
  cases c with
  | error e => cases h
  | ok c' => exact ⟨c', rfl, h⟩

/-- **A key is lost.**  The target refuses the first of two keys with an error of 1100 bytes and fails.  The end of
    the error is taken for the answer to the second key. -/
theorem migrate_long_error : ∃ c,
    migrateCommand plainEnv (fun _ : Unit => []) (fun _ => answering (longLine 45 (by decide) 1099) okLine 1101) 0 0
      (twoKeys ()) (migrateBoth [45, 49]) = .ok c ∧
    c.server.binding ⟨[98], 0⟩ = (none, none) ∧ c.propagated (twoKeys ()) = some [delName, [98]] ∧
    ¬ Safe plainEnv (fun _ => answering (longLine 45 (by decide) 1099) okLine 1101) 0 (migrateBoth [45, 49]) (twoKeys ()) c := by
  obtain ⟨c, hc, hrun⟩ := exists_of_any (V := Unit) (c := migrateCommand plainEnv (fun _ => [])
      (fun _ => answering (longLine 45 (by decide) 1099) okLine 1101) 0 0 (twoKeys ()) (migrateBoth [45, 49]))
    (f := fun c => decide (c.server.binding ⟨[98], 0⟩ = (none, none) ∧ c.propagated (twoKeys ()) = some [delName, [98]] ∧
      c.log = [.deleted [98], .sent 0 false, .attempt 0])) (by decide +kernel)
  obtain ⟨hbinding, hpropagated, hlog⟩ := of_decide_eq_true hrun
  refine ⟨c, hc, hbinding, hpropagated, fun hsafe => ?_⟩
  have hfound : found plainEnv (twoKeys ()).server 0 (namedKeys (migrateBoth [45, 49])) = [[97], [98]] := by rfl
  rcases hsafe.kept ⟨[98], 0⟩ rfl with hkept | ⟨-, i, select, j, l, hsent, hj, hl, -⟩
  · rw [hbinding] at hkept
    cases hkept
  · -- only the first answer has arrived
    rw [hlog] at hsent
    obtain ⟨rfl, rfl⟩ : i = 0 ∧ select = false := by simpa using hsent
    rw [hfound] at hj hl
    have hone : ((answering (longLine 45 (by decide) 1099) okLine 1101).answers (commands false 2)).length = 1 := by
      decide +kernel
    have hj' : j < 1 := by
      have := (List.getElem?_eq_some_iff.mp hl).1
      simpa [hone] using this
    obtain rfl : j = 0 := by omega
    simp at hj

/-- An answer of 1023 bytes: it is acknowledged, and the command fails. -/
theorem not_safe_1023 : ∃ c,
    migrateCommand plainEnv (fun _ : Unit => []) (fun _ => answering (longLine 43 (by decide) 1022) okLine 1029) 0 0
      (twoKeys ()) (migrateBoth [45, 49]) = .ok c ∧
    ¬ Safe plainEnv (fun _ => answering (longLine 43 (by decide) 1022) okLine 1029) 0 (migrateBoth [45, 49]) (twoKeys ()) c := by
  obtain ⟨c, hc, hrun⟩ := exists_of_any (V := Unit) (c := migrateCommand plainEnv (fun _ => [])
      (fun _ => answering (longLine 43 (by decide) 1022) okLine 1029) 0 0 (twoKeys ()) (migrateBoth [45, 49]))
    (f := fun c => decide (c.replies = [ioError false] ∧ .sent 0 false ∈ c.log)) (by decide +kernel)
  obtain ⟨hreplies, hsent⟩ := of_decide_eq_true hrun
  refine ⟨c, hc, fun hsafe => ?_⟩
  have hfound : found plainEnv (twoKeys ()).server 0 (namedKeys (migrateBoth [45, 49])) = [[97], [98]] := by rfl
  obtain ⟨r, hr, hok⟩ := hsafe.reply
  rw [hreplies] at hr
  obtain rfl : ioError false = r := by simpa using hr
  have hall : AllPositive true (commands false 2)
      ((answering (longLine 43 (by decide) 1022) okLine 1029).answers (commands false 2)) := by
    unfold AllPositive
    decide +kernel
  rw [hfound] at hok
  have := hok.mpr ⟨by simp, 0, false, hsent, hall⟩
  simp [ioError] at this

end Long

/-- **`MIGRATE` never loses a key**, in all runs, if and only if the targets give no answer of more than 1022 bytes. -/
theorem migrate_safe_iff (M : Nat) :
    (∀ (V : Type) (payload : V → Bytes) (s : State V) (env : KeyEnv) (net : Nat → Exchange) (unixtime : Int) (d : DbId)
      (argv : List Bytes), Reachable payload M s → Still env → (∀ i, (net i).Within M) → (namedKeys argv).Nodup →
      ∃ c, migrateCommand env payload net unixtime d s argv = .ok c ∧ Safe env net d argv s c) ↔ M ≤ 1022 := by
  constructor
  · intro h
    by_contra hM
    obtain ⟨c, hc, hbad⟩ := not_safe_1023
    have hwithin : ∀ i : Nat, ((fun _ => answering (longLine 43 (by decide) 1022) okLine 1029) i).Within M := by
      intro _ k
      simp only [answering]
      split
      · rw [length_longLine]
        omega
      · simp [okLine]
        omega
    obtain ⟨c', hc', hsafe⟩ := h Unit (fun _ => []) (twoKeys ()) plainEnv _ 0 0 (migrateBoth [45, 49])
      (.start (twoKeys_inv ()) rfl) (fun _ => rfl) hwithin (by decide)
    rw [hc] at hc'
    obtain rfl := Except.ok.inj hc'
    exact hbad hsafe
  · intro hM V payload s env net unixtime d argv hs hstill hnet hnodup
    obtain ⟨hinv, hclean⟩ := (hs.mono hM).inv
    obtain ⟨c, hc, -, -, hsafe⟩ := migrateCommand_spec env payload (fun i k => (hnet i k).trans hM) unixtime d hinv
      hclean argv
    exact ⟨c, hc, hsafe hstill hnodup⟩

end Redis.Migrate
