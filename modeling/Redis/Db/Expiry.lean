import Redis.Db.Keyspace

namespace Redis

open Outcome Server RedisDb

/-!
# Keys that are out of date

A key stays in the dictionaries until somebody looks at it.  On a master a command has to
behave as if a key that is out of date did not exist.

* `KeyAccess` — the ways in which a command gets at a key;
* `AsIfAbsent` — it does the same as on the server without the key;
* `Observes` — when a command notices the key: `PERSIST` always, and the others when the
  time to live is negative, which `expireIfNeeded` takes for none;
* `expired_key_unobserved_iff` — a command behaves as if the key did not exist if and only if it does
  not notice it.
-/

section Expiry

variable {V : Type} {env : KeyEnv} {s t : Server V} {d e : DbId} {k : Bytes} {w : Int} {i : Nat}

/-- A master that is not loading and not inside of a script. -/
structure KeyEnv.Master (env : KeyEnv) : Prop where
  loading : env.loading = false
  slave : env.slave = false
  lua : env.luaTimeStart = none

/-- How a command gets at keys. -/
inductive KeyAccess
  /-- Any command that starts with `lookupKeyRead`. -/
  | lookupRead (key : Bytes)
  /-- Any command that starts with `lookupKeyWrite`. -/
  | lookupWrite (key : Bytes)
  | rename (nx : Bool) (key newkey : Bytes)
  | move (key db : Bytes)
  | expire (relative : Bool) (unit : TimeUnit) (key param : Bytes)
  | persist (key : Bytes)

/-- A command of a client whose database is `d`; `body` is what a command does with the key it has looked up. -/
def KeyAccess.run (env : KeyEnv) (body : Option V → Server V → Except ServerFault (Server V × KeyReply))
    (s : Server V) (d : DbId) : KeyAccess → Except ServerFault (Server V × KeyReply)
  | .lookupRead key => do
      let r ← lookupKeyRead env 0 (s.dbs d) key
      body r.2 (s.setDb d r.1)
  | .lookupWrite key => do
      let r ← lookupKeyWrite env 0 (s.dbs d) key
      body r.2 (s.setDb d r.1)
  | .rename nx key newkey => renameGenericCommand env s d nx key newkey
  | .move key db => moveCommand env s d key db
  | .expire relative unit key param =>
      expireGenericCommand env s d (if relative then env.mstime 0 else 0) unit key param
  | .persist key => persistCommand s d key

/-- The command is about the key `k` of the database `e`. -/
def KeyAccess.Mentions (env : KeyEnv) (d e : DbId) (k : Bytes) : KeyAccess → Prop
  | .lookupRead key | .lookupWrite key | .expire _ _ key _ | .persist key => d = e ∧ key = k
  | .rename _ key newkey => d = e ∧ (key = k ∨ newkey = k)
  | .move key arg => key = k ∧ (d = e ∨ moveTarget env arg = some e)

/-- The server without the key. -/
def Server.without (s : Server V) (e : DbId) (k : Bytes) : Server V := s.setDb e ((s.dbs e).erase k)

/-- The same outcome, or one that differs in nothing but the key, which then is what it was. -/
def SameBut (s : Server V) (e : DbId) (k : Bytes) (x y : Except ServerFault (Server V × KeyReply)) : Prop :=
  x = y ∨ ∃ t r, x = .ok (t, r) ∧ y = .ok (t.without e k, r) ∧ t.binding ⟨k, e⟩ = s.binding ⟨k, e⟩

/-- The command does what it would do if the key did not exist. -/
def AsIfAbsent (env : KeyEnv) (s : Server V) (d e : DbId) (k : Bytes) (acc : KeyAccess) : Prop :=
  ∀ body, SameBut s e k (acc.run env body s d) (acc.run env body (s.without e k) d)

/-- The key is there once `expireIfNeeded` has looked at it. -/
def Alive (env : KeyEnv) (i : Nat) (s : Server V) (d : DbId) (key : Bytes) : Prop :=
  ((evict env i (s.dbs d) key).dict key).isSome = true

/-- The command notices the key `k` of `e`, whose time to live is `w`. -/
def Observes (env : KeyEnv) (s : Server V) (d e : DbId) (k : Bytes) (w : Int) : KeyAccess → Prop
  | .persist _ => True
  | .lookupRead _ | .lookupWrite _ => w < 0
  | .expire _ _ _ param => w < 0 ∧ (string2ll param).isSome = true
  | .rename nx key _ => w < 0 ∧ (key = k ∨ (nx = true ∧ Alive env 0 s d key))
  | .move _ arg => w < 0 ∧ env.clusterEnabled = false ∧ ∃ dst, moveTarget env arg = some dst ∧ d ≠ dst ∧
      (if d = e then ¬ Alive env 1 s dst k else Alive env 0 s d k)

/-! ### The key and its neighbours -/

theorem KeyEnv.Master.now (h : env.Master) (i : Nat) : env.now i = env.mstime i := by
  unfold KeyEnv.now
  rw [h.lua]
  rfl

@[simp] theorem dbs_without (x : DbId) :
    (s.without e k).dbs x = if x = e then (s.dbs e).erase k else s.dbs x := rfl

theorem KeyspaceInv.without (h : KeyspaceInv s) (e : DbId) (k : Bytes) : KeyspaceInv (s.without e k) :=
  h.setDb ((h.consistent e).erase k) rfl

/-- The key is deleted when it is looked at, unless its time to live is negative. -/
theorem evict_expired (hmaster : env.Master) (hkey : (s.dbs e).expires k = some w) (hw : ∀ i, w < env.mstime i)
    (i : Nat) : evict env i (s.dbs e) k = if 0 ≤ w then (s.dbs e).erase k else s.dbs e := by
  unfold evict
  have hlt : w < env.now i := by
    rw [hmaster.now]
    exact hw i
  rw [keyIsExpired_some hkey, hmaster.loading, hmaster.slave]
  by_cases hpos : 0 ≤ w <;> simp [hpos, hlt]

/-- A key that does not exist is not evicted. -/
theorem evict_erase_self (db : RedisDb V) (key : Bytes) : evict env i (db.erase key) key = db.erase key := by
  apply evict_of_false
  apply keyIsExpired_eq_false
  rw [expires_erase, if_pos rfl]

/-- Other keys are evicted or not, whether the key is there or not. -/
theorem evict_erase_of_ne (db : RedisDb V) {key : Bytes} (hne : key ≠ k) :
    evict env i (db.erase k) key = (evict env i db key).erase k := by
  have hexp : keyIsExpired env i (db.erase k) key = keyIsExpired env i db key := by
    unfold keyIsExpired
    rw [expires_erase, if_neg hne]
  unfold evict
  rw [hexp]
  split
  · apply ext_get
    · intro x
      by_cases hx : x = key <;> by_cases hx' : x = k <;> simp [hx, hx']
    · intro x
      by_cases hx : x = key <;> by_cases hx' : x = k <;> simp [hx, hx']
    · rfl
  · rfl

theorem alive_without_of_ne {key : Bytes} (hne : ¬ (d = e ∧ key = k)) :
    (evict env i ((s.without e k).dbs d) key).dict key = (evict env i (s.dbs d) key).dict key := by
  rw [dbs_without]
  by_cases hd : d = e
  · have hkey : key ≠ k := fun h => hne ⟨hd, h⟩
    rw [if_pos hd, evict_erase_of_ne _ hkey, dict_erase, if_neg hkey, hd]
  · rw [if_neg hd]

/-! ### Outcomes -/

theorem SameBut.reply_eq {a b : Server V × KeyReply} (h : SameBut s e k (.ok a) (.ok b)) : a.2 = b.2 := by
  rcases h with h | ⟨t, r, ha, hb, -⟩
  · rw [Except.ok.inj h]
  · rw [Except.ok.inj ha, Except.ok.inj hb]

theorem SameBut.same (r : KeyReply) : SameBut s e k (.ok (s, r)) (.ok (s.without e k, r)) :=
  .inr ⟨s, r, rfl, rfl, rfl⟩

/-- The rest of a command that shows whether the key was there. -/
def showKey (v : Option V) (s : Server V) : Except ServerFault (Server V × KeyReply) :=
  .ok (s, .int (if v.isSome then 1 else 0))

theorem forall_body {P : Prop} :
    ((∀ _ : Option V → Server V → Except ServerFault (Server V × KeyReply), P) ↔ P) :=
  ⟨fun h => h showKey, fun h _ => h⟩

/-- A lookup, by what it returns with the key and without. -/
theorem lookup_unobserved_iff {x y : Except ServerFault (RedisDb V × Option V)} {v : V}
    (hx : x = .ok (if 0 ≤ w then ((s.dbs e).erase k, none) else (s.dbs e, some v)))
    (hy : y = .ok ((s.dbs e).erase k, none)) :
    (∀ body : Option V → Server V → Except ServerFault (Server V × KeyReply),
      SameBut s e k (x >>= fun r => body r.2 (s.setDb e r.1))
        (y >>= fun r => body r.2 ((s.without e k).setDb e r.1))) ↔ ¬ w < 0 := by
  rw [hx, hy]
  simp only [ok_bind, Server.without, setDb_setDb]
  by_cases hpos : 0 ≤ w
  · rw [if_pos hpos]
    exact iff_of_true (fun body => .inl rfl) (by omega)
  · rw [if_neg hpos]
    refine iff_of_false (fun h => ?_) (by omega)
    have hreply := (h showKey).reply_eq
    simp at hreply

theorem dict_erase_self {a : RedisDb V} : (a.erase k).dict k = none := if_pos rfl

/-- Nothing is left to evict. -/
theorem evict_without {i : Nat} : evict env i ((s.without e k).dbs e) k = (s.dbs e).erase k := by
  rw [dbs_without, if_pos rfl, evict_erase_self]

section

variable (hinv : KeyspaceInv s) (hmaster : env.Master) (hkey : (s.dbs e).expires k = some w)
  (hw : ∀ i, w < env.mstime i)

include hinv hkey

/-- A key with a TTL has a value. -/
theorem exists_value : ∃ v, (s.dbs e).dict k = some v :=
  Option.isSome_iff_exists.mp (hinv.consistent e k (by rw [hkey]; rfl))

theorem persist_observed : ¬ AsIfAbsent env s e e k (.persist k) := by
  obtain ⟨v, hv⟩ := exists_value hinv hkey
  intro h
  have hsame : SameBut s e k (persistCommand s e k) (persistCommand (s.without e k) e k) := h showKey
  rw [persistCommand_eq, persistCommand_eq] at hsame
  have hreply := hsame.reply_eq
  simp [persistResult, hv, hkey] at hreply

include hmaster hw

theorem lookupWrite_unobserved_iff : AsIfAbsent env s e e k (.lookupWrite k) ↔ ¬ w < 0 := by
  obtain ⟨v, hv⟩ := exists_value hinv hkey
  refine lookup_unobserved_iff (v := v) ?_ ?_
  · rw [lookupKeyWrite_eq (hinv.consistent e), evict_expired hmaster hkey hw]
    split
    · rw [dict_erase, if_pos rfl]
    · rw [hv]
  · rw [lookupKeyWrite_eq ((hinv.without e k).consistent e), dbs_without, if_pos rfl, evict_erase_self, dict_erase,
      if_pos rfl]

theorem lookupRead_unobserved_iff : AsIfAbsent env s e e k (.lookupRead k) ↔ ¬ w < 0 := by
  obtain ⟨v, hv⟩ := exists_value hinv hkey
  refine lookup_unobserved_iff (v := v) ?_ ?_
  · rw [lookupKeyRead_eq (hinv.consistent e)]
    have hlt : w < env.now 0 := by
      rw [hmaster.now]
      exact hw 0
    unfold readValue
    rw [evict_expired hmaster hkey hw, keyIsExpired_some hkey, hmaster.loading, hmaster.slave]
    by_cases hpos : 0 ≤ w <;> simp [hpos, hlt, hv]
  · rw [lookupKeyRead_eq ((hinv.without e k).consistent e)]
    unfold readValue
    rw [dbs_without, if_pos rfl, evict_erase_self, dict_erase, if_pos rfl]
    split <;> rfl

theorem expire_unobserved_iff (relative : Bool) (unit : TimeUnit) (param : Bytes) :
    AsIfAbsent env s e e k (.expire relative unit k param) ↔ ¬ (w < 0 ∧ (string2ll param).isSome = true) := by
  obtain ⟨v, hv⟩ := exists_value hinv hkey
  show (∀ body : Option V → Server V → Except ServerFault (Server V × KeyReply),
    SameBut s e k (expireGenericCommand env s e (if relative then env.mstime 0 else 0) unit k param)
      (expireGenericCommand env (s.without e k) e (if relative then env.mstime 0 else 0) unit k param)) ↔ _
  generalize (if relative = true then env.mstime 0 else 0) = basetime
  rw [expireGenericCommand_eq hinv, expireGenericCommand_eq (hinv.without e k)]
  unfold expireResult
  cases hparam : string2ll param with
  | none => exact iff_of_true (fun _ => .same _) (by simp)
  | some n =>
    simp only [evict_without, dict_erase_self, evict_expired hmaster hkey hw]
    by_cases hpos : 0 ≤ w
    · simp only [if_pos hpos, dict_erase_self]
      refine iff_of_true (fun _ => .inl ?_) (by omega)
      rw [Server.without, setDb_setDb]
    · simp only [if_neg hpos, hv]
      refine iff_of_false (fun h => ?_) (by simp; omega)
      have hreply := (h showKey).reply_eq
      split at hreply <;> simp at hreply

/-- `RENAME` of the key itself. -/
theorem renameFrom_unobserved_iff (nx : Bool) (newkey : Bytes) :
    SameBut s e k (.ok (renameResult env s e nx k newkey)) (.ok (renameResult env (s.without e k) e nx k newkey)) ↔
      ¬ w < 0 := by
  obtain ⟨v, hv⟩ := exists_value hinv hkey
  have hwithout : renameResult env (s.without e k) e nx k newkey = (s.without e k, nokeyerr) := by
    unfold renameResult
    rw [evict_without, dict_erase_self, Server.without, setDb_setDb]
  rw [hwithout]
  unfold renameResult
  rw [evict_expired hmaster hkey hw]
  by_cases hpos : 0 ≤ w
  · rw [if_pos hpos, dict_erase_self]
    exact iff_of_true (.inl rfl) (by omega)
  · rw [if_neg hpos, hv]
    refine iff_of_false (fun h => ?_) (by omega)
    have hreply := h.reply_eq
    cases nx <;> simp only [nokeyerr] at hreply <;> repeat' split at hreply
    all_goals cases hreply

/-- `RENAME` of another key to this one. -/
theorem renameTo_unobserved_iff (nx : Bool) {key : Bytes} (hne : key ≠ k) :
    SameBut s e k (.ok (renameResult env s e nx key k)) (.ok (renameResult env (s.without e k) e nx key k)) ↔
      ¬ (w < 0 ∧ nx = true ∧ Alive env 0 s e key) := by
  obtain ⟨v, hv⟩ := exists_value hinv hkey
  have hsame : (evict env 0 ((s.without e k).dbs e) key).dict key = (evict env 0 (s.dbs e) key).dict key :=
    alive_without_of_ne fun h => hne h.2
  unfold renameResult Alive
  rw [hsame]
  cases hfound : (evict env 0 (s.dbs e) key).dict key with
  | none =>
    refine iff_of_true (.inr ⟨s.setDb e (evict env 0 (s.dbs e) key), nokeyerr, rfl, ?_, ?_⟩) (by simp)
    · simp only [evict_erase_of_ne _ hne, Server.without, setDb_setDb, dbs_setDb, if_true]
    · unfold Server.binding
      simp [dict_evict_of_ne (Ne.symm hne), expires_evict_of_ne (Ne.symm hne)]
  | some o =>
    have hcongr : renamed ((s.dbs e).erase k) key k o = renamed (s.dbs e) key k o :=
      renamed_congr hne (fun x hx => if_neg hx) (fun x hx => if_neg hx) watchedKeys_erase o
    have hset : (s.without e k).setDb e (renamed ((s.without e k).dbs e) key k o)
        = s.setDb e (renamed (s.dbs e) key k o) := by
      rw [dbs_without, if_pos rfl, hcongr, Server.without, setDb_setDb]
    simp only [if_neg hne, evict_without, dict_erase_self, hset, evict_expired hmaster hkey hw]
    by_cases hpos : 0 ≤ w
    · simp only [if_pos hpos, dict_erase_self]
      refine iff_of_true (.inl ?_) (by omega)
      simp
    · simp only [if_neg hpos, hv]
      cases nx with
      | false => exact iff_of_true (.inl (by simp)) (by simp)
      | true =>
        refine iff_of_false (fun h => ?_) (by simp; omega)
        have hreply := h.reply_eq
        simp at hreply

end

theorem setDb_comm (hne : d ≠ e) (a b : RedisDb V) : (s.setDb d a).setDb e b = (s.setDb e b).setDb d a := by
  unfold Server.setDb
  congr 1
  ext x
  by_cases hd : x = d
  · have he : x ≠ e := fun he => hne (hd.symm.trans he)
    simp [hd, hne]
  · simp [hd]

theorem put_erase (db : RedisDb V) (v : V) (o : Option Int) : (db.erase k).put k v o = db.put k v o := by
  apply ext_get
  · intro x
    by_cases hx : x = k <;> simp [hx]
  · intro x
    by_cases hx : x = k <;> simp [hx]
  · rfl

variable {arg : Bytes}

section

variable (hinv : KeyspaceInv s) (hmaster : env.Master) (hkey : (s.dbs e).expires k = some w)
  (hw : ∀ i, w < env.mstime i) (hcluster : env.clusterEnabled = false)

include hinv hmaster hkey hw hcluster

/-- `MOVE` of the key itself. -/
theorem moveFrom_unobserved_iff {dst : DbId} (hdst : moveTarget env arg = some dst) (hne : e ≠ dst) :
    SameBut s e k (.ok (moveResult env s e k arg)) (.ok (moveResult env (s.without e k) e k arg)) ↔
      ¬ (w < 0 ∧ ¬ Alive env 1 s dst k) := by
  obtain ⟨v, hv⟩ := exists_value hinv hkey
  have hwithout : moveResult env (s.without e k) e k arg = (s.without e k, .int 0) := by
    unfold moveResult
    simp only [hcluster, hdst, if_neg hne, evict_without, dict_erase_self, Bool.false_eq_true, if_false]
    rw [Server.without, setDb_setDb]
  rw [hwithout]
  unfold moveResult Alive
  simp only [hcluster, hdst, if_neg hne, evict_expired hmaster hkey hw, Bool.false_eq_true, if_false]
  by_cases hpos : 0 ≤ w
  · simp only [if_pos hpos, dict_erase_self]
    exact iff_of_true (.inl rfl) (by omega)
  · simp only [if_neg hpos, hv]
    by_cases halive : ((evict env 1 (s.dbs dst) k).dict k).isSome = true
    · rw [if_pos halive]
      exact iff_of_true (.same _) fun h => h.2 halive
    · rw [if_neg halive]
      refine iff_of_false (fun h => ?_) (not_not.mpr ⟨by omega, halive⟩)
      have hreply := h.reply_eq
      simp at hreply

/-- `MOVE` of the key of another database to this one. -/
theorem moveTo_unobserved_iff (hdst : moveTarget env arg = some e) (hne : d ≠ e) :
    SameBut s e k (.ok (moveResult env s d k arg)) (.ok (moveResult env (s.without e k) d k arg)) ↔
      ¬ (w < 0 ∧ Alive env 0 s d k) := by
  obtain ⟨v, hv⟩ := exists_value hinv hkey
  have hother : (s.without e k).dbs d = s.dbs d := if_neg hne
  have hthis : (s.without e k).dbs e = (s.dbs e).erase k := if_pos rfl
  unfold moveResult Alive
  simp only [hcluster, hdst, if_neg hne, hother, hthis, evict_erase_self, dict_erase_self, evict_expired hmaster hkey hw,
    put_erase, Bool.false_eq_true, if_false]
  cases hfound : (evict env 0 (s.dbs d) k).dict k with
  | none =>
    refine iff_of_true (.inr ⟨s.setDb d (evict env 0 (s.dbs d) k), .int 0, rfl, ?_, ?_⟩) (by simp)
    · simp only [Server.without, dbs_setDb, if_neg (Ne.symm hne), setDb_comm hne]
    · unfold Server.binding
      simp [Ne.symm hne]
  | some o =>
    by_cases hpos : 0 ≤ w
    · simp only [if_pos hpos, dict_erase_self, Server.without, setDb_setDb]
      exact iff_of_true (.inl rfl) (by omega)
    · simp only [if_neg hpos, hv]
      refine iff_of_false (fun h => ?_) (not_not.mpr ⟨by omega, rfl⟩)
      have hreply := h.reply_eq
      simp at hreply

end

/-- A `MOVE` that looks at no key. -/
theorem moveResult_refused
    (h : env.clusterEnabled = true ∨ moveTarget env arg = none ∨ moveTarget env arg = some d) :
    SameBut s e k (.ok (moveResult env s d k arg)) (.ok (moveResult env (s.without e k) d k arg)) := by
  unfold moveResult
  rcases h with h | h | h
  · simp only [h, if_true]
    exact .same _
  · cases env.clusterEnabled <;> simp only [h, if_true, Bool.false_eq_true, if_false] <;> exact .same _
  · cases env.clusterEnabled <;> simp only [h, if_true, Bool.false_eq_true, if_false] <;> exact .same _

theorem move_unobserved_iff (hinv : KeyspaceInv s) (hmaster : env.Master) (hkey : (s.dbs e).expires k = some w)
    (hw : ∀ i, w < env.mstime i) (hmention : d = e ∨ moveTarget env arg = some e) :
    AsIfAbsent env s d e k (.move k arg) ↔ ¬ Observes env s d e k w (.move k arg) := by
  show (∀ body : Option V → Server V → Except ServerFault (Server V × KeyReply),
    SameBut s e k (moveCommand env s d k arg) (moveCommand env (s.without e k) d k arg)) ↔ _
  rw [moveCommand_eq hinv, moveCommand_eq (hinv.without e k), forall_body]
  by_cases hcluster : env.clusterEnabled = false
  · cases hdst : moveTarget env arg with
    | none =>
      refine iff_of_true (moveResult_refused (.inr (.inl hdst))) ?_
      intro ⟨_, _, dst, hdst', _⟩
      rw [hdst] at hdst'
      cases hdst'
    | some dst =>
      by_cases hne : d = dst
      · refine iff_of_true (moveResult_refused (.inr (.inr (by rw [hdst, hne])))) ?_
        intro ⟨_, _, dst', hdst', hne', _⟩
        rw [hdst] at hdst'
        cases hdst'
        exact hne' hne
      · have hobserves : Observes env s d e k w (.move k arg) ↔
            w < 0 ∧ (if d = e then ¬ Alive env 1 s dst k else Alive env 0 s d k) := by
          constructor
          · intro ⟨hneg, _, dst', hdst', _, h⟩
            rw [hdst] at hdst'
            cases hdst'
            exact ⟨hneg, h⟩
          · intro ⟨hneg, h⟩
            exact ⟨hneg, hcluster, dst, hdst, hne, h⟩
        rw [hobserves]
        by_cases hd : d = e
        · subst hd
          rw [if_pos rfl]
          exact moveFrom_unobserved_iff hinv hmaster hkey hw hcluster hdst hne
        · rcases hmention with hmention | hmention
          · exact absurd hmention hd
          · rw [if_neg hd]
            exact moveTo_unobserved_iff hinv hmaster hkey hw hcluster hmention hd
  · refine iff_of_true (moveResult_refused (.inl (Bool.eq_true_of_not_eq_false hcluster))) ?_
    intro ⟨_, hcluster', _⟩
    exact hcluster hcluster'

/-- **Keys that are out of date are not observed**: on a master, a command that is about such a key does what it
    would do if the key did not exist, unless it is one of those that notice it. -/
theorem expired_key_unobserved_iff (hinv : KeyspaceInv s) (hmaster : env.Master) {time : Int}
    (hkey : (s.dbs e).expires k = some w) (hexpired : w < time) (hclock : ∀ i, time ≤ env.mstime i) {acc : KeyAccess}
    (hmention : acc.Mentions env d e k) : AsIfAbsent env s d e k acc ↔ ¬ Observes env s d e k w acc := by
  have hw : ∀ i, w < env.mstime i := fun i => lt_of_lt_of_le hexpired (hclock i)
  cases acc with
  | lookupRead key =>
    obtain ⟨rfl, rfl⟩ := hmention
    exact lookupRead_unobserved_iff hinv hmaster hkey hw
  | lookupWrite key =>
    obtain ⟨rfl, rfl⟩ := hmention
    exact lookupWrite_unobserved_iff hinv hmaster hkey hw
  | expire relative unit key param =>
    obtain ⟨rfl, rfl⟩ := hmention
    exact expire_unobserved_iff hinv hmaster hkey hw relative unit param
  | persist key =>
    obtain ⟨rfl, rfl⟩ := hmention
    exact iff_of_false (persist_observed hinv hkey) (not_not.mpr trivial)
  | move key arg =>
    obtain ⟨rfl, hmention⟩ := hmention
    exact move_unobserved_iff hinv hmaster hkey hw hmention
  | rename nx key newkey =>
    obtain ⟨rfl, hmention⟩ := hmention
    show (∀ body : Option V → Server V → Except ServerFault (Server V × KeyReply),
      SameBut s d k (renameGenericCommand env s d nx key newkey)
        (renameGenericCommand env (s.without d k) d nx key newkey)) ↔ _
    rw [renameGenericCommand_eq hinv, renameGenericCommand_eq (hinv.without d k), forall_body]
    unfold Observes
    by_cases hk : key = k
    · subst hk
      rw [renameFrom_unobserved_iff hinv hmaster hkey hw nx newkey]
      simp
    · rcases hmention with hmention | rfl
      · exact absurd hmention hk
      · rw [renameTo_unobserved_iff hinv hmaster hkey hw nx hk]
        simp [hk]

end Expiry

/-! ### A key that comes back -/

/-- A master at the time 1000. -/
def masterAt1000 : KeyEnv := ⟨16, false, false, false, none, false, fun _ => 1000⟩

/-- The key `a` has been out of date since the time 500. -/
def expiredA : Server Nat where
  dbs := fun _ => ⟨fun k => if k = [97] then some 7 else none, fun k => if k = [97] then some 500 else none,
    fun _ => none⟩
  clients := fun _ => none
  clientList := []
  log := []

theorem keyspaceInv_expiredA : KeyspaceInv expiredA := by
  refine ⟨⟨?_, ?_, ?_, ?_, ?_, ?_, List.nodup_nil⟩, fun d k hk => ?_⟩
  · intro c cl hcl
    cases hcl
  · intro c cl hcl
    cases hcl
  · intro wk l hl
    cases hl
  · intro wk hl
    cases hl
  · intro wk l hl
    cases hl
  · intro c
    exact iff_of_false List.not_mem_nil Bool.false_ne_true
  · by_cases hkey : k = [97]
    · rw [hkey]
      rfl
    · rw [show (expiredA.dbs d).expires k = none from if_neg hkey] at hk
      cases hk

theorem master_masterAt1000 : masterAt1000.Master := ⟨rfl, rfl, rfl⟩

/-- `RENAME a b` does not find the key. -/
theorem expired_key_unobserved_rename : AsIfAbsent masterAt1000 expiredA 0 0 [97] (.rename false [97] [98]) := by
  have hiff := expired_key_unobserved_iff keyspaceInv_expiredA master_masterAt1000 (s := expiredA) (e := 0) (w := 500)
    (k := [97]) rfl (show (500 : Int) < 1000 by decide) (fun _ => le_refl _) (d := 0)
    (show KeyAccess.Mentions masterAt1000 0 0 [97] (.rename false [97] [98]) from ⟨rfl, .inl rfl⟩)
  refine hiff.mpr fun hobserves => ?_
  exact absurd hobserves.1 (by decide)

/-- `PERSIST a` finds it, and the key is there for good. -/
theorem persist_revives : masterAt1000.Master ∧ (expiredA.dbs 0).expires [97] = some 500 ∧
    (∀ i, 500 < masterAt1000.mstime i) ∧ ¬ AsIfAbsent masterAt1000 expiredA 0 0 [97] (.persist [97]) ∧
    ∃ t, persistCommand expiredA 0 [97] = .ok (t, .int 1) ∧ t.binding ⟨[97], 0⟩ = (some 7, none) := by
  refine ⟨master_masterAt1000, rfl, fun i => (by decide : (500 : Int) < 1000),
    persist_observed keyspaceInv_expiredA rfl, (persistResult expiredA 0 [97]).1, ?_, rfl⟩
  rw [persistCommand_eq]
  rfl

end Redis
