import Redis.Util
import Mathlib.Data.List.Perm.Subperm

namespace Redis

/-!
# A database that is written out

The two dictionaries of a `redisDb`, as the loops see them that write all of its keys.

* `Database`, `Database.getExpire`;
* `Database.WellFormed` — every key once, and only keys that exist have an expire time.
-/

/-- A database: `dict` in the order of its iterator. -/
structure Database (V : Type) where
  dict : List (Bytes × V)
  expires : List (Bytes × Int)

variable {V : Type}

/-- `getExpire`, which is `-1` when there is none. -/
def Database.getExpire (db : Database V) (key : Bytes) : Int := (db.expires.lookup key).getD (-1)

/-- The two dictionaries of a database. -/
structure Database.WellFormed (d : Database V) : Prop where
  nodup : (d.dict.map Prod.fst).Nodup
  expires_nodup : (d.expires.map Prod.fst).Nodup
  /-- Only keys that exist have an expire time. -/
  volatile : ∀ x ∈ d.expires, x.1 ∈ d.dict.map Prod.fst
  /-- It is a `long long`. -/
  time : ∀ x ∈ d.expires, -2 ^ 63 ≤ x.2 ∧ x.2 < 2 ^ 63

variable {d : Database V}

theorem Database.WellFormed.getExpire (h : d.WellFormed) (key : Bytes) :
    -2 ^ 63 ≤ d.getExpire key ∧ d.getExpire key < 2 ^ 63 := by
  rw [Database.getExpire]
  cases hw : d.expires.lookup key with
  | none => decide
  | some t =>
    obtain ⟨a, b, hsplit, -⟩ := List.lookup_eq_some_iff.mp hw
    exact h.time (key, t) (by simp [hsplit])

theorem Database.WellFormed.length_expires (h : d.WellFormed) : d.expires.length ≤ d.dict.length := by
  have hsubset : d.expires.map Prod.fst ⊆ d.dict.map Prod.fst := by
    intro k hk
    obtain ⟨x, hx, rfl⟩ := List.mem_map.mp hk
    exact h.volatile x hx
  have hle := (List.subperm_of_subset h.expires_nodup hsubset).length_le
  simpa using hle

/-- A key that comes after some others is none of them. -/
theorem Database.WellFormed.fresh (h : d.WellFormed) {entries todo : List (Bytes × V)} {e : Bytes × V}
    (hdict : d.dict = entries ++ e :: todo) : entries.lookup e.1 = none := by
  have hnodup := h.nodup
  rw [hdict, List.map_append, List.map_cons, List.nodup_append] at hnodup
  rw [List.lookup_eq_none_iff]
  intro x hx
  have hne : x.1 ≠ e.1 := hnodup.2.2 x.1 (List.mem_map_of_mem hx) e.1 List.mem_cons_self
  simpa using hne.symm

/-- One more entry, of another key. -/
theorem lookup_append {entries : List (Bytes × V)} {key : Bytes} {v : V} (hkey : entries.lookup key = none) (k : Bytes) :
    (entries ++ [(key, v)]).lookup k = if k = key then some v else entries.lookup k := by
  by_cases hk : k = key
  · simp [List.lookup_append, hk, hkey]
  · have hlast : [(key, v)].lookup k = none := by
      rw [List.lookup_cons, beq_false_of_ne hk]
      rfl
    rw [List.lookup_append, hlast, Option.or_none, if_neg hk]

end Redis
