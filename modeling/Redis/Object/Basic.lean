import Redis.Dict.Basic
import Redis.Libc
import Redis.Ziplist.Encoding

namespace Redis.Object

open Outcome

/-!
# Objects

The string objects of `object.c` and the hashes of `t_hash.c`, as far as commands on numbers
use them.  An object is known by its characters, however it is encoded.

* `StringObject` — a string or a `long`; `createStringObjectFromLongLong`, `tryObjectEncoding`;
* `HashObject` — a ziplist of fields and values, or a dictionary;
* `hashTypeGetObject`, `hashTypeSet` — with the conversion of a ziplist that is too long;
* `hashTypeGetObject_content`, `hashTypeSet_spec` — they read and write one function from fields
  to characters.
-/

/-- `LONG_MIN` for a 64-bit `long`. -/
def LONG_MIN : Int := -2 ^ 63

/-- A `long`. -/
structure Long where
  val : Int
  min_le : LONG_MIN ≤ val
  le_max : val ≤ LONG_MAX

/-- The integers below are shared. -/
def OBJ_SHARED_INTEGERS : Int := 10000

/-- A string object. -/
inductive StringObject
  /-- `OBJ_ENCODING_RAW` and `OBJ_ENCODING_EMBSTR`. -/
  | sds (ptr : Bytes)
  /-- `OBJ_ENCODING_INT`, and whether there are other references (`refcount > 1`). -/
  | int (ptr : Long) (shared : Bool)

/-- `getDecodedObject`: the characters. -/
def getDecodedObject : StringObject → Bytes
  | .sds ptr => ptr
  | .int ptr _ => ll2string 32 ptr.val

/-- `getLongLongFromObject`. -/
def getLongLongFromObject : Option StringObject → Option Int
  | none => some 0
  | some (.sds ptr) => string2ll ptr
  | some (.int ptr _) => some ptr.val

/-- `sdsfromlonglong`. -/
def sdsfromlonglong (value : Int) : Bytes := formatLd value

/-- `createStringObjectFromLongLong`. -/
def createStringObjectFromLongLong (value : Int) : StringObject :=
  if h : LONG_MIN ≤ value ∧ value ≤ LONG_MAX then
    .int ⟨value, h.1, h.2⟩ (decide (0 ≤ value ∧ value < OBJ_SHARED_INTEGERS))
  else .sds (sdsfromlonglong value)

/-- `string2l`. -/
def string2l (s : Bytes) : Option Long :=
  match string2ll s with
  | none => none
  | some value => if h : LONG_MIN ≤ value ∧ value ≤ LONG_MAX then some ⟨value, h.1, h.2⟩ else none

/-- `tryObjectEncoding` of an object without other references; `share` says whether the shared
    integers may be used, which depends on `maxmemory`. -/
def tryObjectEncoding (share : Bool) : StringObject → StringObject
  | .int ptr shared => .int ptr shared
  | .sds ptr =>
      if ptr.length ≤ 20 then
        match string2l ptr with
        | some value => .int value (share && decide (0 ≤ value.val ∧ value.val < OBJ_SHARED_INTEGERS))
        | none => .sds ptr
      else .sds ptr

/-! ### Hashes -/

/-- What the functions on hashes read from `server`. -/
structure HashConfig where
  hash_max_ziplist_entries : Nat
  /-- The shared integers may be used. -/
  share : Bool

/-- A hash object.  The entries of the ziplist are the fields and their values in turn. -/
inductive HashObject
  | ziplist (entries : List (Bytes × Bytes))
  | ht (dict : Bytes → Option StringObject)

/-- An entry of the ziplist as an object: `ziplistGet`, then `createStringObject` or
    `createStringObjectFromLongLong`. -/
def entryObject (entry : Bytes) : StringObject :=
  match zipTryEncoding entry with
  | none => .sds entry
  | some (vll, _) => createStringObjectFromLongLong vll

/-- The comparison of `ziplistFind`. -/
def entryEqual (vstr entry : Bytes) : Bool :=
  match zipTryEncoding entry with
  | none => entry == vstr
  | some (ll, _) =>
      match zipTryEncoding vstr with
      | none => false
      | some (vll, _) => ll == vll

/-- `hashTypeGetObject`. -/
def hashTypeGetObject (o : HashObject) (field : Bytes) : Option StringObject :=
  match o with
  | .ziplist entries => (entries.find? (fun e => entryEqual field e.1)).map (fun e => entryObject e.2)
  | .ht dict => dict field

/-- The loop of `hashTypeConvertZiplist`.  `none` is the failed assertion that the field is new. -/
def hashTypeConvertLoop (cfg : HashConfig) :
    List (Bytes × Bytes) → (Bytes → Option StringObject) → Option (Bytes → Option StringObject)
  | [], dict => some dict
  | e :: entries, dict =>
      let field := getDecodedObject (tryObjectEncoding cfg.share (entryObject e.1))
      let value := tryObjectEncoding cfg.share (entryObject e.2)
      if (dict field).isSome then none
      else hashTypeConvertLoop cfg entries (fun f => if f = field then some value else dict f)

/-- `hashTypeConvert` to a dictionary. -/
def hashTypeConvert (cfg : HashConfig) (entries : List (Bytes × Bytes)) : Option HashObject :=
  (hashTypeConvertLoop cfg entries (fun _ => none)).map .ht

/-- The value after the field is replaced. -/
def replaceEntry (field value : Bytes) : List (Bytes × Bytes) → List (Bytes × Bytes)
  | [] => []
  | e :: entries =>
      if entryEqual field e.1 then (e.1, value) :: entries else e :: replaceEntry field value entries

/-- `hashTypeSet`. -/
def hashTypeSet (cfg : HashConfig) (o : HashObject) (field : Bytes) (value : StringObject) : Option HashObject :=
  match o with
  | .ziplist entries =>
      let entries :=
        if entries.any (fun e => entryEqual field e.1) then replaceEntry field (getDecodedObject value) entries
        -- a new field goes to the tail
        else entries ++ [(field, getDecodedObject value)]
      if entries.length > cfg.hash_max_ziplist_entries then hashTypeConvert cfg entries
      else some (.ziplist entries)
  | .ht dict => some (.ht (fun f => if f = field then some value else dict f))

namespace HashObject

/-- A field occurs once. -/
def Valid : HashObject → Prop
  | ziplist entries => (entries.map Prod.fst).Nodup
  | ht _ => True

/-- The characters of a field's value. -/
def get (o : HashObject) (field : Bytes) : Option Bytes :=
  match o with
  | ziplist entries => (entries.find? (fun e => e.1 == field)).map Prod.snd
  | ht dict => (dict field).map getDecodedObject

end HashObject

/-! ### Objects and their characters -/

theorem string2ll_eq_some_iff {s : Bytes} {v : Int} :
    string2ll s = some v ↔ (-2 ^ 63 ≤ v ∧ v < 2 ^ 63) ∧ s = formatLd v := by
  constructor
  · intro h
    obtain ⟨hlo, hhi, hs⟩ := string2ll_eq h
    exact ⟨⟨hlo, hhi⟩, hs⟩
  · rintro ⟨⟨hlo, hhi⟩, rfl⟩
    rw [formatLd, ← ll2string_eq hlo hhi]
    exact string2ll_ll2string hlo hhi

theorem Long.range (n : Long) : -2 ^ 63 ≤ n.val ∧ n.val < 2 ^ 63 := by
  have hlo := n.min_le
  have hhi := n.le_max
  simp only [LONG_MIN, LONG_MAX] at hlo hhi
  omega

theorem ll2string_long (n : Long) : ll2string 32 n.val = formatLd n.val := ll2string_eq n.range.1 n.range.2

/-- The number of an object is the number its characters are read as. -/
theorem getLongLongFromObject_eq (o : StringObject) :
    getLongLongFromObject (some o) = string2ll (getDecodedObject o) := by
  cases o with
  | sds ptr => rfl
  | int ptr shared => exact (string2ll_ll2string ptr.range.1 ptr.range.2).symm

/-- Any number gets an object with its digits. -/
theorem content_createStringObject (v : Int) :
    getDecodedObject (createStringObjectFromLongLong v) = formatLd v := by
  unfold createStringObjectFromLongLong
  by_cases h : LONG_MIN ≤ v ∧ v ≤ LONG_MAX
  · rw [dif_pos h]
    exact ll2string_long ⟨v, h.1, h.2⟩
  · rw [dif_neg h]
    rfl

theorem string2l_eq {s : Bytes} {n : Long} (h : string2l s = some n) : ll2string 32 n.val = s := by
  unfold string2l at h
  cases hs : string2ll s with
  | none =>
    rw [hs] at h
    cases h
  | some v =>
    rw [hs] at h
    by_cases hv : LONG_MIN ≤ v ∧ v ≤ LONG_MAX
    · simp only [dif_pos hv] at h
      obtain rfl := Option.some.inj h
      exact ll2string_string2ll hs
    · simp only [dif_neg hv] at h
      cases h

/-- Encoding an object does not change its characters. -/
@[simp] theorem content_tryObjectEncoding (share : Bool) (o : StringObject) :
    getDecodedObject (tryObjectEncoding share o) = getDecodedObject o := by
  cases o with
  | int ptr shared => rfl
  | sds ptr =>
    unfold tryObjectEncoding
    by_cases hlen : ptr.length ≤ 20
    · simp only [if_pos hlen]
      cases hs : string2l ptr with
      | none => rfl
      | some n => exact string2l_eq hs
    · simp only [if_neg hlen]

theorem formatLd_of_encoded {s : Bytes} {v : Int} {enc : UInt8} (h : zipTryEncoding s = some (v, enc)) :
    formatLd v = s := (string2ll_eq_some_iff.mp (zipTryEncoding_spec h).1).2.symm

/-- An entry of a ziplist is found by its characters, as an object too. -/
@[simp] theorem content_entryObject (entry : Bytes) : getDecodedObject (entryObject entry) = entry := by
  unfold entryObject
  cases henc : zipTryEncoding entry with
  | none => rfl
  | some p => exact (content_createStringObject p.1).trans (formatLd_of_encoded henc)

/-- The comparison of numbers is one of characters. -/
theorem entryEqual_eq (vstr entry : Bytes) : entryEqual vstr entry = (entry == vstr) := by
  unfold entryEqual
  cases hentry : zipTryEncoding entry with
  | none => rfl
  | some p =>
    have he := formatLd_of_encoded hentry
    cases hvstr : zipTryEncoding vstr with
    | none =>
      -- equal characters would have been encoded alike
      show false = _
      symm
      rw [beq_eq_false_iff_ne]
      rintro rfl
      rw [hvstr] at hentry
      cases hentry
    | some q =>
      have hv := formatLd_of_encoded hvstr
      show (p.1 == q.1) = _
      rw [Bool.eq_iff_iff, beq_iff_eq, beq_iff_eq]
      constructor
      · intro h
        rw [← he, ← hv, h]
      · rintro rfl
        rw [hentry] at hvstr
        exact congrArg Prod.fst (Option.some.inj hvstr)

/-! ### Hashes and their contents -/

/-- `hashTypeGetObject` finds the value. -/
theorem hashTypeGetObject_content (o : HashObject) (field : Bytes) :
    (hashTypeGetObject o field).map getDecodedObject = o.get field := by
  cases o with
  | ziplist entries =>
    simp only [hashTypeGetObject, HashObject.get, entryEqual_eq, Option.map_map]
    congr 1
    ext e
    simp
  | ht dict => rfl

/-- What a list of entries says about a field. -/
theorem find?_replaceEntry (field value : Bytes) (entries : List (Bytes × Bytes)) (f : Bytes)
    (hany : entries.any (fun e => e.1 == field) = true) :
    ((replaceEntry field value entries).find? (fun e => e.1 == f)).map Prod.snd
      = if f = field then some value else (entries.find? (fun e => e.1 == f)).map Prod.snd := by
  induction entries with
  | nil => cases hany
  | cons e entries ih =>
    rw [replaceEntry, entryEqual_eq]
    by_cases he : e.1 = field
    · rw [if_pos (by simpa using he)]
      by_cases hf : f = field
      · simp [he, hf]
      · have hne : ¬ field = f := fun h => hf h.symm
        simp [he, hf, hne]
    · rw [if_neg (by simpa using he)]
      by_cases hf : e.1 = f
      · have hne : ¬ f = field := fun h => he (hf.trans h)
        simp [hf, hne]
      · simp only [List.find?_cons, beq_eq_false_iff_ne.mpr hf]
        exact ih (by simpa [he] using hany)

theorem map_fst_replaceEntry (field value : Bytes) (entries : List (Bytes × Bytes)) :
    (replaceEntry field value entries).map Prod.fst = entries.map Prod.fst := by
  induction entries with
  | nil => rfl
  | cons e entries ih =>
    rw [replaceEntry]
    by_cases he : entryEqual field e.1 = true
    · rw [if_pos he]
      rfl
    · rw [if_neg he, List.map_cons, ih, List.map_cons]

/-- The conversion adds the entries to the dictionary. -/
theorem hashTypeConvertLoop_spec (cfg : HashConfig) (entries : List (Bytes × Bytes))
    (hnodup : (entries.map Prod.fst).Nodup) (dict : Bytes → Option StringObject)
    (hnew : ∀ e ∈ entries, dict e.1 = none) :
    ∃ dict', hashTypeConvertLoop cfg entries dict = some dict' ∧
      ∀ f, (dict' f).map getDecodedObject
        = ((entries.find? (fun e => e.1 == f)).map Prod.snd).or ((dict f).map getDecodedObject) := by
  induction entries generalizing dict with
  | nil => exact ⟨dict, rfl, fun f => by simp⟩
  | cons e entries ih =>
    rw [List.map_cons, List.nodup_cons] at hnodup
    obtain ⟨hfresh, hnodup⟩ := hnodup
    have hhead : dict e.1 = none := hnew e List.mem_cons_self
    simp only [hashTypeConvertLoop, content_tryObjectEncoding, content_entryObject, hhead, Option.isSome_none,
      Bool.false_eq_true, if_false]
    obtain ⟨dict', hloop, hdict'⟩ := ih hnodup
      (fun f => if f = e.1 then some (tryObjectEncoding cfg.share (entryObject e.2)) else dict f)
      (by
        intro e' he'
        have hne : e'.1 ≠ e.1 := fun h => hfresh (h ▸ List.mem_map_of_mem he')
        simp [hne, hnew e' (List.mem_cons_of_mem e he')])
    refine ⟨dict', hloop, fun f => ?_⟩
    rw [hdict' f]
    by_cases hf : f = e.1
    · -- the field is not among the entries that follow
      subst hf
      have hnone : entries.find? (fun e' => e'.1 == e.1) = none := by
        rw [List.find?_eq_none]
        intro e' he'
        have hne : e'.1 ≠ e.1 := fun h => hfresh (h ▸ List.mem_map_of_mem he')
        simpa using hne
      simp [hnone]
    · have hne : ¬ e.1 = f := fun h => hf h.symm
      simp [hf, hne]

/-- `hashTypeSet` does not fail, and sets one field. -/
theorem hashTypeSet_spec (cfg : HashConfig) {o : HashObject} (ho : o.Valid) (field : Bytes) (value : StringObject) :
    ∃ o', hashTypeSet cfg o field value = some o' ∧ o'.Valid ∧
      ∀ f, o'.get f = if f = field then some (getDecodedObject value) else o.get f := by
  cases o with
  | ht dict =>
    refine ⟨_, rfl, trivial, fun f => ?_⟩
    by_cases hf : f = field <;> simp [HashObject.get, hf]
  | ziplist entries =>
    simp only [hashTypeSet, entryEqual_eq]
    set entries' := if entries.any (fun e => e.1 == field) = true
      then replaceEntry field (getDecodedObject value) entries
      else entries ++ [(field, getDecodedObject value)] with hentries'
    -- the entries say the right thing about each field, and say it once
    have hget : ∀ f, (entries'.find? (fun e => e.1 == f)).map Prod.snd
        = if f = field then some (getDecodedObject value) else (HashObject.ziplist entries).get f := by
      intro f
      by_cases hany : entries.any (fun e => e.1 == field) = true
      · rw [hentries', if_pos hany, find?_replaceEntry _ _ _ _ hany]
        rfl
      · rw [hentries', if_neg hany, List.find?_append]
        by_cases hf : f = field
        · have hnone : entries.find? (fun e => e.1 == field) = none := by
            rw [List.find?_eq_none]
            intro e he h
            exact hany (List.any_eq_true.mpr ⟨e, he, h⟩)
          simp [hf, hnone]
        · have hne : ¬ field = f := fun h => hf h.symm
          simp [HashObject.get, hf, hne]
    have hnodup : (entries'.map Prod.fst).Nodup := by
      by_cases hany : entries.any (fun e => e.1 == field) = true
      · rw [hentries', if_pos hany, map_fst_replaceEntry]
        exact ho
      · rw [hentries', if_neg hany, List.map_append, List.nodup_append]
        refine ⟨ho, List.nodup_singleton _, fun a ha b hb => ?_⟩
        obtain rfl : b = field := by simpa using hb
        obtain ⟨e, he, rfl⟩ := List.mem_map.mp ha
        exact fun h => hany (List.any_eq_true.mpr ⟨e, he, beq_iff_eq.mpr h⟩)
    by_cases hlong : entries'.length > cfg.hash_max_ziplist_entries
    · rw [if_pos hlong]
      obtain ⟨dict', hloop, hdict'⟩ := hashTypeConvertLoop_spec cfg entries' hnodup (fun _ => none) (fun _ _ => rfl)
      refine ⟨.ht dict', ?_, trivial, fun f => ?_⟩
      · rw [hashTypeConvert, hloop]
        rfl
      · show (dict' f).map getDecodedObject = _
        rw [hdict' f, hget f, Option.map_none, Option.or_none]
    · rw [if_neg hlong]
      exact ⟨_, rfl, hnodup, hget⟩

end Redis.Object
