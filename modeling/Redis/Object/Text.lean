import Redis.Object.Basic
import Mathlib.Data.List.Lex

namespace Redis.Object

/-!
# String objects are their texts

The functions of `object.c` and `server.c` that compare, hash and measure string objects each
have a way of their own for a `long`.

* `Robj`, `text` — an object with its encoding, and the text it stands for;
* `compareStringObjects`, `equalStringObjects`, `dictEncObjKeyCompare`, `dictEncObjHash`, `stringObjectLen`;
* `objects_are_texts` — they depend on the texts only.
-/

/-! ### The model -/

def OBJ_ENCODING_EMBSTR_SIZE_LIMIT : Nat := 44

/-- A string object.  `embstr` is the encoding of a string, `OBJ_ENCODING_EMBSTR` or `OBJ_ENCODING_RAW`. -/
structure Robj where
  ptr : StringObject
  embstr : Bool
  refcount : Nat

/-- `createStringObject`. -/
def Robj.create (ptr : Bytes) : Robj := ⟨.sds ptr, decide (ptr.length ≤ OBJ_ENCODING_EMBSTR_SIZE_LIMIT), 1⟩

/-- `createStringObjectFromLongLong`; others may refer to a shared integer. -/
def Robj.ofLongLong (refs : Nat) (value : Int) : Robj :=
  ⟨createStringObjectFromLongLong value, false, if 0 ≤ value ∧ value < OBJ_SHARED_INTEGERS then refs else 1⟩

/-- `tryObjectEncoding`. -/
def Robj.tryEncoding (share : Bool) (refs : Nat) (o : Robj) : Robj :=
  match o.ptr with
  | .int _ _ => o
  | .sds s =>
      -- it is not safe to encode shared objects
      if 1 < o.refcount then o
      else match tryObjectEncoding share (.sds s) with
        | .int n shared => ⟨.int n shared, false, if shared then refs else 1⟩
        | .sds s => if s.length ≤ OBJ_ENCODING_EMBSTR_SIZE_LIMIT then ⟨.sds s, true, 1⟩ else o

/-- `getDecodedObject`. -/
def Robj.decoded (o : Robj) : Robj :=
  match o.ptr with
  | .sds _ => { o with refcount := o.refcount + 1 }
  | .int n _ => .create (ll2string 32 n.val)

/-- The characters that `ptr` points to; the callers have decoded the object. -/
def Robj.chars (o : Robj) : Bytes :=
  match o.ptr with
  | .sds s => s
  | .int _ _ => []

/-- `memcmp(s,t,n)`: the difference of the first two bytes that differ. -/
def memcmp : Bytes → Bytes → Nat → Int
  | c :: s, d :: t, n + 1 => if c = d then memcmp s t n else (c.toNat : Int) - d.toNat
  | _, _, _ => 0

/-- A `size_t` as an `int`. -/
def toInt (n : Int) : Int := Int.bmod n 4294967296

/-- What is compared: the string, or the number printed to a buffer of 128 bytes. -/
def printed (o : Robj) : Bytes :=
  match o.ptr with
  | .sds s => s
  | .int n _ => ll2string 128 n.val

/-- `compareStringObjects`; `same` says that both are one object. -/
def compareStringObjects (same : Bool) (a b : Robj) : Int :=
  if same then 0
  else
    let astr := printed a
    let bstr := printed b
    let cmp := memcmp astr bstr (min astr.length bstr.length)
    if cmp = 0 then toInt ((astr.length : Int) - bstr.length) else cmp

/-- `equalStringObjects`. -/
def equalStringObjects (same : Bool) (a b : Robj) : Bool :=
  match a.ptr, b.ptr with
  | .int m _, .int n _ => m.val == n.val
  | _, _ => compareStringObjects same a b == 0

/-- `dictSdsKeyCompare`, with lengths that are `int`. -/
def dictSdsKeyCompare (key1 key2 : Bytes) : Bool :=
  let l1 := toInt key1.length
  if l1 ≠ toInt key2.length then false else memcmp key1 key2 l1.toNat == 0

/-- `dictEncObjKeyCompare`. -/
def dictEncObjKeyCompare (o1 o2 : Robj) : Bool :=
  match o1.ptr, o2.ptr with
  | .int m _, .int n _ => m.val == n.val
  | _, _ => dictSdsKeyCompare o1.decoded.chars o2.decoded.chars

/-- `dictEncObjHash`, over `dictGenHashFunction`. -/
def dictEncObjHash (dictGenHashFunction : Bytes → UInt32) (o : Robj) : UInt32 :=
  match o.ptr with
  | .sds s => dictGenHashFunction s
  | .int n _ => dictGenHashFunction (ll2string 32 n.val)

/-- `sdigits10`. -/
def sdigits10 (v : Int) : Nat :=
  if v < 0 then digits10 (if v = LLONG_MIN then LLONG_MAX + 1 else (-v).toNat) + 1 else digits10 v.toNat

/-- `stringObjectLen`. -/
def stringObjectLen (o : Robj) : Nat :=
  match o.ptr with
  | .sds s => s.length
  | .int n _ => sdigits10 n.val

/-! ### Texts -/

/-- The text of an object: its bytes, or the decimal digits of its number. -/
def text (o : Robj) : Bytes :=
  match o.ptr with
  | .sds s => s
  | .int n _ => formatLd n.val

/-- The first byte that differs decides, and the shorter prefix comes first. -/
def Before (s t : Bytes) : Prop := s.map UInt8.toNat < t.map UInt8.toNat

variable {s t : Bytes}

theorem map_toNat_inj : s.map UInt8.toNat = t.map UInt8.toNat ↔ s = t :=
  (List.map_injective_iff.mpr fun _ _ h => UInt8.toNat_inj.mp h).eq_iff

theorem before_strictTotal : IsStrictTotalOrder Bytes Before where
  irrefl s := lt_irrefl (s.map UInt8.toNat)
  trans _ _ _ := lt_trans
  trichotomous _ _ hst hts := map_toNat_inj.mp (le_antisymm (not_lt.mp hts) (not_lt.mp hst))

/-- `r` is negative, zero or positive as the texts compare. -/
structure Compares (s t : Bytes) (r : Int) : Prop where
  neg : r < 0 ↔ Before s t
  zero : r = 0 ↔ s = t
  pos : 0 < r ↔ Before t s

theorem Compares.lt {r : Int} (h : Before s t) (hr : r < 0) : Compares s t r where
  neg := iff_of_true hr h
  zero := iff_of_false (by omega) fun heq => lt_irrefl _ (heq ▸ h : Before s s)
  pos := iff_of_false (by omega) (lt_asymm h)

theorem Compares.swap {r : Int} (h : Compares s t r) : Compares t s (-r) where
  neg := by rw [← h.pos]; omega
  zero := by rw [eq_comm (a := t), ← h.zero]; omega
  pos := by rw [← h.neg]; omega

theorem Compares.refl (s : Bytes) : Compares s s 0 where
  neg := iff_of_false (by omega) (lt_irrefl _)
  zero := iff_of_true rfl rfl
  pos := iff_of_false (by omega) (lt_irrefl _)

theorem before_nil (c : UInt8) (s : Bytes) : Before [] (c :: s) := List.nil_lt_cons _ _

theorem before_cons (c : UInt8) (s t : Bytes) : Before (c :: s) (c :: t) ↔ Before s t := by
  simp [Before]

/-- The first byte decides. -/
theorem compares_of_ne {c d : UInt8} (hcd : c ≠ d) (s t : Bytes) :
    Compares (c :: s) (d :: t) ((c.toNat : Int) - d.toNat) := by
  have hlt : ∀ {c d : UInt8} (s t : Bytes), c.toNat < d.toNat → Before (c :: s) (d :: t) := fun _ _ h =>
    List.cons_lt_cons_iff.mpr (Or.inl h)
  rcases Nat.lt_or_gt_of_ne (fun h => hcd (UInt8.toNat_inj.mp h)) with h | h
  · exact Compares.lt (hlt s t h) (by omega)
  · rw [← Int.neg_sub]
    exact (Compares.lt (hlt t s h) (by omega)).swap

/-- `memcmp` over the shorter length, then the lengths. -/
theorem memcmp_compares (s : Bytes) : ∀ t : Bytes, Compares s t
    (if memcmp s t (min s.length t.length) = 0 then (s.length : Int) - t.length
      else memcmp s t (min s.length t.length)) := by
  induction s with
  | nil =>
    intro t
    cases t with
    | nil => exact Compares.refl []
    | cons d t => exact Compares.lt (before_nil _ _) (by simp [memcmp]; omega)
  | cons c s ih =>
    intro t
    cases t with
    | nil =>
      have hlong : Compares (c :: s) [] (-(-((c :: s).length : Int))) :=
        (Compares.lt (before_nil _ _) (by simp; omega)).swap
      simpa [memcmp] using hlong
    | cons d t =>
      rw [List.length_cons, List.length_cons, Nat.add_min_add_right, memcmp]
      by_cases hcd : c = d
      · obtain ⟨hneg, hzero, hpos⟩ := ih t
        subst hcd
        simp only [if_true, Nat.cast_succ, add_sub_add_right_eq_sub]
        exact ⟨by rw [hneg, before_cons], by rw [hzero, List.cons_inj_right], by rw [hpos, before_cons]⟩
      · have hne : (c.toNat : Int) - d.toNat ≠ 0 := fun h => hcd (UInt8.toNat_inj.mp (by omega))
        rw [if_neg hcd, if_neg hne]
        exact compares_of_ne hcd s t

/-! ### Objects -/

theorem toInt_of_le {n : Int} (hlo : -2 ^ 29 ≤ n) (hhi : n ≤ 2 ^ 29) : toInt n = n := by
  rw [toInt, Int.bmod_eq_of_le] <;> omega

theorem text_eq (o : Robj) : text o = getDecodedObject o.ptr := by
  rw [text]
  cases o.ptr with
  | sds s => rfl
  | int n shared => exact (ll2string_long n).symm

theorem printed_eq (o : Robj) : printed o = text o := by
  rw [printed, text]
  cases o.ptr with
  | sds s => rfl
  | int n shared => exact ll2string_eq_of_le (by decide) n.range.1 n.range.2

theorem text_decoded (o : Robj) : text o.decoded = text o ∧ o.decoded.chars = text o := by
  obtain ⟨ptr, embstr, refcount⟩ := o
  cases ptr with
  | sds s => exact ⟨rfl, rfl⟩
  | int n shared => exact ⟨ll2string_long n, ll2string_long n⟩

theorem text_tryEncoding (share : Bool) (refs : Nat) (o : Robj) : text (o.tryEncoding share refs) = text o := by
  have hchars := content_tryObjectEncoding share o.ptr
  rw [text_eq o, Robj.tryEncoding]
  split
  · exact text_eq o
  · rename_i s hs
    rw [hs] at hchars ⊢
    split_ifs
    · rw [text_eq, hs]
    · split
      · rename_i n shared henc
        rw [← hchars, henc, text_eq]
      · rename_i s' henc
        rw [← hchars, henc]
        split_ifs
        · rfl
        · rw [text_eq, hs, ← hchars, henc]

variable {a b : Robj} {same : Bool}

theorem long_eq_iff (m n : Long) : (m.val == n.val) = true ↔ formatLd m.val = formatLd n.val := by
  rw [beq_iff_eq]
  refine ⟨fun h => by rw [h], fun h => ?_⟩
  -- a printed number is read back
  have hm := string2ll_eq_some_iff.mpr ⟨m.range, rfl⟩
  rw [h, string2ll_eq_some_iff.mpr ⟨n.range, rfl⟩] at hm
  exact (Option.some.inj hm).symm

theorem compareStringObjects_compares (hsame : same = true → a = b) (ha : (text a).length ≤ 2 ^ 29)
    (hb : (text b).length ≤ 2 ^ 29) : Compares (text a) (text b) (compareStringObjects same a b) := by
  rw [compareStringObjects]
  split_ifs with h
  · rw [hsame h]
    exact Compares.refl _
  · simp only [printed_eq, toInt_of_le (show -2 ^ 29 ≤ ((text a).length : Int) - (text b).length by omega) (by omega)]
    exact memcmp_compares _ _

theorem equalStringObjects_iff (hsame : same = true → a = b) (ha : (text a).length ≤ 2 ^ 29)
    (hb : (text b).length ≤ 2 ^ 29) : equalStringObjects same a b = true ↔ text a = text b := by
  have hzero := (compareStringObjects_compares hsame ha hb).zero
  rw [equalStringObjects]
  split
  · rename_i m _ n _ hm hn
    rw [long_eq_iff, text, text, hm, hn]
  · rw [beq_iff_eq, hzero]

theorem dictSdsKeyCompare_iff (hs : s.length ≤ 2 ^ 29) (ht : t.length ≤ 2 ^ 29) :
    dictSdsKeyCompare s t = true ↔ s = t := by
  simp only [dictSdsKeyCompare, toInt_of_le (show -2 ^ 29 ≤ (s.length : Int) by omega) (by omega),
    toInt_of_le (show -2 ^ 29 ≤ (t.length : Int) by omega) (by omega)]
  by_cases hlen : s.length = t.length
  · have hzero := (memcmp_compares s t).zero
    have hmemcmp : (if memcmp s t t.length = 0 then (0 : Int) else memcmp s t t.length) = memcmp s t t.length := by
      split <;> simp_all
    rw [hlen, min_self, sub_self, hmemcmp] at hzero
    simp [hlen, hzero]
  · simpa [hlen] using fun h : s = t => hlen (congrArg List.length h)

theorem dictEncObjKeyCompare_iff (ha : (text a).length ≤ 2 ^ 29) (hb : (text b).length ≤ 2 ^ 29) :
    dictEncObjKeyCompare a b = true ↔ text a = text b := by
  rw [dictEncObjKeyCompare]
  split
  · rename_i m _ n _ hm hn
    rw [long_eq_iff, text, text, hm, hn]
  · rw [(text_decoded a).2, (text_decoded b).2, dictSdsKeyCompare_iff ha hb]

theorem dictEncObjHash_eq (hash : Bytes → UInt32) (o : Robj) : dictEncObjHash hash o = hash (text o) := by
  rw [dictEncObjHash, text]
  cases o.ptr with
  | sds s => rfl
  | int n shared => exact congrArg hash (ll2string_long n)

theorem stringObjectLen_eq (o : Robj) : stringObjectLen o = (text o).length := by
  rw [stringObjectLen, text]
  cases o.ptr with
  | sds s => rfl
  | int n shared =>
    obtain ⟨hlo, hhi⟩ := n.range
    have habs : (if n.val = LLONG_MIN then LLONG_MAX + 1 else (-n.val).toNat) = (-n.val).toNat := by
      split_ifs with hmin
      · rw [hmin]
        decide
      · rfl
    simp only [sdigits10, habs, formatLd, List.length_append]
    split_ifs with hneg
    · rw [digits10_eq_length (by omega), show n.val.natAbs = (-n.val).toNat by omega, List.length_singleton, Nat.add_comm]
    · rw [digits10_eq_length (by omega), show n.val.natAbs = n.val.toNat by omega, List.length_nil, Nat.zero_add]

theorem text_ofLongLong (refs : Nat) (v : Int) : text (.ofLongLong refs v) = formatLd v :=
  (text_eq (.ofLongLong refs v)).trans (content_createStringObject v)

/-- **String objects are their texts.**  Creating and encoding keep the text, and what compares,
    hashes and measures objects depends on the text only; the order is that of the texts. -/
theorem objects_are_texts (share : Bool) (refs : Nat) (hash : Bytes → UInt32) (a b : Robj)
    (same : Bool) (hsame : same = true → a = b) (ha : (text a).length ≤ 2 ^ 29) (hb : (text b).length ≤ 2 ^ 29) :
    (∀ s, text (.create s) = s) ∧ (∀ v, text (.ofLongLong refs v) = formatLd v) ∧
    text (a.tryEncoding share refs) = text a ∧
    (equalStringObjects same a b = true ↔ text a = text b) ∧
    (dictEncObjKeyCompare a b = true ↔ text a = text b) ∧
    (text a = text b → dictEncObjHash hash a = dictEncObjHash hash b) ∧
    Compares (text a) (text b) (compareStringObjects same a b) ∧ IsStrictTotalOrder Bytes Before ∧
    stringObjectLen a = (text a).length ∧ text a.decoded = text a := by
  refine ⟨fun s => rfl, text_ofLongLong refs, text_tryEncoding share refs a, equalStringObjects_iff hsame ha hb,
    dictEncObjKeyCompare_iff ha hb, fun h => ?_, compareStringObjects_compares hsame ha hb, before_strictTotal,
    stringObjectLen_eq a, (text_decoded a).1⟩
  rw [dictEncObjHash_eq, dictEncObjHash_eq, h]

/-- The shared integer 12, and the string of its digits. -/
theorem objects_are_texts_twelve : equalStringObjects false (.ofLongLong 5 12) (.create [49, 50]) = true := by
  have htext : text (.ofLongLong 5 12) = [49, 50] := by
    rw [text_ofLongLong]
    simp [formatLd, decimal_of_ge, decimal_of_lt]
  exact ((objects_are_texts true 5 (fun _ => 0) (.ofLongLong 5 12) (.create [49, 50]) false (by simp)
    (by rw [htext]; decide) (by decide)).2.2.2.1).mpr htext

end Redis.Object
