import Redis.Bitops.Strings
import Redis.Lib.Buffer

namespace Redis.Bitops

open Redis Redis.Buffer

/-!
# BITCOUNT

`redisPopcount` counts byte by byte up to an aligned address, then seven words of 32 bits at
a time, then byte by byte.  A string is in memory: none of its lengths is beyond a `long`.

* `sideways`, `popcountGroup` — the sums of bits in the bytes of a word, and of seven words;
* `redisPopcount`, `bitcountCommand`, `getrangeCommand`;
* `sideways_leNat` — the bytes of a word are counted side by side;
* `redisPopcount_spec`, `bitcount_eq_ones` — the bits that are counted.
-/

/-! ### The source -/

/-- `bitsinbyte`. -/
def bitsinbyte : List Nat :=
  [0, 1, 1, 2, 1, 2, 2, 3, 1, 2, 2, 3, 2, 3, 3, 4, 1, 2, 2, 3, 2, 3, 3, 4, 2, 3, 3, 4, 3, 4, 4, 5,
  1, 2, 2, 3, 2, 3, 3, 4, 2, 3, 3, 4, 3, 4, 4, 5, 2, 3, 3, 4, 3, 4, 4, 5, 3, 4, 4, 5, 4, 5, 5, 6,
  1, 2, 2, 3, 2, 3, 3, 4, 2, 3, 3, 4, 3, 4, 4, 5, 2, 3, 3, 4, 3, 4, 4, 5, 3, 4, 4, 5, 4, 5, 5, 6,
  2, 3, 3, 4, 3, 4, 4, 5, 3, 4, 4, 5, 4, 5, 5, 6, 3, 4, 4, 5, 4, 5, 5, 6, 4, 5, 5, 6, 5, 6, 6, 7,
  1, 2, 2, 3, 2, 3, 3, 4, 2, 3, 3, 4, 3, 4, 4, 5, 2, 3, 3, 4, 3, 4, 4, 5, 3, 4, 4, 5, 4, 5, 5, 6,
  2, 3, 3, 4, 3, 4, 4, 5, 3, 4, 4, 5, 4, 5, 5, 6, 3, 4, 4, 5, 4, 5, 5, 6, 4, 5, 5, 6, 5, 6, 6, 7,
  2, 3, 3, 4, 3, 4, 4, 5, 3, 4, 4, 5, 4, 5, 5, 6, 3, 4, 4, 5, 4, 5, 5, 6, 4, 5, 5, 6, 5, 6, 6, 7,
  3, 4, 4, 5, 4, 5, 5, 6, 4, 5, 5, 6, 5, 6, 6, 7, 4, 5, 5, 6, 5, 6, 6, 7, 5, 6, 6, 7, 6, 7, 7, 8]

/-- Bytes until the address is a multiple of four; the count, and what is left. -/
def popcountHead (addr : Nat) : Bytes → Nat → Nat × Bytes
  | [], bits => (bits, [])
  | b :: p, bits =>
      if addr % 4 ≠ 0 then popcountHead (addr + 1) p (bits + bitsinbyte.getD b.toNat 0) else (bits, b :: p)

/-- The bits of each byte of a word are counted in the byte. -/
def sideways (aux : BitVec 32) : BitVec 32 :=
  let aux := aux - ((aux >>> 1) &&& 0x55555555#32)
  let aux := (aux &&& 0x33333333#32) + ((aux >>> 2) &&& 0x33333333#32)
  (aux + (aux >>> 4)) &&& 0x0F0F0F0F#32

/-- `*p4`. -/
def word32 (p : Bytes) : BitVec 32 := BitVec.ofNat 32 (leNat (p.take 4))

/-- Seven words. -/
def popcountGroup (p : Bytes) : Nat :=
  (((sideways (word32 p) + sideways (word32 (p.drop 4)) + sideways (word32 (p.drop 8))
    + sideways (word32 (p.drop 12)) + sideways (word32 (p.drop 16)) + sideways (word32 (p.drop 20))
    + sideways (word32 (p.drop 24))) * 0x01010101#32) >>> 24).toNat

/-- `while(count>=28)`. -/
def popcountGroups : Nat → Bytes → Nat → Nat × Bytes
  | 0, p, bits => (bits, p)
  | fuel + 1, p, bits =>
      if 28 ≤ p.length then popcountGroups fuel (p.drop 28) (bits + popcountGroup p) else (bits, p)

/-- `redisPopcount` of the bytes at an address. -/
def redisPopcount (addr : Nat) (p : Bytes) : Nat :=
  let head := popcountHead addr p 0
  let groups := popcountGroups head.2.length head.2 head.1
  groups.2.foldl (fun bits b => bits + bitsinbyte.getD b.toNat 0) groups.1

/-- The two ends that `BITCOUNT`, `BITPOS` and `GETRANGE` make of their arguments. -/
def clip (strlen start fin : Int) : Int × Int :=
  let start := if start < 0 then strlen + start else start
  let fin := if fin < 0 then strlen + fin else fin
  let start := if start < 0 then 0 else start
  let fin := if fin < 0 then 0 else fin
  (start, if fin ≥ strlen then strlen - 1 else fin)

/-- The bytes from one place to another. -/
def slice (p : Bytes) (start fin : Int) : Bytes := (p.drop start.toNat).take (fin - start + 1).toNat

/-- The end of `bitcountCommand`. -/
def popcountRange (addr : Nat) (p : Bytes) (start fin : Int) : Reply :=
  if start > fin then .longLong 0 else .longLong (redisPopcount (addr + start.toNat) (slice p start fin))

/-- `bitcountCommand`; the string of the value is at `addr`. -/
def bitcountCommand (addr : Nat) (o : Option Robj) (argv : List Bytes) : Reply :=
  match o with
  | none => .longLong 0
  | some .other => .wrongtypeerr
  | some o =>
      let p := getObjectReadOnlyString o
      if argv.length = 4 then
        match getLongFromObjectOrReply (argv.getD 2 []) none, getLongFromObjectOrReply (argv.getD 3 []) none with
        | .error reply, _ => reply
        | .ok _, .error reply => reply
        | .ok start, .ok fin =>
            if start < 0 ∧ fin < 0 ∧ start > fin then .longLong 0
            else popcountRange addr p (clip p.length start fin).1 (clip p.length start fin).2
      else if argv.length = 2 then popcountRange addr p 0 (p.length - 1)
      else .syntaxerr

/-- The end of `getrangeCommand`, for the string that is found. -/
def getrangeBytes (p : Bytes) (start fin : Int) : Bytes :=
  let r := clip p.length start fin
  if start < 0 ∧ fin < 0 ∧ start > fin then []
  else if r.1 > r.2 ∨ p.length = 0 then []
  else slice p r.1 r.2

/-- `getrangeCommand`: the bytes of the bulk reply. -/
def getrangeCommand (o : Option Robj) (argv : List Bytes) : Except Reply Bytes :=
  match getLongFromObjectOrReply (argv.getD 2 []) none, getLongFromObjectOrReply (argv.getD 3 []) none with
  | .error reply, _ => .error reply
  | .ok _, .error reply => .error reply
  | .ok start, .ok fin =>
      match o with
      | none => .ok []
      | some .other => .error .wrongtypeerr
      | some (.int ptr) => .ok (getrangeBytes (ll2string 32 ptr.toInt) start fin)
      | some (.sds ptr) => .ok (getrangeBytes ptr start fin)

/-! ### Counting -/

/-- The ones among the bits of a byte. -/
def onesOf (b : UInt8) : Nat := (List.range 8).countP (fun i => b.toBitVec.getLsbD (7 - i))

/-- The ones among the bits of a string. -/
def ones (p : Bytes) : Nat := (List.range (8 * p.length)).countP (bitAt p)

theorem bitsinbyte_eq_map : bitsinbyte = (List.range 256).map fun n => onesOf (UInt8.ofNat n) := by
  decide +kernel

theorem bitsinbyte_eq (b : UInt8) : bitsinbyte.getD b.toNat 0 = onesOf b := by
  rw [bitsinbyte_eq_map, List.getD_eq_getElem?_getD, List.getElem?_map, List.getElem?_range b.toNat_lt,
    Option.map_some, Option.getD_some, UInt8.ofNat_toNat]

theorem onesOf_le (b : UInt8) : onesOf b ≤ 8 := List.countP_le_length.trans (by simp)

theorem bitAt_cons (b : UInt8) (p : Bytes) (i : Nat) :
    bitAt (b :: p) i = if i < 8 then b.toBitVec.getLsbD (7 - i) else bitAt p (i - 8) := by
  unfold bitAt
  by_cases hi : i < 8
  · rw [if_pos hi, Nat.div_eq_of_lt hi, Nat.mod_eq_of_lt hi, List.getD_cons_zero]
  · rw [if_neg hi, show i / 8 = (i - 8) / 8 + 1 by omega, List.getD_cons_succ, show i % 8 = (i - 8) % 8 by omega]

theorem ones_cons (b : UInt8) (p : Bytes) : ones (b :: p) = onesOf b + ones p := by
  unfold ones onesOf
  rw [List.length_cons, show 8 * (p.length + 1) = 8 + 8 * p.length by omega, List.range_add, List.countP_append,
    List.countP_map]
  have hfirst : (List.range 8).countP (bitAt (b :: p)) = (List.range 8).countP (fun i => b.toBitVec.getLsbD (7 - i)) :=
    List.countP_congr (fun i hi => by rw [bitAt_cons, if_pos (List.mem_range.mp hi)])
  have hrest : (bitAt (b :: p) ∘ fun i => 8 + i) = bitAt p := by
    ext i
    rw [Function.comp_apply, bitAt_cons, if_neg (by omega), Nat.add_sub_cancel_left]
  rw [hfirst, hrest]

theorem ones_append (p q : Bytes) : ones (p ++ q) = ones p + ones q := by
  induction p with
  | nil => exact (Nat.zero_add _).symm
  | cons b p ih => rw [List.cons_append, ones_cons, ones_cons, ih, Nat.add_assoc]

theorem ones_take_add (p : Bytes) (n k : Nat) : ones (p.take (n + k)) = ones (p.take n) + ones ((p.drop n).take k) := by
  rw [List.take_add, ones_append]

/-! ### The bytes of a word, side by side -/

/-- A number by its digits of eight bits. -/
def digits : List Nat → Nat
  | [] => 0
  | b :: l => b + 256 * digits l

theorem and_digit {u m : Nat} (x M : Nat) (hu : u < 256) (hm : m < 256) :
    (u + 256 * x) &&& (m + 256 * M) = (u &&& m) + 256 * (x &&& M) := by
  have hdiv := Nat.div_add_mod ((u + 256 * x) &&& (m + 256 * M)) 256
  have hlow := @Nat.and_mod_two_pow (u + 256 * x) (m + 256 * M) 8
  have hhigh := @Nat.and_div_two_pow (u + 256 * x) (m + 256 * M) 8
  norm_num only at hlow hhigh
  rw [hlow, hhigh, show (u + 256 * x) / 256 = x by omega, show (m + 256 * M) / 256 = M by omega,
    show (u + 256 * x) % 256 = u by omega, show (m + 256 * M) % 256 = m by omega] at hdiv
  omega

/-- What is beyond the mask does not matter. -/
theorem and_add_mul {k m : Nat} (hm : m < 2 ^ k) (x c : Nat) : (x + 2 ^ k * c) &&& m = x &&& m := by
  have hlow : ∀ a, a &&& m = a % 2 ^ k &&& m := by
    intro a
    have hlt : a &&& m < 2 ^ k := Nat.and_le_right.trans_lt hm
    rw [← Nat.mod_eq_of_lt hlt, Nat.and_mod_two_pow, Nat.mod_eq_of_lt hm]
  rw [hlow, Nat.add_mul_mod_self_left, ← hlow]

/-- The three steps of `sideways`, for numbers. -/
def pairs (x M : Nat) : Nat := x - (x / 2 &&& M)
def quads (x M : Nat) : Nat := (x &&& M) + (x / 4 &&& M)
def octets (x M : Nat) : Nat := (x + x / 16) &&& M

/-- Each step treats the digits alone: what is shifted in from the next digit is masked. -/
theorem pairs_digits {l : List Nat} (h : ∀ b ∈ l, b < 256) :
    pairs (digits l) (digits (l.map fun _ => 0x55)) = digits (l.map (pairs · 0x55)) := by
  have hmask : ∀ b c, (b / 2 + 128 * c) &&& 0x55 = b / 2 &&& 0x55 := fun _ _ => and_add_mul (k := 7) (by decide) _ _
  induction l with
  | nil => rfl
  | cons b l ih =>
    have hb := h b List.mem_cons_self
    simp only [List.map_cons, digits, ← ih (fun b hb => h b (List.mem_cons_of_mem _ hb))]
    have hle := @Nat.and_le_left (b / 2) 0x55
    have hle' := @Nat.and_le_left (digits l / 2) (digits (l.map fun _ => 0x55))
    unfold pairs
    rw [show (b + 256 * digits l) / 2 = b / 2 + 128 * (digits l % 2) + 256 * (digits l / 2) by omega,
      and_digit _ _ (by omega) (by decide), hmask]
    omega

theorem quads_digits {l : List Nat} (h : ∀ b ∈ l, b < 256) :
    quads (digits l) (digits (l.map fun _ => 0x33)) = digits (l.map (quads · 0x33)) := by
  have hmask : ∀ b c, (b / 4 + 64 * c) &&& 0x33 = b / 4 &&& 0x33 := fun _ _ => and_add_mul (k := 6) (by decide) _ _
  induction l with
  | nil => rfl
  | cons b l ih =>
    have hb := h b List.mem_cons_self
    simp only [List.map_cons, digits, ← ih (fun b hb => h b (List.mem_cons_of_mem _ hb))]
    unfold quads
    rw [show (b + 256 * digits l) / 4 = b / 4 + 64 * (digits l % 4) + 256 * (digits l / 4) by omega,
      and_digit _ _ hb (by decide), and_digit _ _ (by omega) (by decide), hmask]
    omega

/-- Both halves of each digit are at most four, so that no sum reaches the next. -/
theorem octets_digits {l : List Nat} (h : ∀ b ∈ l, b % 16 ≤ 4 ∧ b / 16 ≤ 4) :
    octets (digits l) (digits (l.map fun _ => 0x0F)) = digits (l.map (octets · 0x0F)) := by
  have hmask : ∀ b c, (b + b / 16 + 16 * c) &&& 0x0F = (b + b / 16) &&& 0x0F :=
    fun _ _ => and_add_mul (k := 4) (by decide) _ _
  induction l with
  | nil => rfl
  | cons b l ih =>
    have hb := h b List.mem_cons_self
    have hnext : digits l % 16 ≤ 4 := by
      cases l with
      | nil => decide
      | cons c l =>
        have hc := (h c (List.mem_cons_of_mem _ List.mem_cons_self)).1
        simp only [digits]
        omega
    simp only [List.map_cons, digits, ← ih (fun b hb => h b (List.mem_cons_of_mem _ hb))]
    unfold octets
    rw [show b + 256 * digits l + (b + 256 * digits l) / 16
        = b + b / 16 + 16 * (digits l % 16) + 256 * (digits l + digits l / 16) by omega,
      and_digit _ _ (by omega) (by decide), hmask]

/-- The steps do not leave the word. -/
theorem toNat_sideways (x : BitVec 32) :
    (sideways x).toNat = octets (quads (pairs x.toNat 0x55555555) 0x33333333) 0x0F0F0F0F := by
  have hpairs : (x - ((x >>> 1) &&& 0x55555555#32)).toNat = pairs x.toNat 0x55555555 := by
    have hle := @Nat.and_le_left (x.toNat / 2) 0x55555555
    unfold pairs
    rw [BitVec.toNat_sub_of_le (by
      rw [BitVec.le_def, BitVec.toNat_and, BitVec.toNat_ushiftRight, Nat.shiftRight_eq_div_pow]
      exact hle.trans (Nat.div_le_self _ _)), BitVec.toNat_and, BitVec.toNat_ushiftRight, Nat.shiftRight_eq_div_pow]
    rfl
  unfold sideways
  simp only
  generalize x - ((x >>> 1) &&& 0x55555555#32) = y at hpairs ⊢
  have hlow := @Nat.and_le_right y.toNat 0x33333333
  have hhigh := @Nat.and_le_right (y.toNat / 4) 0x33333333
  have hquads : ((y &&& 0x33333333#32) + ((y >>> 2) &&& 0x33333333#32)).toNat = quads y.toNat 0x33333333 := by
    unfold quads
    rw [BitVec.toNat_add, BitVec.toNat_and, BitVec.toNat_and, BitVec.toNat_ushiftRight, Nat.shiftRight_eq_div_pow,
      Nat.mod_eq_of_lt]
    · rfl
    · exact lt_of_le_of_lt (Nat.add_le_add hlow hhigh) (by decide)
  rw [← hpairs]
  have hbound : quads y.toNat 0x33333333 ≤ 0x66666666 := Nat.add_le_add hlow hhigh
  generalize (y &&& 0x33333333#32) + ((y >>> 2) &&& 0x33333333#32) = z at hquads ⊢
  rw [← hquads] at hbound ⊢
  unfold octets
  rw [BitVec.toNat_and, BitVec.toNat_add, BitVec.toNat_ushiftRight, Nat.shiftRight_eq_div_pow, Nat.mod_eq_of_lt (by
    norm_num only at hbound ⊢; omega)]
  rfl

/-- The word counts `n` bits in its four bytes, and each of them is at most `8 * k`. -/
def Tally (w : BitVec 32) (k n : Nat) : Prop :=
  ∃ s₀ s₁ s₂ s₃, s₀ ≤ 8 * k ∧ s₁ ≤ 8 * k ∧ s₂ ≤ 8 * k ∧ s₃ ≤ 8 * k ∧
    w.toNat = s₀ + 256 * s₁ + 65536 * s₂ + 16777216 * s₃ ∧ n = s₀ + s₁ + s₂ + s₃

theorem Tally.add {v w : BitVec 32} {j k m n : Nat} (hv : Tally v j m) (hw : Tally w k n) (hjk : j + k ≤ 7) :
    Tally (v + w) (j + k) (m + n) := by
  obtain ⟨s₀, s₁, s₂, s₃, h₀, h₁, h₂, h₃, hv, rfl⟩ := hv
  obtain ⟨t₀, t₁, t₂, t₃, g₀, g₁, g₂, g₃, hw, rfl⟩ := hw
  refine ⟨s₀ + t₀, s₁ + t₁, s₂ + t₂, s₃ + t₃, by omega, by omega, by omega, by omega, ?_, by omega⟩
  rw [BitVec.toNat_add, hv, hw, Nat.mod_eq_of_lt (by omega)]
  omega

/-- The product adds the bytes into the highest one. -/
theorem Tally.sum {w : BitVec 32} {n : Nat} (h : Tally w 7 n) : ((w * 0x01010101#32) >>> 24).toNat = n := by
  obtain ⟨s₀, s₁, s₂, s₃, h₀, h₁, h₂, h₃, hw, rfl⟩ := h
  rw [BitVec.toNat_ushiftRight, Nat.shiftRight_eq_div_pow, BitVec.toNat_mul, hw,
    show (0x01010101#32).toNat = 16843009 from rfl]
  have hhigh : (s₀ + 256 * s₁ + 65536 * s₂ + 16777216 * s₃) * 16843009
      = 4294967296 * (s₁ + s₂ + 256 * s₂ + s₃ + 256 * s₃ + 65536 * s₃)
        + (s₀ + 256 * (s₀ + s₁) + 65536 * (s₀ + s₁ + s₂) + 16777216 * (s₀ + s₁ + s₂ + s₃)) := by ring
  rw [hhigh, Nat.mul_add_mod, Nat.mod_eq_of_lt (by omega)]
  omega

/-- The bytes of a word are counted side by side. -/
theorem sideways_word {p : Bytes} (hp : 4 ≤ p.length) : Tally (sideways (word32 p)) 1 (ones (p.take 4)) := by
  obtain ⟨a, b, c, d, hword⟩ : ∃ a b c d : UInt8, p.take 4 = [a, b, c, d] :=
    List.length_eq_four.mp (by rw [List.length_take]; omega)
  refine ⟨onesOf a, onesOf b, onesOf c, onesOf d, onesOf_le a, onesOf_le b, onesOf_le c, onesOf_le d, ?_, ?_⟩
  · have hbyte : ∀ n : Fin 256, octets (quads (pairs n.val 0x55) 0x33) 0x0F = onesOf (UInt8.ofNat n.val) ∧
        pairs n.val 0x55 < 256 ∧ quads (pairs n.val 0x55) 0x33 % 16 ≤ 4 ∧ quads (pairs n.val 0x55) 0x33 / 16 ≤ 4 := by
      decide +kernel
    have hcount : ∀ x : UInt8, octets (quads (pairs x.toNat 0x55) 0x33) 0x0F = onesOf x := by
      intro x
      have h := (hbyte ⟨x.toNat, x.toNat_lt⟩).1
      rwa [UInt8.ofNat_toNat] at h
    set l := [a.toNat, b.toNat, c.toNat, d.toNat] with hl
    have hlt : ∀ n ∈ l, n < 256 := by
      intro n hn
      simp only [hl, List.mem_cons, List.not_mem_nil, or_false] at hn
      rcases hn with rfl | rfl | rfl | rfl <;> exact UInt8.toNat_lt _
    have htoNat : (word32 p).toNat = digits l := by
      have ha := a.toNat_lt
      have hb := b.toNat_lt
      have hc := c.toNat_lt
      have hd := d.toNat_lt
      unfold word32
      rw [hword, BitVec.toNat_ofNat, hl]
      simp only [leNat, digits]
      omega
    have hmask : ∀ (m : Nat) (l : List Nat), l.length = 4 →
        digits (l.map fun _ => m) = m + 256 * (m + 256 * (m + 256 * m)) := by
      intro m l hlen
      rw [List.map_const', hlen]
      rfl
    have h₁ := pairs_digits hlt
    have h₂ := quads_digits (l := l.map (pairs · 0x55)) (List.forall_mem_map.mpr (fun n hn => (hbyte ⟨n, hlt n hn⟩).2.1))
    have h₃ := octets_digits (l := (l.map (pairs · 0x55)).map (quads · 0x33))
      (List.forall_mem_map.mpr (List.forall_mem_map.mpr (fun n hn => (hbyte ⟨n, hlt n hn⟩).2.2)))
    rw [hmask _ _ (by rw [hl]; rfl)] at h₁
    rw [hmask _ _ (by rw [List.length_map, hl]; rfl)] at h₂
    rw [hmask _ _ (by rw [List.length_map, List.length_map, hl]; rfl)] at h₃
    norm_num only at h₁ h₂ h₃
    rw [toNat_sideways, htoNat, h₁, h₂, h₃, hl]
    simp only [List.map_cons, List.map_nil, digits, hcount]
    omega
  · rw [hword]
    simp only [ones_cons]
    have hnil : ones [] = 0 := rfl
    omega

/-- The sums of seven words fit into their bytes, and the product adds the bytes. -/
theorem popcountGroup_eq {p : Bytes} (hp : 28 ≤ p.length) : popcountGroup p = ones (p.take 28) := by
  have hsplit : ones (p.take 28) = ones (p.take 4) + ones ((p.drop 4).take 4) + ones ((p.drop 8).take 4)
      + ones ((p.drop 12).take 4) + ones ((p.drop 16).take 4) + ones ((p.drop 20).take 4) + ones ((p.drop 24).take 4) := by
    simp only [← ones_take_add]
  have hword : ∀ n ≤ 24, Tally (sideways (word32 (p.drop n))) 1 (ones ((p.drop n).take 4)) :=
    fun n hn => sideways_word (by rw [List.length_drop]; omega)
  have h₂ := (hword 0 (by decide)).add (hword 4 (by decide)) (by decide)
  have h₃ := h₂.add (hword 8 (by decide)) (by decide)
  have h₄ := h₃.add (hword 12 (by decide)) (by decide)
  have h₅ := h₄.add (hword 16 (by decide)) (by decide)
  have h₆ := h₅.add (hword 20 (by decide)) (by decide)
  rw [hsplit]
  exact (h₆.add (hword 24 (by decide)) (by decide)).sum

/-! ### The loops and the commands -/

theorem popcountHead_spec (addr : Nat) (p : Bytes) (bits : Nat) :
    (popcountHead addr p bits).1 + ones (popcountHead addr p bits).2 = bits + ones p := by
  induction p generalizing addr bits with
  | nil => rfl
  | cons b p ih =>
    unfold popcountHead
    split
    · rw [ih, bitsinbyte_eq, ones_cons, Nat.add_assoc]
    · rfl

theorem popcountGroups_spec (fuel : Nat) (p : Bytes) (bits : Nat) :
    (popcountGroups fuel p bits).1 + ones (popcountGroups fuel p bits).2 = bits + ones p := by
  induction fuel generalizing p bits with
  | zero => rfl
  | succ fuel ih =>
    unfold popcountGroups
    split
    · rw [ih, popcountGroup_eq ‹_›, Nat.add_assoc, ← ones_append, List.take_append_drop]
    · rfl

/-- **`redisPopcount`** counts the ones, wherever the string is. -/
theorem redisPopcount_spec (addr : Nat) (p : Bytes) : redisPopcount addr p = ones p := by
  have htail : ∀ (q : Bytes) (bits : Nat),
      q.foldl (fun bits b => bits + bitsinbyte.getD b.toNat 0) bits = bits + ones q := by
    intro q
    induction q with
    | nil => exact fun bits => rfl
    | cons b q ih =>
      intro bits
      rw [List.foldl_cons, ih, bitsinbyte_eq, ones_cons, Nat.add_assoc]
  unfold redisPopcount
  simp only
  rw [htail, popcountGroups_spec, popcountHead_spec, Nat.zero_add]

/-- `BITCOUNT` counts the ones in what `GETRANGE` returns. -/
theorem bitcount_eq_ones (addr : Nat) {o : Robj} (ho : o ≠ .other) {argv : List Bytes} (hargc : argv.length = 4)
    {start fin : Int} (hstart : string2ll (argv.getD 2 []) = some start) (hfin : string2ll (argv.getD 3 []) = some fin) :
    ∃ bytes, getrangeCommand (some o) argv = .ok bytes ∧ bitcountCommand addr (some o) argv = .longLong (ones bytes) := by
  have hstart' : getLongFromObjectOrReply (argv.getD 2 []) none = .ok start := by
    rw [getLongFromObjectOrReply, hstart]
  have hfin' : getLongFromObjectOrReply (argv.getD 3 []) none = .ok fin := by
    rw [getLongFromObjectOrReply, hfin]
  have hrange : ∀ p : Bytes, (if start < 0 ∧ fin < 0 ∧ start > fin then .longLong 0
      else popcountRange addr p (clip p.length start fin).1 (clip p.length start fin).2)
        = .longLong (ones (getrangeBytes p start fin)) := by
    intro p
    unfold getrangeBytes
    by_cases hneg : start < 0 ∧ fin < 0 ∧ start > fin
    · rw [if_pos hneg, if_pos hneg]
      rfl
    · rw [if_neg hneg, if_neg hneg]
      unfold popcountRange
      by_cases hgt : (clip p.length start fin).1 > (clip p.length start fin).2
      · rw [if_pos (Or.inl hgt), if_pos hgt]
        rfl
      · -- a range that is not empty has a place in the string
        have hne : p.length ≠ 0 := by
          intro h0
          apply hgt
          unfold clip
          simp only [h0]
          split_ifs <;> omega
        rw [if_neg (not_or.mpr ⟨hgt, hne⟩), if_neg hgt, redisPopcount_spec]
  unfold getrangeCommand bitcountCommand
  cases o with
  | other => exact absurd rfl ho
  | sds ptr =>
    simp only [hstart', hfin', hargc, if_true]
    exact ⟨_, rfl, hrange ptr⟩
  | int ptr =>
    simp only [hstart', hfin', hargc, if_true]
    rw [ll2string_buffer]
    exact ⟨_, rfl, hrange (ll2string 21 ptr.toInt)⟩

end Redis.Bitops
