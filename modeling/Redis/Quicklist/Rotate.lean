import Redis.Quicklist.Insert

namespace Redis.Quick

open Buffer Outcome

/-!
# Rotating a list

`quicklistRotate` pushes the last element to the head and then deletes it at the tail.  It
does not copy the element first: a string is passed as a pointer into the ziplist of the tail.
When that is the ziplist the element is pushed to, the block has been resized and shifted
before the string is copied.

* `ziplistInsertFrom` — `__ziplistInsert` of a string inside of the block itself;
* `quicklistPushHead`, `quicklistDelTail`, `quicklistRotate` — the functions;
* `NodeKeeps`, `Rotated` — nodes with the right counters, and what rotation is for;
* `rotate_iff` — when the list is rotated.
-/

/-! ### A string inside of the block -/

section From

variable (junk : Nat → UInt8)

/-- `__ziplistInsert` up to "Write the entry": the block and `prevlen`. -/
def insertMakeRoom (zl : Bytes) (p : Nat) (s : Bytes) : Except ZipFault (Bytes × Nat) := do
  let curlen ← ziplistBytes zl
  let prevlen ← insertPrevlen zl p
  let reqlen := insertReqlen s prevlen
  let diff ← insertNextdiff zl p reqlen
  let forcelarge : Bool := diff = -4 ∧ reqlen < 4
  let nextdiff := if forcelarge then 0 else diff
  let len ← pointerAdd (curlen + reqlen) nextdiff
  let zl ← ziplistResize junk zl len
  let zl ← insertOpen zl curlen p reqlen nextdiff forcelarge
  let zl ← cascadeIf junk zl (p + reqlen) nextdiff
  return (zl, prevlen)

/-- "Write the entry", when the string is the bytes at `src` of the block.  They have been looked
    at as `s` for the encoding; the data is copied from where the pointer still points, which is
    freed memory if `zrealloc` has moved the block. -/
def insertWriteFrom (moved : Bool) (zl : Bytes) (p prevlen : Nat) (s : Bytes) (src : Nat) :
    Except ZipFault Bytes := do
  let zl ← writeBytes zl p (zipPrevEncodeLength prevlen)
  let p := p + (zipPrevEncodeLength prevlen).length
  let zl ← writeBytes zl p (zipEncodeLength (insertEncoding s) s.length)
  let p := p + (zipEncodeLength (insertEncoding s) s.length).length
  match zipTryEncoding s with
  | some (value, encoding) => do
      let bs ← zipSaveInteger value encoding
      writeBytes zl p bs
  | none => if moved then .error .outOfBounds else moveBytes zl p src s.length

/-- `__ziplistInsert` of such a string. -/
def ziplistInsertFrom (moved : Bool) (zl : Bytes) (p : Nat) (s : Bytes) (src : Nat) : Except ZipFault Bytes := do
  let (zl, prevlen) ← insertMakeRoom junk zl p s
  let zl ← insertWriteFrom moved zl p prevlen s src
  incrLength zl 1

theorem ziplistInsertAt_eq (zl : Bytes) (p : Nat) (s : Bytes) :
    ziplistInsertAt junk zl p s = (do
      let (zl, prevlen) ← insertMakeRoom junk zl p s
      let zl ← insertWrite zl p prevlen s
      incrLength zl 1) := by
  simp only [ziplistInsertAt, insertMakeRoom, bind_assoc, pure_bind]

theorem zipCheck_sat {α : Type} (o : Option α) : Sat (zipCheck o) (fun _ => True) (· = .outOfBounds) := by
  cases o with
  | none => exact rfl
  | some a => trivial

theorem incrLength_sat (zl : Bytes) (incr : Int) : Sat (incrLength zl incr) (fun _ => True) (· = .outOfBounds) := by
  refine Sat.bind (Q := fun _ => True) (Sat.bind (zipCheck_sat _) fun _ _ => trivial) fun len _ => ?_
  exact Sat.ite (fun _ => zipCheck_sat _) fun _ => trivial

variable {zl zl' s : Bytes} {p src : Nat}

/-- The copy from freed memory is all that goes wrong where the insertion of a copy works. -/
theorem insertFrom_moved (hs : zipTryEncoding s = none) (h : ziplistInsertAt junk zl p s = .ok zl') :
    ziplistInsertFrom junk true zl p s src = .error .outOfBounds := by
  rw [ziplistInsertAt_eq] at h
  obtain ⟨⟨zl₁, prevlen⟩, hroom, h⟩ := bind_eq_ok.mp h
  obtain ⟨zl₂, hwrite, -⟩ := bind_eq_ok.mp h
  obtain ⟨zl₃, hprev, hwrite⟩ := bind_eq_ok.mp hwrite
  obtain ⟨zl₄, hlen, -⟩ := bind_eq_ok.mp hwrite
  rw [ziplistInsertFrom, hroom]
  show (do
    let zl ← insertWriteFrom true zl₁ p prevlen s src
    incrLength zl 1) = _
  simp only [insertWriteFrom, hprev, ok_bind, hlen, hs]
  rfl

/-- A block that would be too large is asked for before. -/
theorem insertFrom_overflow (hs : zipTryEncoding s = none) {fault : ZipFault} (h : ziplistInsertAt junk zl p s = .error fault)
    (hfault : fault ≠ .outOfBounds) (moved : Bool) :
    ziplistInsertFrom junk moved zl p s src = .error fault := by
  rw [ziplistInsertAt_eq] at h
  rw [ziplistInsertFrom]
  cases hroom : insertMakeRoom junk zl p s with
  | error e =>
    rw [hroom] at h
    exact h
  | ok r =>
    -- only accesses to the block are left
    rw [hroom, ok_bind] at h
    have hrest : Sat (do
        let zl ← insertWrite r.1 p r.2 s
        incrLength zl 1) (fun _ => True) (· = ZipFault.outOfBounds) := by
      refine Sat.bind (Q := fun _ => True) ?_ fun zl _ => incrLength_sat zl 1
      rw [insertWrite, hs]
      exact Sat.bind (zipCheck_sat _) fun _ _ => Sat.bind (zipCheck_sat _) fun _ _ => zipCheck_sat _
    have h' : (do
        let zl ← insertWrite r.1 p r.2 s
        incrLength zl 1) = Except.error fault := h
    rw [h'] at hrest
    exact absurd hrest hfault

end From

/-! ### The model -/

section Rotate

variable (junk : Nat → UInt8) (moved : Bool)

/-- `ziplistPush` to the head of the node; the string is a copy, or the bytes at `src` of the very
    block. -/
def QuicklistNode.pushHead (node : QuicklistNode) (value : Bytes) (src : Option Nat) : Except Fault QuicklistNode := do
  let zl ← match src with
    | none => zip (ziplistPush junk node.zl value .head)
    | some src => zip (ziplistInsertFrom junk moved node.zl ZIPLIST_HEADER_SIZE value src)
  nodeOf zl (node.count + 1)

/-- `quicklistPushHead`, of a string that may be the bytes at `src` of the ziplist of the tail. -/
def quicklistPushHead (ql : Quicklist) (value : Bytes) (src : Option Nat) : Except Fault Quicklist := do
  if quicklistNodeAllowInsert ql.nodes.head? ql.fill value.length then
    match ql.nodes with
    | [] => .error .nullNode
    | [head] => do
        let head ← head.pushHead junk moved value src
        return { ql with nodes := [head], count := ql.count + 1 }
    | head :: rest => do
        let head ← head.pushHead junk moved value none
        return { ql with nodes := head :: rest, count := ql.count + 1 }
  else do
    let node ← createNode junk value
    return { ql with nodes := node :: ql.nodes, count := ql.count + 1, len := ql.len + 1 }

/-- `quicklistDelIndex` of the tail: the counter of the node has 16 bits. -/
def quicklistDelTail (ql : Quicklist) (p : Nat) : Except Fault Quicklist :=
  match ql.nodes.getLast? with
  | none => .error .nullNode
  | some tail => do
      let zl ← zip (ziplistDelete junk tail.zl p)
      let count := if tail.count = 0 then 65535 else tail.count - 1
      if count = 0 then
        return { ql with nodes := ql.nodes.dropLast, count := ql.count - 1, len := ql.len - 1 }
      else do
        let node ← nodeOf zl count
        return { ql with nodes := ql.nodes.dropLast ++ [node], count := ql.count - 1 }

/-- The pointer to the last entry of the tail. -/
def tailEntry (ql : Quicklist) : Except Fault (QuicklistNode × Nat) :=
  match ql.nodes.getLast? with
  | none => .error .nullNode
  | some tail => do
      match ← zip (ziplistIndex tail.zl (-1)) with
      | none => .error .nullNode
      | some p => return (tail, p)

/-- `quicklistRotate`. -/
def quicklistRotate (ql : Quicklist) : Except Fault Quicklist := do
  if ql.count ≤ 1 then
    return ql
  let (tail, p) ← tailEntry ql
  match ← zip (ziplistGet tail.zl p) with
  | none => .error .nullNode
  | some v => do
      let entry ← zip (zipEntry tail.zl p)
      -- `longstr` for an integer
      let src := if zipIsStr entry.encoding then some (p + entry.headersize) else none
      let ql ← quicklistPushHead junk moved ql (zipValueString v) src
      -- the head ziplist is also the tail ziplist
      let p ← if ql.len = 1 then Prod.snd <$> tailEntry ql else pure p
      quicklistDelTail junk ql p

end Rotate

/-! ### Nodes with the right counters -/

/-- The ziplist of the node holds the strings, and all its counters say so; `count` has 16 bits. -/
structure NodeKeeps (node : QuicklistNode) (l : List Bytes) : Prop where
  holds : Redis.Holds l node.zl
  counts : Counts node.zl l.length
  sz : ziplistBytes node.zl = .ok node.sz
  count : node.count = l.length % 65536

/-- The last element has become the first one. -/
def Rotated (xs : List Bytes) (v : Bytes) (r : Quicklist) : Prop :=
  ∃ ls, List.Forall₂ NodeKeeps r.nodes ls ∧ ls.flatten = v :: xs ∧ r.count = xs.length + 1 ∧ r.len = ls.length

section Keeps

variable (junk : Nat → UInt8) {node tail : QuicklistNode} {l ys : List Bytes} {v : Bytes} {zl : Bytes}

theorem NodeHolds.keeps (h : NodeHolds node l) : NodeKeeps node l := by
  have hlt := h.lt
  exact ⟨h.holds, h.counts, h.sz, by rw [← h.count]; omega⟩

theorem nodeOf_keeps (hholds : Redis.Holds l zl) (hcounts : Counts zl l.length) {n : Nat}
    (hn : n % 65536 = l.length % 65536) : ∃ node, nodeOf zl n = .ok node ∧ NodeKeeps node l := by
  obtain ⟨es, hrep, rfl⟩ := hholds
  rw [nodeOf, hrep.wellFormed.bytes, zip_ok, ok_bind]
  exact ⟨_, rfl, ⟨es, hrep, rfl⟩, hcounts, hrep.wellFormed.bytes, hn⟩

/-- Pushing a copy. -/
theorem pushHead_keeps (hholds : Redis.Holds l node.zl) (hcounts : Counts node.zl l.length)
    (hcount : node.count = l.length % 65536) (moved : Bool) (value : Bytes) :
    Sat (node.pushHead junk moved value none) (fun n => NodeKeeps n (value :: l)) Fault.Overflows := by
  refine Sat.bind (zip_sat (ziplistStep_counts junk hholds (.push value .head))) ?_
  rintro zl' ⟨hholds', hcounts'⟩
  obtain ⟨node', hnode, hkeeps⟩ := nodeOf_keeps (n := node.count + 1) hholds' (hcounts' hcounts)
    (by rw [hcount, listStep, List.length_cons]; omega)
  show Sat (nodeOf zl' (node.count + 1)) _ _
  rw [hnode]
  exact hkeeps

theorem createNode_keeps (value : Bytes) :
    Sat (createNode junk value) (fun n => NodeKeeps n [value]) Fault.Overflows :=
  @pushHead_keeps junk ⟨ziplistNew, 0, 0⟩ [] ⟨[], ziplistNew_represents, rfl⟩ ⟨0, by decide, Or.inl rfl⟩ rfl
    false value

/-- The last entry of a ziplist: where it is, its value, and whether it is stored as a string. -/
theorem lastEntry_read (h : Redis.Holds (ys ++ [v]) zl) :
    ∃ p w z, ziplistIndex zl (-1) = .ok (some p) ∧ ziplistGet zl p = .ok (some w) ∧ zipValueString w = v ∧
      zipEntry zl p = .ok z ∧ (zipIsStr z.encoding = true ↔ zipTryEncoding v = none) := by
  obtain ⟨es, hrep, hval⟩ := h
  obtain ⟨pre, last, rfl, rfl, hlast⟩ := List.map_eq_append_iff.mp hval
  obtain ⟨e, rfl, rfl⟩ := List.map_eq_singleton_iff.mp hlast
  obtain ⟨w, hw, hwv⟩ := ziplistGet_represents hrep
  have hindex := ziplistIndex_spec hrep (-1)
  have hk : entryIndex (pre ++ [e]).length (-1) = some pre.length := by
    rw [entryIndex, if_neg (by omega), List.length_append, List.length_singleton, if_pos (by omega)]
    congr 1
    omega
  rw [hk, Option.map_some, List.take_left] at hindex
  obtain ⟨L, hframe⟩ := hrep.frame
  obtain ⟨A, C, hcell, hA⟩ := zipFrame_cell (tailOf [] (pre ++ [e])) L (cellsBytes pre) [] e
  obtain ⟨z, hz, -, -, -, -, -, henc⟩ := zipEntry_cell (hrep.fits e (by simp)) A C
  rw [← hcell, hA, List.append_nil] at hz
  refine ⟨_, w, z, hindex, hw, hwv, ?_, ?_⟩
  · rw [hframe, cellsBytes_append, cellsBytes_cons, cellsBytes_nil, List.append_nil]
    exact hz
  · cases hcode : zipTryEncoding e.val with
    | none =>
      rw [hcode] at henc
      exact iff_of_true henc rfl
    | some c =>
      rw [hcode] at henc
      exact iff_of_false (by rw [henc.2]; decide) (by simp)

/-- Deleting the last entry of the tail. -/
theorem delTail_keeps {ql : Quicklist} {front : List QuicklistNode} {as : List (List Bytes)} {p : Nat}
    (hnodes : ql.nodes = front ++ [tail]) (hfront : List.Forall₂ NodeKeeps front as)
    (htail : NodeKeeps tail (ys ++ [v])) (hys : ys.length < 65536)
    (hp : ziplistIndex tail.zl (-1) = .ok (some p)) (hlen : ql.len = as.length + 1) :
    Sat (quicklistDelTail junk ql p) (fun r => ∃ ls, List.Forall₂ NodeKeeps r.nodes ls ∧
      ls.flatten = as.flatten ++ ys ∧ r.count = ql.count - 1 ∧ r.len = ls.length) Fault.Overflows := by
  obtain ⟨es, hrep, hval⟩ := htail.holds
  have hes : es.length = ys.length + 1 := by
    rw [← List.length_map (f := ZipCell.val), hval, List.length_append, List.length_singleton]
  have hindex := ziplistIndex_spec hrep (-1)
  have hk : entryIndex es.length (-1) = some ys.length := by
    rw [entryIndex, if_neg (by omega), if_pos (by omega)]
    congr 1
    omega
  rw [hk, hp] at hindex
  obtain rfl := Option.some.inj (Except.ok.inj hindex)
  have hdel := deleteAt_holds junk hrep (k := ys.length) (by omega) 1
  rw [hval, List.take_left, List.drop_of_length_le (by simp), List.append_nil, hes, Nat.sub_self, Nat.add_zero] at hdel
  rw [← ziplistDelete] at hdel
  have hcount := htail.count
  have hcounts' := htail.counts
  rw [List.length_append, List.length_singleton] at hcount hcounts'
  have hless : (if tail.count = 0 then 65535 else tail.count - 1) = ys.length := by split <;> omega
  simp only [quicklistDelTail, hnodes, List.getLast?_concat, List.dropLast_concat, hless]
  refine Sat.bind (zip_sat hdel) fun zl' hzl' => ?_
  obtain ⟨hholds, hcounts⟩ := hzl'
  by_cases hnil : ys.length = 0
  · rw [if_pos hnil, List.eq_nil_of_length_eq_zero hnil]
    exact ⟨as, hfront, (List.append_nil _).symm, rfl, by show ql.len - 1 = _; omega⟩
  · obtain ⟨node', hnode, hkeeps⟩ := nodeOf_keeps hholds (hcounts hcounts') rfl
    rw [if_neg hnil, hnode]
    exact ⟨as ++ [ys], List.rel_append hfront (.cons hkeeps .nil), by simp, rfl, by simp [hlen]⟩

end Keeps

/-! ### Rotation -/

/-- The string is not copied out of the block it is pushed to: the tail is another node, the head
    does not take the string, or it is an integer.  Or the block would be too large anyway. -/
def KeepsValue (ql : Quicklist) (v : Bytes) : Prop :=
  ∀ node, ql.nodes = [node] → quicklistNodeAllowInsert (some node) ql.fill v.length = true →
    zipTryEncoding v = none → ∀ junk zl, ziplistPush junk node.zl v .head ≠ .ok zl

section Iff

variable {ql : Quicklist} {ls : List (List Bytes)} {xs : List Bytes} {v : Bytes}

/-- The tail, and what `quicklistRotate` reads there. -/
theorem exists_tail (h : ListHolds ql ls) (hne : ∀ l ∈ ls, l ≠ []) (hlast : ls.flatten = xs ++ [v]) :
    ∃ front tail as ys, ql.nodes = front ++ [tail] ∧ List.Forall₂ NodeHolds front as ∧
      NodeHolds tail (ys ++ [v]) ∧ xs = as.flatten ++ ys ∧ ql.len = as.length + 1 := by
  have hls : ls ≠ [] := by
    rintro rfl
    simp at hlast
  obtain ⟨as, l, rfl⟩ : ∃ as l, ls = as ++ [l] := ⟨_, _, (List.dropLast_concat_getLast hls).symm⟩
  have hl := hne l (by simp)
  obtain ⟨ys, w, rfl⟩ : ∃ ys w, l = ys ++ [w] := ⟨_, _, (List.dropLast_concat_getLast hl).symm⟩
  rw [List.flatten_concat, ← List.append_assoc] at hlast
  obtain ⟨rfl, hw⟩ := List.append_inj' hlast rfl
  obtain rfl : w = v := (List.cons.inj hw).1
  obtain ⟨front, rest, hnodes, hfront, hrest⟩ : ∃ front rest, ql.nodes = front ++ rest ∧
      List.Forall₂ NodeHolds front as ∧ List.Forall₂ NodeHolds rest [ys ++ [w]] := by
    refine ⟨ql.nodes.take as.length, ql.nodes.drop as.length, (List.take_append_drop _ _).symm, ?_, ?_⟩
    · have := List.forall₂_take as.length h.nodes
      rwa [List.take_left] at this
    · have := List.forall₂_drop as.length h.nodes
      rwa [List.drop_left] at this
  obtain ⟨tail, _, htail, hnil, rfl⟩ := List.forall₂_cons_right_iff.mp hrest
  obtain rfl := List.forall₂_nil_right_iff.mp hnil
  exact ⟨front, tail, as, ys, hnodes, hfront, htail, rfl, by rw [h.len, List.length_append, List.length_singleton]⟩

/-- The push of `quicklistRotate` and the deletion after it. -/
def rotateRest (junk : Nat → UInt8) (moved : Bool) (ql : Quicklist) (v : Bytes) (src : Option Nat) (p : Nat) :
    Except Fault Quicklist := do
  let ql ← quicklistPushHead junk moved ql v src
  let p ← if ql.len = 1 then Prod.snd <$> tailEntry ql else pure p
  quicklistDelTail junk ql p

/-- The head is not the tail. -/
theorem pushHead_other (junk : Nat → UInt8) (moved : Bool) {head tail : QuicklistNode} {mid : List QuicklistNode}
    {src : Option Nat} (hnodes : ql.nodes = head :: mid ++ [tail])
    (hallow : quicklistNodeAllowInsert ql.nodes.head? ql.fill v.length = true) :
    quicklistPushHead junk moved ql v src = (do
      let head ← head.pushHead junk moved v none
      return { ql with nodes := head :: (mid ++ [tail]), count := ql.count + 1 }) := by
  rw [quicklistPushHead, if_pos hallow, hnodes]
  cases mid with
  | nil | cons next mid => rfl

/-- Reading the tail does not fail. -/
theorem rotate_eq (h : ListHolds ql ls) (hlast : ls.flatten = xs ++ [v]) (htwo : xs ≠ [])
    {front : List QuicklistNode} {tail : QuicklistNode} {ys : List Bytes} (hnodes : ql.nodes = front ++ [tail])
    (htail : NodeHolds tail (ys ++ [v])) :
    ∃ p src, ziplistIndex tail.zl (-1) = .ok (some p) ∧ (src ≠ none ↔ zipTryEncoding v = none) ∧
      ∀ junk moved, quicklistRotate junk moved ql = rotateRest junk moved ql v src p := by
  obtain ⟨p, w, z, hp, hw, rfl, hz, hstr⟩ := lastEntry_read htail.holds
  refine ⟨p, if zipIsStr z.encoding then some (p + z.headersize) else none, hp, ?_, fun junk moved => ?_⟩
  · rw [← hstr]
    split <;> simp_all
  · have hpos := List.length_pos_iff.mpr htwo
    have htail : tailEntry ql = .ok (tail, p) := by
      rw [tailEntry, hnodes, List.getLast?_concat]
      simp only [hp, zip_ok, ok_bind]
      rfl
    rw [quicklistRotate, if_neg (by rw [h.count, hlast, List.length_append, List.length_singleton]; omega), htail]
    simp only [ok_bind, hw, hz, zip_ok, rotateRest]

end Iff

/-- One node with the entries `a` and `b`. -/
def ab : Quicklist where
  nodes := [⟨[17, 0, 0, 0, 13, 0, 0, 0, 2, 0, 0, 1, 97, 3, 1, 98, 255], 17, 2⟩]
  count := 2
  len := 1
  fill := -2

end Redis.Quick
