import Redis.Ziplist.Merge

namespace Redis.Quick

open Buffer Outcome

/-!
# The quicklist of `quicklist.c`

A quicklist is a doubly linked list of nodes, each with a ziplist.  Here the links are the
order of a list of nodes, from `head` to `tail`, and a node is named by its number; the
nodes are not compressed.

* `quicklistIndex` — the node and the offset of an element;
* `NodeHolds`, `ListHolds` — a node, a quicklist, with given strings;
* `skipNodes_spec` — the search through the nodes;
* `quicklistIndex_spec` — an index names the element with that number, from either end; the
  offset is negative when the index is.
-/

/-- What the C code would do instead of returning. -/
inductive Fault
  /-- A fault of a ziplist function. -/
  | zip (fault : ZipFault)
  /-- The pointer `node` is followed behind the last node. -/
  | nullNode
  deriving DecidableEq, Repr

/-- A ziplist would need `2^32` bytes. -/
def Fault.Overflows (fault : Fault) : Prop := ∃ z : ZipFault, fault = .zip z ∧ z.Overflows

/-- A call of a ziplist function. -/
def zip {α : Type} (m : Except ZipFault α) : Except Fault α := m.mapError .zip

theorem zip_sat {α : Type} {m : Except ZipFault α} {Q : α → Prop}
    (h : Sat m Q ZipFault.Overflows) : Sat (zip m) Q Fault.Overflows := by
  cases m with
  | ok a => exact h
  | error z => exact ⟨z, rfl, h⟩

@[simp] theorem zip_ok {α : Type} (a : α) : zip (.ok a) = .ok a := rfl

/-- `quicklistNode`. -/
structure QuicklistNode where
  zl : Bytes
  sz : Nat
  count : Nat
  deriving DecidableEq, Repr

/-- `quicklist`: the nodes, the number of entries in all ziplists, the number of nodes. -/
structure Quicklist where
  nodes : List QuicklistNode
  count : Nat
  len : Nat
  fill : Int
  deriving DecidableEq, Repr

/-- `quicklistEntry`: the number of the node, the offset in its ziplist, the entry there and
    its value. -/
structure QuicklistEntry where
  node : Nat
  offset : Int
  zi : Option Nat
  value : Option (Bytes ⊕ Int)
  deriving DecidableEq, Repr

/-- Reduction to `unsigned long`. -/
def ulong (n : Int) : Nat := (n % 18446744073709551616).toNat

/-- The number of entries in front of a place. -/
def entriesOf (nodes : List QuicklistNode) : Nat := (nodes.map QuicklistNode.count).sum

@[simp] theorem entriesOf_nil : entriesOf [] = 0 := rfl

@[simp] theorem entriesOf_cons (node : QuicklistNode) (nodes : List QuicklistNode) :
    entriesOf (node :: nodes) = node.count + entriesOf nodes := rfl

@[simp] theorem entriesOf_append (pre post : List QuicklistNode) :
    entriesOf (pre ++ post) = entriesOf pre + entriesOf post := by
  simp [entriesOf]

@[simp] theorem entriesOf_reverse (nodes : List QuicklistNode) :
    entriesOf nodes.reverse = entriesOf nodes := by
  rw [entriesOf, entriesOf, List.map_reverse, List.sum_reverse]

/-! ### Finding an element -/

/-- The loop of `quicklistIndex` through the nodes in either direction: how many nodes are
    skipped, and how many entries with them. -/
def skipNodes : List QuicklistNode → Nat → Nat → Option (Nat × Nat)
  | [], _, _ => none
  | n :: next, index, accum =>
      if accum + n.count > index then some (0, accum)
      else (skipNodes next index (accum + n.count)).map fun p => (p.1 + 1, p.2)

/-- The end of `quicklistIndex`: the entry at `offset` of the node with the number `n`. -/
def entryAt (ql : Quicklist) (n : Nat) (offset : Int) : Except Fault (Option QuicklistEntry) :=
  match ql.nodes[n]? with
  | none => .error .nullNode
  | some node => do
      let zi ← zip (ziplistIndex node.zl offset)
      let value ← match zi with
        | none => pure none
        | some p => zip (ziplistGet node.zl p)
      return some { node := n, offset := offset, zi := zi, value := value }

/-- `quicklistIndex`: nothing when there is no such element. -/
def quicklistIndex (ql : Quicklist) (idx : Int) : Except Fault (Option QuicklistEntry) :=
  -- < 0 -> reverse, 0+ -> forward
  if 0 ≤ idx then
    let index := idx.toNat
    if ql.count ≤ index then return none
    else match skipNodes ql.nodes index 0 with
      | none => return none
      | some (n, accum) => entryAt ql n ((index : Int) - accum)
  else
    let index := (-idx - 1).toNat
    if ql.count ≤ index then return none
    else match skipNodes ql.nodes.reverse index 0 with
      | none => return none
      -- reverse = need negative offset for tail-to-head
      | some (n, accum) => entryAt ql (ql.nodes.length - 1 - n) (-(index : Int) - 1 + accum)

/-! ### The strings of a quicklist -/

/-- The ziplist of the node holds the strings, and the fields of the node say so. -/
structure NodeHolds (node : QuicklistNode) (l : List Bytes) : Prop where
  holds : Redis.Holds l node.zl
  counts : Counts node.zl l.length
  sz : ziplistBytes node.zl = .ok node.sz
  count : node.count = l.length
  lt : node.count < 2 ^ 16

/-- The nodes hold the strings, node by node, and the counters say so. -/
structure ListHolds (ql : Quicklist) (ls : List (List Bytes)) : Prop where
  nodes : List.Forall₂ NodeHolds ql.nodes ls
  count : ql.count = ls.flatten.length
  len : ql.len = ls.length

/-- A ziplist holds one list of strings. -/
theorem holds_unique {zl : Bytes} {l l' : List Bytes} (h : Redis.Holds l zl)
    (h' : Redis.Holds l' zl) : l = l' := by
  obtain ⟨es, hrep, rfl⟩ := h
  obtain ⟨es', hrep', rfl⟩ := h'
  exact Except.ok.inj (hrep.forward.symm.trans hrep'.forward)

/-- A node around a ziplist that was built by updates. -/
theorem nodeHolds_of_run {junk : Nat → UInt8} {ops : List ZipOp} {zl : Bytes}
    (h : ziplistRun junk ops = .ok zl) (hlt : (listRun ops).length < 2 ^ 16) :
    NodeHolds { zl := zl, sz := zl.length, count := (listRun ops).length } (listRun ops) := by
  obtain ⟨⟨es, hrep, hval⟩, hcounts⟩ := (ziplistRun_counts junk ops).of_eq_ok h
  exact ⟨⟨es, hrep, hval⟩, hcounts, hrep.wellFormed.bytes, rfl, hlt⟩

variable {ls : List (List Bytes)} {ql : Quicklist}

theorem entriesOf_holds {nodes : List QuicklistNode} (h : List.Forall₂ NodeHolds nodes ls) :
    entriesOf nodes = ls.flatten.length := by
  induction h with
  | nil => rfl
  | cons hn _ ih => rw [entriesOf_cons, ih, hn.count, List.flatten_cons, List.length_append]

/-- The element in the middle, and what corresponds to the parts. -/
theorem forall₂_split {α β : Type} {R : α → β → Prop} {pre post : List α} {node : α} {ls : List β}
    (h : List.Forall₂ R (pre ++ node :: post) ls) :
    ∃ as l bs, ls = as ++ l :: bs ∧ List.Forall₂ R pre as ∧ R node l ∧ List.Forall₂ R post bs := by
  induction pre generalizing ls with
  | nil =>
    obtain ⟨l, bs, hnode, hpost, rfl⟩ := List.forall₂_cons_left_iff.mp h
    exact ⟨[], l, bs, rfl, .nil, hnode, hpost⟩
  | cons n pre ih =>
    obtain ⟨a, rest, hn, hrest, rfl⟩ := List.forall₂_cons_left_iff.mp h
    obtain ⟨as, l, bs, rfl, hpre, hnode, hpost⟩ := ih hrest
    exact ⟨a :: as, l, bs, rfl, .cons hn hpre, hnode, hpost⟩

/-- The search stops at the node where the entry with the number `index` is. -/
theorem skipNodes_spec {nodes : List QuicklistNode} {index accum : Nat} (hle : accum ≤ index)
    (hlt : index < accum + entriesOf nodes) :
    ∃ pre node post, nodes = pre ++ node :: post ∧
      skipNodes nodes index accum = some (pre.length, accum + entriesOf pre) ∧
      accum + entriesOf pre ≤ index ∧ index < accum + entriesOf pre + node.count := by
  induction nodes generalizing accum with
  | nil =>
    rw [entriesOf_nil] at hlt
    omega
  | cons n next ih =>
    rw [skipNodes]
    by_cases hfound : accum + n.count > index
    · rw [if_pos hfound]
      exact ⟨[], n, next, rfl, rfl, hle, hfound⟩
    · rw [entriesOf_cons, ← Nat.add_assoc] at hlt
      obtain ⟨pre, node, post, rfl, hskip, hlow, hhigh⟩ := ih (not_lt.mp hfound) hlt
      have hsum : accum + n.count + entriesOf pre = accum + entriesOf (n :: pre) := by
        rw [entriesOf_cons, Nat.add_assoc]
      rw [hsum] at hskip hlow hhigh
      rw [if_neg hfound, hskip]
      exact ⟨n :: pre, node, post, rfl, rfl, hlow, hhigh⟩

/-- The search finds the node of an index, however it is described. -/
theorem skipNodes_eq {pre : List QuicklistNode} (post : List QuicklistNode) {node : QuicklistNode}
    {index accum : Nat}    (hlow : accum + entriesOf pre ≤ index) (hhigh : index < accum + entriesOf pre + node.count) :
    skipNodes (pre ++ node :: post) index accum = some (pre.length, accum + entriesOf pre) := by
  induction pre generalizing accum with
  | nil => rw [List.nil_append, skipNodes, if_pos (by simpa using hhigh)]; rfl
  | cons n pre ih =>
    rw [entriesOf_cons, ← Nat.add_assoc] at hlow hhigh ⊢
    rw [List.cons_append, skipNodes, if_neg (by omega), ih hlow hhigh]
    rfl

/-- Only one node has the element. -/
theorem split_unique {pre pre' post post' : List QuicklistNode} {node node' : QuicklistNode} {i : Nat}
    (h : pre ++ node :: post = pre' ++ node' :: post') (hlow : entriesOf pre ≤ i)
    (hhigh : i < entriesOf pre + node.count) (hlow' : entriesOf pre' ≤ i)
    (hhigh' : i < entriesOf pre' + node'.count) : pre = pre' ∧ node = node' := by
  rw [← Nat.zero_add (entriesOf _)] at hlow hhigh hlow' hhigh'
  have hskip := skipNodes_eq post hlow hhigh
  rw [h, skipNodes_eq post' hlow' hhigh'] at hskip
  have hlen : pre'.length = pre.length := (Prod.mk.inj (Option.some.inj hskip)).1
  obtain ⟨rfl, hcons⟩ := List.append_inj h hlen.symm
  exact ⟨rfl, (List.cons.inj hcons).1⟩

/-- Reading the entry at an offset inside the node. -/
theorem entryAt_spec {pre post : List QuicklistNode} {node : QuicklistNode} {l : List Bytes}
    (hnodes : ql.nodes = pre ++ node :: post) (h : NodeHolds node l) (offset : Int) :
    ∃ zi value, ziplistIndex node.zl offset = .ok zi ∧
      entryAt ql pre.length offset
        = .ok (some { node := pre.length, offset := offset, zi := zi, value := value }) := by
  obtain ⟨es, hrep, rfl⟩ := h.holds
  have hget : ql.nodes[pre.length]? = some node := by rw [hnodes]; simp
  have hindex := ziplistIndex_spec hrep offset
  rw [entryAt, hget]
  simp only [hindex, zip_ok, ok_bind]
  cases hk : entryIndex es.length offset with
  | none => exact ⟨none, none, rfl, rfl⟩
  | some k =>
    have hlt := entryIndex_lt hk
    have hcut : es = es.take k ++ es[k] :: es.drop (k + 1) := by simp
    obtain ⟨v, hv, -⟩ := ziplistGet_represents
      (show Represents node.zl (es.take k ++ es[k] :: es.drop (k + 1)) by rw [← hcut]; exact hrep)
    refine ⟨some (10 + (cellsBytes (es.take k)).length), v, rfl, ?_⟩
    simp only [Option.map_some, hv, zip_ok, ok_bind]
    rfl

/-- **Finding an element**: the node it is in, and its offset there, which is negative when
    the index is. -/
theorem quicklistIndex_spec (h : ListHolds ql ls) {idx : Int} {i : Nat}
    (hi : entryIndex ls.flatten.length idx = some i) :
    ∃ pre node post, ql.nodes = pre ++ node :: post ∧ entriesOf pre ≤ i ∧
      i < entriesOf pre + node.count ∧
      ∃ offset zi value, ziplistIndex node.zl offset = .ok zi ∧
        offset = ((i : Int) - entriesOf pre) - (if 0 ≤ idx then 0 else node.count) ∧
        quicklistIndex ql idx
          = .ok (some { node := pre.length, offset := offset, zi := zi, value := value }) := by
  have htotal : entriesOf ql.nodes = ls.flatten.length := entriesOf_holds h.nodes
  rw [quicklistIndex, h.count, ← htotal]
  rw [entryIndex, ← htotal] at hi
  by_cases hidx : 0 ≤ idx
  · rw [if_pos hidx] at hi ⊢
    obtain ⟨hlt, rfl⟩ : idx < entriesOf ql.nodes ∧ idx.toNat = i := by
      split at hi <;> simp_all
    obtain ⟨pre, node, post, hsplit, hskip, hlow, hhigh⟩ :=
      skipNodes_spec (Nat.zero_le idx.toNat) (show idx.toNat < 0 + entriesOf ql.nodes by omega)
    rw [Nat.zero_add] at hskip hlow hhigh
    obtain ⟨as, l, bs, -, -, hnode, -⟩ := forall₂_split (hsplit ▸ h.nodes)
    obtain ⟨zi, value, hzi, hentry⟩ := entryAt_spec hsplit hnode ((idx.toNat : Int) - entriesOf pre)
    refine ⟨pre, node, post, hsplit, hlow, hhigh, _, zi, value, hzi, by rw [if_pos hidx]; omega, ?_⟩
    rw [if_neg (by omega), hskip]
    exact hentry
  · rw [if_neg hidx] at hi ⊢
    obtain ⟨hge, rfl⟩ : 0 ≤ (entriesOf ql.nodes : Int) + idx ∧
        ((entriesOf ql.nodes : Int) + idx).toNat = i := by
      split at hi <;> simp_all
    obtain ⟨front, node, back, hsplit, hskip, hlow, hhigh⟩ :=
      skipNodes_spec (Nat.zero_le (-idx - 1).toNat)
        (show (-idx - 1).toNat < 0 + entriesOf ql.nodes.reverse by rw [entriesOf_reverse]; omega)
    rw [Nat.zero_add] at hskip hlow hhigh
    have hnodes : ql.nodes = back.reverse ++ node :: front.reverse := by
      rw [← List.reverse_reverse ql.nodes, hsplit]
      simp
    have hsum : entriesOf ql.nodes = entriesOf back.reverse + node.count + entriesOf front := by
      rw [hnodes, entriesOf_append, entriesOf_cons, entriesOf_reverse front, Nat.add_assoc]
    have hplace : ql.nodes.length - 1 - front.length = back.reverse.length := by
      rw [hnodes]
      simp
    obtain ⟨as, l, bs, -, -, hnode, -⟩ := forall₂_split (hnodes ▸ h.nodes)
    obtain ⟨zi, value, hzi, hentry⟩ :=
      entryAt_spec hnodes hnode (-((-idx - 1).toNat : Int) - 1 + entriesOf front)
    refine ⟨back.reverse, node, front.reverse, hnodes, by omega, by omega, _, zi, value, hzi, ?_, ?_⟩
    · rw [if_neg hidx]
      omega
    · rw [if_neg (by omega), hskip]
      simp only [hplace]
      exact hentry

/-- An index outside the list names nothing. -/
theorem quicklistIndex_none (h : ListHolds ql ls) {idx : Int} (hi : entryIndex ls.flatten.length idx = none) :
    quicklistIndex ql idx = .ok none := by
  rw [quicklistIndex, h.count]
  rw [entryIndex] at hi
  split
  · rw [if_pos]
    · rfl
    · split_ifs at hi
      omega
  · rw [if_pos]
    · rfl
    · split_ifs at hi
      omega

/-- Two nodes with the entries `a`, `b`, `c` and `d`, `e`, `f`. -/
def abcdef : Quicklist where
  nodes := [⟨[20, 0, 0, 0, 16, 0, 0, 0, 3, 0, 0, 1, 97, 3, 1, 98, 3, 1, 99, 255], 20, 3⟩,
    ⟨[20, 0, 0, 0, 16, 0, 0, 0, 3, 0, 0, 1, 100, 3, 1, 101, 3, 1, 102, 255], 20, 3⟩]
  count := 6
  len := 2
  fill := 3

theorem abcdef_holds : ListHolds abcdef [[[97], [98], [99]], [[100], [101], [102]]] := by
  have hrun₁ : ziplistRun (fun _ => 0) [.push [97] .tail, .push [98] .tail, .push [99] .tail]
      = .ok [20, 0, 0, 0, 16, 0, 0, 0, 3, 0, 0, 1, 97, 3, 1, 98, 3, 1, 99, 255] := by
    rfl
  have hrun₂ : ziplistRun (fun _ => 0) [.push [100] .tail, .push [101] .tail, .push [102] .tail]
      = .ok [20, 0, 0, 0, 16, 0, 0, 0, 3, 0, 0, 1, 100, 3, 1, 101, 3, 1, 102, 255] := by
    rfl
  exact ⟨.cons (nodeHolds_of_run hrun₁ (by decide)) (.cons (nodeHolds_of_run hrun₂ (by decide)) .nil),
    rfl, rfl⟩

end Redis.Quick
