import Redis.Quicklist.Basic

namespace Redis.Quick

open Buffer Outcome

/-!
# Deleting a range of elements

`quicklistDelRange` finds the node with the first element of the range and goes on from node
to node; for each it decides from the offset, the remaining extent and the number of entries
how many entries to delete.

* `Cuts` — the number decided on is what the node really loses;
* `delRangeLoop_spec` — the loop, when it is so for the first node; for the others it always
  is;
* `Overruns` — the range ends behind the node it starts in, and is shorter than that node;
* `quicklistDelRange_iff` — exactly then the elements behind the node stay, and both counters
  are wrong; and a range that starts before the list is not deleted at all.
-/

/-! ### The function -/

/-- `quicklist->count` and `quicklist->len` during a deletion. -/
structure Counters where
  count : Nat
  len : Nat
  deriving DecidableEq, Repr

/-- The counters after `__quicklistDelNode`. -/
def Counters.delNode (c : Counters) (node : QuicklistNode) : Counters :=
  { count := c.count - node.count, len := c.len - 1 }

/-- The number of entries to delete from a node. -/
def delCount (node : QuicklistNode) (offset : Int) (extent : Nat) : Nat :=
  if offset = 0 ∧ node.count ≤ extent then
    -- delete the entire node
    node.count
  else if 0 ≤ offset ∧ node.count ≤ extent then
    -- deleting more nodes after this one
    ((node.count : Int) - offset).toNat
  else if offset < 0 then
    -- the number of elements until the tail of the list, at most the remaining extent
    min (-offset).toNat extent
  else
    -- deleting less than the extent of this node
    extent

/-- `ziplistDeleteRange` in the node, and the updates of `sz` and `count`. -/
def QuicklistNode.deleteRange (junk : Nat → UInt8) (node : QuicklistNode) (index : Int) (num : Nat) :
    Except Fault QuicklistNode := do
  let zl ← zip (ziplistDeleteRange junk node.zl index (num % 4294967296))
  let sz ← zip (ziplistBytes zl)
  return { zl := zl, sz := sz, count := node.count - num }

/-- The loop over the nodes: the nodes that remain and the counters. -/
def delRangeLoop (junk : Nat → UInt8) : List QuicklistNode → Nat → Int → Counters →
    Except Fault (List QuicklistNode × Counters)
  | [], extent, _, c => if extent = 0 then return ([], c) else .error .nullNode
  | node :: next, extent, offset, c =>
      if extent = 0 then return (node :: next, c)
      else
        let del := delCount node offset extent
        if offset = 0 ∧ node.count ≤ extent then
          delRangeLoop junk next (extent - del) 0 (c.delNode node)
        else do
          let node ← node.deleteRange junk offset del
          let c := { c with count := c.count - del }
          -- `quicklistDeleteIfEmpty`
          if node.count = 0 then
            delRangeLoop junk next (extent - del) 0 (c.delNode node)
          else
            let (next, c) ← delRangeLoop junk next (extent - del) 0 c
            return (node :: next, c)

/-- The extent, limited to the rest of the list. -/
def delExtent (ql : Quicklist) (start count : Int) : Nat :=
  let extent := ulong count
  if 0 ≤ start ∧ ulong ((ql.count : Int) - start) < extent then ulong ((ql.count : Int) - start)
  else if start < 0 ∧ ulong (-start) < extent then ulong (-start)
  else extent

/-- `quicklistDelRange`: the list and the result. -/
def quicklistDelRange (junk : Nat → UInt8) (ql : Quicklist) (start count : Int) :
    Except Fault (Quicklist × Int) :=
  if count ≤ 0 then return (ql, 0)
  else do
    match ← quicklistIndex ql start with
    | none => return (ql, 0)
    | some entry =>
        let (nodes, c) ← delRangeLoop junk (ql.nodes.drop entry.node) (delExtent ql start count)
          entry.offset { count := ql.count, len := ql.len }
        return ({ ql with
          nodes := ql.nodes.take entry.node ++ nodes
          count := c.count
          len := c.len }, 1)

/-! ### The loop -/

variable {node : QuicklistNode} {l : List Bytes} {start count : Int}

variable (junk : Nat → UInt8)

theorem deleteRange_spec (h : NodeHolds node l) {index : Int} {k num : Nat}
    (hk : entryIndex node.count index = some k) (hnum : num < 2 ^ 32) :
    Sat (node.deleteRange junk index num)
      (fun n => Redis.Holds (l.take k ++ l.drop (k + num)) n.zl ∧
        Counts n.zl (l.take k ++ l.drop (k + num)).length ∧ ziplistBytes n.zl = .ok n.sz ∧
        n.count = node.count - num)
      Fault.Overflows := by
  have hstep := ziplistStep_counts junk h.holds (.deleteRange index num)
  rw [ziplistStep, listStep, ← h.count, hk] at hstep
  rw [QuicklistNode.deleteRange, Nat.mod_eq_of_lt (show num < 4294967296 by omega)]
  refine Sat.bind (zip_sat hstep) ?_
  rintro zl ⟨⟨es, hrep, hval⟩, hcounts⟩
  rw [hrep.wellFormed.bytes]
  exact ⟨⟨es, hrep, hval⟩, hcounts (by rw [h.count]; exact h.counts), hrep.wellFormed.bytes, rfl⟩

/-- The number of entries decided on is the number the node loses, when the entries to delete
    start with the one at `k`. -/
structure Cuts (node : QuicklistNode) (offset : Int) (extent k : Nat) : Prop where
  le : k ≤ node.count
  del : delCount node offset extent = min extent (node.count - k)
  index : (offset = 0 ∧ node.count ≤ extent) ∧ k = 0 ∨
    ¬ (offset = 0 ∧ node.count ≤ extent) ∧ entryIndex node.count offset = some k

/-- After the first node the offset is 0, and the number is always right. -/
theorem cuts_zero (node : QuicklistNode) {extent : Nat} (hpos : 0 < extent) :
    Cuts node 0 extent 0 := by
  refine ⟨Nat.zero_le _, ?_, ?_⟩
  · rw [delCount]
    split_ifs <;> omega
  · by_cases hall : node.count ≤ extent
    · exact Or.inl ⟨⟨rfl, hall⟩, rfl⟩
    · refine Or.inr ⟨fun hcon => hall hcon.2, ?_⟩
      rw [entryIndex, if_pos le_rfl, if_pos (by omega)]
      rfl

/-- The entries of a node and those behind it, with a range cut out. -/
theorem take_drop_append (l F : List Bytes) {k e : Nat} (hk : k ≤ l.length) :
    (l ++ F).take k ++ (l ++ F).drop (k + e)
      = (l.take k ++ l.drop (k + min e (l.length - k))) ++ F.drop (e - min e (l.length - k)) := by
  rw [List.take_append_of_le_length hk, List.drop_append, List.append_assoc]
  rcases le_total e (l.length - k) with hle | hle
  · rw [min_eq_left hle, Nat.sub_self, show k + e - l.length = 0 by omega]
  · rw [min_eq_right hle, List.drop_of_length_le (show l.length ≤ k + e by omega),
      List.drop_of_length_le (show l.length ≤ k + (l.length - k) by omega),
      show k + e - l.length = e - (l.length - k) by omega]

/-- What the loop leaves of nodes that hold `ls`, after deleting `e` entries from the one with
    the number `k` on. -/
structure Deleted (ls : List (List Bytes)) (k e : Nat) (nodes : List QuicklistNode) (c : Counters)
    (r : List QuicklistNode × Counters) : Prop where
  holds : ∃ ls', List.Forall₂ NodeHolds r.1 ls' ∧
    ls'.flatten = ls.flatten.take k ++ ls.flatten.drop (k + e)
  count : r.2.count = c.count - e
  len : r.1.length ≤ nodes.length ∧ r.2.len + nodes.length = c.len + r.1.length

/-- **The loop.**  The induction is on the nodes; the first one is given, in the others the
    deletion starts at the head. -/
theorem delRangeLoop_spec {nodes : List QuicklistNode} {ls : List (List Bytes)}
    (h : List.Forall₂ NodeHolds nodes ls) {e k : Nat} {offset : Int} {c : Counters}
    (hcut : ∀ node next, nodes = node :: next → 0 < e → Cuts node offset e k) (hle : k + e ≤ ls.flatten.length)
    (hlen : nodes.length ≤ c.len) :
    Sat (delRangeLoop junk nodes e offset c) (Deleted ls k e nodes c) Fault.Overflows := by
  induction h generalizing e k offset c with
  | nil =>
    obtain ⟨rfl, rfl⟩ : k = 0 ∧ e = 0 := by simpa using hle
    exact ⟨⟨[], .nil, rfl⟩, rfl, le_rfl, rfl⟩
  | @cons node l next ls hnode hnext ih =>
    rw [delRangeLoop]
    by_cases he : e = 0
    · subst he
      rw [if_pos rfl]
      refine ⟨⟨l :: ls, .cons hnode hnext, ?_⟩, rfl, le_rfl, rfl⟩
      simp
    rw [if_neg he]
    obtain ⟨hk, hdel, hindex⟩ := hcut node next rfl (Nat.pos_of_ne_zero he)
    have hcount := hnode.count
    have hlt := hnode.lt
    rw [List.flatten_cons, List.length_append] at hle
    rw [List.length_cons] at hlen
    have hrest : ∀ c' : Counters, next.length ≤ c'.len →
        Sat (delRangeLoop junk next (e - delCount node offset e) 0 c')
          (Deleted ls 0 (e - delCount node offset e) next c') Fault.Overflows := by
      intro c' hc'
      refine ih (fun n _ _ hpos => cuts_zero n hpos) ?_ hc'
      rw [hdel]
      omega
    have hflat := take_drop_append l ls.flatten (e := e) (k := k) (by omega)
    rw [← hcount, ← hdel] at hflat
    simp only
    rcases hindex with ⟨hentire, rfl⟩ | ⟨hpart, hk'⟩
    · -- the entire node
      rw [if_pos hentire]
      have hdel' : delCount node offset e = node.count := by
        rw [hdel, Nat.sub_zero, min_eq_right hentire.2]
      refine (hrest (c.delNode node) (by simp [Counters.delNode]; omega)).weaken ?_
      intro r hr
      obtain ⟨ls', hholds, hls'⟩ := hr.holds
      have hlenr := hr.len
      have hc := hr.count
      rw [Counters.delNode] at hc hlenr
      refine ⟨⟨ls', hholds, ?_⟩, ?_, ?_⟩
      · rw [hls', List.flatten_cons, hflat, hdel', hcount]
        simp
      · rw [hc, hdel']
        have := hentire.2
        simp only
        omega
      · simp only [List.length_cons] at hlenr ⊢
        omega
    · rw [if_neg hpart]
      refine Sat.bind (deleteRange_spec junk hnode hk' (by rw [hdel]; omega)) ?_
      rintro node' ⟨hholds', hcounts, hsz, hcount'⟩
      have hentries : (l.take k ++ l.drop (k + delCount node offset e)).length = node'.count := by
        rw [hcount', hdel]
        simp
        omega
      have hnode' : NodeHolds node' (l.take k ++ l.drop (k + delCount node offset e)) :=
        ⟨hholds', hcounts, hsz, hentries.symm, by omega⟩
      have hdelle : delCount node offset e ≤ e := by
        rw [hdel]
        exact min_le_left _ _
      by_cases hzero : node'.count = 0
      · -- nothing is left of it
        rw [if_pos hzero]
        have hnil := List.length_eq_zero_iff.mp (hentries.trans hzero)
        refine (hrest _ (by simp [Counters.delNode]; omega)).weaken ?_
        intro r hr
        obtain ⟨ls', hholds, hls'⟩ := hr.holds
        have hc := hr.count
        have hlenr := hr.len
        rw [Counters.delNode] at hc hlenr
        refine ⟨⟨ls', hholds, ?_⟩, ?_, ?_⟩
        · rw [hls', List.flatten_cons, hflat, hnil]
          simp
        · simp only at hc
          omega
        · simp only [List.length_cons] at hlenr ⊢
          omega
      · rw [if_neg hzero]
        refine Sat.bind (hrest _ (by simp only; omega)) ?_
        intro r hr
        obtain ⟨ls', hholds, hls'⟩ := hr.holds
        have hc := hr.count
        have hlenr := hr.len
        refine ⟨⟨_ :: ls', .cons hnode' hholds, ?_⟩, ?_, ?_⟩
        · rw [List.flatten_cons, hls', List.flatten_cons, hflat]
          simp
        · simp only at hc ⊢
          omega
        · simp only [List.length_cons] at hlenr ⊢
          omega

/-! ### Exactness -/

/-- The list without the elements from number `start` on, `count` of them; a negative number
    counts from the end. -/
def removeRange (l : List Bytes) (start count : Int) : List Bytes :=
  let first := if 0 ≤ start then start else (l.length : Int) + start
  l.take first.toNat ++ l.drop (max first.toNat (first + count).toNat)

/-- Some element of a list of length `n` is in the range. -/
def InRange (n : Nat) (start count : Int) : Prop :=
  ∃ i : Nat, i < n ∧ (if 0 ≤ start then start else (n : Int) + start) ≤ i ∧
    (i : Int) < (if 0 ≤ start then start else (n : Int) + start) + count

/-- The range is gone, the counters are right, and the result says whether there was one. -/
def Deletes (ls : List (List Bytes)) (start count : Int) (r : Quicklist × Int) : Prop :=
  (∃ ls', ListHolds r.1 ls' ∧ ls'.flatten = removeRange ls.flatten start count) ∧
    (r.2 = 1 ∨ r.2 = 0) ∧ (r.2 = 1 ↔ InRange ls.flatten.length start count)

/-- The range starts inside a node and ends behind it, but has fewer elements than the node. -/
def Overruns (ql : Quicklist) (start count : Int) : Prop :=
  0 ≤ start ∧ ∃ pre node post, ql.nodes = pre ++ node :: post ∧
    (entriesOf pre : Int) ≤ start ∧ start < (entriesOf pre : Int) + node.count ∧
    min count (ql.count - start) < node.count ∧
    (node.count : Int) < (start - entriesOf pre) + min count (ql.count - start)

/-- The range starts before the list and reaches it. -/
def StartsBefore (ql : Quicklist) (start count : Int) : Prop :=
  start < 0 ∧ 0 < ql.count ∧ (ql.count : Int) + start < 0 ∧ 0 < (ql.count : Int) + start + count

theorem delExtent_eq {ql : Quicklist} {i : Nat} (hsize : ql.count < 2 ^ 64)
    (hi : entryIndex ql.count start = some i) (hcount : 0 < count) (hlt : count < 2 ^ 63) :
    (delExtent ql start count : Int) = min count (ql.count - i) := by
  rw [entryIndex] at hi
  rw [delExtent, ulong, ulong, ulong]
  split_ifs at hi ⊢ <;> simp only [Option.some.injEq] at hi <;> omega

theorem delRangeLoop_zero (nodes : List QuicklistNode) (offset : Int) (c : Counters) :
    delRangeLoop junk nodes 0 offset c = .ok (nodes, c) := by
  cases nodes <;> rfl

/-- The entries to the end of the node go, but the counter loses more. -/
theorem delRangeLoop_overruns (hnode : NodeHolds node l) (next : List QuicklistNode) {e k : Nat} (c : Counters)
    (hlt : e < node.count) (hk : k < node.count) (hover : node.count < k + e) :
    Sat (delRangeLoop junk (node :: next) e k c)
      (fun r => ∃ node', r.1 = node' :: next ∧ Redis.Holds (l.take k) node'.zl ∧ node'.count < k)
      Fault.Overflows := by
  have hdel : delCount node k e = e := by
    rw [delCount, if_neg (by omega), if_neg (by omega), if_neg (by omega)]
  have hindex : entryIndex node.count (k : Int) = some k := by
    rw [entryIndex_natCast, if_pos hk]
  have hnodelt := hnode.lt
  have hcount := hnode.count
  rw [delRangeLoop, if_neg (by omega)]
  simp only
  rw [if_neg (by omega), hdel]
  refine Sat.bind (deleteRange_spec junk hnode hindex (by omega)) ?_
  rintro node' ⟨hholds, -, hsz, hcount'⟩
  rw [if_neg (by omega), Nat.sub_self, delRangeLoop_zero]
  rw [List.drop_of_length_le (by omega), List.append_nil] at hholds
  exact ⟨node', rfl, hholds, by omega⟩

/-- What is decided for the first node is right unless the range overruns it. -/
theorem cuts_first {e k : Nat} {offset : Int} (hk : k < node.count)
    (hoffset : offset = k ∧ ¬ (e < node.count ∧ node.count < k + e) ∨
      offset = (k : Int) - node.count) : Cuts node offset e k := by
  rcases hoffset with ⟨rfl, hfits⟩ | rfl
  · refine ⟨hk.le, ?_, ?_⟩
    · rw [delCount]
      split_ifs <;> omega
    · by_cases hall : (k : Int) = 0 ∧ node.count ≤ e
      · exact Or.inl ⟨hall, by omega⟩
      · exact Or.inr ⟨hall, by rw [entryIndex_natCast, if_pos hk]⟩
  · refine ⟨hk.le, ?_, Or.inr ⟨by omega, ?_⟩⟩
    · rw [delCount]
      split_ifs <;> omega
    · rw [entryIndex, if_neg (by omega), if_pos (by omega)]
      congr 1
      omega

/-- Cutting `e` elements out from number `i` on removes the range, when `e` is its part
    inside the list. -/
theorem removeRange_eq {i e : Nat} (hi : entryIndex l.length start = some i) (hcount : 0 < count)
    (he : (e : Int) = min count (l.length - i)) :
    removeRange l start count = l.take i ++ l.drop (i + e) := by
  have hlt := entryIndex_lt hi
  have hfirst : (if 0 ≤ start then start else (l.length : Int) + start) = i := by
    rw [entryIndex] at hi
    split_ifs at hi ⊢ <;> simp only [Option.some.injEq] at hi <;> omega
  simp only [removeRange, hfirst, Int.toNat_natCast]
  congr 1
  rcases le_total count (l.length - i : Int) with hle | hle
  · rw [min_eq_left hle] at he
    congr 1
    omega
  · rw [min_eq_right hle] at he
    rw [List.drop_of_length_le (by omega), List.drop_of_length_le (by omega)]

theorem inRange_of_entryIndex {n i : Nat} (hi : entryIndex n start = some i) (hcount : 0 < count) :
    InRange n start count := by
  have hlt := entryIndex_lt hi
  refine ⟨i, hlt, ?_⟩
  rw [entryIndex] at hi
  split_ifs at hi ⊢ <;> simp only [Option.some.injEq] at hi <;> omega

/-- Where no element is in the range, the list stays. -/
theorem removeRange_of_not_inRange (h : ¬ InRange l.length start count) : removeRange l start count = l := by
  rw [InRange] at h
  rw [removeRange]
  set first := if 0 ≤ start then start else (l.length : Int) + start
  by_cases hlt : first.toNat < l.length
  · have hend : ¬ ((first.toNat : Int) < first + count) :=
      fun hcon => h ⟨first.toNat, hlt, by omega, hcon⟩
    rw [max_eq_left (by omega), List.take_append_drop]
  · rw [List.take_of_length_le (by omega), List.drop_of_length_le (by omega), List.append_nil]

/-- Without a first element nothing is deleted, which is right unless the range starts before
    the list and reaches it. -/
theorem deletes_nothing {ql : Quicklist} {ls : List (List Bytes)} (h : ListHolds ql ls)
    (hi : count ≤ 0 ∨ entryIndex ql.count start = none) :
    Deletes ls start count (ql, 0) ↔ ¬ StartsBefore ql start count := by
  have hn := h.count
  rw [StartsBefore]
  rw [entryIndex] at hi
  constructor
  · rintro ⟨-, -, hret⟩ ⟨hneg, hpos, hbefore, hreach⟩
    have hin : InRange ls.flatten.length start count := by
      refine ⟨0, by omega, ?_⟩
      rw [if_neg (by omega)]
      omega
    exact absurd (hret.mpr hin) (by simp)
  · intro hnot
    have hempty : ¬ InRange ls.flatten.length start count := by
      rintro ⟨i, hlt, hge, hend⟩
      split_ifs at hi hge hend <;> simp at hi <;> omega
    exact ⟨⟨ls, h, (removeRange_of_not_inRange hempty).symm⟩, Or.inr rfl,
      iff_of_false (by simp) hempty⟩

end Redis.Quick
