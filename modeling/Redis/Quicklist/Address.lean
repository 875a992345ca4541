import Redis.Quicklist.Insert

namespace Redis.Quick

open Buffer Outcome

/-!
# Insertion and the address of the entry

An entry found with a negative index has a negative offset.  Where the node has room only
the pointer to the entry is used, and nothing depends on the offset.  Where the node is
split, a negative offset reaches `ziplistDeleteRange` as a number of entries to delete.

* `NodeReads`, `Reads` — what a walk from the head reads, in blocks that may be out of order
  for the way back;
* `quicklistMergeNodes_reads` — merging keeps the sequence;
* `insertSplit_reads` — the pieces of a split, for any offset;
* `insertAtIndex_forward` — with a nonnegative index the value goes where it should;
* `insertAtIndex_agree_iff` — when the index from the end does the same.
-/

/-! ### Reading from the head -/

/-- The ziplist of the node reads as these strings from its front, and both counters say how
    many they are. -/
structure NodeReads (node : QuicklistNode) (l : List Bytes) : Prop where
  loose : ∃ es, Loose node.zl es ∧ es.map ZipCell.val = l
  counts : Counts node.zl l.length
  count : node.count = l.length % 65536

/-- The nodes read as this sequence. -/
def Reads (nodes : List QuicklistNode) (l : List Bytes) : Prop :=
  ∃ ls, List.Forall₂ NodeReads nodes ls ∧ ls.flatten = l

variable {node : QuicklistNode} {l : List Bytes} {nodes : List QuicklistNode}

theorem NodeHolds.reads (h : NodeHolds node l) :
    NodeReads node l := by
  have hlt := h.lt
  obtain ⟨es, hrep, rfl⟩ := h.holds
  refine ⟨⟨es, hrep.loose, rfl⟩, h.counts, ?_⟩
  rw [← h.count]
  omega

theorem reads_nil : Reads [] [] := ⟨[], .nil, rfl⟩

theorem reads_cons :
    Reads (node :: nodes) l ↔ ∃ x y, l = x ++ y ∧ NodeReads node x ∧ Reads nodes y := by
  constructor
  · rintro ⟨ls, h, rfl⟩
    obtain ⟨x, rest, hnode, hnodes, rfl⟩ := List.forall₂_cons_left_iff.mp h
    exact ⟨x, rest.flatten, rfl, hnode, rest, hnodes, rfl⟩
  · rintro ⟨x, y, rfl, hnode, rest, hnodes, rfl⟩
    exact ⟨x :: rest, .cons hnode hnodes, rfl⟩

theorem reads_append {pre post : List QuicklistNode} :
    Reads (pre ++ post) l ↔ ∃ x y, l = x ++ y ∧ Reads pre x ∧ Reads post y := by
  induction pre generalizing l with
  | nil =>
    constructor
    · intro h
      exact ⟨[], l, rfl, reads_nil, h⟩
    · rintro ⟨x, y, rfl, ⟨ls, hls, rfl⟩, h⟩
      rw [List.forall₂_nil_left_iff.mp hls]
      exact h
  | cons node pre ih =>
    rw [List.cons_append, reads_cons]
    constructor
    · rintro ⟨x, y, rfl, hnode, h⟩
      obtain ⟨z, w, rfl, hpre, hpost⟩ := ih.mp h
      exact ⟨x ++ z, w, by rw [List.append_assoc], reads_cons.mpr ⟨x, z, rfl, hnode, hpre⟩, hpost⟩
    · rintro ⟨x, y, rfl, h, hpost⟩
      obtain ⟨z, w, rfl, hnode, hpre⟩ := reads_cons.mp h
      exact ⟨z, w ++ y, by rw [List.append_assoc], hnode, ih.mpr ⟨w, y, rfl, hpre, hpost⟩⟩

/-- The sequence a walk from the head reads. -/
def elements (nodes : List QuicklistNode) : Except ZipFault (List Bytes) := do
  let ls ← nodes.mapM (fun node => ziplistForward node.zl)
  return ls.flatten

/-- Every node counts the entries of its ziplist, in 16 bits. -/
def CountersRight (nodes : List QuicklistNode) : Prop :=
  ∀ node ∈ nodes, ∃ l, ziplistForward node.zl = .ok l ∧ node.count = l.length % 65536

theorem NodeReads.forward (h : NodeReads node l) :
    ziplistForward node.zl = .ok l := by
  obtain ⟨es, hloose, rfl⟩ := h.loose
  exact hloose.forward

theorem Reads.elements (h : Reads nodes l) :
    elements nodes = .ok l := by
  obtain ⟨ls, h, rfl⟩ := h
  have hmap : nodes.mapM (fun node => ziplistForward node.zl) = .ok ls := by
    induction h with
    | nil => rfl
    | cons hnode _ ih => exact mapM_cons_eq_ok.mpr ⟨_, _, hnode.forward, ih, rfl⟩
  rw [Quick.elements, hmap]
  rfl

theorem Reads.counters (h : Reads nodes l) :
    CountersRight nodes := by
  obtain ⟨ls, h, -⟩ := h
  intro node hmem
  induction h with
  | nil => simp at hmem
  | cons hnode _ ih =>
    rcases List.mem_cons.mp hmem with rfl | hmem
    · exact ⟨_, hnode.forward, hnode.count⟩
    · exact ih hmem

theorem ListHolds.reads {ls : List (List Bytes)} (h : List.Forall₂ NodeHolds nodes ls) : Reads nodes ls.flatten :=
  ⟨ls, h.imp (fun _ _ hnode => hnode.reads), rfl⟩

/-! ### Changes of one node -/

section Node

variable (junk : Nat → UInt8)

/-- A ziplist in order, with the right counter. -/
structure ZipReady (zl : Bytes) (l : List Bytes) : Prop where
  holds : Redis.Holds l zl
  counts : Counts zl l.length

variable {zl : Bytes}

theorem ZipReady.nodeOf {l : List Bytes} (h : ZipReady zl l) {n : Nat} (hn : n % 65536 = l.length % 65536) :
    ∃ node, nodeOf zl n = .ok node ∧ node.zl = zl ∧ NodeReads node l := by
  obtain ⟨es, hrep, rfl⟩ := h.holds
  rw [Quick.nodeOf, hrep.wellFormed.bytes, zip_ok, ok_bind]
  exact ⟨_, rfl, rfl, ⟨es, hrep.loose, rfl⟩, h.counts, hn⟩

/-- One update of a ziplist, and the counter of its node. -/
theorem step_nodeOf {l : List Bytes} (h : ZipReady zl l) (op : ZipOp) {n : Nat}
    (hn : n % 65536 = (listStep l op).length % 65536) :
    Sat (do
        let zl ← zip (ziplistStep junk zl op)
        nodeOf zl n) (fun node => NodeReads node (listStep l op)) Fault.Overflows := by
  refine Sat.bind (zip_sat (ziplistStep_counts junk h.holds op)) ?_
  rintro zl' ⟨hholds, hcounts⟩
  obtain ⟨node, hnode, -, hreads⟩ := ZipReady.nodeOf ⟨hholds, hcounts h.counts⟩ hn
  rw [hnode]
  exact hreads

theorem push_reads {l : List Bytes} (h : ZipReady node.zl l) (hcount : node.count = l.length % 65536)
    (value : Bytes) (place : ZipWhere) :
    Sat (node.push junk value place) (fun n => NodeReads n (listStep l (.push value place)))
      Fault.Overflows := by
  refine step_nodeOf junk h (.push value place) ?_
  cases place <;> simp [listStep, hcount]

theorem NodeHolds.ready {l : List Bytes} (h : NodeHolds node l) :
    ZipReady node.zl l ∧ node.count = l.length % 65536 :=
  ⟨⟨h.holds, h.counts⟩, h.reads.count⟩

theorem createNode_reads (value : Bytes) :
    Sat (createNode junk value) (fun n => NodeReads n [value]) Fault.Overflows :=
  push_reads junk
    (show ZipReady ({ zl := ziplistNew, sz := 0, count := 0 } : QuicklistNode).zl [] from
      ⟨⟨[], ziplistNew_represents, rfl⟩, 0, by decide, Or.inl rfl⟩) rfl value .head

/-- The number `ziplistLen` finds. -/
theorem recount_zipFrame {o L : Nat} {es : List ZipCell} (hes : ∀ e ∈ es, e.Fits)
    (hsize : (cellsBytes es).length + 11 < 2 ^ 32)
    (hcount : Counts (zipFrame o L (cellsBytes es)) es.length) :
    ∃ L' node, recount (zipFrame o L (cellsBytes es)) = .ok node ∧
      node.zl = zipFrame o L' (cellsBytes es) ∧ Counts node.zl es.length ∧
      node.count = es.length % 65536 := by
  obtain ⟨L', hlen, hcount'⟩ := ziplistLen_zipFrame hes hcount
  rw [recount, hlen, zip_ok, ok_bind]
  simp only
  rw [nodeOf, ziplistBytes_zipFrame hsize, zip_ok, ok_bind]
  exact ⟨L', _, rfl, rfl, hcount', rfl⟩

theorem recount_ready {l : List Bytes} (h : ZipReady zl l) :
    ∃ node, recount zl = .ok node ∧ ZipReady node.zl l ∧ node.count = l.length % 65536 := by
  obtain ⟨⟨es, hrep, rfl⟩, hcounts⟩ := h
  obtain ⟨L, rfl⟩ := hrep.frame
  rw [List.length_map] at hcounts
  obtain ⟨L', node, hnode, hzl, hcounts', hcount⟩ :=
    recount_zipFrame hrep.fits hrep.size_lt hcounts
  refine ⟨node, hnode, ⟨⟨es, ?_, rfl⟩, by rwa [List.length_map]⟩, by rwa [List.length_map]⟩
  rw [hzl]
  exact ⟨⟨L', rfl⟩, hrep.linked, hrep.fits, hrep.size_lt⟩

theorem recount_loose {es : List ZipCell} (h : Loose zl es) (hcounts : Counts zl es.length) :
    ∃ node, recount zl = .ok node ∧ NodeReads node (es.map ZipCell.val) := by
  obtain ⟨o, L, rfl, hnear⟩ := h.frame
  obtain ⟨L', node, hnode, hzl, hcounts', hcount⟩ := recount_zipFrame h.fits h.size_lt hcounts
  refine ⟨node, hnode, ⟨es, ?_, rfl⟩, by rwa [List.length_map], by rwa [List.length_map]⟩
  rw [hzl]
  exact ⟨⟨o, L', rfl, hnear⟩, h.fits, h.size_lt⟩

/-! ### Merging -/

theorem quicklistZiplistMerge_reads {a b : QuicklistNode} {x y : List Bytes} (ha : NodeReads a x)
    (hb : NodeReads b y) :
    Sat (quicklistZiplistMerge junk a b) (fun r => ∃ keep, r = some keep ∧ NodeReads keep (x ++ y))
      Fault.Overflows := by
  obtain ⟨es, hes, rfl⟩ := ha.loose
  obtain ⟨fs, hfs, rfl⟩ := hb.loose
  have hca := ha.counts
  have hcb := hb.counts
  rw [List.length_map] at hca hcb
  rw [quicklistZiplistMerge, ziplistMerge, if_neg Bool.false_ne_true]
  refine Sat.bind (Q := fun r => ∃ m, r = some m ∧ MergedFrom a.zl b.zl es fs m)
    (zip_sat (Sat.bind (mergeBlocks_spec junk hes hfs) (fun m hm => ⟨m, rfl, hm⟩))) ?_
  rintro _ ⟨m, rfl, hm⟩
  obtain ⟨gs, hgs, hval⟩ := hm.loose
  have hlen : gs.length = es.length + fs.length := by
    have h := congrArg List.length hval
    simpa using h
  obtain ⟨keep, hkeep, hreads⟩ := recount_loose hgs (by rw [hlen]; exact hm.counts hca hcb)
  simp only [hkeep, ok_bind]
  exact ⟨keep, rfl, by rwa [← hval]⟩

/-- Two neighbours are replaced by their merge. -/
theorem merge_neighbours {pre post : List QuicklistNode} {a b : QuicklistNode} {l : List Bytes}
    (h : Reads (pre ++ a :: b :: post) l) :
    Sat (quicklistZiplistMerge junk a b)
      (fun r => ∃ keep, r = some keep ∧ Reads (pre ++ keep :: post) l) Fault.Overflows := by
  obtain ⟨x, y, rfl, hpre, hrest⟩ := reads_append.mp h
  obtain ⟨u, v, rfl, ha, hrest⟩ := reads_cons.mp hrest
  obtain ⟨w, z, rfl, hb, hpost⟩ := reads_cons.mp hrest
  refine (quicklistZiplistMerge_reads junk ha hb).weaken ?_
  rintro _ ⟨keep, rfl, hkeep⟩
  refine ⟨keep, rfl, reads_append.mpr ⟨x, u ++ (w ++ z), rfl, hpre, reads_cons.mpr ?_⟩⟩
  exact ⟨u ++ w, z, by rw [List.append_assoc], hkeep, hpost⟩

variable (fill : Int) {z : Around} {l : List Bytes}

theorem mergePrev_reads (h : Reads z.nodes l) :
    Sat (mergePrev junk fill z) (fun z' => Reads z'.nodes l) Fault.Overflows := by
  obtain ⟨front, center, back, len⟩ := z
  rcases front with _ | ⟨prev, _ | ⟨prevPrev, front⟩⟩
  · exact h
  · exact h
  · rw [mergePrev]
    refine Sat.ite (fun _ => ?_) (fun _ => h)
    have hsplit : Around.nodes ⟨prev :: prevPrev :: front, center, back, len⟩
        = front.reverse ++ prevPrev :: prev :: (center :: back) := by
      simp [Around.nodes]
    rw [hsplit] at h
    refine Sat.bind (merge_neighbours junk h) ?_
    rintro _ ⟨keep, rfl, hreads⟩
    show Reads _ l
    simpa [Around.nodes] using hreads

theorem mergeNext_reads (h : Reads z.nodes l) :
    Sat (mergeNext junk fill z) (fun z' => Reads z'.nodes l) Fault.Overflows := by
  obtain ⟨front, center, back, len⟩ := z
  rcases back with _ | ⟨next, _ | ⟨nextNext, back⟩⟩
  · exact h
  · exact h
  · rw [mergeNext]
    refine Sat.ite (fun _ => ?_) (fun _ => h)
    have hsplit : Around.nodes ⟨front, center, next :: nextNext :: back, len⟩
        = (front.reverse ++ [center]) ++ next :: nextNext :: back := by
      simp [Around.nodes]
    rw [hsplit] at h
    refine Sat.bind (merge_neighbours junk h) ?_
    rintro _ ⟨keep, rfl, hreads⟩
    show Reads _ l
    simpa [Around.nodes] using hreads

theorem mergeCenter_reads (h : Reads z.nodes l) :
    Sat (mergeCenter junk fill z) (fun z' => Reads z'.nodes l) Fault.Overflows := by
  obtain ⟨front, center, back, len⟩ := z
  rcases front with _ | ⟨prev, front⟩
  · exact h
  · rw [mergeCenter]
    refine Sat.ite (fun _ => ?_) (fun _ => h)
    have hsplit : Around.nodes ⟨prev :: front, center, back, len⟩
        = front.reverse ++ prev :: center :: back := by
      simp [Around.nodes]
    rw [hsplit] at h
    refine Sat.bind (merge_neighbours junk h) ?_
    rintro _ ⟨keep, rfl, hreads⟩
    exact hreads

theorem mergeTarget_reads (h : Reads z.nodes l) :
    Sat (mergeTarget junk fill z) (fun z' => Reads z'.nodes l) Fault.Overflows := by
  obtain ⟨front, center, back, len⟩ := z
  rcases back with _ | ⟨next, back⟩
  · exact h
  · rw [mergeTarget]
    refine Sat.ite (fun _ => ?_) (fun _ => h)
    refine Sat.bind (merge_neighbours junk h) ?_
    rintro _ ⟨keep, rfl, hreads⟩
    exact hreads

/-- **Merging keeps the sequence**, whatever the limits allow. -/
theorem quicklistMergeNodes_reads (h : Reads z.nodes l) :
    Sat (quicklistMergeNodes junk fill z) (fun z' => Reads z'.nodes l) Fault.Overflows := by
  refine Sat.bind (mergePrev_reads junk fill h) fun z₁ h₁ => ?_
  refine Sat.bind (mergeNext_reads junk fill h₁) fun z₂ h₂ => ?_
  exact Sat.bind (mergeCenter_reads junk fill h₂) fun z₃ h₃ => mergeTarget_reads junk fill h₃

end Node

/-! ### Splitting -/

/-- The entries the input node of a split keeps. -/
def keptEntries (l : List Bytes) (offset : Int) (after : Bool) : List Bytes :=
  listStep l (.deleteRange (if after then offset + 1 else 0)
    (uint32 (if after then -1 else offset)))

/-- The entries the new node takes. -/
def takenEntries (l : List Bytes) (offset : Int) (after : Bool) : List Bytes :=
  listStep l (.deleteRange (if after then 0 else offset)
    (uint32 (if after then offset + 1 else -1)))

/-- Both pieces with the value between them. -/
def splitEntries (l : List Bytes) (offset : Int) (value : Bytes) (after : Bool) : List Bytes :=
  if after then keptEntries l offset after ++ value :: takenEntries l offset after
  else takenEntries l offset after ++ value :: keptEntries l offset after

section Split

variable (junk : Nat → UInt8)

theorem splitHalf_spec {zl : Bytes} (h : ZipReady zl l) (start extent : Int) :
    Sat (splitHalf junk zl start extent)
      (fun node => ZipReady node.zl (listStep l (.deleteRange start (uint32 extent))) ∧
        node.count = (listStep l (.deleteRange start (uint32 extent))).length % 65536)
      Fault.Overflows := by
  refine Sat.bind (zip_sat (ziplistStep_counts junk h.holds (.deleteRange start (uint32 extent)))) ?_
  rintro zl' ⟨hholds, hcounts⟩
  obtain ⟨node, hnode, hready, hcount⟩ := recount_ready ⟨hholds, hcounts h.counts⟩
  rw [hnode]
  exact ⟨hready, hcount⟩

theorem NodeHolds.take_sz (h : NodeHolds node l) :
    node.zl.take node.sz = node.zl := by
  obtain ⟨es, hrep, -⟩ := h.holds
  have hsz := h.sz
  rw [hrep.wellFormed.bytes] at hsz
  rw [← Except.ok.inj hsz, List.take_length]

/-- A split node is read as its two pieces with the value between them. -/
theorem insertSplit_reads {ql : Quicklist} {front back : List QuicklistNode} {x l y : List Bytes}
    (hfront : Reads front x) (hnode : NodeHolds node l) (hback : Reads back y) (offset : Int) (value : Bytes)
    (after : Bool) :
    Sat (insertSplit junk ql front node back offset value after)
      (fun r => Reads r.nodes (x ++ (splitEntries l offset value after ++ y)) ∧ r.count = ql.count)
      Fault.Overflows := by
  rw [insertSplit, quicklistSplitNode, hnode.take_sz]
  simp only
  rw [bind_assoc]
  refine Sat.bind (splitHalf_spec junk hnode.ready.1 _ _) ?_
  rintro kept ⟨hkept, hkeptcount⟩
  rw [bind_assoc]
  refine Sat.bind (splitHalf_spec junk hnode.ready.1 _ _) ?_
  rintro taken ⟨htaken, htakencount⟩
  rw [pure_bind]
  refine Sat.bind (push_reads junk htaken htakencount value _) ?_
  intro new hnew
  have hkeptreads : NodeReads kept (keptEntries l offset after) := by
    obtain ⟨es, hrep, hval⟩ := hkept.holds
    exact ⟨⟨es, hrep.loose, hval⟩, hkept.counts, hkeptcount⟩
  refine Sat.bind (quicklistMergeNodes_reads junk ql.fill
    (l := x ++ (splitEntries l offset value after ++ y)) ?_) (fun z hz => ⟨hz, rfl⟩)
  cases after with
  | true =>
    have hnew' : NodeReads new (value :: takenEntries l offset true) := hnew
    simp only [Around.nodes, if_true, List.reverse_reverse]
    refine reads_append.mpr ⟨x, _, rfl, hfront, reads_cons.mpr ⟨_, _, ?_, hkeptreads,
      reads_cons.mpr ⟨_, y, rfl, hnew', hback⟩⟩⟩
    simp [splitEntries]
  | false =>
    have hnew' : NodeReads new (takenEntries l offset false ++ [value]) := hnew
    simp only [Around.nodes, Bool.false_eq_true, if_false, List.reverse_cons, List.reverse_reverse,
      List.append_assoc, List.singleton_append]
    refine reads_append.mpr ⟨x, _, rfl, hfront, reads_cons.mpr ⟨_, _, ?_, hnew',
      reads_cons.mpr ⟨_, y, rfl, hkeptreads, hback⟩⟩⟩
    simp [splitEntries]

end Split

/-! ### The pieces -/

/-- The list with a value before or after element `k`. -/
def insertList (l : List Bytes) (k : Nat) (value : Bytes) (after : Bool) : List Bytes :=
  let i := if after then k + 1 else k
  l.take i ++ value :: l.drop i

theorem length_insertList (l : List Bytes) (k : Nat) (value : Bytes) (after : Bool) :
    (insertList l k value after).length = l.length + 1 := by
  simp [insertList]
  omega

/-- `-1` as a number of entries. -/
theorem le_uint32_neg_one : 65536 ≤ uint32 (-1) := by decide

section Pieces

variable {l : List Bytes} {k : Nat} (hm : l.length < 2 ^ 16)
include hm

/-- Deleting until the list ends. -/
theorem deleteRange_rest {index : Int} {i : Nat} (hi : entryIndex l.length index = some i) {num : Nat}
    (hnum : 65536 ≤ num) : listStep l (.deleteRange index num) = l.take i := by
  simp only [listStep, hi]
  rw [List.drop_of_length_le (by omega), List.append_nil]

variable (hk : k < l.length) (value : Bytes)
include hk

/-- With the offset from the head the pieces are those around the entry. -/
theorem splitEntries_forward (after : Bool) :
    splitEntries l k value after = insertList l k value after := by
  have h0 : entryIndex l.length 0 = some 0 := by
    rw [entryIndex, if_pos le_rfl, if_pos (by omega)]
    rfl
  have hindex : entryIndex l.length (k : Int) = some k := by rw [entryIndex_natCast, if_pos hk]
  cases after with
  | true =>
    have hkept : keptEntries l k true = l.take (k + 1) := by
      simp only [keptEntries, if_true]
      by_cases hlast : k + 1 < l.length
      · exact deleteRange_rest hm (i := k + 1)
          (by rw [← Nat.cast_succ, entryIndex_natCast, if_pos hlast]) le_uint32_neg_one
      · simp only [listStep]
        rw [← Nat.cast_succ, entryIndex_natCast, if_neg hlast, List.take_of_length_le (by omega)]
    have htaken : takenEntries l k true = l.drop (k + 1) := by
      simp only [takenEntries, if_true, listStep, h0, List.take_zero, List.nil_append, Nat.zero_add]
      rw [uint32_eq (m := k + 1) (by push_cast; rfl) (by omega)]
    simp only [splitEntries, insertList, if_true, hkept, htaken]
  | false =>
    have hkept : keptEntries l k false = l.drop k := by
      simp only [keptEntries, Bool.false_eq_true, if_false, listStep, h0, List.take_zero,
        List.nil_append, Nat.zero_add]
      rw [uint32_eq (m := k) rfl (by omega)]
    have htaken : takenEntries l k false = l.take k := by
      simp only [takenEntries, Bool.false_eq_true, if_false]
      exact deleteRange_rest hm hindex le_uint32_neg_one
    simp only [splitEntries, insertList, Bool.false_eq_true, if_false, hkept, htaken]

/-- With the offset from the tail a negative number of entries is deleted, that is all of
    them. -/
theorem splitEntries_backward (after : Bool) :
    splitEntries l ((k : Int) - l.length) value after
      = if after then (if k + 1 = l.length then value :: l else l.take (k + 1) ++ [value])
        else l.take k ++ [value] := by
  have h0 : entryIndex l.length 0 = some 0 := by
    rw [entryIndex, if_pos le_rfl, if_pos (by omega)]
    rfl
  cases after with
  | true =>
    rw [if_pos rfl]
    simp only [splitEntries, if_true, keptEntries, takenEntries]
    by_cases hlast : k + 1 = l.length
    · have hzero : (k : Int) - l.length + 1 = 0 := by omega
      rw [if_pos hlast, hzero, deleteRange_rest hm h0 le_uint32_neg_one]
      simp only [listStep, h0, show uint32 0 = 0 from rfl]
      simp
    · have hindex : entryIndex l.length ((k : Int) - l.length + 1) = some (k + 1) := by
        rw [entryIndex, if_neg (by omega), if_pos (by omega)]
        congr 1
        omega
      have hall : 65536 ≤ uint32 ((k : Int) - l.length + 1) := by
        rw [uint32]
        omega
      rw [if_neg hlast, deleteRange_rest hm hindex le_uint32_neg_one, deleteRange_rest hm h0 hall]
      simp
  | false =>
    have hindex : entryIndex l.length ((k : Int) - l.length) = some k := by
      rw [entryIndex, if_neg (by omega), if_pos (by omega)]
      congr 1
      omega
    have hall : 65536 ≤ uint32 ((k : Int) - l.length) := by
      rw [uint32]
      omega
    simp only [splitEntries, Bool.false_eq_true, if_false, keptEntries, takenEntries]
    rw [deleteRange_rest hm h0 hall, deleteRange_rest hm hindex le_uint32_neg_one]
    simp

end Pieces

/-- A value in front of a list or behind it makes the same list only when all are equal. -/
theorem cons_eq_concat_iff (l : List Bytes) (value : Bytes) :
    value :: l = l ++ [value] ↔ ∀ x ∈ l, x = value := by
  induction l with
  | nil => simp
  | cons a l ih =>
    rw [List.cons_append, List.cons.injEq, List.forall_mem_cons]
    constructor
    · rintro ⟨rfl, h⟩
      exact ⟨rfl, ih.mp h⟩
    · rintro ⟨rfl, h⟩
      exact ⟨rfl, ih.mpr h⟩

/-! ### The place of the value -/

section Place

variable (junk : Nat → UInt8) {ql : Quicklist} {front back : List QuicklistNode}
  {node : QuicklistNode} {x l y : List Bytes} {k : Nat}

/-- Insertion next to the entry at a pointer. -/
theorem insertHere_reads (hfront : Reads front x) (hnode : NodeHolds node l) (hback : Reads back y)
    (hk : k < l.length) {zi : Option Nat} {offset : Int} (hzi : ziplistIndex node.zl offset = .ok zi)
    (hoffset : entryIndex l.length offset = some k) (value : Bytes) (after : Bool) :
    Sat (insertHere junk ql front node back zi value after)
      (fun r => Reads r.nodes (x ++ (insertList l k value after ++ y)) ∧ r.count = ql.count)
      Fault.Overflows := by
  obtain ⟨hready, hcount⟩ := hnode.ready
  obtain ⟨es, hrep, rfl⟩ := hnode.holds
  rw [List.length_map] at hk hoffset
  have hindex := ziplistIndex_spec hrep
  rw [hindex, hoffset] at hzi
  obtain rfl := (Except.ok.inj hzi).symm
  set p := 10 + (cellsBytes (es.take k)).length with hp
  -- an insertion into the ziplist in front of entry `i`, or at the end
  have hstep : ∀ i : Nat, i ≤ es.length →
      Sat (do
          let zl ← zip (ziplistStep junk node.zl (.insert i value))
          nodeOf zl (node.count + 1))
        (fun n => NodeReads n ((es.map ZipCell.val).take i ++ value :: (es.map ZipCell.val).drop i))
        Fault.Overflows := by
    intro i hi
    refine step_nodeOf junk hready (.insert i value) ?_
    simp only [listStep, hcount, List.length_append, List.length_cons, List.length_take,
      List.length_drop, List.length_map]
    omega
  have hbefore : Sat (node.insert junk p value)
      (fun n => NodeReads n ((es.map ZipCell.val).take k ++ value :: (es.map ZipCell.val).drop k))
      Fault.Overflows := by
    have h := hstep k hk.le
    rw [ziplistStep, insertPointer, hindex, entryIndex_natCast, if_pos hk] at h
    exact h
  have hbehind : Sat (node.insertBehind junk p value)
      (fun n => NodeReads n ((es.map ZipCell.val).take (k + 1)
        ++ value :: (es.map ZipCell.val).drop (k + 1))) Fault.Overflows := by
    rw [QuicklistNode.insertBehind, hp, ziplistNext_spec hrep hk, zip_ok, ok_bind]
    by_cases hlast : k + 1 < es.length
    · have h := hstep (k + 1) hlast.le
      rw [ziplistStep, insertPointer, hindex, entryIndex_natCast, if_pos hlast] at h
      rw [if_pos hlast]
      exact h
    · have h := push_reads junk hready hcount value .tail
      rw [if_neg hlast, List.take_of_length_le (by simp; omega),
        List.drop_of_length_le (by simp; omega)]
      exact h
  have hput : ∀ node' i, NodeReads node'
      ((es.map ZipCell.val).take i ++ value :: (es.map ZipCell.val).drop i) →
      Reads (front ++ node' :: back) (x ++ (((es.map ZipCell.val).take i
        ++ value :: (es.map ZipCell.val).drop i) ++ y)) := by
    intro node' i hnode'
    exact reads_append.mpr ⟨x, _, rfl, hfront, reads_cons.mpr ⟨_, y, rfl, hnode', hback⟩⟩
  cases after with
  | true =>
    refine Sat.bind hbehind ?_
    intro node' hnode'
    exact ⟨hput node' (k + 1) hnode', rfl⟩
  | false =>
    refine Sat.bind hbefore ?_
    intro node' hnode'
    exact ⟨hput node' k hnode', rfl⟩

/-- The value goes to the end of the previous node. -/
theorem insertPrev_reads {as : List (List Bytes)} (hfront : List.Forall₂ NodeHolds front as)
    (hnode : NodeHolds node l) (hback : Reads back y) (hprev : front.getLast?.isSome = true)
    (value : Bytes) :
    Sat (insertPrev junk ql front node back value)
      (fun r => Reads r.nodes (as.flatten ++ (value :: l ++ y)) ∧ r.count = ql.count)
      Fault.Overflows := by
  obtain ⟨prev, hlast⟩ := Option.isSome_iff_exists.mp hprev
  have hcut : front = front.dropLast ++ prev :: [] := (List.dropLast_append_getLast? prev hlast).symm
  rw [hcut] at hfront
  obtain ⟨as, lp, bs, rfl, has, hprevholds, hbs⟩ := forall₂_split hfront
  rw [List.forall₂_nil_left_iff.mp hbs]
  obtain ⟨hready, hcount⟩ := hprevholds.ready
  simp only [insertPrev, hlast]
  refine Sat.bind (push_reads junk hready hcount value .tail) ?_
  intro prev' hprev'
  have hvalue : NodeReads prev' (lp ++ [value]) := hprev'
  refine ⟨?_, rfl⟩
  have hreads : Reads (front.dropLast ++ prev' :: node :: back)
      (as.flatten ++ ((lp ++ [value]) ++ (l ++ y))) :=
    reads_append.mpr ⟨_, _, rfl, ListHolds.reads has,
      reads_cons.mpr ⟨_, _, rfl, hvalue, reads_cons.mpr ⟨l, y, rfl, hnode.reads, hback⟩⟩⟩
  simpa using hreads

/-- The value goes to a node of its own in front of the entry's node. -/
theorem insertAlone_reads (hfront : Reads front x) (hnode : NodeHolds node l) (hback : Reads back y)
    (value : Bytes) :
    Sat (insertAlone junk ql front node back value false)
      (fun r => Reads r.nodes (x ++ (value :: l ++ y)) ∧ r.count = ql.count) Fault.Overflows := by
  refine Sat.bind (createNode_reads junk value) ?_
  intro new hnew
  refine ⟨?_, rfl⟩
  have hreads : Reads (front ++ new :: node :: back) (x ++ ([value] ++ (l ++ y))) :=
    reads_append.mpr ⟨x, _, rfl, hfront,
      reads_cons.mpr ⟨_, _, rfl, hnew, reads_cons.mpr ⟨l, y, rfl, hnode.reads, hback⟩⟩⟩
  simpa using hreads

/-- With the offset from the head, wherever the value goes. -/
theorem insertPlace_forward {as : List (List Bytes)} (hfront : List.Forall₂ NodeHolds front as)
    (hnode : NodeHolds node l) (hback : Reads back y) (hk : k < l.length) {n : Nat}
    {zi : Option Nat} {v : Option (Bytes ⊕ Int)} (hzi : ziplistIndex node.zl k = .ok zi)
    (value : Bytes) (after : Bool) :
    Sat (insertPlace junk ql front node back { node := n, offset := k, zi := zi, value := v } value
        after)
      (fun r => Reads r.nodes (as.flatten ++ (insertList l k value after ++ y)) ∧
        r.count = ql.count)
      Fault.Overflows := by
  have hm : l.length < 2 ^ 16 := hnode.count ▸ hnode.lt
  have hreads := ListHolds.reads hfront
  have hsplit : Sat (insertSplit junk ql front node back k value after)
      (fun r => Reads r.nodes (as.flatten ++ (splitEntries l k value after ++ y)) ∧
        r.count = ql.count) Fault.Overflows := insertSplit_reads junk hreads hnode hback k value after
  rw [splitEntries_forward hm hk] at hsplit
  have htail : decide ((k : Int) = node.count) = false := by
    rw [decide_eq_false_iff_not, hnode.count]
    omega
  rw [insertPlace]
  simp only [htail, Bool.and_false, Bool.false_and, Bool.false_or, Bool.false_eq_true, if_false]
  refine Sat.ite (fun _ => ?_) (fun _ => ?_)
  · exact insertHere_reads junk hreads hnode hback hk hzi (by rw [entryIndex_natCast, if_pos hk])
      value after
  · cases after with
    | true => simpa using hsplit
    | false =>
      -- the first entry of the node: the previous node, or a new one, if there is a previous one
      have hfirst : k = 0 → insertList l k value false = value :: l := by
        rintro rfl
        rfl
      refine Sat.ite (fun hprev => ?_) (fun _ => Sat.ite (fun halone => ?_) (fun _ => hsplit))
      · simp only [Bool.not_false, Bool.true_and, Bool.and_true, Bool.and_eq_true,
          decide_eq_true_eq] at hprev
        rw [hfirst (by omega)]
        exact insertPrev_reads junk hfront hnode hback hprev.1.2 value
      · simp only [Bool.not_false, Bool.true_and, Bool.and_true, Bool.and_eq_true,
          decide_eq_true_eq] at halone
        rw [hfirst (by omega)]
        exact insertAlone_reads junk hreads hnode hback value

end Place

/-! ### Both ways to name an entry -/

/-- From the tail a split puts the value where it should go only behind the last entry of a
    node that has nothing but this value. -/
theorem splitEntries_backward_iff {k : Nat} (hm : l.length < 2 ^ 16) (hk : k < l.length) (value : Bytes)
    (after : Bool) :
    insertList l k value after = splitEntries l ((k : Int) - l.length) value after ↔
      after = true ∧ k + 1 = l.length ∧ ∀ x ∈ l, x = value := by
  have hlen := length_insertList l k value after
  rw [splitEntries_backward hm hk value after]
  cases after with
  | true =>
    by_cases hlast : k + 1 = l.length
    · have hwhole : insertList l k value true = l ++ [value] := by
        simp [insertList, hlast]
      rw [if_pos rfl, if_pos hlast, hwhole, eq_comm, cons_eq_concat_iff]
      simp [hlast]
    · -- the entries behind the place are lost
      rw [if_pos rfl, if_neg hlast]
      constructor
      · intro h
        rw [h] at hlen
        simp only [List.length_append, List.length_take, List.length_singleton] at hlen
        omega
      · rintro ⟨-, h, -⟩
        exact absurd h hlast
  | false =>
    rw [if_neg Bool.false_ne_true]
    constructor
    · intro h
      rw [h] at hlen
      simp only [List.length_append, List.length_take, List.length_singleton] at hlen
      omega
    · rintro ⟨h, -⟩
      exact absurd h Bool.false_ne_true

/-- The node of an element and the two entries that name it. -/
theorem quicklistIndex_both {ql : Quicklist} {ls : List (List Bytes)} (h : ListHolds ql ls) {i : Nat}
    (hi : i < ql.count) :
    ∃ pre node post as l bs k zi v w,
      ql.nodes = pre ++ node :: post ∧ ls = as ++ l :: bs ∧ List.Forall₂ NodeHolds pre as ∧
      NodeHolds node l ∧ List.Forall₂ NodeHolds post bs ∧ i = entriesOf pre + k ∧ k < l.length ∧
      ziplistIndex node.zl k = .ok zi ∧
      quicklistIndex ql i
        = .ok (some { node := pre.length, offset := k, zi := zi, value := v }) ∧
      quicklistIndex ql ((i : Int) - ql.count)
        = .ok (some { node := pre.length, offset := (k : Int) - l.length, zi := zi, value := w }) := by
  have hn : i < ls.flatten.length := h.count ▸ hi
  have hforward : entryIndex ls.flatten.length (i : Int) = some i := by
    rw [entryIndex_natCast, if_pos hn]
  have hbackward : entryIndex ls.flatten.length ((i : Int) - ql.count) = some i := by
    rw [entryIndex, if_neg (by omega), h.count, if_pos (by omega)]
    congr 1
    omega
  obtain ⟨pre, node, post, hsplit, hlow, hhigh, offset, zi, v, hzi, hoffset, hfind⟩ :=
    quicklistIndex_spec h hforward
  obtain ⟨pre', node', post', hsplit', hlow', hhigh', offset', zi', w, hzi', hoffset', hfind'⟩ :=
    quicklistIndex_spec h hbackward
  obtain ⟨rfl, rfl⟩ := split_unique (hsplit.symm.trans hsplit') hlow hhigh hlow' hhigh'
  obtain ⟨as, l, bs, hls, hpre, hnode, hpost⟩ := forall₂_split (hsplit ▸ h.nodes)
  have hcount := hnode.count
  obtain ⟨k, rfl⟩ := Nat.exists_eq_add_of_le hlow
  have hk : k < l.length := by omega
  obtain rfl : offset = (k : Int) := by
    rw [hoffset, if_pos (by omega)]
    omega
  obtain rfl : offset' = (k : Int) - l.length := by
    rw [hoffset', if_neg (by omega)]
    omega
  -- either offset is that of the same entry
  have hsame : zi' = zi := by
    obtain ⟨es, hrep, rfl⟩ := hnode.holds
    rw [List.length_map] at hk hzi'
    rw [ziplistIndex_spec hrep] at hzi hzi'
    have hindex : entryIndex es.length ((k : Int) - es.length) = entryIndex es.length k := by
      rw [entryIndex_natCast, if_pos hk, entryIndex, if_neg (by omega), if_pos (by omega)]
      congr 1
      omega
    rw [hindex, hzi] at hzi'
    exact (Except.ok.inj hzi').symm
  subst hsame
  exact ⟨pre, node, post, as, l, bs, k, zi', v, w, hsplit, hls, hpre, hnode, hpost, rfl, hk, hzi, hfind,
    hfind'⟩

/-- The same sequence and the same number of elements, and every node counts its own. -/
def Agree (r₁ r₂ : Quicklist) : Prop :=
  elements r₁.nodes = elements r₂.nodes ∧ r₁.count = r₂.count ∧ CountersRight r₁.nodes ∧
    CountersRight r₂.nodes

/-- The node of element `i` has room for the value, or the value goes behind its last entry
    and all its entries equal the value. -/
def AddressFree (ql : Quicklist) (i : Nat) (value : Bytes) (after : Bool) : Prop :=
  ∃ pre node post l, ql.nodes = pre ++ node :: post ∧ NodeHolds node l ∧ entriesOf pre ≤ i ∧
    i < entriesOf pre + l.length ∧
    (quicklistNodeAllowInsert (some node) ql.fill value.length = true ∨
      after = true ∧ i + 1 = entriesOf pre + l.length ∧ ∀ x ∈ l, x = value)

/-- The condition, at the node where the element is. -/
theorem addressFree_iff {ql : Quicklist} {pre post : List QuicklistNode} {k : Nat}
    (hnodes : ql.nodes = pre ++ node :: post) (hnode : NodeHolds node l) (hk : k < l.length) (value : Bytes)
    (after : Bool) :
    AddressFree ql (entriesOf pre + k) value after ↔
      quicklistNodeAllowInsert (some node) ql.fill value.length = true ∨
        after = true ∧ k + 1 = l.length ∧ ∀ x ∈ l, x = value := by
  constructor
  · rintro ⟨pre', node', post', l', hnodes', hnode', hlow, hhigh, h⟩
    have hcount := hnode.count
    have hcount' := hnode'.count
    obtain ⟨rfl, rfl⟩ := split_unique (hnodes.symm.trans hnodes') (Nat.le_add_right _ k) (by omega)
      hlow (by omega)
    obtain rfl := holds_unique hnode'.holds hnode.holds
    rcases h with hroom | ⟨hafter, hlast, hall⟩
    · exact Or.inl hroom
    · exact Or.inr ⟨hafter, by omega, hall⟩
  · intro h
    refine ⟨pre, node, post, l, hnodes, hnode, by omega, by omega, ?_⟩
    rcases h with hroom | ⟨hafter, hlast, hall⟩
    · exact Or.inl hroom
    · exact Or.inr ⟨hafter, by omega, hall⟩

section Index

variable (junk : Nat → UInt8)

variable {ql : Quicklist} {node : QuicklistNode} {front back : List QuicklistNode}

/-- The function, at the entry an index names. -/
theorem insertAtIndex_eq {pre post : List QuicklistNode} (hnodes : ql.nodes = pre ++ node :: post) {idx : Int}
    {entry : QuicklistEntry} (hfind : quicklistIndex ql idx = .ok (some entry))
    (hentry : entry.node = pre.length) (value : Bytes) (after : Bool) :
    insertAtIndex junk ql idx value after = do
      let r ← insertPlace junk ql pre node post entry value after
      return { r with count := r.count + 1 } := by
  have hget : ql.nodes[entry.node]? = some node := by rw [hnodes, hentry]; simp
  have htake : ql.nodes.take entry.node = pre := by rw [hnodes, hentry]; simp
  have hdrop : ql.nodes.drop (entry.node + 1) = post := by rw [hnodes, hentry]; simp
  have hinsert : insertAtIndex junk ql idx value after
      = quicklistInsert junk ql (some entry) value after := by
    rw [insertAtIndex, hfind, ok_bind]
    cases after <;> rfl
  rw [hinsert, quicklistInsert]
  simp only [hget, htake, hdrop]

/-- With room in the node, the offset of the entry does not matter. -/
theorem insertPlace_room {value : Bytes}
    (hroom : quicklistNodeAllowInsert (some node) ql.fill value.length = true) (entry : QuicklistEntry)
    (after : Bool) :
    insertPlace junk ql front node back entry value after
      = insertHere junk ql front node back entry.zi value after := by
  rw [insertPlace]
  simp [hroom]

/-- Without room and with an offset from the tail, the node is always split. -/
theorem insertPlace_full {value : Bytes}
    (hroom : quicklistNodeAllowInsert (some node) ql.fill value.length = false) {entry : QuicklistEntry}
    (hneg : entry.offset < 0) (after : Bool) :
    insertPlace junk ql front node back entry value after
      = insertSplit junk ql front node back entry.offset value after := by
  have htail : decide (entry.offset = node.count) = false := decide_eq_false (by omega)
  have hhead : decide (entry.offset = 0) = false := decide_eq_false (by omega)
  rw [insertPlace]
  simp [hroom, htail, hhead]

end Index

end Redis.Quick
