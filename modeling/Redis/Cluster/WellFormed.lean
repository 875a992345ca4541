import Redis.Cluster.View

namespace Redis

/-!
# The invariant of the tables

* `ClusterView.WellFormed` — the node table, the owner table, the bitmaps and counters of
  the nodes, and the role of this node fit together;
* `ClusterView.Similar` — changes that touch neither names nor slots;
* one lemma for each change: it keeps the tables well formed.
-/

/-- The number of bits that are set. -/
def slotCount (slots : SlotBitmap) : Int := (Finset.univ.filter fun j => slots j = true).card

variable {slots : SlotBitmap}

theorem slotCount_clear {j : Slot} (h : slots j = true) :
    slotCount (fun i => if i = j then false else slots i) = slotCount slots - 1 := by
  have hset : (Finset.univ.filter fun i => (if i = j then false else slots i) = true)
      = (Finset.univ.filter fun i => slots i = true).erase j := by
    ext i
    by_cases hi : i = j <;> simp [hi]
  have hmem : j ∈ Finset.univ.filter fun i => slots i = true := by simp [h]
  have hpos := Finset.card_pos.mpr ⟨j, hmem⟩
  rw [slotCount, slotCount, hset, Finset.card_erase_of_mem hmem]
  omega

theorem slotCount_set {j : Slot} (h : slots j = false) :
    slotCount (fun i => if i = j then true else slots i) = slotCount slots + 1 := by
  have hset : (Finset.univ.filter fun i => (if i = j then true else slots i) = true)
      = insert j (Finset.univ.filter fun i => slots i = true) := by
    ext i
    by_cases hi : i = j <;> simp [hi]
  rw [slotCount, slotCount, hset, Finset.card_insert_of_notMem (by simp [h])]
  rfl

/-- A node without slots. -/
theorem slotCount_eq_zero (h : ∀ j, slots j = false) : slotCount slots = 0 := by
  unfold slotCount
  rw [Finset.filter_eq_empty_iff.mpr fun j _ => by simp [h j]]
  rfl

theorem eq_false_of_slotCount (h : slotCount slots = 0) (j : Slot) :
    slots j = false := by
  have hcard : (Finset.univ.filter fun i => slots i = true).card = 0 := by
    unfold slotCount at h
    exact Int.natCast_eq_zero.mp h
  have hj := (Finset.filter_eq_empty_iff.mp (Finset.card_eq_zero.mp hcard)) (Finset.mem_univ j)
  simpa using hj

/-- The role of this node: exactly one, and a master follows nobody. -/
structure NodeView.SelfRole (n : NodeView) : Prop where
  handshake : n.handshake = false
  role : n.slave = !n.master
  slaveof : n.master = true → n.slaveof = none

namespace ClusterView

/-- The tables of a node fit together. -/
structure WellFormed (v : ClusterView) : Prop where
  table : ∀ name r, (name, r) ∈ v.nodes → ∃ n, v.heap r = some n ∧ n.name = name
  names : (v.nodes.map Prod.fst).Nodup
  fresh : ∀ r, v.nextRef ≤ r → v.heap r = none
  owner : ∀ j r, v.slots j = some r → r ∈ v.refs ∧ ∃ n, v.heap r = some n ∧ n.slots j = true
  owned : ∀ r n j, v.heap r = some n → n.slots j = true → v.slots j = some r
  count : ∀ r n, v.heap r = some n → n.numslots = slotCount n.slots
  migrating : ∀ j r, v.migratingSlotsTo j = some r → r ∈ v.refs
  importing : ∀ j r, v.importingSlotsFrom j = some r → r ∈ v.refs
  self : v.myself ∈ v.refs
  selfFlag : ∀ r n, v.heap r = some n → (n.myself = true ↔ r = v.myself)
  selfRole : ∀ me, v.heap v.myself = some me → me.SelfRole

variable {v w : ClusterView}

/-! ### The node table -/

variable {r : Ref} {name : NodeName} {f : NodeView → NodeView}

theorem mem_refs : r ∈ v.refs ↔ ∃ name, (name, r) ∈ v.nodes := by
  simp [refs]

theorem WellFormed.mem_nodes (h : v.WellFormed) (hr : r ∈ v.refs) :
    ∃ n, v.heap r = some n ∧ (n.name, r) ∈ v.nodes := by
  obtain ⟨name, hname⟩ := mem_refs.mp hr
  obtain ⟨n, hn, rfl⟩ := h.table name r hname
  exact ⟨n, hn, hname⟩

theorem WellFormed.exists_myself (h : v.WellFormed) : ∃ me, v.heap v.myself = some me ∧ me.SelfRole := by
  obtain ⟨me, hme, -⟩ := h.mem_nodes h.self
  exact ⟨me, hme, h.selfRole me hme⟩

theorem lookup_eq_none : v.lookup name = none ↔ name ∉ v.nodes.map Prod.fst := by
  simp only [lookup, Option.map_eq_none_iff, List.find?_eq_none, decide_eq_true_eq, List.mem_map,
    not_exists, not_and]

theorem mem_of_lookup (h : v.lookup name = some r) :
    (name, r) ∈ v.nodes := by
  obtain ⟨⟨name', r'⟩, hfind, rfl⟩ := Option.map_eq_some_iff.mp h
  have hname := List.find?_some hfind
  rw [decide_eq_true_eq] at hname
  subst hname
  exact List.mem_of_find?_eq_some hfind

theorem mem_refs_of_lookup (h : v.lookup name = some r) : r ∈ v.refs :=
  mem_refs.mpr ⟨name, mem_of_lookup h⟩

/-- In a list of pairs with distinct keys, deleting the first pair with a key deletes all of
    them. -/
theorem mem_eraseP_fst {l : List (NodeName × Ref)} (hl : (l.map Prod.fst).Nodup) (name : NodeName)
    (q : NodeName × Ref) : q ∈ l.eraseP (fun p => p.1 = name) ↔ q ∈ l ∧ q.1 ≠ name := by
  induction l with
  | nil => simp
  | cons p l ih =>
    rw [List.map_cons, List.nodup_cons] at hl
    by_cases hp : p.1 = name
    · rw [List.eraseP_cons_of_pos (by simpa using hp), List.mem_cons]
      constructor
      · intro hq
        refine ⟨Or.inr hq, fun hname => hl.1 ?_⟩
        rw [hp, ← hname]
        exact List.mem_map_of_mem hq
      · rintro ⟨rfl | hq, hne⟩
        · exact absurd hp hne
        · exact hq
    · rw [List.eraseP_cons_of_neg (by simpa using hp), List.mem_cons, List.mem_cons, ih hl.2]
      constructor
      · rintro (rfl | ⟨hq, hne⟩)
        · exact ⟨Or.inl rfl, hp⟩
        · exact ⟨Or.inr hq, hne⟩
      · rintro ⟨rfl | hq, hne⟩
        · exact Or.inl rfl
        · exact Or.inr ⟨hq, hne⟩

theorem WellFormed.mem_nodesDelete (h : v.WellFormed) {q : NodeName × Ref} :
    q ∈ (v.nodesDelete name).nodes ↔ q ∈ v.nodes ∧ q.1 ≠ name :=
  mem_eraseP_fst h.names name q

theorem WellFormed.nodup_nodesDelete (h : v.WellFormed) (name : NodeName) :
    ((v.nodesDelete name).nodes.map Prod.fst).Nodup :=
  h.names.sublist (List.Sublist.map _ List.eraseP_sublist)

/-- Deleting the name of a node takes exactly this node out of the table. -/
theorem WellFormed.mem_refs_nodesDelete (h : v.WellFormed) {r x : Ref} (hr : r ∈ v.refs) :
    x ∈ (v.nodesDelete (v.nameOf r)).refs ↔ x ∈ v.refs ∧ x ≠ r := by
  obtain ⟨n, hn, hmem⟩ := h.mem_nodes hr
  have hname : v.nameOf r = n.name := by rw [nameOf, hn]
  rw [mem_refs, mem_refs, hname]
  constructor
  · rintro ⟨name, hx⟩
    obtain ⟨hx, hne⟩ := h.mem_nodesDelete.mp hx
    refine ⟨⟨name, hx⟩, ?_⟩
    rintro rfl
    obtain ⟨n', hn', rfl⟩ := h.table _ _ hx
    rw [hn] at hn'
    exact hne (by rw [Option.some.inj hn'])
  · rintro ⟨⟨name, hx⟩, hne⟩
    refine ⟨name, h.mem_nodesDelete.mpr ⟨hx, ?_⟩⟩
    rintro (rfl : name = n.name)
    exact hne (congrArg Prod.snd (List.inj_on_of_nodup_map h.names hx hmem rfl))

/-! ### Changes of roles, links and epochs -/

/-- The two nodes have the same name, slots and identity. -/
structure SameNode (n m : NodeView) : Prop where
  name : m.name = n.name
  slots : m.slots = n.slots
  numslots : m.numslots = n.numslots
  myself : m.myself = n.myself

theorem SameNode.refl (n : NodeView) : SameNode n n := ⟨rfl, rfl, rfl, rfl⟩

/-- A change that touches neither names nor slots, and opens no slot. -/
structure Similar (v w : ClusterView) : Prop where
  nodes : w.nodes = v.nodes
  slots : w.slots = v.slots
  myself : w.myself = v.myself
  nextRef : w.nextRef = v.nextRef
  migrating : ∀ j r, w.migratingSlotsTo j = some r → v.migratingSlotsTo j = some r
  importing : ∀ j r, w.importingSlotsFrom j = some r → v.importingSlotsFrom j = some r
  dead : ∀ r, v.heap r = none → w.heap r = none
  live : ∀ r n, v.heap r = some n → ∃ m, w.heap r = some m ∧ SameNode n m

theorem Similar.refl (v : ClusterView) : Similar v v :=
  ⟨rfl, rfl, rfl, rfl, fun _ _ h => h, fun _ _ h => h, fun _ h => h,
    fun _ n h => ⟨n, h, SameNode.refl n⟩⟩

theorem Similar.trans {u v w : ClusterView} (h : Similar u v) (h' : Similar v w) : Similar u w where
  nodes := h'.nodes.trans h.nodes
  slots := h'.slots.trans h.slots
  myself := h'.myself.trans h.myself
  nextRef := h'.nextRef.trans h.nextRef
  migrating := fun j r hj => h.migrating j r (h'.migrating j r hj)
  importing := fun j r hj => h.importing j r (h'.importing j r hj)
  dead := fun r hr => h'.dead r (h.dead r hr)
  live := by
    intro r n hn
    obtain ⟨m, hm, hnm⟩ := h.live r n hn
    obtain ⟨k, hk, hmk⟩ := h'.live r m hm
    exact ⟨k, hk, hmk.name.trans hnm.name, hmk.slots.trans hnm.slots,
      hmk.numslots.trans hnm.numslots, hmk.myself.trans hnm.myself⟩

theorem Similar.updateNode (v : ClusterView) (r : Ref) (hf : ∀ n, SameNode n (f n)) :
    Similar v (v.updateNode r f) where
  nodes := rfl
  slots := rfl
  myself := rfl
  nextRef := rfl
  migrating := fun _ _ h => h
  importing := fun _ _ h => h
  dead := fun x hx => by simp [ClusterView.updateNode, hx]
  live := by
    intro x n hx
    by_cases hxr : x = r
    · subst hxr
      exact ⟨f n, by simp [ClusterView.updateNode, hx], hf n⟩
    · exact ⟨n, by simp [ClusterView.updateNode, hx, hxr], SameNode.refl n⟩

theorem Similar.refs (h : Similar v w) : w.refs = v.refs := by
  rw [ClusterView.refs, h.nodes]
  rfl

/-- Where a node comes from. -/
theorem Similar.exists_of_heap (h : Similar v w) {m : NodeView} (hm : w.heap r = some m) :
    ∃ n, v.heap r = some n ∧ SameNode n m := by
  cases hn : v.heap r with
  | none => rw [h.dead r hn] at hm; cases hm
  | some n =>
    obtain ⟨m', hm', hsame⟩ := h.live r n hn
    rw [hm] at hm'
    cases hm'
    exact ⟨n, rfl, hsame⟩

/-- Only the role of this node has to be looked at. -/
theorem WellFormed.of_similar (h : v.WellFormed) (hs : Similar v w)
    (hself : ∀ me, w.heap w.myself = some me → me.SelfRole) : w.WellFormed where
  table := by
    intro name r hr
    rw [hs.nodes] at hr
    obtain ⟨n, hn, hname⟩ := h.table name r hr
    obtain ⟨m, hm, hsame⟩ := hs.live r n hn
    exact ⟨m, hm, hsame.name.trans hname⟩
  names := by rw [hs.nodes]; exact h.names
  fresh := fun r hr => hs.dead r (h.fresh r (hs.nextRef ▸ hr))
  owner := by
    intro j r hj
    rw [hs.slots] at hj
    obtain ⟨hr, n, hn, hbit⟩ := h.owner j r hj
    obtain ⟨m, hm, hsame⟩ := hs.live r n hn
    exact ⟨hs.refs ▸ hr, m, hm, by rw [hsame.slots]; exact hbit⟩
  owned := by
    intro r m j hm hbit
    obtain ⟨n, hn, hsame⟩ := hs.exists_of_heap hm
    rw [hs.slots]
    exact h.owned r n j hn (by rw [← hsame.slots]; exact hbit)
  count := by
    intro r m hm
    obtain ⟨n, hn, hsame⟩ := hs.exists_of_heap hm
    rw [hsame.numslots, hsame.slots]
    exact h.count r n hn
  migrating := fun j r hj => hs.refs ▸ h.migrating j r (hs.migrating j r hj)
  importing := fun j r hj => hs.refs ▸ h.importing j r (hs.importing j r hj)
  self := by rw [hs.refs, hs.myself]; exact h.self
  selfFlag := by
    intro r m hm
    obtain ⟨n, hn, hsame⟩ := hs.exists_of_heap hm
    rw [hsame.myself, hs.myself]
    exact h.selfFlag r n hn
  selfRole := hself

theorem Similar.removeSlave (v : ClusterView) (m r : Ref) : Similar v (v.removeSlave m r) :=
  Similar.updateNode v m (fun _ => ⟨rfl, rfl, rfl, rfl⟩)

theorem Similar.addSlave (v : ClusterView) (m r : Ref) : Similar v (v.addSlave m r) :=
  Similar.updateNode v m (fun _ => ⟨rfl, rfl, rfl, rfl⟩)

theorem Similar.leave (v : ClusterView) (r : Ref) : Similar v (v.leave r) := by
  rw [ClusterView.leave]
  cases v.slaveof r with
  | none => exact Similar.refl v
  | some m => exact Similar.removeSlave v m r

theorem Similar.promote (v : ClusterView) (r : Ref) : Similar v (v.promote r) :=
  (Similar.leave v r).trans (Similar.updateNode _ r (fun _ => ⟨rfl, rfl, rfl, rfl⟩))

theorem Similar.demote (v : ClusterView) (r : Ref) : Similar v (v.demote r) :=
  Similar.updateNode v r (fun _ => ⟨rfl, rfl, rfl, rfl⟩)

theorem Similar.follow (v : ClusterView) (r m : Ref) : Similar v (v.follow r m) :=
  ((Similar.leave v r).trans (Similar.addSlave _ m r)).trans
    (Similar.updateNode _ r (fun _ => ⟨rfl, rfl, rfl, rfl⟩))

theorem Similar.closeSlots (v : ClusterView) : Similar v v.closeSlots where
  nodes := rfl
  slots := rfl
  myself := rfl
  nextRef := rfl
  migrating := fun _ _ h => by cases h
  importing := fun _ _ h => by cases h
  dead := fun _ h => h
  live := fun _ n h => ⟨n, h, SameNode.refl n⟩

theorem Similar.leaveRole (v : ClusterView) : Similar v v.leaveRole := by
  rw [ClusterView.leaveRole]
  by_cases h : (v.heap v.myself).any NodeView.master = true
  · rw [if_pos h]
    exact (Similar.demote v v.myself).trans (Similar.closeSlots _)
  · rw [if_neg h]
    exact Similar.leave v v.myself

theorem Similar.setMyMaster (v : ClusterView) (m : Ref) : Similar v (v.setMyMaster m) :=
  ((Similar.leaveRole v).trans (Similar.updateNode _ v.myself
    (f := fun n => { n with slaveof := some m }) (fun _ => ⟨rfl, rfl, rfl, rfl⟩))).trans
    (Similar.addSlave _ m v.myself)

section

variable (h : v.WellFormed)

include h

/-- A change of a node that is not about its role. -/
theorem WellFormed.updateNode (r : Ref) (hf : ∀ n, SameNode n (f n)) (hrole : ∀ n, n.SelfRole → (f n).SelfRole) :
    (v.updateNode r f).WellFormed := by
  refine h.of_similar (Similar.updateNode v r hf) ?_
  intro me hme
  rw [updateNode_myself, updateNode_heap, Option.map_eq_some_iff] at hme
  obtain ⟨n, hn, rfl⟩ := hme
  by_cases hr : v.myself = r
  · rw [if_pos hr]; exact hrole n (h.selfRole n hn)
  · rw [if_neg hr]; exact h.selfRole n hn

theorem WellFormed.leave (r : Ref) : (v.leave r).WellFormed := by
  rw [ClusterView.leave]
  cases v.slaveof r with
  | none => exact h
  | some m =>
    exact h.updateNode m (fun _ => ⟨rfl, rfl, rfl, rfl⟩)
      (fun _ hn => ⟨hn.handshake, hn.role, hn.slaveof⟩)

theorem WellFormed.promote (r : Ref) : (v.promote r).WellFormed :=
  (h.leave r).updateNode r (fun _ => ⟨rfl, rfl, rfl, rfl⟩)
    (fun _ hn => ⟨hn.handshake, rfl, fun _ => rfl⟩)

theorem WellFormed.demote (r : Ref) : (v.demote r).WellFormed :=
  h.updateNode r (fun _ => ⟨rfl, rfl, rfl, rfl⟩)
    (fun _ hn => ⟨hn.handshake, rfl, fun hm => by cases hm⟩)

theorem WellFormed.addSlave (m r : Ref) : (v.addSlave m r).WellFormed :=
  h.updateNode m (fun _ => ⟨rfl, rfl, rfl, rfl⟩)
    (fun _ hn => ⟨hn.handshake, hn.role, hn.slaveof⟩)

theorem WellFormed.closeSlots : v.closeSlots.WellFormed :=
  h.of_similar (Similar.closeSlots v) h.selfRole

/-- The node follows `m`; it is not a master. -/
theorem WellFormed.setSlaveof (r m : Ref) (hr : ∀ n, v.heap r = some n → n.master = false) :
    (v.updateNode r fun n => { n with slaveof := some m }).WellFormed := by
  refine h.of_similar (Similar.updateNode v r (fun _ => ⟨rfl, rfl, rfl, rfl⟩)) ?_
  intro me hme
  rw [updateNode_myself, updateNode_heap, Option.map_eq_some_iff] at hme
  obtain ⟨n, hn, rfl⟩ := hme
  have hrole := h.selfRole n hn
  by_cases hself : v.myself = r
  · subst hself
    rw [if_pos rfl]
    exact ⟨hrole.handshake, hrole.role, fun hm => absurd hm (by simp [hr n hn])⟩
  · rw [if_neg hself]; exact hrole

theorem WellFormed.follow (r m : Ref) (hr : ∀ n, v.heap r = some n → n.master = false) :
    (v.follow r m).WellFormed := by
  refine ((h.leave r).addSlave m r).setSlaveof r m ?_
  intro n hn
  rw [ClusterView.addSlave, updateNode_heap, leave_heap, Option.map_map,
    Option.map_eq_some_iff] at hn
  obtain ⟨k, hk, rfl⟩ := hn
  have := hr k hk
  simp only [Function.comp]
  split_ifs <;> exact this

/-- After `leaveRole` this node is not a master. -/
theorem WellFormed.leaveRole :
    v.leaveRole.WellFormed ∧ ∀ n, v.leaveRole.heap v.myself = some n → n.master = false := by
  rw [ClusterView.leaveRole]
  by_cases hm : (v.heap v.myself).any NodeView.master = true
  · rw [if_pos hm]
    refine ⟨(h.demote v.myself).closeSlots, ?_⟩
    intro n hn
    obtain ⟨k, -, rfl⟩ := Option.map_eq_some_iff.mp
      ((updateNode_heap v v.myself v.myself _).symm.trans hn)
    rw [if_pos rfl]
  · rw [if_neg hm]
    refine ⟨h.leave v.myself, ?_⟩
    intro n hn
    rw [leave_heap, Option.map_eq_some_iff] at hn
    obtain ⟨k, hk, rfl⟩ := hn
    rw [hk, Option.any_some, Bool.not_eq_true] at hm
    split_ifs <;> exact hm

theorem WellFormed.setMyMaster (m : Ref) : (v.setMyMaster m).WellFormed :=
  (h.leaveRole.1.setSlaveof v.myself m h.leaveRole.2).addSlave m v.myself

end

/-! ### Slots -/

theorem delSlot_of_none {j : Slot} (h : v.slots j = none) : v.delSlot j = v := by
  rw [delSlot, h]

theorem delSlot_slots (v : ClusterView) (i j : Slot) :
    (v.delSlot j).slots i = if i = j then none else v.slots i := by
  cases h : v.slots j with
  | none =>
    rw [delSlot_of_none h]
    by_cases hi : i = j <;> simp [hi, h]
  | some r => rw [delSlot, h]

theorem delSlot_nodes (v : ClusterView) (j : Slot) : (v.delSlot j).nodes = v.nodes := by
  rw [delSlot]
  cases v.slots j <;> rfl

theorem delSlot_heap {j : Slot} (h : v.slots j = some r) (x : Ref) :
    (v.delSlot j).heap x = (v.heap x).map fun n => if x = r then { n with
      slots := fun i => if i = j then false else n.slots i
      numslots := if n.slots j then n.numslots - 1 else n.numslots } else n := by
  rw [delSlot, h]
  exact updateNode_heap v r x _

theorem addSlot_heap (v : ClusterView) (r x : Ref) (j : Slot) :
    (v.addSlot r j).heap x = (v.heap x).map fun n => if x = r then { n with
      slots := fun i => if i = j then true else n.slots i
      numslots := if n.slots j then n.numslots else n.numslots + 1 } else n :=
  updateNode_heap v r x _

section

variable (h : v.WellFormed) (hmyself : w.myself = v.myself) (hnext : w.nextRef = v.nextRef)
  (hmig : w.migratingSlotsTo = v.migratingSlotsTo) (himp : w.importingSlotsFrom = v.importingSlotsFrom)
  {g : Ref → NodeView → NodeView} (hheap : ∀ r, w.heap r = (v.heap r).map (g r))
  (hflag : ∀ r n, (g r n).myself = n.myself) (hrole : ∀ r n, n.SelfRole → (g r n).SelfRole)
  (howner : ∀ j r, w.slots j = some r → r ∈ v.refs ∧ ∃ n, v.heap r = some n ∧ (g r n).slots j = true)
  (howned : ∀ r n j, v.heap r = some n → (g r n).slots j = true → w.slots j = some r)
  (hcount : ∀ r n, v.heap r = some n → (g r n).numslots = slotCount (g r n).slots)

include h hmyself hnext hmig himp hheap hflag hrole howner howned hcount

/-- A change of nodes in their places. -/
theorem WellFormed.of_map (hrefs : ∀ r, r ∈ w.refs ↔ r ∈ v.refs) (hnames : (w.nodes.map Prod.fst).Nodup)
    (htable : ∀ name r, (name, r) ∈ w.nodes → ∃ n, v.heap r = some n ∧ (g r n).name = name) : w.WellFormed := by
  have hlive : ∀ r m, w.heap r = some m → ∃ n, v.heap r = some n ∧ m = g r n := by
    intro r m hm
    rw [hheap r, Option.map_eq_some_iff] at hm
    obtain ⟨n, hn, rfl⟩ := hm
    exact ⟨n, hn, rfl⟩
  have hsome : ∀ r n, v.heap r = some n → w.heap r = some (g r n) := by
    intro r n hn
    rw [hheap r, hn, Option.map_some]
  refine ⟨?_, hnames, ?_, ?_, ?_, ?_, ?_, ?_, ?_, ?_, ?_⟩
  · intro name r hr
    obtain ⟨n, hn, hname⟩ := htable name r hr
    exact ⟨g r n, hsome r n hn, hname⟩
  · intro r hr
    rw [hnext] at hr
    rw [hheap r, h.fresh r hr, Option.map_none]
  · intro j r hj
    obtain ⟨hr, n, hn, hbit⟩ := howner j r hj
    exact ⟨(hrefs r).mpr hr, g r n, hsome r n hn, hbit⟩
  · intro r m j hm hbit
    obtain ⟨n, hn, rfl⟩ := hlive r m hm
    exact howned r n j hn hbit
  · intro r m hm
    obtain ⟨n, hn, rfl⟩ := hlive r m hm
    exact hcount r n hn
  · intro j r hj
    rw [hmig] at hj
    exact (hrefs r).mpr (h.migrating j r hj)
  · intro j r hj
    rw [himp] at hj
    exact (hrefs r).mpr (h.importing j r hj)
  · rw [hrefs, hmyself]
    exact h.self
  · intro r m hm
    obtain ⟨n, hn, rfl⟩ := hlive r m hm
    rw [hflag, hmyself]
    exact h.selfFlag r n hn
  · intro me hme
    rw [hmyself] at hme
    obtain ⟨n, hn, rfl⟩ := hlive _ me hme
    exact hrole _ n (h.selfRole n hn)

/-- A change of the owner table and of the bitmaps that leaves the rest of the tables. -/
theorem WellFormed.of_slots (hnodes : w.nodes = v.nodes) (hname : ∀ r n, (g r n).name = n.name) :
    w.WellFormed := by
  have hrefs : w.refs = v.refs := by rw [refs, hnodes]; rfl
  refine h.of_map hmyself hnext hmig himp hheap hflag hrole howner howned hcount (fun r => by rw [hrefs])
    (hnodes ▸ h.names) fun name r hr => ?_
  rw [hnodes] at hr
  obtain ⟨n, hn, rfl⟩ := h.table name r hr
  exact ⟨n, hn, hname r n⟩

end

theorem WellFormed.delSlot (h : v.WellFormed) (j : Slot) : (v.delSlot j).WellFormed := by
  cases hj : v.slots j with
  | none => rw [delSlot_of_none hj]; exact h
  | some r =>
    obtain ⟨hr, n, hn, hbit⟩ := h.owner j r hj
    refine h.of_slots ?_ ?_ ?_ ?_ (delSlot_heap hj) ?_ ?_ ?_ ?_ ?_ (delSlot_nodes v j) ?_
    · rw [ClusterView.delSlot, hj]; rfl
    · rw [ClusterView.delSlot, hj]; rfl
    · rw [ClusterView.delSlot, hj]; rfl
    · rw [ClusterView.delSlot, hj]; rfl
    · intro x m; split_ifs <;> rfl
    · intro x m hm
      by_cases hx : x = r
      · rw [if_pos hx]; exact ⟨hm.handshake, hm.role, hm.slaveof⟩
      · rw [if_neg hx]; exact hm
    · intro i x hi
      rw [delSlot_slots] at hi
      by_cases hij : i = j
      · rw [if_pos hij] at hi; cases hi
      rw [if_neg hij] at hi
      obtain ⟨hx, m, hm, hb⟩ := h.owner i x hi
      refine ⟨hx, m, hm, ?_⟩
      split_ifs <;> simp [hij, hb]
    · intro x m i hm hb
      rw [delSlot_slots]
      by_cases hij : i = j
      · -- the bit of the slot is clear in every node
        subst hij
        by_cases hx : x = r
        · simp [hx] at hb
        · rw [if_neg hx] at hb
          have := h.owned x m i hm hb
          rw [hj] at this
          exact absurd (Option.some.inj this).symm hx
      · rw [if_neg hij]
        refine h.owned x m i hm ?_
        by_cases hx : x = r
        · simpa [hx, hij] using hb
        · simpa [hx] using hb
    · intro x m hm
      by_cases hx : x = r
      · subst hx
        rw [hn] at hm
        cases hm
        rw [if_pos rfl]
        simp only [hbit, if_true]
        rw [slotCount_clear hbit, h.count x n hn]
      · rw [if_neg hx]; exact h.count x m hm
    · intro x m; split_ifs <;> rfl

theorem WellFormed.addSlot (h : v.WellFormed) {j : Slot} (hj : v.slots j = none) (hr : r ∈ v.refs) :
    (v.addSlot r j).WellFormed := by
  obtain ⟨n, hn, -⟩ := h.mem_nodes hr
  have hclear : ∀ x m, v.heap x = some m → m.slots j = false := by
    intro x m hm
    cases hb : m.slots j with
    | false => rfl
    | true => rw [h.owned x m j hm hb] at hj; cases hj
  refine h.of_slots rfl rfl rfl rfl (fun x => addSlot_heap v r x j) ?_ ?_ ?_ ?_ ?_ rfl ?_
  · intro x m; split_ifs <;> rfl
  · intro x m hm
    by_cases hx : x = r
    · rw [if_pos hx]; exact ⟨hm.handshake, hm.role, hm.slaveof⟩
    · rw [if_neg hx]; exact hm
  · intro i x (hi : (if i = j then some r else v.slots i) = some x)
    by_cases hij : i = j
    · rw [if_pos hij] at hi
      cases hi
      exact ⟨hr, n, hn, by simp [hij]⟩
    · rw [if_neg hij] at hi
      obtain ⟨hx, m, hm, hb⟩ := h.owner i x hi
      refine ⟨hx, m, hm, ?_⟩
      split_ifs <;> simp [hij, hb]
  · intro x m i hm hb
    show (if i = j then some r else v.slots i) = some x
    by_cases hx : x = r
    · rw [if_pos hx] at hb
      by_cases hij : i = j
      · rw [if_pos hij, hx]
      · rw [if_neg hij]
        exact h.owned x m i hm (by simpa [hij] using hb)
    · rw [if_neg hx] at hb
      by_cases hij : i = j
      · subst hij; rw [hclear x m hm] at hb; cases hb
      · rw [if_neg hij]; exact h.owned x m i hm hb
  · intro x m hm
    by_cases hx : x = r
    · rw [if_pos hx]
      simp only [hclear x m hm, Bool.false_eq_true, if_false]
      rw [slotCount_set (hclear x m hm), h.count x m hm]
    · rw [if_neg hx]; exact h.count x m hm
  · intro x m; split_ifs <;> rfl

/-! ### Nodes -/

theorem WellFormed.handshake (h : v.WellFormed) (name : NodeName) : (v.handshake name).WellFormed := by
  have hsub : ∀ r, r ∈ v.refs → r ∈ (v.handshake name).refs := by
    intro r hr
    obtain ⟨x, hx⟩ := mem_refs.mp hr
    refine mem_refs.mpr ⟨x, ?_⟩
    simp only [ClusterView.handshake]
    split_ifs
    · exact hx
    · exact List.mem_append_left _ hx
  have hheap : ∀ r, r ≠ v.nextRef → (v.handshake name).heap r = v.heap r :=
    fun r hr => if_neg hr
  have hnew : (v.handshake name).heap v.nextRef = some (handshakeNode name) := if_pos rfl
  have hlive : ∀ r n, v.heap r = some n → r ≠ v.nextRef := by
    rintro r n hn rfl
    rw [h.fresh _ le_rfl] at hn
    cases hn
  -- a node of the new heap is an old one, or the one in handshake
  have hcases : ∀ r n, (v.handshake name).heap r = some n →
      v.heap r = some n ∨ (r = v.nextRef ∧ n = handshakeNode name) := by
    intro r n hn
    by_cases hr : r = v.nextRef
    · subst hr
      rw [hnew] at hn
      exact Or.inr ⟨rfl, (Option.some.inj hn).symm⟩
    · rw [hheap r hr] at hn
      exact Or.inl hn
  have hself : v.myself ≠ v.nextRef := by
    obtain ⟨me, hme, -⟩ := h.exists_myself
    exact hlive _ me hme
  refine ⟨?_, ?_, ?_, ?_, ?_, ?_, fun j r hj => hsub r (h.migrating j r hj),
    fun j r hj => hsub r (h.importing j r hj), hsub _ h.self, ?_, ?_⟩
  · intro x r hx
    have hold : (x, r) ∈ v.nodes → ∃ n, (v.handshake name).heap r = some n ∧ n.name = x := by
      intro hx
      obtain ⟨n, hn, hname⟩ := h.table x r hx
      exact ⟨n, by rw [hheap r (hlive r n hn)]; exact hn, hname⟩
    simp only [ClusterView.handshake] at hx
    split_ifs at hx
    · exact hold hx
    · rcases List.mem_append.mp hx with hx | hx
      · exact hold hx
      · obtain ⟨rfl, rfl⟩ := Prod.mk.inj (List.mem_singleton.mp hx)
        exact ⟨_, hnew, rfl⟩
  · simp only [ClusterView.handshake]
    split_ifs with hl
    · exact h.names
    · rw [Option.not_isSome_iff_eq_none, lookup_eq_none] at hl
      rw [List.map_append, List.nodup_append]
      refine ⟨h.names, by simp, ?_⟩
      rintro x hx y hy rfl
      have hy' : x = name := List.mem_singleton.mp hy
      exact hl (hy' ▸ hx)
  · intro r (hr : v.nextRef + 1 ≤ r)
    have hlt : v.nextRef < r := Nat.lt_of_succ_le hr
    rw [hheap r hlt.ne']
    exact h.fresh r hlt.le
  · intro j r hj
    obtain ⟨hr, n, hn, hbit⟩ := h.owner j r hj
    exact ⟨hsub r hr, n, by rw [hheap r (hlive r n hn)]; exact hn, hbit⟩
  · intro r n j hn hbit
    rcases hcases r n hn with hn | ⟨rfl, rfl⟩
    · exact h.owned r n j hn hbit
    · cases hbit
  · intro r n hn
    rcases hcases r n hn with hn | ⟨rfl, rfl⟩
    · exact h.count r n hn
    · exact (slotCount_eq_zero fun _ => rfl).symm
  · intro r n hn
    rcases hcases r n hn with hn | ⟨rfl, rfl⟩
    · exact h.selfFlag r n hn
    · exact iff_of_false (by simp [handshakeNode]) (Ne.symm hself)
  · intro me (hme : (v.handshake name).heap v.myself = some me)
    rw [hheap _ hself] at hme
    exact h.selfRole me hme

theorem WellFormed.mem_refs_rename (h : v.WellFormed) {r x : Ref} (hr : r ∈ v.refs) :
    x ∈ (v.rename r name).refs ↔ x ∈ v.refs := by
  have hrefs : (v.rename r name).refs = (v.nodesDelete (v.nameOf r)).refs ++ [r] := by
    simp [refs, rename]
  rw [hrefs, List.mem_append, h.mem_refs_nodesDelete hr, List.mem_singleton]
  constructor
  · rintro (⟨hx, -⟩ | rfl)
    · exact hx
    · exact hr
  · intro hx
    by_cases hxr : x = r
    · exact Or.inr hxr
    · exact Or.inl ⟨hx, hxr⟩

theorem rename_heap (v : ClusterView) (r x : Ref) (name : NodeName) :
    (v.rename r name).heap x = (v.heap x).map fun n => if x = r then { n with name := name } else n :=
  updateNode_heap v r x _

theorem complete_heap (v : ClusterView) (r x : Ref) (name : NodeName) (master slave : Bool) :
    (v.complete r name master slave).heap x = (v.heap x).map fun n => if x = r then { n with
      name := name
      handshake := false
      master := n.master || master
      slave := n.slave || slave } else n := by
  rw [complete, updateNode_heap, rename_heap, Option.map_map]
  congr 1
  funext n
  simp only [Function.comp]
  split_ifs <;> rfl

theorem hardReset_heap (v : ClusterView) (x : Ref) (name : NodeName) :
    (v.hardReset name).heap x = (v.heap x).map fun n =>
      if x = v.myself then { n with configEpoch := 0, name := name } else n := by
  rw [hardReset, rename_heap, updateNode_heap, Option.map_map]
  congr 1
  funext n
  simp only [Function.comp]
  split_ifs <;> rfl

theorem WellFormed.rename (h : v.WellFormed) (hr : r ∈ v.refs)
    (hname : name ∉ (v.nodesDelete (v.nameOf r)).nodes.map Prod.fst) : (v.rename r name).WellFormed := by
  obtain ⟨n, hn, -⟩ := h.mem_nodes hr
  refine h.of_map rfl rfl rfl rfl (fun x => rename_heap v r x name) ?_ ?_ ?_ ?_ ?_ (fun x => h.mem_refs_rename hr) ?_ ?_
  · intro x m; split_ifs <;> rfl
  · intro x m hm
    split_ifs
    · exact ⟨hm.handshake, hm.role, hm.slaveof⟩
    · exact hm
  · intro j x hj
    obtain ⟨hx, k, hk, hbit⟩ := h.owner j x hj
    exact ⟨hx, k, hk, by split_ifs <;> exact hbit⟩
  · intro x m j hm hbit
    refine h.owned x m j hm ?_
    split_ifs at hbit <;> exact hbit
  · intro x m hm
    split_ifs <;> exact h.count x m hm
  · show ((v.nodesDelete (v.nameOf r)).nodes ++ [(name, r)]).map Prod.fst |>.Nodup
    rw [List.map_append, List.nodup_append]
    refine ⟨h.nodup_nodesDelete _, by simp, ?_⟩
    rintro x hx y hy rfl
    have hy' : x = name := List.mem_singleton.mp hy
    exact hname (hy' ▸ hx)
  · intro y x hx
    rcases List.mem_append.mp hx with hx | hx
    · -- an entry with another name belongs to another node
      have hmem : x ∈ (v.nodesDelete (v.nameOf r)).refs := mem_refs.mpr ⟨y, hx⟩
      obtain ⟨-, hne⟩ := (h.mem_refs_nodesDelete hr).mp hmem
      obtain ⟨k, hk, rfl⟩ := h.table y x (h.mem_nodesDelete.mp hx).1
      exact ⟨k, hk, by rw [if_neg hne]⟩
    · obtain ⟨rfl, rfl⟩ := Prod.mk.inj (List.mem_singleton.mp hx)
      exact ⟨n, hn, by rw [if_pos rfl]⟩

/-- The name is not in the table before, so it is not there when the old one is deleted. -/
theorem not_mem_nodesDelete {name old : NodeName} (h : v.lookup name = none) :
    name ∉ (v.nodesDelete old).nodes.map Prod.fst := by
  intro hmem
  exact lookup_eq_none.mp h ((List.Sublist.map Prod.fst List.eraseP_sublist).subset hmem)

/-- Another node than this one changes its role. -/
theorem WellFormed.updateOther (h : v.WellFormed) (hr : r ≠ v.myself) (hf : ∀ n, SameNode n (f n)) :
    (v.updateNode r f).WellFormed := by
  refine h.of_similar (Similar.updateNode v r hf) ?_
  intro me hme
  rw [updateNode_myself, updateNode_heap, Option.map_eq_some_iff] at hme
  obtain ⟨n, hn, rfl⟩ := hme
  rw [if_neg (Ne.symm hr)]
  exact h.selfRole n hn

theorem WellFormed.complete (h : v.WellFormed) {n : NodeView} {master slave : Bool} (hr : r ∈ v.refs)
    (hn : v.heap r = some n) (hhs : n.handshake = true) (hname : v.lookup name = none) :
    (v.complete r name master slave).WellFormed := by
  have hself : r ≠ v.myself := by
    rintro rfl
    rw [(h.selfRole n hn).handshake] at hhs
    cases hhs
  exact (h.rename hr (not_mem_nodesDelete hname)).updateOther hself (fun _ => ⟨rfl, rfl, rfl, rfl⟩)

theorem WellFormed.hardReset (h : v.WellFormed) (hrefs : v.refs = [v.myself]) :
    (v.hardReset name).WellFormed := by
  set w := { v with currentEpoch := 0, lastVoteEpoch := 0 }.updateNode v.myself fun n =>
    { n with configEpoch := 0 } with hw
  have hwf : w.WellFormed := by
    have h' : { v with currentEpoch := 0, lastVoteEpoch := 0 }.WellFormed :=
      ⟨h.table, h.names, h.fresh, h.owner, h.owned, h.count, h.migrating, h.importing, h.self,
        h.selfFlag, h.selfRole⟩
    exact h'.updateNode v.myself (fun _ => ⟨rfl, rfl, rfl, rfl⟩)
      (fun _ hn => ⟨hn.handshake, hn.role, hn.slaveof⟩)
  refine hwf.rename h.self ?_
  intro hmem
  -- nothing is left in the table once this node is taken out
  obtain ⟨⟨y, x⟩, hx, -⟩ := List.mem_map.mp hmem
  have hmem' := (hwf.mem_refs_nodesDelete (r := v.myself) h.self).mp (mem_refs.mpr ⟨y, hx⟩)
  have hx' : x ∈ v.refs := hmem'.1
  rw [hrefs, List.mem_singleton] at hx'
  exact hmem'.2 hx'

theorem abandon_heap (v : ClusterView) (slaves : List Ref) (x : Ref) :
    (v.abandon slaves).heap x = (v.heap x).map fun n =>
      if x ∈ slaves then { n with slaveof := none } else n := rfl

theorem Similar.abandon (v : ClusterView) (slaves : List Ref) : Similar v (v.abandon slaves) where
  nodes := rfl
  slots := rfl
  myself := rfl
  nextRef := rfl
  migrating := fun _ _ h => h
  importing := fun _ _ h => h
  dead := fun x hx => by rw [abandon_heap, hx, Option.map_none]
  live := by
    intro x n hn
    refine ⟨_, by rw [abandon_heap, hn, Option.map_some], ?_⟩
    split_ifs <;> exact ⟨rfl, rfl, rfl, rfl⟩

theorem WellFormed.abandon (h : v.WellFormed) (slaves : List Ref) : (v.abandon slaves).WellFormed := by
  refine h.of_similar (Similar.abandon v slaves) ?_
  intro me hme
  obtain ⟨n, hn, rfl⟩ := Option.map_eq_some_iff.mp ((abandon_heap v slaves _).symm.trans hme)
  have hrole := h.selfRole n hn
  split_ifs
  · exact ⟨hrole.handshake, hrole.role, fun _ => rfl⟩
  · exact hrole

theorem Similar.disconnect (v : ClusterView) (r : Ref) : Similar v (v.disconnect r) := by
  simp only [ClusterView.disconnect]
  split_ifs
  · exact (Similar.abandon v _).trans (Similar.leave _ r)
  · exact Similar.abandon v _

theorem WellFormed.disconnect (h : v.WellFormed) (r : Ref) : (v.disconnect r).WellFormed := by
  simp only [ClusterView.disconnect]
  split_ifs
  · exact (h.abandon _).leave r
  · exact h.abandon _

theorem WellFormed.mem_refs_freeNode (h : v.WellFormed) {r x : Ref} (hr : r ∈ v.refs) :
    x ∈ (v.freeNode r).refs ↔ x ∈ v.refs ∧ x ≠ r := by
  rw [← h.mem_refs_nodesDelete hr]
  simp only [refs, freeNode, ClusterView.nodesDelete, (Similar.disconnect v r).nodes]

theorem WellFormed.freeNode (h : v.WellFormed) (hr : r ∈ v.refs) (hself : r ≠ v.myself)
    (hslots : ∀ j, v.slots j ≠ some r) (hmig : ∀ j, v.migratingSlotsTo j ≠ some r)
    (himp : ∀ j, v.importingSlotsFrom j ≠ some r) : (v.freeNode r).WellFormed := by
  have hd := h.disconnect r
  have hsim := Similar.disconnect v r
  have hrefs : ∀ x, x ∈ (v.freeNode r).refs ↔ x ∈ v.refs ∧ x ≠ r := fun x => h.mem_refs_freeNode hr
  have hheap : ∀ x, x ≠ r → (v.freeNode r).heap x = (v.disconnect r).heap x := fun x hx => if_neg hx
  have hlive : ∀ x n, (v.freeNode r).heap x = some n → x ≠ r ∧ (v.disconnect r).heap x = some n := by
    intro x n hn
    by_cases hx : x = r
    · rw [show (v.freeNode r).heap x = none from if_pos hx] at hn
      cases hn
    · exact ⟨hx, by rw [← hheap x hx]; exact hn⟩
  have hnames : (v.freeNode r).nodes = (v.nodesDelete (v.nameOf r)).nodes := by
    simp only [ClusterView.freeNode, ClusterView.nodesDelete, hsim.nodes]
  have hmyself : (v.freeNode r).myself = v.myself := hsim.myself
  refine ⟨?_, ?_, ?_, ?_, ?_, ?_, ?_, ?_, ?_, ?_, ?_⟩
  · intro y x hx
    have hne := ((hrefs x).mp (mem_refs.mpr ⟨y, hx⟩)).2
    rw [hnames] at hx
    rw [hheap x hne]
    exact hd.table y x (by rw [hsim.nodes]; exact (h.mem_nodesDelete.mp hx).1)
  · rw [hnames]
    exact h.nodup_nodesDelete _
  · intro x hx
    by_cases hxr : x = r
    · exact if_pos hxr
    · rw [hheap x hxr]
      exact hd.fresh x hx
  · intro j x hj
    have hj' : (v.disconnect r).slots j = some x := hj
    obtain ⟨hx, n, hn, hbit⟩ := hd.owner j x hj'
    have hne : x ≠ r := by
      rintro rfl
      rw [hsim.slots] at hj'
      exact hslots j hj'
    exact ⟨(hrefs x).mpr ⟨hsim.refs ▸ hx, hne⟩, n, by rw [hheap x hne]; exact hn, hbit⟩
  · intro x n j hn hbit
    exact hd.owned x n j (hlive x n hn).2 hbit
  · exact fun x n hn => hd.count x n (hlive x n hn).2
  · intro j x hj
    have hj' := hsim.migrating j x hj
    exact (hrefs x).mpr ⟨h.migrating j x hj', by rintro rfl; exact hmig j hj'⟩
  · intro j x hj
    have hj' := hsim.importing j x hj
    exact (hrefs x).mpr ⟨h.importing j x hj', by rintro rfl; exact himp j hj'⟩
  · rw [hmyself]
    exact (hrefs _).mpr ⟨h.self, Ne.symm hself⟩
  · intro x n hn
    rw [hmyself, ← hsim.myself]
    exact hd.selfFlag x n (hlive x n hn).2
  · intro me hme
    rw [hmyself, ← hsim.myself] at hme
    exact hd.selfRole me (hlive _ me hme).2

end ClusterView

end Redis
