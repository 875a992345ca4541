import Redis.Cluster.Action

namespace Redis

open Transition

/-!
# Roles and replication links of a node

* `NodeView.Proper`, `ClusterView.Linked` — a node in handshake has no role, any other one
  exactly one; only masters own slots; the pointer of a slave to its master is mirrored in the
  list of the master;
* `ClusterView.Linked.relink` — a node that changes its master;
* `ClusterView.Linked.apply` — **the actions that respect the roles keep all this**;
* `ClusterView.Settled` — a node never goes back to handshake.
-/

/-- Role, slots and master of a node fit together: in handshake it has no role yet, later exactly
    one; only masters own slots and only slaves have a master. -/
structure NodeView.Proper (n : NodeView) : Prop where
  handshake : n.handshake = true → n.master = false ∧ n.slave = false
  role : n.handshake = false → n.slave = !n.master
  slots : n.master = false → ∀ j, n.slots j = false
  slaveof : n.slaveof ≠ none → n.slave = true

namespace NodeView.Proper

variable {n m : NodeView}

theorem master_of_not_slave (h : n.Proper) (hhs : n.handshake = false) (hslave : n.slave = false) :
    n.master = true := by
  have hrole := h.role hhs
  rw [hslave] at hrole
  simpa using hrole.symm

theorem slots_of_slave (h : n.Proper) (hslave : n.slave = true) (j : Slot) : n.slots j = false := by
  refine h.slots ?_ j
  cases hhs : n.handshake with
  | true => exact (h.handshake hhs).1
  | false =>
    have hrole := h.role hhs
    rw [hslave] at hrole
    simpa using hrole.symm

/-- A master follows nobody. -/
theorem slaveof_of_master (h : n.Proper) (hmaster : n.master = true) : n.slaveof = none := by
  by_contra hne
  have hslave := h.slaveof hne
  cases hhs : n.handshake with
  | true => rw [(h.handshake hhs).1] at hmaster; cases hmaster
  | false => rw [h.role hhs, hmaster] at hslave; cases hslave

/-- Only role, slots and master matter. -/
theorem congr (h : n.Proper) (hhs : m.handshake = n.handshake) (hmaster : m.master = n.master)
    (hslave : m.slave = n.slave) (hslots : ∀ j, m.slots j = true → n.slots j = true)
    (hslaveof : m.slaveof = n.slaveof ∨ m.slaveof = none) : m.Proper where
  handshake := by rw [hhs, hmaster, hslave]; exact h.handshake
  role := by rw [hhs, hmaster, hslave]; exact h.role
  slots := by
    intro hm j
    have hfalse := h.slots (hmaster ▸ hm) j
    by_contra hbit
    rw [hslots j (by simpa using hbit)] at hfalse
    cases hfalse
  slaveof := by
    intro hne
    rw [hslave]
    rcases hslaveof with heq | hnone
    · exact h.slaveof (heq ▸ hne)
    · exact absurd hnone hne

end NodeView.Proper

namespace ClusterView

/-- The nodes are proper, and a node is in the list of another one exactly if it points to it. -/
structure Linked (v : ClusterView) : Prop where
  proper : ∀ r n, v.heap r = some n → n.Proper
  nodup : ∀ m n, v.heap m = some n → n.slaves.Nodup
  listed : ∀ m n s, v.heap m = some n → (s ∈ n.slaves ↔ v.slaveof s = some m)
  live : ∀ s m, v.slaveof s = some m → ∃ n, v.heap m = some n

variable {v w : ClusterView}

variable {r : Ref} {g : Ref → NodeView → NodeView} {f : NodeView → NodeView}

theorem slaveof_of_heap {n : NodeView} (hn : v.heap r = some n) : v.slaveof r = n.slaveof := by
  rw [slaveof, hn]
  rfl

theorem slaveof_of_map (hheap : ∀ x, w.heap x = (v.heap x).map (g x)) (r : Ref) :
    w.slaveof r = (v.heap r).bind fun n => (g r n).slaveof := by
  rw [slaveof, hheap r]
  cases v.heap r <;> rfl

/-! ### Changes -/

/-- A change that leaves the links alone. -/
theorem Linked.of_map (h : v.Linked) (hheap : ∀ x, w.heap x = (v.heap x).map (g x))
    (hlinks : ∀ x n, v.heap x = some n → (g x n).slaveof = n.slaveof ∧ (g x n).slaves = n.slaves)
    (hproper : ∀ x n, v.heap x = some n → (g x n).Proper) : w.Linked := by
  have hslaveof : ∀ s, w.slaveof s = v.slaveof s := by
    intro s
    rw [slaveof_of_map hheap, slaveof]
    cases hs : v.heap s with
    | none => rfl
    | some n => exact (hlinks s n hs).1
  have hexists : ∀ {r n}, w.heap r = some n → ∃ m, v.heap r = some m ∧ g r m = n := by
    intro r n hn
    rw [hheap r] at hn
    exact Option.map_eq_some_iff.mp hn
  refine ⟨?_, ?_, ?_, ?_⟩
  · intro r n hn
    obtain ⟨m, hm, rfl⟩ := hexists hn
    exact hproper r m hm
  · intro r n hn
    obtain ⟨m, hm, rfl⟩ := hexists hn
    rw [(hlinks r m hm).2]
    exact h.nodup r m hm
  · intro r n s hn
    obtain ⟨m, hm, rfl⟩ := hexists hn
    rw [(hlinks r m hm).2, hslaveof]
    exact h.listed r m s hm
  · intro s m hs
    rw [hslaveof] at hs
    obtain ⟨n, hn⟩ := h.live s m hs
    exact ⟨g m n, by rw [hheap, hn, Option.map_some]⟩

/-- The list of the node `x` when `r` goes from the master `old` to `new`. -/
def movedSlaves (old new : Option Ref) (r x : Ref) (slaves : List Ref) : List Ref :=
  let left := if old = some x then slaves.erase r else slaves
  if new = some x then (if r ∈ left then left else left ++ [r]) else left

theorem Linked.moved (h : v.Linked) {r x : Ref} {new : Option Ref} {n : NodeView}
    (hn : v.heap x = some n) :
    (movedSlaves (v.slaveof r) new r x n.slaves).Nodup ∧
    ∀ s, s ∈ movedSlaves (v.slaveof r) new r x n.slaves ↔
      if s = r then new = some x else s ∈ n.slaves := by
  -- once the node has left the list of its old master it is in none
  have hleft : ∀ left, left = (if v.slaveof r = some x then n.slaves.erase r else n.slaves) →
      left.Nodup ∧ r ∉ left ∧ ∀ s, s ≠ r → (s ∈ left ↔ s ∈ n.slaves) := by
    rintro left rfl
    split_ifs with hold
    · refine ⟨(h.nodup x n hn).erase r, (h.nodup x n hn).not_mem_erase, fun s hs => ?_⟩
      rw [List.mem_erase_of_ne hs]
    · exact ⟨h.nodup x n hn, fun hr => hold ((h.listed x n r hn).mp hr), fun s _ => Iff.rfl⟩
  obtain ⟨hnodup, hr, hmem⟩ := hleft _ rfl
  rw [movedSlaves]
  by_cases hnew : new = some x
  · rw [if_pos hnew, if_neg hr]
    refine ⟨?_, fun s => ?_⟩
    · rw [List.nodup_append]
      refine ⟨hnodup, List.nodup_singleton r, ?_⟩
      rintro a ha b hb rfl
      rw [List.mem_singleton] at hb
      exact hr (hb ▸ ha)
    · rw [List.mem_append, List.mem_singleton]
      by_cases hs : s = r
      · simp [hs, hnew]
      · rw [if_neg hs, hmem s hs]
        simp [hs]
  · rw [if_neg hnew]
    refine ⟨hnodup, fun s => ?_⟩
    by_cases hs : s = r
    · rw [if_pos hs, hs]
      exact iff_of_false hr hnew
    · rw [if_neg hs, hmem s hs]

/-- The node `r` changes its master. -/
theorem Linked.relink (h : v.Linked) {new : Option Ref} (hheap : ∀ x, w.heap x = (v.heap x).map (g x))
    (hslaveof : ∀ x n, v.heap x = some n → (g x n).slaveof = if x = r then new else n.slaveof)
    (hslaves : ∀ x n, v.heap x = some n →
      (g x n).slaves = movedSlaves (v.slaveof r) new r x n.slaves)
    (hproper : ∀ x n, v.heap x = some n → (g x n).Proper)
    (hnew : ∀ m, new = some m → (∃ n, v.heap m = some n) ∧ ∃ n, v.heap r = some n) : w.Linked := by
  have hexists : ∀ {x n}, w.heap x = some n → ∃ m, v.heap x = some m ∧ g x m = n := by
    intro x n hn
    rw [hheap x] at hn
    exact Option.map_eq_some_iff.mp hn
  -- the pointers after the change
  have hpoint : ∀ s m, w.slaveof s = some m ↔ if s = r then new = some m else v.slaveof s = some m := by
    intro s m
    rw [slaveof_of_map hheap, slaveof]
    by_cases hs : s = r
    · subst hs
      rw [if_pos rfl]
      cases hn : v.heap s with
      | none =>
        refine ⟨nofun, fun hm => ?_⟩
        obtain ⟨-, n, hn'⟩ := hnew m hm
        rw [hn] at hn'
        cases hn'
      | some n =>
        show (g s n).slaveof = some m ↔ _
        rw [hslaveof s n hn, if_pos rfl]
    · rw [if_neg hs]
      cases hn : v.heap s with
      | none => exact Iff.rfl
      | some n =>
        show (g s n).slaveof = some m ↔ n.slaveof = some m
        rw [hslaveof s n hn, if_neg hs]
  refine ⟨?_, ?_, ?_, ?_⟩
  · intro x n hn
    obtain ⟨m, hm, rfl⟩ := hexists hn
    exact hproper x m hm
  · intro x n hn
    obtain ⟨m, hm, rfl⟩ := hexists hn
    rw [hslaves x m hm]
    exact (h.moved hm).1
  · intro x n s hn
    obtain ⟨m, hm, rfl⟩ := hexists hn
    rw [hslaves x m hm, (h.moved hm).2 s, hpoint s x]
    split_ifs
    · rfl
    · exact h.listed x m s hm
  · intro s m hs
    have hlive : ∃ n, v.heap m = some n := by
      rw [hpoint s m] at hs
      split_ifs at hs
      · exact (hnew m hs).1
      · exact h.live s m hs
    obtain ⟨n, hn⟩ := hlive
    exact ⟨g m n, by rw [hheap, hn, Option.map_some]⟩

/-- A master that gets slots, or a node that loses some. -/
theorem Linked.setSlots (h : v.Linked)
    (hheap : ∀ x, w.heap x = (v.heap x).map fun n => if x = r then f n else n)
    (hf : ∀ n, v.heap r = some n → (f n).slaveof = n.slaveof ∧ (f n).slaves = n.slaves ∧ (f n).Proper) :
    w.Linked := by
  refine h.of_map hheap (fun x n hn => ?_) (fun x n hn => ?_)
  · by_cases hx : x = r
    · subst hx
      rw [if_pos rfl]
      exact ⟨(hf n hn).1, (hf n hn).2.1⟩
    · rw [if_neg hx]
      exact ⟨rfl, rfl⟩
  · by_cases hx : x = r
    · subst hx
      rw [if_pos rfl]
      exact (hf n hn).2.2
    · rw [if_neg hx]
      exact h.proper x n hn

/-- A change of names and epochs. -/
theorem Linked.relabel (h : v.Linked) (hheap : ∀ x, w.heap x = (v.heap x).map fun n => if x = r then f n else n)
    (hf : ∀ n, (f n).handshake = n.handshake ∧ (f n).master = n.master ∧ (f n).slave = n.slave ∧
      (f n).slots = n.slots ∧ (f n).slaveof = n.slaveof ∧ (f n).slaves = n.slaves) : w.Linked := by
  refine h.setSlots hheap (fun n hn => ?_)
  obtain ⟨hhs, hmaster, hslave, hslots, hslaveof, hslaves⟩ := hf n
  refine ⟨hslaveof, hslaves, (h.proper r n hn).congr hhs hmaster hslave ?_ (Or.inl hslaveof)⟩
  intro j hj
  rw [← hslots]
  exact hj

theorem Linked.delSlot (h : v.Linked) (j : Slot) : (v.delSlot j).Linked := by
  cases hj : v.slots j with
  | none => rw [delSlot_of_none hj]; exact h
  | some r =>
    refine h.setSlots (delSlot_heap hj) (fun n hn => ⟨rfl, rfl, ?_⟩)
    refine (h.proper r n hn).congr rfl rfl rfl (fun i hi => ?_) (Or.inl rfl)
    dsimp only at hi
    split_ifs at hi
    exact hi

/-- Only a master may get a slot. -/
theorem Linked.addSlot (h : v.Linked) {j : Slot} (hmaster : ∀ n, v.heap r = some n → n.master = true) :
    (v.addSlot r j).Linked := by
  refine h.setSlots (r := r) (fun x => addSlot_heap v r x j) (fun n hn => ⟨rfl, rfl, ?_⟩)
  have hproper := h.proper r n hn
  refine ⟨hproper.handshake, hproper.role, fun (hfalse : n.master = false) => ?_, hproper.slaveof⟩
  rw [hmaster n hn] at hfalse
  cases hfalse

/-! ### Changes of the role -/

theorem promote_heap (v : ClusterView) (r x : Ref) :
    (v.promote r).heap x = (v.heap x).map fun n =>
      { n with
        slaves := movedSlaves (v.slaveof r) none r x n.slaves
        slaveof := if x = r then none else n.slaveof
        master := if x = r then true else n.master
        slave := if x = r then false else n.slave } := by
  rw [promote, updateNode_heap, leave_heap, Option.map_map]
  congr 1
  funext n
  generalize v.slaveof r = old
  obtain rfl | hx := eq_or_ne x r <;> by_cases hold : old = some x <;> simp [movedSlaves, *]

theorem Linked.promote (h : v.Linked) (hr : ∀ n, v.heap r = some n → n.handshake = false) :
    (v.promote r).Linked := by
  refine h.relink (promote_heap v r) (fun _ _ _ => rfl) (fun _ _ _ => rfl) (fun x n hn => ?_) nofun
  by_cases hx : x = r
  · subst hx
    simp only [if_true]
    refine ⟨fun (hhs : n.handshake = true) => ?_, fun _ => rfl, nofun, fun hne => absurd rfl hne⟩
    rw [hr n hn] at hhs
    cases hhs
  · simp only [if_neg hx]
    exact (h.proper x n hn).congr rfl rfl rfl (fun _ => id) (Or.inl rfl)

theorem Linked.demote (h : v.Linked) (hr : ∀ n, v.heap r = some n →
    n.master = true ∧ ∀ j, n.slots j = false) : (v.demote r).Linked := by
  refine h.setSlots (r := r) (fun x => updateNode_heap v r x _) (fun n hn => ⟨rfl, rfl, ?_⟩)
  obtain ⟨hmaster, hslots⟩ := hr n hn
  refine ⟨fun hhs => ?_, fun _ => rfl, fun _ => hslots, fun _ => rfl⟩
  rw [((h.proper r n hn).handshake hhs).1] at hmaster
  cases hmaster

theorem follow_heap (v : ClusterView) (r m x : Ref) :
    (v.follow r m).heap x = (v.heap x).map fun n =>
      { n with
        slaves := movedSlaves (v.slaveof r) (some m) r x n.slaves
        slaveof := if x = r then some m else n.slaveof } := by
  rw [follow, updateNode_heap, addSlave, updateNode_heap, leave_heap, Option.map_map, Option.map_map]
  congr 1
  funext n
  simp only [movedSlaves, Function.comp, Option.some.injEq, @eq_comm _ m x]
  split_ifs <;> rfl

theorem Linked.follow (h : v.Linked) {r m : Ref} (hr : ∃ n, v.heap r = some n ∧ n.slave = true)
    (hm : ∃ n, v.heap m = some n) : (v.follow r m).Linked := by
  obtain ⟨x, hx, hslave⟩ := hr
  refine h.relink (follow_heap v r m) (fun _ _ _ => rfl) (fun _ _ _ => rfl) (fun y n hn => ?_) ?_
  · have hproper := h.proper y n hn
    refine ⟨hproper.handshake, hproper.role, hproper.slots, fun hne => ?_⟩
    by_cases hy : y = r
    · subst hy
      rw [hx] at hn
      cases hn
      exact hslave
    · rw [if_neg hy] at hne
      exact hproper.slaveof hne
  · rintro m' hm'
    cases hm'
    exact ⟨hm, x, hx⟩

/-- A node whose role is that of a slave follows `m`: the change made by `clusterSetMaster`, in
    the order of the source. -/
theorem setMyMaster_eq (v : ClusterView) (m : Ref) (hslave : (v.heap v.myself).any NodeView.master = false) :
    ∀ x, (v.setMyMaster m).heap x = (v.follow v.myself m).heap x := by
  intro x
  rw [setMyMaster, leaveRole, hslave, if_neg (by simp), follow, addSlave, addSlave, updateNode_heap,
    updateNode_heap, updateNode_heap, updateNode_heap, Option.map_map, Option.map_map]
  congr 1
  funext n
  generalize v.myself = me
  obtain rfl | hm := eq_or_ne x m <;> obtain rfl | hx := eq_or_ne x me <;> simp [*]

theorem Linked.of_heap (h : v.Linked) (hheap : ∀ x, w.heap x = v.heap x) : w.Linked := by
  refine h.of_map (g := fun _ n => n) (fun x => ?_) (fun _ _ _ => ⟨rfl, rfl⟩) (fun x n hn => h.proper x n hn)
  rw [hheap x, Option.map_id']

theorem Linked.setMyMaster (h : v.Linked) {m : Ref} (hm : ∃ n, v.heap m = some n)
    (hme : ∃ me, v.heap v.myself = some me ∧ me.handshake = false ∧ ∀ j, me.slots j = false) :
    (v.setMyMaster m).Linked := by
  obtain ⟨me, hme, hhs, hslots⟩ := hme
  cases hmaster : me.master with
  | false =>
    have hslave : me.slave = true := by
      rw [(h.proper _ me hme).role hhs, hmaster]
      rfl
    refine (h.follow ⟨me, hme, hslave⟩ hm).of_heap (setMyMaster_eq v m ?_)
    rw [hme]
    exact hmaster
  | true =>
    -- the master first becomes a slave of nobody
    have hdemoted : (v.demote v.myself).closeSlots.Linked := by
      refine (h.demote (r := v.myself) fun n hn => ?_).of_heap fun _ => rfl
      rw [hme] at hn
      cases hn
      exact ⟨hmaster, hslots⟩
    have hheap : (v.demote v.myself).closeSlots.heap v.myself
        = some { me with master := false, slave := true } := by
      show (v.demote v.myself).heap v.myself = _
      rw [ClusterView.demote, updateNode_heap, hme, Option.map_some, if_pos rfl]
    have hlive : ∃ n, (v.demote v.myself).closeSlots.heap m = some n := by
      obtain ⟨n, hn⟩ := hm
      exact ⟨_, (updateNode_heap v v.myself m _).trans (by rw [hn, Option.map_some])⟩
    refine (hdemoted.follow ⟨_, hheap, rfl⟩ hlive).of_heap (fun x => ?_)
    have hdem : (v.setMyMaster m).heap x = ((v.demote v.myself).closeSlots.setMyMaster m).heap x := by
      have hany : (v.heap v.myself).any NodeView.master = true := by rw [hme]; exact hmaster
      have hany' : ((v.demote v.myself).closeSlots.heap (v.demote v.myself).closeSlots.myself).any
          NodeView.master = false := by
        show ((v.demote v.myself).closeSlots.heap v.myself).any NodeView.master = false
        rw [hheap]
        rfl
      have hnone : (v.demote v.myself).closeSlots.slaveof v.myself = none := by
        rw [slaveof_of_heap hheap]
        exact (h.proper _ me hme).slaveof_of_master hmaster
      have hleave : (v.demote v.myself).closeSlots.leave v.myself = (v.demote v.myself).closeSlots := by
        rw [leave, hnone]
      rw [ClusterView.setMyMaster, ClusterView.setMyMaster, leaveRole, leaveRole, hany, hany', if_pos rfl,
        if_neg (by simp)]
      show _ = ((((v.demote v.myself).closeSlots.leave v.myself).updateNode v.myself _).addSlave m _).heap x
      rw [hleave]
      rfl
    rw [hdem]
    refine setMyMaster_eq _ m ?_ x
    show ((v.demote v.myself).closeSlots.heap v.myself).any NodeView.master = false
    rw [hheap]
    rfl

/-! ### Nodes come and go -/

theorem Linked.handshake (h : v.Linked) (hwf : v.WellFormed) (name : NodeName) :
    (v.handshake name).Linked := by
  have hheap : ∀ x, (v.handshake name).heap x
      = if x = v.nextRef then some (handshakeNode name) else v.heap x := fun _ => rfl
  have hfresh : v.heap v.nextRef = none := hwf.fresh _ le_rfl
  have hslaveof : ∀ s, (v.handshake name).slaveof s = v.slaveof s := by
    intro s
    rw [slaveof, slaveof, hheap]
    by_cases hs : s = v.nextRef
    · rw [if_pos hs, hs, hfresh]
      rfl
    · rw [if_neg hs]
  have hnew : ∀ s, v.slaveof s ≠ some v.nextRef := by
    intro s hs
    obtain ⟨n, hn⟩ := h.live s _ hs
    rw [hfresh] at hn
    cases hn
  -- the new node has neither slots nor links
  have hcases : ∀ {r n}, (v.handshake name).heap r = some n →
      (r = v.nextRef ∧ n = handshakeNode name) ∨ (v.heap r = some n) := by
    intro r n hn
    rw [hheap] at hn
    split_ifs at hn with hr
    · exact Or.inl ⟨hr, (Option.some.inj hn).symm⟩
    · exact Or.inr hn
  refine ⟨?_, ?_, ?_, ?_⟩
  · intro r n hn
    rcases hcases hn with ⟨-, rfl⟩ | hn
    · exact ⟨fun _ => ⟨rfl, rfl⟩, nofun, fun _ _ => rfl, fun hne => absurd rfl hne⟩
    · exact h.proper r n hn
  · intro r n hn
    rcases hcases hn with ⟨-, rfl⟩ | hn
    · exact List.nodup_nil
    · exact h.nodup r n hn
  · intro r n s hn
    rw [hslaveof]
    rcases hcases hn with ⟨rfl, rfl⟩ | hn
    · exact iff_of_false List.not_mem_nil (hnew s)
    · exact h.listed r n s hn
  · intro s m hs
    rw [hslaveof] at hs
    obtain ⟨n, hn⟩ := h.live s m hs
    refine ⟨n, ?_⟩
    rw [hheap, if_neg ?_, hn]
    rintro rfl
    exact hnew s hs

theorem Linked.complete (h : v.Linked) {name : NodeName} {master slave : Bool}
    (hr : ∀ n, v.heap r = some n → n.handshake = true) (hrole : slave = !master) :
    (v.complete r name master slave).Linked := by
  refine h.setSlots (r := r) (fun x => complete_heap v r x name master slave) (fun n hn => ⟨rfl, rfl, ?_⟩)
  have hproper := h.proper r n hn
  obtain ⟨hmaster, hslave⟩ := hproper.handshake (hr n hn)
  refine ⟨nofun, fun _ => ?_, fun _ => hproper.slots hmaster, fun hne => ?_⟩
  · show (n.slave || slave) = !(n.master || master)
    rw [hmaster, hslave, hrole]
    rfl
  · have hs := hproper.slaveof hne
    rw [hslave] at hs
    cases hs

/-- What is left of the other nodes when `r` is freed. -/
theorem Linked.freeNode_heap (h : v.Linked) (r x : Ref) :
    (v.freeNode r).heap x = if x = r then none else (v.heap x).map fun n =>
      { n with
        slaves := if v.slaveof r = some x then n.slaves.erase r else n.slaves
        slaveof := if n.slaveof = some r then none else n.slaveof } := by
  show (if x = r then none else (v.disconnect r).heap x) = _
  by_cases hx : x = r
  · rw [if_pos hx, if_pos hx]
  · rw [if_neg hx, if_neg hx]
    cases hr : v.heap r with
    | none =>
      have hno : ∀ s, v.slaveof s ≠ some r := by
        intro s hs
        obtain ⟨n, hn⟩ := h.live s r hs
        rw [hr] at hn
        cases hn
      have hself : v.slaveof r = none := by rw [slaveof, hr]; rfl
      have hdis : (v.disconnect r).heap x = v.heap x := by
        simp [disconnect, hr, abandon_heap]
      rw [hdis, hself]
      cases hn : v.heap x with
      | none => rfl
      | some n =>
        have hne : n.slaveof ≠ some r := slaveof_of_heap hn ▸ hno x
        simp [hne]
    | some node =>
      have hmem : ∀ s n, v.heap s = some n → (s ∈ node.slaves ↔ n.slaveof = some r) := by
        intro s n hn
        rw [h.listed r node s hr, slaveof_of_heap hn]
      have habandon : ∀ y, (v.abandon node.slaves).heap y = (v.heap y).map fun n =>
          { n with slaveof := if n.slaveof = some r then none else n.slaveof } := by
        intro y
        rw [abandon_heap]
        cases hn : v.heap y with
        | none => rfl
        | some n => by_cases hp : n.slaveof = some r <;> simp [hmem y n hn, hp]
      have hslave : ((v.abandon node.slaves).heap r).any NodeView.slave = node.slave := by
        rw [habandon, hr]
        rfl
      simp only [disconnect, hr, Option.map_some, Option.getD_some]
      rw [hslave]
      by_cases hs : node.slave = true
      · rw [if_pos hs, leave_heap, habandon, Option.map_map]
        have hslaveof : (v.abandon node.slaves).slaveof r = some x ↔ v.slaveof r = some x := by
          rw [slaveof, habandon, hr, slaveof_of_heap hr]
          show (if node.slaveof = some r then none else node.slaveof) = some x ↔ _
          split_ifs with hp
          · rw [hp, Option.some.injEq]
            exact iff_of_false id (Ne.symm hx)
          · rfl
        congr 1
        funext n
        simp only [Function.comp, hslaveof]
        split_ifs <;> rfl
      · rw [if_neg hs, habandon]
        have hnone : v.slaveof r = none := by
          rw [slaveof_of_heap hr]
          by_contra hne
          exact hs ((h.proper r node hr).slaveof hne)
        simp [hnone]

theorem Linked.freeNode (h : v.Linked) (r : Ref) : (v.freeNode r).Linked := by
  have hcases : ∀ {x n}, (v.freeNode r).heap x = some n → x ≠ r ∧ ∃ m, v.heap x = some m ∧
      { m with
        slaves := if v.slaveof r = some x then m.slaves.erase r else m.slaves
        slaveof := if m.slaveof = some r then none else m.slaveof } = n := by
    intro x n hn
    rw [h.freeNode_heap] at hn
    by_cases hx : x = r
    · rw [if_pos hx] at hn
      cases hn
    · rw [if_neg hx] at hn
      exact ⟨hx, Option.map_eq_some_iff.mp hn⟩
  have hpoint : ∀ s m, (v.freeNode r).slaveof s = some m ↔ s ≠ r ∧ m ≠ r ∧ v.slaveof s = some m := by
    intro s m
    rw [slaveof, slaveof, h.freeNode_heap]
    by_cases hs : s = r
    · simp [hs]
    · rw [if_neg hs]
      cases hn : v.heap s with
      | none => simp
      | some n =>
        show (if n.slaveof = some r then none else n.slaveof) = some m ↔ _ ∧ _ ∧ n.slaveof = some m
        split_ifs with hp
        · rw [hp, Option.some.injEq]
          exact iff_of_false nofun fun hc => hc.2.1 hc.2.2.symm
        · refine ⟨fun hm => ⟨hs, ?_, hm⟩, fun hc => hc.2.2⟩
          rintro rfl
          exact hp hm
  refine ⟨?_, ?_, ?_, ?_⟩
  · intro x n hn
    obtain ⟨-, m, hm, rfl⟩ := hcases hn
    refine (h.proper x m hm).congr rfl rfl rfl (fun _ => id) ?_
    dsimp only
    split_ifs
    · exact Or.inr rfl
    · exact Or.inl rfl
  · intro x n hn
    obtain ⟨-, m, hm, rfl⟩ := hcases hn
    dsimp only
    split_ifs
    · exact (h.nodup x m hm).erase r
    · exact h.nodup x m hm
  · intro x n s hn
    obtain ⟨hx, m, hm, rfl⟩ := hcases hn
    have hlisted := h.listed x m
    rw [hpoint]
    dsimp only
    split_ifs with hr
    · rw [(h.nodup x m hm).mem_erase_iff, hlisted s hm]
      exact ⟨fun hc => ⟨hc.1, hx, hc.2⟩, fun hc => ⟨hc.1, hc.2.2⟩⟩
    · rw [hlisted s hm]
      refine ⟨fun hs => ⟨?_, hx, hs⟩, fun hc => hc.2.2⟩
      rintro rfl
      exact hr hs
  · intro s m hs
    obtain ⟨-, hm, hs⟩ := (hpoint s m).mp hs
    obtain ⟨n, hn⟩ := h.live s m hs
    exact ⟨_, by rw [h.freeNode_heap, if_neg hm, hn, Option.map_some]⟩

/-! ### Actions -/

/-- The node is not in handshake. -/
def Settled (v : ClusterView) (r : Ref) : Prop :=
  r < v.nextRef ∧ ∀ n, v.heap r = some n → n.handshake = false

/-- The node is flagged as a master. -/
def IsMaster (v : ClusterView) (r : Ref) : Prop := ∀ n, v.heap r = some n → n.master = true

/-- An action that respects the roles: what a packet is about is not in handshake, the header of
    a packet has one role, and a command gives slots to masters. -/
def Respects (v : ClusterView) : ClusterAction → Prop
  | .claim r _ | .promote r | .follow r _ => v.Settled r
  | .assign r _ => v.IsMaster r
  | .complete _ _ master slave => slave = !master
  | _ => True

theorem WellFormed.slots_eq_false (h : v.WellFormed) {n : NodeView} (hn : v.heap r = some n)
    (hzero : n.numslots = 0) (j : Slot) : n.slots j = false := by
  rw [h.count r n hn] at hzero
  exact eq_false_of_slotCount hzero j

/-- **Step lemma** of the roles. -/
theorem Linked.apply (h : v.Linked) (hwf : v.WellFormed) {a : ClusterAction} (ha : a.Enabled v)
    (hok : v.Respects a) : (a.apply v).Linked := by
  cases a with
  | learn r _ | updateEpoch r _ _ =>
    exact h.relabel (fun x => updateNode_heap _ r x _) fun _ => ⟨rfl, rfl, rfl, rfl, rfl, rfl⟩
  | bump | winEpoch | setEpoch _ =>
    exact h.relabel (fun x => updateNode_heap _ v.myself x _) fun _ => ⟨rfl, rfl, rfl, rfl, rfl, rfl⟩
  | hardReset name =>
    exact h.relabel (fun x => hardReset_heap v x name) fun _ => ⟨rfl, rfl, rfl, rfl, rfl, rfl⟩
  | delSlot j => exact h.delSlot j
  | claim r j =>
    obtain ⟨-, -, n, hn, hmay⟩ := ha
    refine h.addSlot fun n' hn' => ?_
    rw [hn] at hn'
    cases hn'
    rcases hmay with hmaster | hslave
    · exact hmaster
    · exact (h.proper r n hn).master_of_not_slave (hok.2 n hn) hslave
  | assign r j => exact h.addSlot hok
  | promote r => exact h.promote hok.2
  | demote r =>
    obtain ⟨n, hn, hmaster, hzero⟩ := ha
    refine h.demote fun n' hn' => ?_
    rw [hn] at hn'
    cases hn'
    exact ⟨hmaster, hwf.slots_eq_false hn hzero⟩
  | follow r m =>
    obtain ⟨⟨n, hn, hmaster⟩, hm⟩ := ha
    refine h.follow ⟨n, hn, ?_⟩ hm
    rw [(h.proper r n hn).role (hok.2 n hn), hmaster]
    rfl
  | setMyMaster m =>
    obtain ⟨-, hm, me, hme, hzero⟩ := ha
    exact h.setMyMaster hm ⟨me, hme, (hwf.selfRole me hme).handshake, hwf.slots_eq_false hme hzero⟩
  | handshake name => exact h.handshake hwf name
  | complete r name master slave =>
    obtain ⟨-, ⟨n, hn, hhs⟩, -⟩ := ha
    refine h.complete (fun n' hn' => ?_) hok
    rw [hn] at hn'
    cases hn'
    exact hhs
  | free r => exact h.freeNode r
  | _ => exact h.of_heap fun _ => rfl

theorem Settled.of_map (h : v.Settled r) (hnext : w.nextRef = v.nextRef) {g : NodeView → NodeView}
    (hheap : w.heap r = (v.heap r).map g) (hg : ∀ n, n.handshake = false → (g n).handshake = false) :
    w.Settled r := by
  refine ⟨hnext ▸ h.1, fun n hn => ?_⟩
  rw [hheap] at hn
  obtain ⟨m, hm, rfl⟩ := Option.map_eq_some_iff.mp hn
  exact hg m (h.2 m hm)

/-- A changed node stays out of handshake if the change says nothing about it. -/
theorem Settled.updateNode {r x : Ref} (h : v.Settled r) (hf : ∀ n, (f n).handshake = n.handshake) :
    (v.updateNode x f).Settled r := by
  refine h.of_map rfl (updateNode_heap v x r f) fun n hn => ?_
  split_ifs
  · rw [hf, hn]
  · exact hn

theorem Settled.leave (h : v.Settled r) (x : Ref) : (v.leave x).Settled r := by
  rw [ClusterView.leave]
  cases v.slaveof x with
  | none => exact h
  | some m => exact h.updateNode fun _ => rfl

theorem Settled.disconnect (h : v.Settled r) (x : Ref) : (v.disconnect x).Settled r := by
  have habandon : ∀ l, (v.abandon l).Settled r := by
    intro l
    refine h.of_map rfl (abandon_heap v l r) fun n hn => ?_
    split_ifs <;> exact hn
  simp only [ClusterView.disconnect]
  split_ifs
  · exact (habandon _).leave x
  · exact habandon _

/-- A node never goes back to handshake. -/
theorem Settled.apply (h : v.Settled r) (a : ClusterAction) : (a.apply v).Settled r := by
  cases a with
  | learn x hdr => exact Settled.updateNode h fun _ => rfl
  | updateEpoch x hdr e => exact h.updateNode fun _ => rfl
  | bump => exact Settled.updateNode h fun _ => rfl
  | winEpoch => exact h.updateNode fun _ => rfl
  | setEpoch e => exact Settled.updateNode h fun _ => rfl
  | hardReset name =>
    refine h.of_map rfl (hardReset_heap v r name) fun n hn => ?_
    split_ifs <;> exact hn
  | delSlot j =>
    show (v.delSlot j).Settled r
    cases hj : v.slots j with
    | none => rw [delSlot_of_none hj]; exact h
    | some x =>
      refine h.of_map ?_ (delSlot_heap hj r) fun n hn => ?_
      · rw [ClusterView.delSlot, hj]; rfl
      · split_ifs <;> exact hn
  | claim x j | assign x j => exact Settled.updateNode h fun _ => rfl
  | promote x => exact (h.leave x).updateNode fun _ => rfl
  | demote x => exact h.updateNode fun _ => rfl
  | follow x m =>
    have hadd : ((v.leave x).addSlave m x).Settled r := (h.leave x).updateNode fun _ => rfl
    exact hadd.updateNode fun _ => rfl
  | setMyMaster m =>
    have hleave : v.leaveRole.Settled r := by
      rw [leaveRole]
      split_ifs
      · exact Settled.updateNode h fun _ => rfl
      · exact h.leave v.myself
    have hfollow : (v.leaveRole.updateNode v.myself fun n => { n with slaveof := some m }).Settled r :=
      hleave.updateNode fun _ => rfl
    exact hfollow.updateNode fun _ => rfl
  | handshake name =>
    refine ⟨Nat.lt_succ_of_lt h.1, fun n hn => h.2 n ?_⟩
    rw [← hn]
    exact (if_neg h.1.ne).symm
  | complete x name master slave =>
    refine h.of_map rfl (complete_heap v x r name master slave) fun n hn => ?_
    split_ifs
    · rfl
    · exact hn
  | free x =>
    obtain ⟨hlt, hsettled⟩ := h.disconnect x
    refine ⟨hlt, fun n hn => hsettled n ?_⟩
    have hn' : (if r = x then none else (v.disconnect x).heap r) = some n := hn
    split_ifs at hn'
    exact hn'
  | _ => exact h

/-- The roles along a sequence of actions that respect them, where this may depend on what holds
    during the sequence. -/
theorem Linked.steps {A : ClusterAction → Prop} {P : ClusterView → Prop} (h : v.Linked) (hwf : v.WellFormed)
    (hp : P v) (hstep : ∀ a u, A a → a.Enabled u → P u → P (a.apply u))
    (hok : ∀ a u, A a → a.Enabled u → P u → u.WellFormed → u.Respects a) (hs : Steps A v w) :
    w.Linked := by
  have hinv : w.Linked ∧ w.WellFormed ∧ P w := by
    refine hs.invariant (fun u => u.Linked ∧ u.WellFormed ∧ P u) ⟨h, hwf, hp⟩ ?_
    rintro a u ha he ⟨hlinked, hu, hpu⟩
    exact ⟨hlinked.apply hu he (hok a u ha he hpu hu), hu.apply he, hstep a u ha he hpu⟩
  exact hinv.1

end ClusterView

end Redis
