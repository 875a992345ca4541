import Redis.Cluster.Cron

namespace Redis

/-!
# Running handlers on known states

The rules by which a handler is run step by step on a state that is known; a loop over all slots is
not unfolded.

* `run_bind_of_eq`, `run_getMyself_bind` — the next step of a handler;
* `forM_eq_of_mem`, `run_forM_of_mem` — a loop in which only one element matters.
-/

def slotZero : Slot := ⟨0, by decide⟩

section

variable {s t : ClusterState} {env : ClusterEnv}

theorem run_bind_of_eq {α β : Type} {x : ClusterM α} {f : α → ClusterM β} {a : α}
    (h : x.run s = .ok (a, t)) : (x >>= f).run s = (f a).run t := by
  rw [StateT.run_bind, h]
  rfl

theorem run_clusterHandle_command {c : ClusterCommand} {reply : ClusterReply}
    (h : (clusterCommand env c).run s = .ok (reply, t)) :
    (clusterHandle env (.command c)).run s = .ok (.idle, t) := by
  have hdiscard : (discard (clusterCommand env c) : ClusterM Unit)
      = (fun _ => ()) <$> clusterCommand env c := rfl
  simp only [clusterHandle, hdiscard, bind_map_left, StateT.run_bind, h]
  rfl

theorem run_getMyself_bind {α : Type} {me : ClusterNode} (hme : s.heap s.myself = some me)
    (f : ClusterNode → ClusterM α) : (getMyself >>= f).run s = (f me).run s := by
  simp [getMyself, getNode, hme, StateT.run_bind]

/-- A loop in which only one element does something. -/
theorem forM_eq_of_mem {α : Type} {m : Type → Type} [Monad m] [LawfulMonad m] {l : List α} {a : α} {f : α → m Unit}
    (hl : l.Nodup) (ha : a ∈ l) (hf : ∀ b, b ≠ a → f b = pure ()) : l.forM f = f a := by
  have hskip : ∀ k : List α, a ∉ k → k.forM f = pure () := by
    intro k hk
    induction k with
    | nil => rfl
    | cons b k ih =>
      rw [List.mem_cons, not_or] at hk
      show (f b >>= fun _ => k.forM f) = _
      rw [hf b (Ne.symm hk.1), pure_bind, ih hk.2]
  induction l with
  | nil => cases ha
  | cons b l ih =>
    have hnodup := List.nodup_cons.mp hl
    show (f b >>= fun _ => l.forM f) = _
    rcases List.mem_cons.mp ha with rfl | ha
    · rw [hskip l hnodup.1]
      exact bind_pure (f a)
    · have hb : b ≠ a := by
        rintro rfl
        exact hnodup.1 ha
      rw [hf b hb, pure_bind, ih hnodup.2 ha]

/-- A loop that changes the state for one element only. -/
theorem run_forM_of_mem {α : Type} {l : List α} {a : α} {f : α → ClusterM Unit} (hl : l.Nodup) (ha : a ∈ l)
    (hs : ∀ b, b ≠ a → (f b).run s = .ok ((), s)) (ht : ∀ b, b ≠ a → (f b).run t = .ok ((), t))
    (hrun : (f a).run s = .ok ((), t)) : (l.forM f).run s = .ok ((), t) := by
  have hskip : ∀ {u : ClusterState}, (∀ b, b ≠ a → (f b).run u = .ok ((), u)) → ∀ k : List α, a ∉ k →
      (k.forM f).run u = .ok ((), u) := by
    intro u hu k hk
    induction k with
    | nil => rfl
    | cons b k ih =>
      rw [List.mem_cons, not_or] at hk
      show (f b >>= fun _ => k.forM f).run u = _
      rw [run_bind_of_eq (hu b (Ne.symm hk.1))]
      exact ih hk.2
  induction l with
  | nil => cases ha
  | cons b l ih =>
    have hnodup := List.nodup_cons.mp hl
    show (f b >>= fun _ => l.forM f).run s = _
    rcases List.mem_cons.mp ha with rfl | ha
    · rw [run_bind_of_eq hrun]
      exact hskip ht l hnodup.1
    · have hb : b ≠ a := by
        rintro rfl
        exact hnodup.1 ha
      rw [run_bind_of_eq (hs b hb)]
      exact ih hnodup.2 ha

end

end Redis
