import WeakSet.Act

/-!
# What acts come to

`exec_bind` and its companions take an act apart into steps. `Act.Yields` says what is true of the
result of an act whatever the world, if it has one.
-/

namespace WeakSet

namespace Act

@[simp] theorem swapRemove_cons_self (s : SetId) (l : List SetId) : swapRemove s (s :: l) = l :=
  if_pos rfl

/-- What comes in for an entry is one more, and the entry is one less. -/
theorem replace_perm {s : SetId} (x : SetId) {l : List SetId} (hs : s ∈ l) :
    (l.replace s x).Perm (x :: l.erase s) := by
  induction l with
  | nil => cases hs
  | cons y l ih =>
    by_cases hy : y = s
    · rw [hy, List.replace_cons_self, List.erase_cons_head]
    · rw [List.replace_cons, show (s == y) = false by simpa using Ne.symm hy,
        List.erase_cons_tail (by simpa using hy)]
      exact ((ih (List.mem_of_ne_of_mem (Ne.symm hy) hs)).cons y).trans (.swap ..)

/-- A lock goes, and the others stay in another order. -/
theorem swapRemove_perm (s : SetId) (l : List SetId) : (swapRemove s l).Perm (l.erase s) := by
  cases l with
  | nil => exact .nil
  | cons last earlier =>
    by_cases hlast : last = s
    · rw [hlast, swapRemove_cons_self, List.erase_cons_head]
    · rw [swapRemove, if_neg hlast, List.erase_cons_tail (by simpa using hlast)]
      by_cases hin : earlier.contains s
      · rw [if_pos hin]
        exact replace_perm last (by simpa using hin)
      · rw [if_neg hin, List.erase_of_not_mem (by simpa using hin)]

end Act

namespace World

/-- A set is locked. -/
def lock (w : World) (s : SetId) : World :=
  { w with entered := s :: w.entered }

/-- A set is unlocked. -/
def unlock (w : World) (s : SetId) : World :=
  { w with entered := Act.swapRemove s w.entered }

@[simp] theorem unlock_lock (w : World) (s : SetId) : (w.lock s).unlock s = w := by
  simp [lock, unlock]

end World

namespace Act

variable {α β : Type} {w w' : World}

theorem exec_pure (x : α) (w : World) : exec (pure x) w = (.ok x, w) := rfl

theorem exec_look (f : World → α) (w : World) : exec (look f) w = (.ok (f w), w) := rfl

theorem exec_change (f : World → World) (w : World) : exec (change f) w = (.ok (), f w) := rfl

theorem exec_update (f : World → α × World) (w : World) :
    exec (update f) w = (.ok (f w).1, (f w).2) := rfl

theorem exec_get_bind (f : World → Act β) (w : World) : exec (get >>= f) w = exec (f w) w := rfl

theorem exec_attempt (a : Act α) (w : World) :
    exec (attempt a) w = (.ok (exec a w).1, (exec a w).2) := rfl

theorem exec_bind (a : Act α) (f : α → Act β) (w : World) :
    exec (a >>= f) w =
      match exec a w with
      | (.ok x, w') => exec (f x) w'
      | (.error p, w') => (.error p, w') := by
  change ExceptT.bindCont f (exec a w).1 (exec a w).2 = _
  rcases exec a w with ⟨p | x, w'⟩ <;> rfl

theorem exec_bind_ok {a : Act α} {x : α} (h : exec a w = (.ok x, w')) (f : α → Act β) :
    exec (a >>= f) w = exec (f x) w' := by
  rw [exec_bind, h]

theorem exec_bind_error {a : Act α} {p : Panic} (h : exec a w = (.error p, w'))
    (f : α → Act β) : exec (a >>= f) w = (.error p, w') := by
  rw [exec_bind, h]

/-- An act in two parts has a result if both have. -/
theorem exec_bind_eq_ok {a : Act α} {f : α → Act β} {y : β} :
    exec (a >>= f) w = (.ok y, w') ↔
      ∃ x w₁, exec a w = (.ok x, w₁) ∧ exec (f x) w₁ = (.ok y, w') := by
  rw [exec_bind]
  rcases exec a w with ⟨p | x, w₁⟩
  · simp
  · exact ⟨fun h => ⟨x, w₁, rfl, h⟩, by rintro ⟨_, _, ⟨⟩, h⟩; exact h⟩

theorem exec_attempt_eq_ok {a : Act α} {r : Except Panic α} :
    exec (attempt a) w = (.ok r, w') ↔ exec a w = (r, w') := by
  rw [exec_attempt, Prod.mk.injEq, Except.ok.injEq, Prod.ext_iff]

theorem exec_pure_eq_ok {x y : α} :
    exec (pure x) w = (.ok y, w') ↔ x = y ∧ w = w' := by
  rw [exec_pure, Prod.mk.injEq, Except.ok.injEq]

theorem exec_map (f : α → β) (a : Act α) (w : World) :
    exec (f <$> a) w = ((exec a w).1.map f, (exec a w).2) := by
  have e : f <$> a = a >>= fun x => pure (f x) := (bind_pure_comp f a).symm
  rw [e, exec_bind]
  rcases exec a w with ⟨p | x, w'⟩ <;> rfl

theorem exec_discard (a : Act α) (w : World) :
    exec (discard a) w = ((exec a w).1.map fun _ => (), (exec a w).2) :=
  exec_map _ a w

theorem exec_discard_ok {a : Act α} {x : α} (h : exec a w = (.ok x, w')) :
    exec (discard a) w = (.ok (), w') := by
  rw [exec_discard, h]; rfl

theorem exec_discard_error {a : Act α} {p : Panic} (h : exec a w = (.error p, w')) :
    exec (discard a) w = (.error p, w') := by
  rw [exec_discard, h]; rfl

theorem exec_settle (r : Except Panic α) (w : World) : exec (settle r) w = (r, w) := by
  cases r <;> rfl

/-! ## Locks -/

theorem exec_enter_of_mem {s : SetId} (h : s ∈ w.entered) :
    exec (enter s) w = (.error reentered, w.note (.barred s)) := by
  rw [enter, exec_bind, exec_look]
  simp only [List.contains_iff_mem.mpr h, ite_true]
  rfl

theorem exec_enter_of_not_mem {s : SetId} (h : s ∉ w.entered) :
    exec (enter s) w = (.ok (), w.lock s) := by
  rw [enter, exec_bind, exec_look]
  have hc : w.entered.contains s = false := by simpa using h
  simp only [hc, Bool.false_eq_true, ite_false]
  rfl

/-- An act under a lock that is taken already is refused. -/
theorem exec_guarded_of_mem {s : SetId} (h : s ∈ w.entered) (a : Act α) :
    exec (guarded s a) w = (.error reentered, w.note (.barred s)) :=
  exec_bind_error (exec_enter_of_mem h) _

theorem exec_guarded_of_not_mem {s : SetId} (h : s ∉ w.entered) (a : Act α) :
    exec (guarded s a) w =
      ((exec a (w.lock s)).1, (exec a (w.lock s)).2.unlock s) := by
  rw [guarded, exec_bind_ok (exec_enter_of_not_mem h), exec_bind_ok (exec_attempt a _)]
  exact exec_settle _ _

theorem exec_guarded_eq_ok {s : SetId} {a : Act α} {x : α} :
    exec (guarded s a) w = (.ok x, w') ↔
      s ∉ w.entered ∧ ∃ w₁, exec a (w.lock s) = (.ok x, w₁) ∧ w₁.unlock s = w' := by
  by_cases h : s ∈ w.entered
  · simp [exec_guarded_of_mem h, h]
  · rw [exec_guarded_of_not_mem h]
    rcases exec a (w.lock s) with ⟨r, w₁⟩
    simp only [Prod.mk.injEq, h, not_false_eq_true, true_and]
    exact ⟨fun ⟨hr, hw⟩ => ⟨w₁, ⟨hr, rfl⟩, hw⟩, fun ⟨_, ⟨hr, hw'⟩, hw⟩ => ⟨hr, hw' ▸ hw⟩⟩

/-- An act that leaves its lock as it was. -/
theorem exec_guarded_lock {s : SetId} (h : s ∉ w.entered) {a : Act α} {r : Except Panic α}
    (ha : exec a (w.lock s) = (r, w'.lock s)) : exec (guarded s a) w = (r, w') := by
  rw [exec_guarded_of_not_mem h, ha, World.unlock_lock]

/-! ## Results -/

/-- What is true of the result of an act whatever the world, if it has one. -/
def Yields (a : Act α) (P : α → Prop) : Prop :=
  ∀ w x w', exec a w = (.ok x, w') → P x

namespace Yields

variable {P : α → Prop} {Q : β → Prop}

theorem pure {x : α} (h : P x) : Yields (pure x) P := by
  rintro w _ _ ⟨⟩; exact h

theorem bind {a : Act α} {f : α → Act β} (ha : Yields a P) (hf : ∀ x, P x → Yields (f x) Q) :
    Yields (a >>= f) Q := by
  intro w y w' h
  rw [exec_bind] at h
  split at h
  · rename_i x w'' e; exact hf x (ha w x w'' e) w'' y w' h
  · cases h

theorem look {f : World → α} (h : ∀ w, P (f w)) : Yields (look f) P := by
  rintro w _ _ ⟨⟩; exact h w

theorem imp {a : Act α} {P' : α → Prop} (ha : Yields a P) (h : ∀ x, P x → P' x) : Yields a P' :=
  fun w x w' hx => h x (ha w x w' hx)

theorem attempt {a : Act α} {f : Except Panic α → Act β} (ha : Yields a P)
    (hf : ∀ r, (∀ x, r = .ok x → P x) → Yields (f r) Q) : Yields (attempt a >>= f) Q :=
  bind (P := fun r => ∀ x, r = .ok x → P x)
    (by rintro w r w' h x rfl; exact ha w x w' (exec_attempt_eq_ok.mp h)) hf

/-- Nothing is known of the first result. -/
theorem seq {a : Act α} {f : α → Act β} (hf : ∀ x, Yields (f x) Q) : Yields (a >>= f) Q :=
  bind (P := fun _ => True) (fun _ _ _ _ => trivial) fun x _ => hf x

theorem mapM {f : α → Act β} {xs : List α} (h : ∀ x ∈ xs, Yields (f x) Q) :
    Yields (xs.mapM f) fun ys => ∀ y ∈ ys, Q y := by
  induction xs with
  | nil => exact .pure (by simp)
  | cons x xs ih =>
    rw [List.mapM_cons]
    refine .bind (h x (by simp)) fun y hy => .bind (ih fun x' hx => h x' (by simp [hx])) fun ys hys =>
      .pure ?_
    simpa using ⟨hy, hys⟩

end Yields

end Act

end WeakSet
