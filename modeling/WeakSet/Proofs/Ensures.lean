import WeakSet.Proofs.Act

/-!
# Pre- and postconditions of acts

`Ensures P a Q E` says that act `a`, started in a world of which `P` is true, ends in one of which
`Q x` is true if its result is `x`, and `E` if it panics. There is one rule for each way to make acts
of others. Unlike `Leads` this says nothing of what the world went through meanwhile, and it is about
all worlds of which `P` is true, whether a run comes to them or not.
-/

namespace WeakSet

namespace Act

variable {α β : Type} {P P' : World → Prop} {Q : α → World → Prop} {Q' : β → World → Prop}
  {E E' : World → Prop}

/-- What is true after a result or a panic. -/
def after (Q : α → World → Prop) (E : World → Prop) : Except Panic α → World → Prop
  | .ok x => Q x
  | .error _ => E

theorem after_same (P : World → Prop) (r : Except Panic α) : after (fun _ => P) P r = P := by
  cases r <;> rfl

/-- From a precondition to a postcondition, or to what is true after a panic. -/
def Ensures (P : World → Prop) (a : Act α) (Q : α → World → Prop) (E : World → Prop) : Prop :=
  ∀ w, P w → after Q E (a.exec w).1 (a.exec w).2

/-- A condition is as true after an act as before, however the act ends. -/
abbrev Preserves (P : World → Prop) (a : Act α) : Prop :=
  Ensures P a (fun _ => P) P

theorem Preserves.exec {a : Act α} (h : Preserves P a) {w : World} (hw : P w) :
    P (a.exec w).2 := by
  have := h w hw
  rwa [after_same] at this

/-- A condition is as true after an act as before, and the act panics only if `d`. -/
abbrev Sustains (d : Prop) (P : World → Prop) (a : Act α) : Prop :=
  Ensures P a (fun _ => P) (fun w => P w ∧ d)

namespace Ensures

theorem of_exec {a : Act α} (h : ∀ w, P w → after Q E (a.exec w).1 (a.exec w).2) :
    Ensures P a Q E := h

theorem imp {a : Act α} (ha : Ensures P a Q E) (hP : ∀ w, P' w → P w) : Ensures P' a Q E :=
  fun w hw => ha w (hP w hw)

theorem post {a : Act α} {R : α → World → Prop} (ha : Ensures P a R E)
    (hQ : ∀ x w, R x w → Q x w) (hE : ∀ w, E w → E' w) : Ensures P a Q E' := by
  intro w hw
  have h := ha w hw
  rcases hx : a.exec w with ⟨p | x, w'⟩ <;> rw [hx] at h
  · exact hE w' h
  · exact hQ x w' h

/-- Whether an act panics does not matter. -/
theorem forget {d : Prop} {a : Act α} (h : Ensures P a Q fun w => E w ∧ d) : Ensures P a Q E :=
  h.post (fun _ _ hq => hq) fun _ he => he.1

/-- Where panics are allowed, what is true after one is enough. -/
theorem allow {d : Prop} (hd : d) {a : Act α} (h : Ensures P a Q E) :
    Ensures P a Q fun w => E w ∧ d :=
  h.post (fun _ _ hq => hq) fun _ he => ⟨he, hd⟩

theorem weaken {d d' : Prop} (hd : d → d') {a : Act α} (h : Ensures P a Q fun w => E w ∧ d) :
    Ensures P a Q fun w => E w ∧ d' :=
  h.post (fun _ _ hq => hq) fun _ he => ⟨he.1, hd he.2⟩

/-- A fact about results that the precondition brings. -/
theorem fact {p : Prop} {a : Act α} (h : p → Ensures P a Q E) :
    Ensures (fun w => P w ∧ p) a Q E :=
  fun w hw => h hw.2 w hw.1

/-- What is true of the result in any world is true of it here. -/
theorem yields {R : α → Prop} {a : Act α} (h : Ensures P a Q E) (hy : Yields a R) :
    Ensures P a (fun x w => Q x w ∧ R x) E := by
  intro w hw
  have hq := h w hw
  rcases hx : a.exec w with ⟨p | x, w'⟩ <;> rw [hx] at hq
  · exact hq
  · exact ⟨hq, hy _ _ _ hx⟩

theorem left {R : World → Prop} {a : Act α} (h : Ensures P a Q E) :
    Ensures (fun w => P w ∧ R w) a Q E :=
  fun w hw => h w hw.1

theorem pure {x : α} (h : ∀ w, P w → Q x w) : Ensures P (pure x) Q E := h

theorem throw {p : Panic} (h : ∀ w, P w → E w) : Ensures P (throw p : Act α) Q E := h

/-- One act after the other. -/
theorem bind {a : Act α} {f : α → Act β} {R : α → World → Prop} (ha : Ensures P a R E)
    (hf : ∀ x, Ensures (R x) (f x) Q' E) : Ensures P (a >>= f) Q' E := by
  intro w hw
  have h := ha w hw
  rw [exec_bind]
  rcases hx : a.exec w with ⟨p | x, w'⟩ <;> rw [hx] at h
  · exact h
  · exact hf x w' h

/-- An act whose panic is caught, and another after it. -/
theorem attempt {a : Act α} {f : Except Panic α → Act β} (ha : Ensures P a Q E)
    (hf : ∀ r, Ensures (after Q E r) (f r) Q' E') : Ensures P (attempt a >>= f) Q' E' :=
  fun w hw => (hf _ _ (ha w hw) :)

theorem look {γ : Type} {f : World → γ} {g : γ → Act α}
    (h : ∀ x, Ensures (fun w => P w ∧ f w = x) (g x) Q E) : Ensures P (look f >>= g) Q E :=
  fun w hw => (h (f w) w ⟨hw, rfl⟩ :)

theorem get {g : World → Act α} (h : ∀ v, Ensures (fun w => P w ∧ w = v) (g v) Q E) :
    Ensures P (get >>= g) Q E :=
  fun w hw => (h w w ⟨hw, rfl⟩ :)

theorem change {f : World → World} {g : Unit → Act α} {R : World → Prop}
    (hR : ∀ w, P w → R (f w)) (h : Ensures R (g ()) Q E) : Ensures P (change f >>= g) Q E :=
  fun w hw => (h (f w) (hR w hw) :)

theorem update {γ : Type} {f : World → γ × World} {g : γ → Act α} {R : γ → World → Prop}
    (hR : ∀ w, P w → R (f w).1 (f w).2) (h : ∀ x, Ensures (R x) (g x) Q E) :
    Ensures P (update f >>= g) Q E :=
  fun w hw => (h _ (f w).2 (hR w hw) :)

theorem note {x : Entry} {g : Unit → Act α} {R : World → Prop} (hR : ∀ w, P w → R (w.note x))
    (h : Ensures R (g ()) Q E) : Ensures P (note x >>= g) Q E :=
  change hR h

theorem map {a : Act α} {f : α → β} (h : Ensures P a (fun x => Q' (f x)) E) :
    Ensures P (f <$> a) Q' E := by
  intro w hw
  have ha := h w hw
  rw [exec_map]
  rcases hx : a.exec w with ⟨p | x, w'⟩ <;> rw [hx] at ha <;> exact ha

theorem discard {a : Act α} {R : World → Prop} (h : Ensures P a (fun _ => R) E) :
    Ensures P (discard a) (fun _ => R) E :=
  map h

/-- The result of an attempt again. -/
theorem settle {r : Except Panic α} : Ensures (after Q E r) (settle r) Q E := by
  intro w hw
  rw [exec_settle]
  exact hw

/-- Take the last step of a straight line. -/
theorem last {a : Act α} (h : Ensures P (a >>= Pure.pure) Q E) : Ensures P a Q E := by
  rwa [bind_pure] at h

/-- What a list of acts, one for each member, keeps true of the world and of what it came to. -/
theorem foldlM {γ : Type} {f : β → γ → Act β} {I : β → World → Prop} {xs : List γ}
    (h : ∀ b, ∀ x ∈ xs, Ensures (I b) (f b x) I E) (b : β) : Ensures (I b) (xs.foldlM f b) I E := by
  induction xs generalizing b with
  | nil => exact .pure fun _ hw => hw
  | cons x xs ih =>
    rw [List.foldlM_cons]
    exact .bind (h b x (by simp)) fun b' => ih (fun c y hy => h c y (by simp [hy])) b'

theorem forM {γ : Type} {f : γ → Act PUnit} {I : World → Prop} {xs : List γ}
    (h : ∀ x ∈ xs, Ensures I (f x) (fun _ => I) E) : Ensures I (xs.forM f) (fun _ => I) E := by
  induction xs with
  | nil => exact .pure fun _ hw => hw
  | cons x xs ih =>
    rw [List.forM_eq_forM, List.forM_cons]
    exact .bind (h x (by simp)) fun _ => ih fun y hy => h y (by simp [hy])

end Ensures

/-- An act under the lock of a set. If the set is locked already, the refusal is all that happens. -/
theorem ensures_guarded {s : SetId} {a : Act α} {R : World → Prop}
    (hb : ∀ w, s ∈ w.entered → P w → E (w.note (.barred s)))
    (hl : ∀ w, s ∉ w.entered → P w → R (w.lock s))
    (ha : Ensures R a (fun x w => Q x (w.unlock s)) fun w => E (w.unlock s)) :
    Ensures P (guarded s a) Q E := by
  intro w hw
  by_cases hm : s ∈ w.entered
  · rw [exec_guarded_of_mem hm]
    exact hb w hm hw
  · rw [exec_guarded_of_not_mem hm]
    have h := ha _ (hl w hm hw)
    rcases hx : a.exec (w.lock s) with ⟨p | x, w'⟩ <;> rw [hx] at h <;> exact h

end Act

end WeakSet
