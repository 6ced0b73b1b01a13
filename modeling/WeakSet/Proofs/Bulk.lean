import WeakSet.Proofs.Steady

/-!
# Operations on many elements

In a quiet world an operation that goes through a list of elements, of queries or of shards makes
of a dictionary what its steps make of it, one after the other, and says whether that differs from
what it was (`makes_anyOf`).
-/

namespace WeakSet

open Act Duties World

variable {α : Type} {run : Runner} {w w' : World} {D : Duties} {s : SetId}

/-! ## One step after the other -/

/-- What is made of a dictionary by steps that never bring back what it was. -/
structure IsMaking (P : List α → Dict → Dict → Prop) : Prop where
  nil : ∀ m, P [] m m
  cons : ∀ x xs m m₁ m₂, P [x] m m₁ → P xs m₁ m₂ → P (x :: xs) m m₂
  antisymm : ∀ xs ys m m', P xs m m' → P ys m' m → m' = m

theorem makes_anyOf {P : List α → Dict → Dict → Prop} {f : α → Act Bool} (xs : List α)
    (hP : IsMaking P) (h : w.Steady D)
    (hf : ∀ x ∈ xs, ∀ w₁, w₁.Steady D → Framed s [] w w₁ →
      ∃ m, P [x] (w₁.dict s) m ∧ Makes s (f x) w₁ D m) :
    ∃ m, P xs (w.dict s) m ∧ Makes s (anyOf f xs) w D m := by
  have hgen : ∀ (c : Bool), ∃ m b w', P xs (w.dict s) m ∧
      Does s (xs.foldlM (fun changed x => do return (← f x) || changed) c) w D b w' ∧
      w'.dict s = m ∧ (b = true ↔ c = true ∨ m ≠ w.dict s) := by
    induction xs generalizing w with
    | nil => exact fun c => ⟨_, c, w, hP.nil _, .pure h c, rfl, by simp⟩
    | cons x xs ih =>
      intro c
      obtain ⟨m₁, h₁, b₁, w₁, hd₁, rfl, hb₁⟩ := hf x (by simp) w h (.refl s w)
      obtain ⟨m₂, b₂, w₂, h₂, hd₂, rfl, hb₂⟩ := ih hd₁.steady (fun y hy w' hw' hfr =>
        hf y (by simp [hy]) w' hw' (hd₁.framed.trans hfr)) (b₁ || c)
      have hstep : Does s (do return (← f x) || c) w D (b₁ || c) w₁ :=
        hd₁.bind (.pure hd₁.steady (b₁ || c))
      refine ⟨_, b₂, w₂, hP.cons x xs _ _ _ h₁ h₂, ?_, rfl, ?_⟩
      · rw [List.foldlM_cons]
        exact hstep.bind hd₂
      · rw [hb₂, Bool.or_eq_true, hb₁]
        constructor
        · rintro ((hne | hc) | hne)
          · refine .inr fun he => hne (hP.antisymm [x] xs _ _ h₁ (he ▸ h₂))
          · exact .inl hc
          · refine .inr fun he => hne ?_
            have h₁' : w₁.dict s = w.dict s := hP.antisymm [x] xs _ _ h₁ (he ▸ h₂)
            rw [he, h₁']
        · rintro (hc | hne)
          · exact .inl (.inr hc)
          · by_cases h₁' : w₁.dict s = w.dict s
            · exact .inr (by rwa [h₁'])
            · exact .inl (.inl h₁')
  obtain ⟨m, b, w', hm, hd, hw', hb⟩ := hgen false
  exact ⟨m, hm, b, w', hd, hw', by simpa using hb⟩

/-- Filters, one after the other. -/
theorem isMaking_filter {p : List α → Value → ElementId → Prop} [∀ xs v e, Decidable (p xs v e)]
    (hn : ∀ v e, p [] v e) (hc : ∀ x xs v e, p (x :: xs) v e ↔ p [x] v e ∧ p xs v e) :
    IsMaking fun xs (m m' : Dict) => m' = m.filter (p xs) where
  nil m := by
    refine Dict.ext_iff.mpr fun v e t => ?_
    rw [Dict.filter_eq_some, and_iff_left (hn v e)]
  cons := by
    rintro x xs m _ _ rfl rfl
    rw [Dict.filter_filter]
    refine Dict.ext_iff.mpr fun v e t => ?_
    rw [Dict.filter_eq_some, Dict.filter_eq_some, hc x xs]
  antisymm := by
    rintro xs ys m _ rfl h
    exact Dict.filter_antisymm h.symm

theorem isMaking_extends (value : ElementId → Value) :
    IsMaking fun es (m m' : Dict) => m.Extends value es m' where
  nil m := .refl m value
  cons _ _ _ _ _ h h' := h.trans h'
  antisymm _ _ _ _ h h' := h.antisymm h'

/-! ## Elements and queries -/

theorem makes_add (hr : run.Sound) {e : ElementId} (h : w.Steady D) {name : Option String}
    (hv : w.Serves (name, s)) (he : .hold e ∈ D) :
    ∃ m, (w.dict s).Extends w.value [e] m ∧ Makes s (add run s e) w D m := by
  obtain ⟨t?, w', hd, hm, -⟩ := does_insert hr h hv he
  exact ⟨_, hm.extends, _, w', hd.map _, rfl, hm.isSome_iff⟩

theorem makes_addAll (hr : run.Sound) {es : List ElementId} (h : w.Steady D)
    {name : Option String} (hv : w.Serves (name, s)) (he : ∀ e ∈ es, .hold e ∈ D) :
    ∃ m, (w.dict s).Extends w.value es m ∧ Makes s (addAll run s es) w D m := by
  refine makes_anyOf _ (isMaking_extends w.value) h fun e hm w₁ h₁ hf => ?_
  have := makes_add hr h₁ (hf.stays.serves hv) (he e hm)
  rwa [show w₁.value = w.value from funext hf.value] at this

theorem makes_removeAll (hr : run.Sound) (h : w.Steady D) (hs : s < w.sets.size)
    (qs : List Query) :
    Makes s (removeAll run s qs) w D
      ((w.dict s).filter fun v _ => v ∉ qs.map fun q => q.target w) := by
  have hP : IsMaking fun qs (m m' : Dict) =>
      m' = m.filter fun v _ => v ∉ qs.map fun q : Query => q.target w :=
    isMaking_filter (by simp) (by simp)
  obtain ⟨m, rfl, hm⟩ := makes_anyOf (s := s) (f := remove run s) qs hP h
    fun q _ w₁ h₁ hf => by
      refine ⟨_, rfl, ?_⟩
      rw [Dict.filter_congr (q := fun v _ => v ≠ q.target w₁) (by simp [hf.target])]
      exact makes_remove hr h₁ (hf.sets.symm ▸ hs) q
  exact hm

end WeakSet
