import WeakSet.Proofs.Registry

/-!
# Dictionaries

How dictionaries change when elements come in (`Dict.Inserts`, `Dict.Extends`) and when entries go
(`Dict.filter`). What comes in never goes by coming in, and what goes never comes back by going: a
dictionary that only grew, or only shrank, and is what it was never changed in between.
-/

namespace WeakSet

namespace Dict

variable {m m' m'' : Dict} {v : Value} {e : ElementId} {t : Ticket} {value : ElementId → Value}

/-! ## Entries that go -/

section Filter

variable {p q : Value → ElementId → Prop} [∀ v e, Decidable (p v e)] [∀ v e, Decidable (q v e)]

theorem filter_eq_some : m.filter p v = some (e, t) ↔ m v = some (e, t) ∧ p v e := by
  rw [filter, Option.filter_eq_some_iff, decide_eq_true_eq]

theorem filter_true (m : Dict) : (m.filter fun _ _ => True) = m := by
  funext v
  rw [filter]
  cases m v <;> rfl

/-- A dictionary is known by its entries. -/
theorem ext_iff : m = m' ↔ ∀ v e t, m v = some (e, t) ↔ m' v = some (e, t) := by
  refine ⟨fun h => by simp [h], fun h => funext fun v => Option.ext fun x => h v x.1 x.2⟩

theorem filter_congr (h : ∀ v e t, m v = some (e, t) → (p v e ↔ q v e)) :
    m.filter p = m.filter q := by
  rw [ext_iff]
  intro v e t
  rw [filter_eq_some, filter_eq_some]
  exact and_congr_right (h v e t)

theorem filter_filter (m : Dict) : (m.filter p).filter q = m.filter fun v e => p v e ∧ q v e := by
  rw [ext_iff]
  intro v e t
  simp only [filter_eq_some, and_assoc]

/-- A dictionary that is filtered twice and is what it was was not changed. -/
theorem filter_antisymm (h : (m.filter p).filter q = m) : m.filter p = m := by
  rw [ext_iff]
  intro v e t
  refine ⟨fun hm => (filter_eq_some.mp hm).1, fun hm => ?_⟩
  rw [← h] at hm
  exact (filter_eq_some.mp hm).1

/-- A filter changes a dictionary if it takes out an entry. -/
theorem filter_ne_iff : m.filter p ≠ m ↔ ∃ v e t, m v = some (e, t) ∧ ¬ p v e := by
  rw [Ne, ext_iff]
  simp only [filter_eq_some, and_iff_left_iff_imp, Classical.not_forall, exists_prop]

/-- Entries of one value go. -/
theorem filter_value_ne_iff : (m.filter fun v' _ => v' ≠ v) ≠ m ↔ (m v).isSome := by
  rw [filter_ne_iff, Option.isSome_iff_exists]
  simp

theorem without_eq_some {t? : Option Ticket} :
    m.without t? v = some (e, t) ↔ m v = some (e, t) ∧ some t ≠ t? := by
  rw [without, Option.filter_eq_some_iff, decide_eq_true_eq]

theorem without_none (m : Dict) : m.without none = m :=
  ext_iff.mpr fun v e t => by simp [without_eq_some]

end Filter

/-! ## Entries that come -/

theorem insert_eq_some {v' : Value} {x y : ElementId × Ticket} :
    m.insert v x v' = some y ↔ v' = v ∧ y = x ∨ v' ≠ v ∧ m v' = some y := by
  unfold insert
  by_cases h : v' = v
  · simp [h, eq_comm]
  · simp [h]

/-- What happens to a dictionary when an element comes in, or one of the same value is there. -/
def Inserts (m : Dict) (v : Value) (e : ElementId) (t? : Option Ticket) (m' : Dict) : Prop :=
  match m v with
  | some _ => t? = none ∧ m' = m
  | none => ∃ t, t? = some t ∧ m' = m.insert v (e, t)

theorem Inserts.isSome_iff {t? : Option Ticket} (h : m.Inserts v e t? m') :
    t?.isSome ↔ m' ≠ m := by
  unfold Inserts at h
  split at h
  · simp [h.1, h.2]
  · rename_i hn
    obtain ⟨t, rfl, rfl⟩ := h
    refine iff_of_true rfl fun he => ?_
    have hv := congrFun he v
    rw [hn, insert, if_pos rfl] at hv
    cases hv

theorem Extends.refl (m : Dict) (value : ElementId → Value) : m.Extends value [] m := by
  intro v
  split
  · assumption
  · simp [*]

theorem Inserts.extends {t? : Option Ticket} (h : m.Inserts (value e) e t? m') :
    m.Extends value [e] m' := by
  intro v
  unfold Inserts at h
  split at h
  · obtain ⟨-, rfl⟩ := h
    split
    · assumption
    · rename_i x hx _ hn
      have : value e ≠ v := by
        rintro rfl
        rw [hx] at hn
        cases hn
      simp [hn, this]
  · obtain ⟨t, -, rfl⟩ := h
    unfold insert
    by_cases hv : v = value e
    · subst hv
      simp [*]
    · simp only [hv, ite_false]
      split
      · assumption
      · simp [*, Ne.symm hv]

theorem Extends.trans {es es' : List ElementId} (h : m.Extends value es m')
    (h' : m'.Extends value es' m'') : m.Extends value (es ++ es') m'' := by
  intro v
  have hv := h v
  have hv' := h' v
  rcases hm : m v with _ | x
  · simp only [hm] at hv ⊢
    rcases hm' : m' v with _ | x
    · simp only [hm', Option.map_none] at hv hv'
      rw [hv', List.find?_append, ← hv, Option.none_or]
    · simp only [hm', Option.map_some] at hv hv'
      rw [hv', List.find?_append, ← hv]
      rfl
  · simp only [hm] at hv ⊢
    simp only [hv] at hv'
    exact hv'

/-- A dictionary that is extended and comes back to what it was was not extended. -/
theorem Extends.antisymm {es es' : List ElementId} (h : m.Extends value es m')
    (h' : m'.Extends value es' m) : m' = m := by
  funext v
  have hv := h v
  have hv' := h' v
  rcases hm : m v with _ | x
  · rcases hm' : m' v with _ | x
    · rfl
    · simp only [hm', hm] at hv'
      cases hv'
  · simpa only [hm] using hv

end Dict

theorem Registry.update_dict (r : Registry) (s : SetId) : r.update s (r.dict s) = r := by
  have hd : (fun s' => if s' = s then r.dict s else r.dict s') = r.dict := by
    funext s'
    split
    · subst_vars
      rfl
    · rfl
  rw [update, hd]

end WeakSet
