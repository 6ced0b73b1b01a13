import WeakSet.World
import Mathlib.Data.List.Nodup

/-!
# Tables of names

What a lookup finds after a change (`find?_put`, `find?_erase`), and that a table keeps one entry a
name (`nodup_put`, `nodup_erase`), so that taking a name away takes away one entry (`perm_erase`).
-/

namespace WeakSet

namespace Table

variable {α : Type} {t : Table α} {name : String} {a : α}

theorem find?_cons (x : String × α) (t : Table α) (name : String) :
    find? (x :: t) name = if name = x.1 then some x.2 else t.find? name := by
  obtain ⟨n, a⟩ := x
  by_cases h : name = n
  · simp [find?, h]
  · simp [find?, List.lookup_cons, h, beq_false_of_ne h]

theorem mem_of_find? (h : t.find? name = some a) : (name, a) ∈ t := by
  obtain ⟨l, l', rfl, -⟩ := List.lookup_eq_some_iff.mp h
  simp

theorem not_mem_of_find? (h : t.find? name = none) : name ∉ t.map Prod.fst := by
  intro hm
  obtain ⟨x, hx, rfl⟩ := List.mem_map.mp hm
  simpa using List.lookup_eq_none_iff.mp h x hx

theorem erase_cons (x : String × α) (t : Table α) (name : String) :
    erase (x :: t) name = if x.1 = name then t.erase name else x :: t.erase name := by
  by_cases h : x.1 = name <;> simp [erase, h]

theorem find?_erase (t : Table α) (name name' : String) :
    (t.erase name).find? name' = if name' = name then none else t.find? name' := by
  induction t with
  | nil => simp [erase, find?]
  | cons x t ih =>
    rw [erase_cons, find?_cons]
    by_cases hx : x.1 = name
    · rw [if_pos hx, ih]
      by_cases h : name' = name
      · rw [if_pos h, if_pos h]
      · rw [if_neg h, if_neg h, if_neg (by rwa [hx])]
    · rw [if_neg hx, find?_cons, ih]
      by_cases h : name' = name
      · rw [if_pos h, if_pos h, if_neg (by rw [h]; exact Ne.symm hx)]
      · rw [if_neg h, if_neg h]

theorem erase_erase (t : Table α) (name : String) : (t.erase name).erase name = t.erase name := by
  simp [erase, List.filter_filter]

theorem find?_put (t : Table α) (name name' : String) (a : α) :
    (t.put name a).find? name' = if name' = name then some a else t.find? name' := by
  rw [put, find?_cons, find?_erase]
  by_cases h : name' = name
  · rw [if_pos h, if_pos h]
  · rw [if_neg h, if_neg h, if_neg h]

theorem nodup_erase (h : (t.map Prod.fst).Nodup) (name : String) :
    ((t.erase name).map Prod.fst).Nodup :=
  h.sublist (List.filter_sublist.map _)

theorem nodup_put (h : (t.map Prod.fst).Nodup) (name : String) (a : α) :
    ((t.put name a).map Prod.fst).Nodup := by
  refine List.nodup_cons.mpr ⟨fun hm => ?_, nodup_erase h name⟩
  obtain ⟨x, hx, rfl⟩ := List.mem_map.mp hm
  simp [erase] at hx

theorem erase_of_find? (h : t.find? name = none) : t.erase name = t := by
  refine List.filter_eq_self.mpr fun x hx => ?_
  simpa using fun e : x.1 = name => not_mem_of_find? h (e ▸ List.mem_map_of_mem hx)

/-- Taking a name away takes away one entry. -/
theorem perm_erase (hn : (t.map Prod.fst).Nodup) (h : t.find? name = some a) :
    t.Perm ((name, a) :: t.erase name) := by
  induction t with
  | nil => cases h
  | cons x t ih =>
    rw [List.map_cons, List.nodup_cons] at hn
    rw [find?_cons] at h
    rw [erase_cons]
    by_cases hx : x.1 = name
    · subst hx
      rw [if_pos rfl] at h
      obtain rfl := Option.some.inj h
      have e : erase t x.1 = t := List.filter_eq_self.mpr fun y hy => by
        simpa using fun e : y.1 = x.1 => hn.1 (e ▸ List.mem_map_of_mem hy)
      rw [if_pos rfl, e]
    · rw [if_neg (Ne.symm hx)] at h
      rw [if_neg hx]
      exact ((ih hn.2 h).cons _).trans (List.Perm.swap _ _ _)

/-- A table of what is made of the things of another one. -/
def mapValues {β : Type} (f : α → β) (t : Table α) : Table β :=
  t.map fun x => (x.1, f x.2)

theorem find?_mapValues {β : Type} (f : α → β) (t : Table α) (name : String) :
    (t.mapValues f).find? name = (t.find? name).map f := by
  induction t with
  | nil => rfl
  | cons x t ih =>
    show find? ((x.1, f x.2) :: mapValues f t) name = _
    rw [find?_cons, find?_cons, ih]
    split <;> rfl

theorem mapValues_erase {β : Type} (f : α → β) (t : Table α) (name : String) :
    (t.erase name).mapValues f = (t.mapValues f).erase name := by
  rw [mapValues, mapValues, erase, erase, List.filter_map]
  rfl

theorem mapValues_put {β : Type} (f : α → β) (t : Table α) (name : String) (a : α) :
    (t.put name a).mapValues f = (t.mapValues f).put name (f a) :=
  congrArg ((name, f a) :: ·) (mapValues_erase f t name)

theorem put_erase (t : Table α) (name : String) (a : α) :
    (t.erase name).put name a = t.put name a :=
  congrArg ((name, a) :: ·) (erase_erase t name)

theorem mem_of_mem_erase {x : String × α} (h : x ∈ t.erase name) : x ∈ t :=
  (List.mem_filter.mp h).1

theorem mem_put {x : String × α} (h : x ∈ t.put name a) : x = (name, a) ∨ x ∈ t := by
  rcases List.mem_cons.mp h with rfl | h
  · exact .inl rfl
  · exact .inr (mem_of_mem_erase h)

end Table

end WeakSet
