import WeakSet.Slots
import Mathlib.Data.List.Nodup
import Mathlib.Data.List.Count

/-!
# Generational slots: keys are never used twice

* `get?_insert`, `get?_erase`, `get?_clear`: what a lookup finds after each change;
* `not_issued_insert`, `Issued.insert`, `Issued.erase`, `Issued.clear`: an insertion gives out a key
  that was not given out before, and what was given out stays so;
* `mem_entries`, `nodup_keys`, `length_entries`: the entries are the occupied slots, each once;
* `size_insert`, `size_erase`, `size_clear`: how the number of values changes.

`Slots.WF` is what insertion relies on: the free positions are distinct and vacant.
-/

namespace WeakSet

namespace Slots

variable {α : Type}

/-- The free positions are distinct, and their slots are vacant. -/
structure WF (s : Slots α) : Prop where
  nodup : s.free.Nodup
  vacant : ∀ i ∈ s.free, ∃ v, s.slots[i]? = some ⟨v, none⟩

/-- A key that was given out: its slot has had its version. -/
def Issued (s : Slots α) (k : SlotKey) : Prop :=
  ∃ slot, s.slots[k.position]? = some slot ∧ k.version ≤ slot.version

theorem wf_empty : (empty : Slots α).WF := ⟨List.nodup_nil, by simp [empty]⟩

theorem get?_eq_some {s : Slots α} {k : SlotKey} {a : α} :
    s.get? k = some a ↔ s.slots[k.position]? = some ⟨k.version, some a⟩ := by
  unfold get?
  split
  · rename_i slot h
    obtain ⟨v, c⟩ := slot
    by_cases hv : v = k.version <;> simp [h, hv]
  · rename_i h; simp [h]

theorem issued_of_get? {s : Slots α} {k : SlotKey} {a : α} (h : s.get? k = some a) : s.Issued k :=
  ⟨_, get?_eq_some.mp h, Nat.le_refl _⟩

/-! ## Insertion -/

/-- The two ways of an insertion: at the end, or in the position freed last. -/
theorem insert_cases (s : Slots α) (a : α) :
    (s.free = [] ∧ s.insert a =
      (⟨s.slots.length, 1⟩, { s with slots := s.slots ++ [⟨1, some a⟩] })) ∨
    ∃ i free, s.free = i :: free ∧ s.insert a =
      (⟨i, (s.slots[i]?.map Slot.version).getD 0 + 1⟩,
        { slots := s.slots.set i ⟨(s.slots[i]?.map Slot.version).getD 0 + 1, some a⟩
          free := free }) := by
  unfold insert
  split
  · rename_i h; exact .inl ⟨h, rfl⟩
  · rename_i i free h; exact .inr ⟨i, free, h, rfl⟩

theorem WF.insert {s : Slots α} (h : s.WF) (a : α) : (s.insert a).2.WF := by
  rcases insert_cases s a with ⟨hf, e⟩ | ⟨i, free, hf, e⟩ <;> rw [e]
  · exact ⟨h.nodup, by simp [hf]⟩
  · have hn := h.nodup
    rw [hf, List.nodup_cons] at hn
    refine ⟨hn.2, fun j hj => ?_⟩
    obtain ⟨v, hv⟩ := h.vacant j (by simp [hf, hj])
    have hji : i ≠ j := fun e => hn.1 (e ▸ hj)
    exact ⟨v, by simp only [List.getElem?_set_ne hji, hv]⟩

/-- The key of an insertion is new. -/
theorem not_issued_insert (s : Slots α) (a : α) : ¬ s.Issued (s.insert a).1 := by
  rintro ⟨slot, hs, hv⟩
  rcases insert_cases s a with ⟨-, e⟩ | ⟨i, free, -, e⟩ <;> rw [e] at hs hv
  · simp at hs
  · simp only [hs, Option.map_some, Option.getD_some] at hv
    omega

theorem get?_insert {s : Slots α} (h : s.WF) (a : α) (k : SlotKey) :
    (s.insert a).2.get? k = if k = (s.insert a).1 then some a else s.get? k := by
  obtain ⟨p, v⟩ := k
  rcases insert_cases s a with ⟨-, e⟩ | ⟨i, free, hf, e⟩ <;> rw [e]
  · simp only [get?, SlotKey.mk.injEq]
    rcases Nat.lt_trichotomy p s.slots.length with hp | rfl | hp
    · simp [List.getElem?_append_left hp, Nat.ne_of_lt hp]
    · simp [eq_comm]
    · rw [List.getElem?_eq_none (by simp; omega), List.getElem?_eq_none (by omega),
        if_neg (fun hc => by omega)]
  · obtain ⟨u, hu⟩ := h.vacant i (by simp [hf])
    obtain ⟨hlt, he⟩ := List.getElem?_eq_some_iff.mp hu
    simp only [get?, SlotKey.mk.injEq, hu, Option.map_some, Option.getD_some]
    by_cases hp : p = i
    · subst hp; simp [hlt, he, eq_comm]
    · simp [List.getElem?_set_ne (Ne.symm hp), hp]

theorem Issued.insert {s : Slots α} {k : SlotKey} (hk : s.Issued k) (a : α) :
    (s.insert a).2.Issued k := by
  obtain ⟨slot, hs, hv⟩ := hk
  rcases insert_cases s a with ⟨-, e⟩ | ⟨i, free, hf, e⟩ <;> rw [e]
  · exact ⟨slot, by rw [List.getElem?_append_left (List.getElem?_eq_some_iff.mp hs).1, hs], hv⟩
  · by_cases hi : i = k.position
    · subst hi
      refine ⟨_, by rw [List.getElem?_set_self (List.getElem?_eq_some_iff.mp hs).1], ?_⟩
      simp only [hs, Option.map_some, Option.getD_some]
      omega
    · exact ⟨slot, by rw [List.getElem?_set_ne hi, hs], hv⟩

/-! ## Erasure -/

theorem WF.erase {s : Slots α} (h : s.WF) (k : SlotKey) : (s.erase k).WF := by
  unfold Slots.erase
  split
  · exact h
  · rename_i a ha
    have hs := get?_eq_some.mp ha
    have hlt := (List.getElem?_eq_some_iff.mp hs).1
    refine ⟨List.nodup_cons.mpr ⟨fun hm => ?_, h.nodup⟩, fun j hj => ?_⟩
    · obtain ⟨v, hv⟩ := h.vacant _ hm
      simp [hs] at hv
    · by_cases hjk : k.position = j
      · subst hjk; exact ⟨_, List.getElem?_set_self hlt⟩
      · rcases List.mem_cons.mp hj with rfl | hj
        · exact absurd rfl hjk
        · obtain ⟨v, hv⟩ := h.vacant j hj
          exact ⟨v, by simp only [List.getElem?_set_ne hjk, hv]⟩

theorem get?_erase (s : Slots α) (k k' : SlotKey) :
    (s.erase k).get? k' = if k' = k then none else s.get? k' := by
  unfold Slots.erase
  split
  · rename_i hk
    by_cases e : k' = k
    · simp [e, hk]
    · simp [e]
  · rename_i a ha
    obtain ⟨hlt, he⟩ := List.getElem?_eq_some_iff.mp (get?_eq_some.mp ha)
    by_cases hp : k'.position = k.position
    · by_cases e : k' = k
      · simp [e, get?, hlt]
      · have hv : k.version ≠ k'.version := fun hv => e (by cases k; cases k'; simp_all)
        simp [get?, hp, hlt, he, e, hv]
    · have e : k' ≠ k := fun e => hp (e ▸ rfl)
      simp [get?, List.getElem?_set_ne (Ne.symm hp), e]

theorem Issued.erase {s : Slots α} {k : SlotKey} (hk : s.Issued k) (k' : SlotKey) :
    (s.erase k').Issued k := by
  unfold Slots.erase
  split
  · exact hk
  · rename_i a ha
    obtain ⟨slot, hs, hv⟩ := hk
    by_cases hp : k'.position = k.position
    · refine ⟨_, by rw [hp, List.getElem?_set_self (List.getElem?_eq_some_iff.mp hs).1], ?_⟩
      have := get?_eq_some.mp ha
      rw [hp, hs] at this
      simp only [Option.some.injEq] at this
      subst this
      simpa using Nat.le_succ_of_le hv
    · exact ⟨slot, by rw [List.getElem?_set_ne hp, hs], hv⟩

/-! ## Entries -/

theorem mem_entries {s : Slots α} {k : SlotKey} {a : α} :
    (k, a) ∈ s.entries ↔ s.get? k = some a := by
  rw [get?_eq_some]
  simp only [entries, List.mem_filterMap, Option.map_eq_some_iff, Prod.mk.injEq, Prod.exists]
  constructor
  · rintro ⟨⟨v, c⟩, i, hm, b, rfl, rfl, rfl⟩
    exact List.mem_zipIdx_iff_getElem?.mp hm
  · intro h
    exact ⟨_, k.position, List.mem_zipIdx_iff_getElem?.mpr h, a, rfl, rfl, rfl⟩

theorem mem_keys {s : Slots α} {k : SlotKey} : k ∈ s.keys ↔ (s.get? k).isSome := by
  simp only [keys, List.mem_map, Prod.exists, exists_and_right, exists_eq_right, mem_entries,
    Option.isSome_iff_exists]

theorem nodup_keys (s : Slots α) : s.keys.Nodup := by
  have h : s.keys.map SlotKey.position =
      (s.slots.zipIdx.filterMap fun x => x.1.content.map fun _ => x.2) := by
    simp only [keys, entries, List.map_filterMap]
    congr 1; funext x; cases x.1.content <;> rfl
  refine List.Nodup.of_map SlotKey.position ?_
  rw [h]
  refine List.Pairwise.filterMap _ (R := fun x y => x.2 ≠ y.2) (fun x y hxy i hi j hj => ?_) ?_
  · simp only [Option.map_eq_some_iff] at hi hj
    obtain ⟨-, -, rfl⟩ := hi
    obtain ⟨-, -, rfl⟩ := hj
    exact hxy
  · have : (List.range' 0 s.slots.length).Nodup := List.nodup_range' 1
    rw [← List.zipIdx_map_snd 0 s.slots] at this
    exact List.pairwise_map.mp this

theorem length_entries (s : Slots α) : s.entries.length = s.size := by
  rw [entries, List.length_filterMap_eq_countP, size]
  conv_rhs => rw [← List.zipIdx_map_fst 0 s.slots, List.countP_map]
  congr 1; funext x; simp

theorem size_insert {s : Slots α} (h : s.WF) (a : α) : (s.insert a).2.size = s.size + 1 := by
  rcases insert_cases s a with ⟨-, e⟩ | ⟨i, free, hf, e⟩ <;> rw [e]
  · simp [size]
  · obtain ⟨u, hu⟩ := h.vacant i (by simp [hf])
    have hlt := (List.getElem?_eq_some_iff.mp hu).1
    have he := (List.getElem?_eq_some_iff.mp hu).2
    simp [size, List.countP_set, hlt, he]

theorem size_erase {s : Slots α} {k : SlotKey} {a : α} (h : s.get? k = some a) :
    (s.erase k).size + 1 = s.size := by
  have hs := get?_eq_some.mp h
  have hlt := (List.getElem?_eq_some_iff.mp hs).1
  have he := (List.getElem?_eq_some_iff.mp hs).2
  have hpos : 0 < s.slots.countP fun slot => slot.content.isSome :=
    List.countP_pos_iff.mpr ⟨_, List.getElem_mem hlt, by simp [he]⟩
  simp only [Slots.erase, h, size, List.countP_set hlt, he, Option.isSome_some, Option.isSome_none,
    ite_true, Bool.false_eq_true, ite_false]
  omega

/-! ## Clearing -/

theorem get?_foldl_erase (ks : List SlotKey) (s : Slots α) (k : SlotKey) :
    (ks.foldl erase s).get? k = if k ∈ ks then none else s.get? k := by
  induction ks generalizing s with
  | nil => simp
  | cons k' ks ih =>
    rw [List.foldl_cons, ih, get?_erase]
    by_cases h₁ : k ∈ ks <;> by_cases h₂ : k = k' <;> simp [h₁, h₂]

theorem get?_clear (s : Slots α) (k : SlotKey) : s.clear.get? k = none := by
  rw [clear, get?_foldl_erase]
  split
  · rfl
  · rename_i h
    simpa [mem_keys] using h

theorem WF.clear {s : Slots α} (h : s.WF) : s.clear.WF :=
  List.foldlRecOn (motive := WF) s.keys Slots.erase h fun _ hs k _ => hs.erase k

theorem Issued.clear {s : Slots α} {k : SlotKey} (hk : s.Issued k) : s.clear.Issued k :=
  List.foldlRecOn (motive := fun s : Slots α => s.Issued k) s.keys Slots.erase hk
    fun _ hs k' _ => Issued.erase hs k'

theorem entries_clear (s : Slots α) : s.clear.entries = [] := by
  rw [List.eq_nil_iff_forall_not_mem]
  rintro ⟨k, a⟩ h
  rw [mem_entries, get?_clear] at h
  cases h

theorem size_clear (s : Slots α) : s.clear.size = 0 := by
  rw [← length_entries, entries_clear]; rfl

end Slots

end WeakSet
