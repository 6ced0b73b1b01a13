import WeakSet.Shard
import WeakSet.Proofs.Slots
import Mathlib.Data.List.Perm.Basic

/-!
# Shards: the index holds each occupied slot once

`LawfulTable` is all that a shard relies on in its index. `Shard.WF` says that the index is a list of the
occupied slots, each under the hash that its handle stores. It holds of an empty shard (`wf_withRoom`), every
operation keeps it (`WF.insert`, `WF.remove`, `WF.drain`), growth and the reuse of slots included, and from it
a probe sees the handles stored under its hash and no others (`mem_candidates`).
-/

namespace WeakSet

/-! ## Tables -/

/-- What there is to rely on in a hash table. What is filed under a hash is found if it meets the condition,
and what is found meets it, but may have been filed under another hash. A table that grows files its keys
under the hashes that it is told. -/
class LawfulTable (T : Type) [RawTable T] where
  /-- The keys, each with the hash under which it is filed, in some order. -/
  filed : T → List (UInt64 × SlotKey)
  filed_withRoom : ∀ n, filed (RawTable.withRoom n) = []
  filed_clear : ∀ t, filed (RawTable.clear t) = []
  filed_insert : ∀ t hash key rehash,
    (filed (RawTable.insert t hash key rehash)).Perm ((hash, key) :: filed t) ∨
    (filed (RawTable.insert t hash key rehash)).Perm
      ((hash, key) :: (filed t).map fun e => (rehash e.2, e.2))
  get_some : ∀ {t hash p k}, RawTable.get t hash p = some k → p k ∧ ∃ hash', (hash', k) ∈ filed t
  get_none : ∀ {t hash p}, RawTable.get t hash p = none → ∀ k, (hash, k) ∈ filed t → ¬ p k
  removeEntry_some : ∀ {t hash p k t'}, RawTable.removeEntry t hash p = (some k, t') →
    p k ∧ ∃ hash', (filed t).Perm ((hash', k) :: filed t')
  removeEntry_none : ∀ {t hash p t'}, RawTable.removeEntry t hash p = (none, t') →
    (filed t').Perm (filed t) ∧ ∀ k, (hash, k) ∈ filed t → ¬ p k

export LawfulTable (filed)

namespace Index

variable {ix : Index} {hash : UInt64} {k : SlotKey} {p : SlotKey → Bool}

theorem mem_filedUnder : k ∈ ix.filedUnder hash ↔ (hash, k) ∈ ix.filed := by
  simp [filedUnder]

theorem get_eq_some (h : ix.get hash p = some k) : p k ∧ (hash, k) ∈ ix.filed :=
  ⟨List.find?_some h, mem_filedUnder.mp (List.mem_of_find?_eq_some h)⟩

theorem get_eq_none (h : ix.get hash p = none) (hk : (hash, k) ∈ ix.filed) : ¬ p k :=
  List.find?_eq_none.mp h k (mem_filedUnder.mpr hk)

instance : LawfulTable Index where
  filed := Index.filed
  filed_withRoom _ := rfl
  filed_clear _ := rfl
  filed_insert ix hash key rehash := by
    change (Index.insert ix hash key rehash).filed.Perm _ ∨ (Index.insert ix hash key rehash).filed.Perm _
    unfold Index.insert
    split
    · exact .inl (List.perm_append_singleton ..)
    · exact .inr (List.perm_append_singleton ..)
  get_some h := ⟨(get_eq_some h).1, _, (get_eq_some h).2⟩
  get_none h _ hk := get_eq_none h hk
  removeEntry_some {ix hash p k ix'} h := by
    replace h : ix.removeEntry hash p = (some k, ix') := h
    unfold removeEntry at h
    split at h
    · cases h
    · rename_i key hkey
      cases h
      exact ⟨(get_eq_some hkey).1, hash, List.perm_cons_erase (get_eq_some hkey).2⟩
  removeEntry_none {ix hash p ix'} h := by
    replace h : ix.removeEntry hash p = (none, ix') := h
    unfold removeEntry at h
    split at h
    · rename_i hkey
      cases h
      exact ⟨.refl _, fun _ => get_eq_none hkey⟩
    · cases h

end Index

namespace Shard

variable {T : Type} [RawTable T]

/-- The occupied slots, each with the hash that its handle stores. -/
def filing (s : Shard T) : List (UInt64 × SlotKey) :=
  s.entries.map fun x => (x.2.hash, x.1)

/-- The slots are in order, and the index is a list of the occupied ones. -/
structure WF [LawfulTable T] (s : Shard T) : Prop where
  slots : s.slots.WF
  filed : (filed s.index).Perm s.filing

theorem mem_entries {s : Shard T} {k : SlotKey} {h : Handle} : (k, h) ∈ s.entries ↔ s.get? k = some h :=
  Slots.mem_entries

theorem mem_filing {s : Shard T} {hash : UInt64} {k : SlotKey} :
    (hash, k) ∈ s.filing ↔ ∃ h, s.get? k = some h ∧ h.hash = hash := by
  simp only [filing, List.mem_map, Prod.mk.injEq, Prod.exists]
  constructor
  · rintro ⟨k, h, hm, rfl, rfl⟩; exact ⟨h, mem_entries.mp hm, rfl⟩
  · rintro ⟨h, hg, rfl⟩; exact ⟨k, h, mem_entries.mpr hg, rfl, rfl⟩

theorem nodup_keys_entries (s : Shard T) : (s.entries.map Prod.fst).Nodup :=
  Slots.nodup_keys s.slots

theorem nodup_filing (s : Shard T) : s.filing.Nodup := by
  refine List.Nodup.of_map Prod.snd ?_
  rw [filing, List.map_map]
  exact nodup_keys_entries s

/-- Two listings of occupied slots with the same members are the same up to order. -/
theorem perm_filing {s : Shard T} {l : List (UInt64 × SlotKey)} (hl : l.Nodup)
    (h : ∀ hash k, (hash, k) ∈ l ↔ ∃ x, s.get? k = some x ∧ x.hash = hash) : l.Perm s.filing :=
  (List.perm_ext_iff_of_nodup hl (nodup_filing s)).mpr fun (hash, k) => by rw [h, mem_filing]

variable [LawfulTable T]

theorem WF.mem_filed {s : Shard T} (w : s.WF) {hash : UInt64} {k : SlotKey} :
    (hash, k) ∈ WeakSet.filed s.index ↔ ∃ h, s.get? k = some h ∧ h.hash = hash :=
  w.filed.mem_iff.trans mem_filing

theorem WF.nodup_filed {s : Shard T} (w : s.WF) : (WeakSet.filed s.index).Nodup :=
  w.filed.nodup_iff.mpr (nodup_filing s)

theorem wf_withRoom (n : Nat) : (withRoom n : Shard T).WF where
  slots := Slots.wf_empty
  filed := by
    rw [withRoom, LawfulTable.filed_withRoom]
    rfl

/-! ## Insertion -/

theorem WF.get?_insert {s : Shard T} (w : s.WF) (h : Handle) (k : SlotKey) :
    (s.insert h).2.get? k = if k = (s.insert h).1 then some h else s.get? k :=
  Slots.get?_insert w.slots h k

theorem WF.size_insert {s : Shard T} (w : s.WF) (h : Handle) : (s.insert h).2.size = s.size + 1 :=
  Slots.size_insert w.slots h

omit [LawfulTable T] in
theorem not_issued_insert (s : Shard T) (h : Handle) : ¬ s.slots.Issued (s.insert h).1 :=
  Slots.not_issued_insert s.slots h

omit [LawfulTable T] in
/-- The key of an insertion had no handle before. -/
theorem get?_fst_insert (s : Shard T) (h : Handle) : s.get? (s.insert h).1 = none :=
  Option.eq_none_iff_forall_ne_some.mpr fun _ hx =>
    not_issued_insert s h (Slots.issued_of_get? hx)

/-- Filing every key anew under the hash of its handle changes nothing. -/
theorem WF.filed_insert {s : Shard T} (w : s.WF) (h : Handle) :
    (WeakSet.filed (s.insert h).2.index).Perm ((h.hash, (s.insert h).1) :: WeakSet.filed s.index) := by
  have hmap : ((WeakSet.filed s.index).map fun e => (hashAt (s.insert h).2.slots e.2, e.2)) =
      WeakSet.filed s.index := by
    conv_rhs => rw [← List.map_id (WeakSet.filed s.index)]
    refine List.map_congr_left fun (hash, k) hm => ?_
    obtain ⟨x, hx, rfl⟩ := w.mem_filed.mp hm
    have hne : k ≠ (s.insert h).1 := by
      rintro rfl
      rw [get?_fst_insert] at hx
      cases hx
    have hget : (s.insert h).2.slots.get? k = some x := by
      have := w.get?_insert h k
      rwa [if_neg hne, hx] at this
    simp only [hashAt, hget, id]
  have hinsert := LawfulTable.filed_insert s.index h.hash (s.insert h).1 (hashAt (s.insert h).2.slots)
  rw [hmap, or_self] at hinsert
  exact hinsert

theorem WF.insert {s : Shard T} (w : s.WF) (h : Handle) : (s.insert h).2.WF := by
  have hnew : ∀ hash, (hash, (s.insert h).1) ∉ WeakSet.filed s.index := fun hash hm => by
    obtain ⟨x, hx, -⟩ := w.mem_filed.mp hm
    rw [get?_fst_insert] at hx
    cases hx
  refine ⟨w.slots.insert h, (w.filed_insert h).trans (perm_filing ?_ fun hash k => ?_)⟩
  · exact List.nodup_cons.mpr ⟨hnew _, w.nodup_filed⟩
  · rw [w.get?_insert, List.mem_cons, w.mem_filed, Prod.mk.injEq]
    by_cases hk : k = (s.insert h).1
    · simp [hk, get?_fst_insert, eq_comm]
    · simp [hk]

/-! ## Removal -/

section

omit [LawfulTable T]

/-- The two outcomes of a removal. -/
theorem remove_cases (s : Shard T) (k : SlotKey) :
    (s.get? k = none ∧ s.remove k = (none, s)) ∨
    ∃ h, s.get? k = some h ∧
      s.remove k = (some h,
        { index := (RawTable.removeEntry s.index h.hash (· = k)).2, slots := s.slots.erase k }) := by
  unfold remove
  cases hk : s.get? k with
  | none => exact .inl ⟨rfl, rfl⟩
  | some h => exact .inr ⟨h, rfl, rfl⟩

theorem remove_slots (s : Shard T) (k : SlotKey) : (s.remove k).2.slots = s.slots.erase k := by
  rcases remove_cases s k with ⟨h, e⟩ | ⟨h, hk, e⟩ <;> rw [e]
  simp only [Slots.erase]
  rw [show s.slots.get? k = none from h]

theorem get?_remove (s : Shard T) (k k' : SlotKey) :
    (s.remove k).2.get? k' = if k' = k then none else s.get? k' := by
  rw [get?, remove_slots, Slots.get?_erase]; rfl

theorem size_remove {s : Shard T} {k : SlotKey} {h : Handle} (hk : s.get? k = some h) :
    (s.remove k).2.size + 1 = s.size := by
  rw [size, remove_slots]
  exact Slots.size_erase hk

end

/-- A key is filed once, under the hash of its handle. So that is the entry that a removal comes upon. -/
theorem WF.filed_removeEntry {s : Shard T} (w : s.WF) {k : SlotKey} {h : Handle} (hk : s.get? k = some h) :
    (WeakSet.filed s.index).Perm
      ((h.hash, k) :: WeakSet.filed (RawTable.removeEntry s.index h.hash (· = k)).2) := by
  rcases hx : RawTable.removeEntry s.index h.hash (· = k) with ⟨_ | k', ix⟩
  · exact absurd (decide_eq_true rfl)
      ((LawfulTable.removeEntry_none hx).2 k (w.mem_filed.mpr ⟨h, hk, rfl⟩))
  · obtain ⟨hp, hash, hperm⟩ := LawfulTable.removeEntry_some hx
    obtain rfl := of_decide_eq_true hp
    obtain ⟨h', hk', rfl⟩ := w.mem_filed.mp (hperm.mem_iff.mpr List.mem_cons_self)
    obtain rfl := Option.some.inj (hk'.symm.trans hk)
    exact hperm

theorem WF.remove {s : Shard T} (w : s.WF) (k : SlotKey) : (s.remove k).2.WF := by
  rcases remove_cases s k with ⟨-, e⟩ | ⟨h, hk, e⟩
  · rw [e]; exact w
  have hperm := w.filed_removeEntry hk
  have hnodup := List.nodup_cons.mp (hperm.nodup_iff.mp w.nodup_filed)
  refine ⟨remove_slots s k ▸ w.slots.erase k, perm_filing (by rw [e]; exact hnodup.2) fun hash k' => ?_⟩
  have hmem : (hash, k') ∈ (h.hash, k) :: WeakSet.filed (RawTable.removeEntry s.index h.hash (· = k)).2 ↔
      ∃ x, s.get? k' = some x ∧ x.hash = hash := hperm.mem_iff.symm.trans w.mem_filed
  rw [get?_remove, e]
  by_cases hkk : k' = k
  · subst hkk
    simp only [ite_true, reduceCtorEq, false_and, exists_false, iff_false]
    intro hm
    obtain ⟨x, hx, rfl⟩ := hmem.mp (List.mem_cons_of_mem _ hm)
    obtain rfl := Option.some.inj (hx.symm.trans hk)
    exact hnodup.1 hm
  · rw [if_neg hkk, ← hmem, List.mem_cons, Prod.mk.injEq]
    simp [hkk]

/-! ## Draining -/

section

omit [LawfulTable T]

theorem get?_drain (s : Shard T) (k : SlotKey) : s.drain.2.get? k = none :=
  Slots.get?_clear s.slots k

theorem size_drain (s : Shard T) : s.drain.2.size = 0 :=
  Slots.size_clear s.slots

end

theorem WF.drain {s : Shard T} (w : s.WF) : s.drain.2.WF where
  slots := w.slots.clear
  filed := by
    rw [Shard.drain, LawfulTable.filed_clear, filing, entries, Slots.entries_clear]
    rfl

/-! ## Probing -/

/-- A probe looks at the handles stored under its hash, and at no others. -/
theorem WF.mem_candidates {s : Shard} (w : s.WF) {hash : UInt64} {k : SlotKey} {h : Handle} :
    (k, h) ∈ s.candidates hash ↔ s.get? k = some h ∧ h.hash = hash := by
  have hfiled {k : SlotKey} : k ∈ s.index.filedUnder hash ↔ ∃ h, s.get? k = some h ∧ h.hash = hash :=
    Index.mem_filedUnder.trans w.mem_filed
  simp only [candidates, List.mem_filterMap, hfiled]
  constructor
  · rintro ⟨k', ⟨h', hk', rfl⟩, hm⟩
    simp only [hk', ite_true, Option.some.injEq, Prod.mk.injEq] at hm
    obtain ⟨rfl, rfl⟩ := hm
    exact ⟨hk', rfl⟩
  · rintro ⟨hk, rfl⟩
    exact ⟨k, ⟨h, hk, rfl⟩, by simp [hk]⟩

end Shard

end WeakSet
