import WeakSet.Proofs.Placement
import WeakSet.Proofs.Visibility

/-!
# What a shard represents

Whatever was done with a shard, on whatever table, its index and its slots agree (`Shard.Represented`), and
so removals, drains and lookups do what they say. A lookup is a single condition for the table
(`Shard.find`), and a probe of a set whose elements have no code for comparisons comes to what the lookup
comes to (`exec_probeShard_eq`).
-/

namespace WeakSet

open Act

namespace Shard

variable {T : Type} [RawTable T] {V : Type} [DecidableEq V]

/-- What may be done with a shard. -/
inductive Op where
  | insert (h : Handle)
  | remove (k : SlotKey)
  | drain
  deriving DecidableEq

def Op.apply (s : Shard T) : Op → Shard T
  | insert h => (s.insert h).2
  | remove k => (s.remove k).2
  | drain => s.drain.2

/-- A shard that had room for some handles when it was new, after all that was done with it. -/
def history (room : Nat) (ops : List Op) : Shard T :=
  ops.foldl Op.apply (withRoom room)

/-- The key of a handle that stores a hash and lets a value be reached. -/
def find (s : Shard T) (value? : Handle → Option V) (hash : UInt64) (v : V) : Option SlotKey :=
  RawTable.get s.index hash fun k =>
    match s.get? k with
    | none => false
    | some h => h.hash = hash && value? h = some v

theorem wf_history [LawfulTable T] (room : Nat) (ops : List Op) : (history room ops : Shard T).WF :=
  List.foldlRecOn (motive := fun s : Shard T => s.WF) ops _ (wf_withRoom room) fun s hs op _ => by
    cases op with
    | insert h => exact hs.insert h
    | remove k => exact hs.remove k
    | drain => exact hs.drain

/-- The index has each occupied slot once, under the hash of its handle, and nothing else, and operations
do what they say. -/
structure Represented [LawfulTable T] (s : Shard T) : Prop where
  once : (filed s.index).Nodup
  filed : ∀ hash k, (hash, k) ∈ filed s.index ↔ ∃ h, s.get? k = some h ∧ h.hash = hash
  remove : ∀ k h, s.get? k = some h → (s.remove k).1 = some h ∧
    ∀ k', (s.remove k).2.get? k' = if k' = k then none else s.get? k'
  remove_vain : ∀ k, s.get? k = none → s.remove k = (none, s)
  drained : (s.drain.1.map Prod.fst).Nodup ∧ ∀ k h, (k, h) ∈ s.drain.1 ↔ s.get? k = some h
  emptied : WeakSet.filed s.drain.2.index = [] ∧ ∀ k, s.drain.2.get? k = none
  /-- No two handles let the same value be reached. -/
  found : ∀ (V : Type) [DecidableEq V] (value? : Handle → Option V) hash v,
    (∀ k k' h h' u, s.get? k = some h → s.get? k' = some h' → value? h = some u → value? h' = some u →
      k = k') →
    ∀ k, s.find value? hash v = some k ↔ ∃ h, s.get? k = some h ∧ h.hash = hash ∧ value? h = some v

variable [LawfulTable T] {s : Shard T}

theorem WF.find_eq_some (w : s.WF) {value? : Handle → Option V} {hash : UInt64} {v : V}
    (hd : ∀ k k' h h' u, s.get? k = some h → s.get? k' = some h' → value? h = some u →
      value? h' = some u → k = k') (k : SlotKey) :
    s.find value? hash v = some k ↔ ∃ h, s.get? k = some h ∧ h.hash = hash ∧ value? h = some v := by
  have hcond {k : SlotKey} : (match s.get? k with
      | none => false
      | some h => decide (h.hash = hash) && decide (value? h = some v)) = true ↔
      ∃ h, s.get? k = some h ∧ h.hash = hash ∧ value? h = some v := by
    cases s.get? k <;> simp
  constructor
  · exact fun h => hcond.mp (LawfulTable.get_some h).1
  · rintro ⟨h, hk, rfl, hv⟩
    rcases hx : s.find value? h.hash v with _ | k'
    · exact absurd (hcond.mpr ⟨h, hk, rfl, hv⟩)
        (LawfulTable.get_none hx k (w.mem_filed.mpr ⟨h, hk, rfl⟩))
    · obtain ⟨h', hk', -, hv'⟩ := hcond.mp (LawfulTable.get_some hx).1
      rw [hd k' k h' h v hk' hk hv' hv]

theorem WF.represented (w : s.WF) : s.Represented where
  once := w.nodup_filed
  filed _ _ := w.mem_filed
  remove k h hk := by
    refine ⟨?_, get?_remove s k⟩
    rcases remove_cases s k with ⟨hn, -⟩ | ⟨h', hk', e⟩
    · rw [hn] at hk
      cases hk
    · rw [e]
      exact hk'.symm.trans hk
  remove_vain k hk := by
    rcases remove_cases s k with ⟨-, e⟩ | ⟨h, hk', -⟩
    · exact e
    · rw [hk] at hk'
      cases hk'
  drained := ⟨nodup_keys_entries s, fun _ _ => mem_entries⟩
  emptied := ⟨LawfulTable.filed_clear _, get?_drain s⟩
  found _ _ _ _ _ hd := w.find_eq_some hd

end Shard

/-! ## Probes -/

/-- The value of the element that a handle shows. -/
def World.value? (w : World) (h : Handle) : Option Value :=
  if w.shows h then some (w.value h.element) else none

/-- The first candidate that shows an element of a value is what a lookup finds. -/
theorem Shard.find?_candidates (s : Shard) (w : World) (hash : UInt64) (v : Value) :
    ((s.candidates hash).find? (w.suits v)).map Prod.fst = s.find w.value? hash v := by
  change _ = (s.index.filedUnder hash).find? _
  rw [candidates]
  induction s.index.filedUnder hash with
  | nil => rfl
  | cons k l ih =>
    rcases hg : s.get? k with _ | h
    · simpa [hg] using ih
    · by_cases hh : h.hash = hash
      · by_cases hv : w.value? h = some v
        · have hs : w.suits v (k, h) := by simpa [World.value?, World.suits] using hv
          simp [hg, hh, hv, hs]
        · have hs : ¬w.suits v (k, h) := by simpa [World.value?, World.suits] using hv
          simpa [hg, hh, hv, hs] using ih
      · simpa [hg, hh] using ih

/-- Where elements have no code for comparisons, a probe of a shard comes to what a lookup finds, and takes
references to living elements. -/
theorem exec_probeShard_eq (run : Runner) {w : World} (hw : w.Unhooked) (s : SetId) (k : Nat)
    (hash : UInt64) (q : Query) :
    ∃ es, (∀ e ∈ es, w.isAlive e) ∧ (probeShard run s k hash q).exec w =
      (.ok ⟨es, .ok ((w.shard s k).find w.value? hash (q.target w))⟩, es.foldl World.acquire w) := by
  rw [exec_probeShard, ← Shard.find?_candidates]
  exact exec_probe_eq run q _ hw

/-- A shard represents the handles that were put into it and not taken out. It does so whatever the table that
it files their keys in, as long as that is lawful, with any room when it was new, and after all that was done
with it since, whatever the hashes. So does every shard of every set at all points of all runs, and there a
probe comes to what a lookup in the shard finds. -/
theorem Shard.represents_handles :
    (∀ (T : Type) [RawTable T] [LawfulTable T] (room : Nat) (ops : List Op),
      (history room ops : Shard T).Represented) ∧
    (∀ (w : World) D s k, w.Point D → (w.shard s k).Represented) ∧
    ∀ (run : Runner) (w : World) s k hash q, w.Unhooked → ∃ es, (∀ e ∈ es, w.isAlive e) ∧
      (probeShard run s k hash q).exec w =
        (.ok ⟨es, .ok ((w.shard s k).find w.value? hash (q.target w))⟩, es.foldl World.acquire w) :=
  ⟨fun _ _ _ room ops => (wf_history room ops).represented,
    fun _ _ s k hw => (hw.formed.shards s k).represented,
    fun run _ s k hash q hw => exec_probeShard_eq run hw s k hash q⟩

namespace Shard

/-- Five handles under one hash in an index without room, so that it grows, one of them removed and its slot
used again. -/
def crowded : Shard :=
  history 0 [.insert ⟨0, 7, .weak⟩, .insert ⟨1, 7, .weak⟩, .insert ⟨2, 7, .weak⟩, .remove ⟨1, 1⟩,
    .insert ⟨3, 7, .weak⟩, .insert ⟨4, 7, .weak⟩]

/-- Each is found by its element, and the one that was removed is not. -/
theorem represents_handles_crowded :
    crowded.Represented ∧ crowded.index.filed = [(7, ⟨0, 1⟩), (7, ⟨2, 1⟩), (7, ⟨1, 3⟩), (7, ⟨3, 1⟩)] ∧
      crowded.find (some ∘ Handle.element) 7 3 = some ⟨1, 3⟩ ∧
      crowded.find (some ∘ Handle.element) 7 1 = none ∧ (crowded.remove ⟨1, 1⟩).1 = none :=
  have h := represents_handles.1 Index 0 _
  ⟨h, by decide +kernel, by decide +kernel, by decide +kernel, by decide +kernel⟩

end Shard

end WeakSet
