import WeakSet.World
import Mathlib.Data.Multiset.AddSub

/-!
# What the log tells of handles

The log has a line for a handle that came into a set, for one that a sweep took out and for one that was
removed, by value or through a cursor. Each such `Passage` is in the journal twice: as what became of the
handle (`Entry.passage?`) and as the line that tells it (`Entry.told?`). In between code of the client's may
run, and what it does is told first.

No line tells of a handle that a filter took out, and none of a single handle of a set that was cleared.
-/

namespace WeakSet

/-- What became of a handle, as far as the log has a line for it. -/
inductive Passage where
  | inserted (t : Ticket)
  | removed (t : Ticket)
  | reclaimed (t : Ticket)
  deriving DecidableEq

/-- What a line of the log tells of a handle. -/
def LogLine.passage? : LogLine → Option Passage
  | .inserted t => some (.inserted t)
  | .removed t => some (.removed t)
  | .reclaimed t _ => some (.reclaimed t)
  | _ => none

/-- What there is to be told of a handle that left its set. -/
def Departure.passage? (t : Ticket) : Departure → Option Passage
  | .swept => some (.reclaimed t)
  | .removed => some (.removed t)
  | .filtered | .cleared => none

/-- What is to be told after a handle was taken out, if there was one. -/
def Departure.owed {α : Type} (d : Departure) (t : Ticket) : Option α → Multiset Passage
  | none => 0
  | some _ => ((d.passage? t).toList : List Passage)

/-- What is to be told after an insertion, if it stored a handle. -/
def insertedOwed : Option Ticket → Multiset Passage
  | none => 0
  | some t => {.inserted t}

/-- What is to be told after a removal, if it took out a handle. -/
def removedOwed : Option (Ticket × Handle) → Multiset Passage
  | none => 0
  | some (t, _) => {.removed t}

/-- What is to be told after a result; nothing after a panic. -/
def owedAfter {α : Type} (G : α → Multiset Passage) : Except Panic α → Multiset Passage
  | .ok a => G a
  | .error _ => 0

/-- What there is to be told after an entry of the journal. -/
def Entry.passage? : Entry → Option Passage
  | .stored t _ => some (.inserted t)
  | .departed t d => d.passage? t
  | _ => none

/-- What an entry of the journal tells. -/
def Entry.told? : Entry → Option Passage
  | .line l => l.passage?
  | _ => none

/-- What became of handles, as far as it has to be told. -/
def passages (l : List Entry) : Multiset Passage :=
  (l.filterMap Entry.passage? : List Passage)

/-- What the lines among entries of the journal tell of handles. -/
def told (l : List Entry) : Multiset Passage :=
  (l.filterMap Entry.told? : List Passage)

theorem passages_append (l l' : List Entry) : passages (l ++ l') = passages l + passages l' := by
  rw [passages, List.filterMap_append, ← Multiset.coe_add]
  rfl

theorem told_append (l l' : List Entry) : told (l ++ l') = told l + told l' := by
  rw [told, List.filterMap_append, ← Multiset.coe_add]
  rfl

/-- Entries of which there is nothing to be told. -/
theorem passages_eq_zero {l : List Entry} (h : ∀ x ∈ l, x.passage? = none) : passages l = 0 := by
  rw [passages, List.filterMap_eq_nil_iff.mpr h]
  rfl

/-- Entries that tell nothing. -/
theorem told_eq_zero {l : List Entry} (h : ∀ x ∈ l, x.told? = none) : told l = 0 := by
  rw [told, List.filterMap_eq_nil_iff.mpr h]
  rfl

namespace World

variable {w w' : World} {j : List Entry} {D D' : Multiset Passage}

/-- The journal begins with `j`, and of what became of handles since all is told but `D`. -/
def Tells (w : World) (j : List Entry) (D : Multiset Passage) : Prop :=
  ∃ l, w.journal.toList = j ++ l ∧ told l + D = passages l

theorem Tells.refl (w : World) : w.Tells w.journal.toList 0 :=
  ⟨[], by simp, rfl⟩

/-- The journal goes on, and what there is to be told more is told or owed. -/
theorem Tells.append {l : List Entry} (h : w.Tells j D)
    (hj : w'.journal.toList = w.journal.toList ++ l) (hl : told l + D' = D + passages l) :
    w'.Tells j D' := by
  obtain ⟨l₀, hl₀, hD⟩ := h
  refine ⟨l₀ ++ l, by rw [hj, hl₀, List.append_assoc], ?_⟩
  rw [told_append, passages_append, Multiset.add_assoc, hl, ← Multiset.add_assoc, hD]

/-- Nothing happens to handles, and nothing is told. -/
theorem Tells.of_silent {l : List Entry} (h : w.Tells j D)
    (hj : w'.journal.toList = w.journal.toList ++ l)
    (hl : ∀ x ∈ l, x.passage? = none ∧ x.told? = none) : w'.Tells j D := by
  refine h.append hj ?_
  rw [passages_eq_zero fun x hx => (hl x hx).1, told_eq_zero fun x hx => (hl x hx).2, Multiset.add_comm]

theorem Tells.congr (h : w.Tells j D) (hj : w'.journal = w.journal) : w'.Tells j D :=
  h.of_silent (l := []) (by rw [hj, List.append_nil]) (by simp)

theorem Tells.note {x : Entry} (h : w.Tells j D) (hx : x.passage? = none) (ht : x.told? = none) :
    (w.note x).Tells j D :=
  h.of_silent (l := [x]) (Array.toList_push ..) (by simp [hx, ht])

/-- What is owed is told. -/
theorem Tells.tell {l : LogLine} {p : Passage} (h : w.Tells j (p ::ₘ D)) (hl : l.passage? = some p) :
    (w.note (.line l)).Tells j D := by
  have ht : told [.line l] = {p} := by simp [told, Entry.told?, hl]
  refine h.append (l := [.line l]) (Array.toList_push ..) ?_
  rw [ht, Multiset.singleton_add]
  exact (Multiset.add_zero _).symm

/-- Something becomes of a handle that is still to be told. -/
theorem Tells.owe {x : Entry} (h : w.Tells j D) (hx : x.told? = none) :
    (w.note x).Tells j ((x.passage?.toList : List Passage) + D) := by
  refine h.append (l := [x]) (Array.toList_push ..) ?_
  have hp : passages [x] = (x.passage?.toList : List Passage) := by
    rcases hp : x.passage? with _ | p <;> simp [passages, hp]
  rw [hp, told_eq_zero (by simpa using hx), Multiset.zero_add, Multiset.add_comm]

end World

end WeakSet
