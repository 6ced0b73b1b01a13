/-!
# Generational slots

A store of values under keys that are never used twice. A key is a position and a version. The
version of a slot goes up by one whenever its value comes or goes, so it is odd while the slot is
occupied, and a key made before the last change matches no slot any more. A freed position is used
again before a new one is made, the one freed last first.
-/

namespace WeakSet

/-- The key of a value: where it is, and the version its slot had when it came. -/
structure SlotKey where
  position : Nat
  version : Nat
  deriving DecidableEq, Repr, Inhabited

structure Slot (α : Type) where
  version : Nat
  content : Option α
  deriving Repr, Inhabited

/-- Slots by position, and the free positions, the one freed last first. -/
structure Slots (α : Type) where
  slots : List (Slot α) := []
  free : List Nat := []
  deriving Repr, Inhabited

namespace Slots

variable {α : Type}

def empty : Slots α := {}

/-- The value under a key, if its slot is still in that version. -/
def get? (s : Slots α) (k : SlotKey) : Option α :=
  match s.slots[k.position]? with
  | some slot => if slot.version = k.version then slot.content else none
  | none => none

/-- Put a value into the position freed last, or into a new one. -/
def insert (s : Slots α) (a : α) : SlotKey × Slots α :=
  match s.free with
  | [] => (⟨s.slots.length, 1⟩, { s with slots := s.slots ++ [⟨1, some a⟩] })
  | i :: free =>
    let version := (s.slots[i]?.map Slot.version).getD 0 + 1
    (⟨i, version⟩, { slots := s.slots.set i ⟨version, some a⟩, free := free })

/-- Free the slot of a key. Nothing happens if the key has no value. -/
def erase (s : Slots α) (k : SlotKey) : Slots α :=
  match s.get? k with
  | none => s
  | some _ =>
    { slots := s.slots.set k.position ⟨k.version + 1, none⟩, free := k.position :: s.free }

/-- The values with their keys, by position. -/
def entries (s : Slots α) : List (SlotKey × α) :=
  s.slots.zipIdx.filterMap fun (slot, i) => slot.content.map fun a => (⟨i, slot.version⟩, a)

/-- The keys in use, by position. -/
def keys (s : Slots α) : List SlotKey :=
  s.entries.map Prod.fst

/-- How many values there are. -/
def size (s : Slots α) : Nat :=
  s.slots.countP fun slot => slot.content.isSome

/-- Free every slot, by position. -/
def clear (s : Slots α) : Slots α :=
  s.keys.foldl erase s

end Slots

end WeakSet
