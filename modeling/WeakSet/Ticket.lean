import WeakSet.Slots

/-!
# Tickets

Every handle put into a set gets a ticket: the set, the shard and the key of its slot. Notices of
an element's end carry tickets, and so do reports to listeners. As slot keys are never used twice,
neither are tickets.
-/

namespace WeakSet

/-- An element, by the order of creation. -/
abbrev ElementId := Nat

/-- A set, by the order of creation. -/
abbrev SetId := Nat

/-- A channel, by the order of creation. -/
abbrev ChannelId := Nat

/-- The name of one handle of one set. -/
structure Ticket where
  owner : SetId
  shard : Nat
  key : SlotKey
  deriving DecidableEq, Repr, Inhabited

end WeakSet
