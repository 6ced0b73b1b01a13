import WeakSet.Command

/-!
# Replies

What a command is answered with: a result of the kind that the command has, the fault of a set, a
panic that came out of the command, or a refusal because the command could not be carried out.
-/

namespace WeakSet

/-- The results of adding one value from several threads. -/
structure AddedTogether where
  succeeded : Nat
  size : Nat
  deriving DecidableEq, Repr, Inhabited

/-- The results of mixed traffic from several threads. -/
structure MixedTogether where
  added : Nat
  removed : Nat
  kept : Nat
  size : Nat
  reported : Nat
  sizeAfter : Nat
  reportedAfter : Nat
  deriving DecidableEq, Repr, Inhabited

inductive Reply where
  | done
  | flag (b : Bool)
  | number (n : Nat)
  | text (s : String)
  | hash (h : UInt64)
  | hashes (hs : List UInt64)
  /-- How many owners an element has, and how many watchers. -/
  | counts (strong watchers : Nat)
  /-- How many tickets are under way. -/
  | queued (n : Nat)
  | ticket (t : Ticket)
  | tickets (ts : List Ticket)
  | noTicket
  | element (f : Face)
  /-- Some element of a set that does not show which. -/
  | someElement
  | noElement
  | elements (fs : List Face)
  /-- An element as displayed, as debugged, and as it is. -/
  | forms (f : Face)
  | settings (c : Settings)
  | valid
  /-- The limits of settings, and the standard ones. -/
  | constants
  | addedTogether (r : AddedTogether)
  | mixedTogether (r : MixedTogether)
  | fault (f : Fault)
  | panicked (p : Panic)
  | refused (r : Refusal)
  deriving DecidableEq, Repr, Inhabited

end WeakSet
