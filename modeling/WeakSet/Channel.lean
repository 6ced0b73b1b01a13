import WeakSet.Ticket

/-!
# Channels

A channel carries the tickets of ended elements to the set that holds their handles. A queue
always delivers. A gated channel delivers only while it is open, and holds what comes meanwhile.
-/

namespace WeakSet

inductive ChannelKind where
  | queue
  | gated
  deriving DecidableEq, Repr, Inhabited

/-- The tickets under way, the oldest first. -/
structure Channel where
  kind : ChannelKind
  isOpen : Bool := false
  pending : List Ticket := []
  deriving Repr, Inhabited

namespace Channel

/-- Whether a drain gets anything. -/
def delivers (c : Channel) : Bool :=
  match c.kind with
  | .queue => true
  | .gated => c.isOpen

def enqueue (c : Channel) (t : Ticket) : Channel :=
  { c with pending := c.pending ++ [t] }

/-- Take what there is, or nothing from a closed channel. -/
def drain (c : Channel) : List Ticket × Channel :=
  if c.delivers then (c.pending, { c with pending := [] }) else ([], c)

end Channel

end WeakSet
