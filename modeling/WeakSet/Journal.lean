import WeakSet.Reply

/-!
# The journal

Everything that happens in a world, in order. Some entries tell what became of handles and
elements; some are what a client's code gets to see, namely reports, destructors, comparisons,
predicate calls and the replies to its own commands; and some are lines of the log. What a client
sees and what the log says are two readings of one journal.
-/

namespace WeakSet

/-- How a handle left its set. -/
inductive Departure where
  /-- A sweep took it out. -/
  | swept
  /-- It was removed by value or through a cursor. -/
  | removed
  /-- A predicate did not keep it. -/
  | filtered
  /-- The set was cleared. -/
  | cleared
  deriving DecidableEq, Repr, Inhabited

/-- A line of the log. -/
inductive LogLine where
  | created (shards capacity : Nat) (kind : Kind)
  | inserted (t : Ticket)
  | removed (t : Ticket)
  | reclaimed (t : Ticket) (ended : Bool)
  | listenerPanicked (t : Ticket) (p : Panic)
  | foreign (t : Ticket)
  | swept (n : Nat)
  | cleared
  deriving DecidableEq, Repr, Inhabited

inductive Entry where
  /-- A handle of the element came into a set. -/
  | stored (t : Ticket) (e : ElementId)
  /-- A handle left its set. -/
  | departed (t : Ticket) (d : Departure)
  /-- An entry to a shard of a set was refused. -/
  | barred (s : SetId)
  /-- The end of an element was announced: its ticket was put into a channel. -/
  | noticed (c : ChannelId) (t : Ticket)
  /-- The client put a saved ticket into a channel. -/
  | posted (c : ChannelId) (t : Ticket)
  /-- The client took the tickets out of a channel. -/
  | drained (c : ChannelId)
  /-- The last reference to an element was gone. -/
  | ended (e : ElementId)
  /-- The destructor of an element ran, under its tag. -/
  | destroyed (tag : String)
  /-- A listener was called; whether its set had a name then. -/
  | reported (t : Ticket) (hash : UInt64) (last : Option Face) (named : Bool)
  /-- An element took part in a comparison, under its tag. -/
  | compared (tag : String)
  /-- The predicate was asked about an element. -/
  | considered (f : Face)
  /-- A script carried out a command. -/
  | answered (name : String) (r : Reply)
  | line (l : LogLine)
  /-- Several threads were set to work. Nobody collects the log from here on. -/
  | crewBegan
  /-- They are done. -/
  | crewEnded
  deriving DecidableEq, Repr, Inhabited

end WeakSet
