import WeakSet.Session

/-!
# What a client gets to see

Two readings of the journal, the events and the log, and the state of a session in numbers: the
handles of each set and the references and watchers of each owner's element.
-/

namespace WeakSet

/-- What a client is told of a report. Only a set that still has a name tells the hash, and only
if its hashes are known. -/
structure ReportEvent where
  label : String
  ticket : Ticket
  last : Option Face
  hash : Option UInt64
  record : Option String
  deriving Repr, Inhabited

inductive Event where
  | reported (r : ReportEvent)
  | destroyed (tag : String)
  | compared (tag : String)
  | considered (f : Face)
  | answered (name : String) (r : Reply)
  deriving Repr, Inhabited

namespace World

/-- What a client sees of a report. -/
def reportEvent (w : World) (t : Ticket) (hash : UInt64) (last : Option Face) (named : Bool) :
    ReportEvent :=
  let c := w.collection t.owner
  let isKnown := named && !c.scheme.isHidden
  { label := c.label
    ticket := t
    last := last
    hash := if isKnown then some hash else none
    record :=
      if isKnown && c.listener.isVerbose then some (w.recordText t hash last) else none }

/-- What a client sees of an entry of the journal. -/
def event? (w : World) : Entry → Option Event
  | .reported t hash last named =>
    if (w.collection t.owner).listener.isSilent then none
    else some (.reported (w.reportEvent t hash last named))
  | .destroyed tag => some (.destroyed tag)
  | .compared tag => some (.compared tag)
  | .considered f => some (.considered f)
  | .answered name r => some (.answered name r)
  | _ => none

/-- The lines of the log, but for those of `n` crews at work and of all that start. -/
def lines (w : World) : Nat → List Entry → List String
  | _, [] => []
  | n, .crewBegan :: es => lines w (n + 1) es
  | n, .crewEnded :: es => lines w (n - 1) es
  | 0, .line l :: es => w.lineText l :: lines w 0 es
  | n, _ :: es => lines w n es

/-- The number of handles of each named set. -/
def setSizes (w : World) : List (String × Nat) :=
  w.setNames.map fun (name, s) => (name, (w.collection s).size)

/-- The references and watchers of each owner's element. -/
def ownerCounts (w : World) : List (String × Nat × Nat) :=
  w.owners.map fun (name, e) => (name, w.strong e, (w.watchers e).length)

end World

namespace Session

/-- What carrying out a command comes to. -/
structure Step where
  reply : Reply
  events : List Event
  log : List String
  world : World
  deriving Inhabited

/-- Carry out a command and read off what happened. -/
def step (w : World) (c : Command) : Step :=
  let (reply, after) := carryOut w c
  let happened := (after.journal.extract w.journal.size).toList
  { reply := reply
    events := happened.filterMap after.event?
    log := after.lines 0 happened
    world := after }

end Session

end WeakSet
