import WeakSet.World

/-!
# Text

How tickets, hashes, log lines, records and sets are written. A ticket is written
`owner/shard/key` with `owner` counting sets from one, and a key `<index>v<version>` with `index`
counting slots from one. Where a set keeps its tickets from the client, shard and key are written
as question marks.
-/

namespace WeakSet

namespace Text

/-- A hexadecimal digit. -/
def hexDigit (n : Nat) : Char :=
  "0123456789abcdef".toList.getD n '0'

/-- A word as sixteen hexadecimal digits. -/
def hex (w : UInt64) : String :=
  String.ofList ((List.range 16).map fun i => hexDigit ((w.toNat >>> (60 - 4 * i)) % 16))

/-- The key of a slot. -/
def key (k : SlotKey) : String :=
  s!"{k.position + 1}v{k.version}"

def kind : Kind → String
  | .weak => "Weak"
  | .phantom => "Phantom"

def policy : Policy → String
  | .log => "LogAndContinue"
  | .escalate => "Escalate"

/-- What a panic says, or `instead` if it is no text. -/
def panic (instead : String) : Panic → String
  | .text message => message
  | .other => instead

/-- An element as it is debugged. -/
def face (f : Face) : String :=
  s!"<{f.value.display}>"

/-- A set as it is debugged, on one line or spread over several. -/
def set (spread : Bool) (handles shards : Nat) (k : Kind) : String :=
  if spread then
    s!"ReclaimableSet \x7b\n    handles: {handles},\n    shards: {shards},\n" ++
      s!"    reference_kind: {kind k},\n\x7d"
  else
    s!"ReclaimableSet \x7b handles: {handles}, shards: {shards}, reference_kind: {kind k} \x7d"

end Text

namespace World

/-- How a ticket is written. -/
def ticketText (w : World) (t : Ticket) : String :=
  if (w.collection t.owner).isUnordered then
    s!"{t.owner + 1}/?/?"
  else
    s!"{t.owner + 1}/{t.shard}/{Text.key t.key}"

/-- How the record of a report is debugged. -/
def recordText (w : World) (t : Ticket) (hash : UInt64) (last : Option Face) : String :=
  let lastText :=
    match last with
    | none => "None"
    | some f => s!"Some({Text.face f})"
  s!"Reclaimed \x7b id: {w.ticketText t}, hash: {hash.toNat}, last_known: {lastText} \x7d"

/-- A line of the log. -/
def lineText (w : World) : LogLine → String
  | .created shards capacity kind =>
    s!"DEBUG message=creating reclaimable set shards={shards} capacity={capacity} " ++
      s!"kind={Text.kind kind}"
  | .inserted t => s!"TRACE message=inserted handle id={w.ticketText t}"
  | .removed t => s!"TRACE message=removed handle id={w.ticketText t}"
  | .reclaimed t ended => s!"TRACE message=reclaimed handle id={w.ticketText t} cleared={ended}"
  | .listenerPanicked t p =>
    s!"WARN message=reclamation listener panicked id={w.ticketText t} message=" ++
      Text.panic "<non-string panic payload>" p
  | .foreign t =>
    s!"WARN message=discarding reclamation notice for a foreign handle id={w.ticketText t}"
  | .swept n => s!"DEBUG message=sweep removed stale handles reclaimed={n}"
  | .cleared => "TRACE message=cleared reclaimable set"

end World

end WeakSet
