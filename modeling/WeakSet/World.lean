import WeakSet.Journal
import WeakSet.Shard

/-!
# The world

All elements, channels and sets that there ever were, the names under which a client knows those
that it still has, and the journal. An element is shared: it has as many strong references as
there are owners and temporary holders of it, and ends when the last is released. Sets hold no
strong reference. Each set watches its elements instead: for every handle the element knows the
channel and the ticket by which to announce its end.

The functions of this file are the steps that nothing can interrupt. Everything that a set does is
made of them.
-/

namespace WeakSet

/-- What an element carries. -/
structure Element where
  face : Face
  /-- Runs when the element ends. -/
  onDrop : Option Script
  /-- Runs whenever the element is compared with an element. -/
  onEqual : Option Script
  deriving Inhabited

/-- To whom the end of an element is announced. -/
structure Watcher where
  channel : ChannelId
  ticket : Ticket
  deriving DecidableEq, Repr, Inhabited

/-- An element, its references and its watchers in the order in which they came. -/
structure Cell where
  element : Element
  strong : Nat
  watchers : List Watcher
  deriving Inhabited

/-- A set. -/
structure Collection where
  /-- The name under which it was built. -/
  label : String
  settings : Settings
  scheme : Hash.Scheme
  /-- Whether it was made by a builder, which fixes its type. -/
  isBuilt : Bool
  shards : Array Shard
  channel : ChannelId
  listener : Listener Script
  /-- How often its listener was called. -/
  calls : Nat
  /-- Whether it still exists. -/
  isLive : Bool
  deriving Inhabited

namespace Collection

/-- Whether tickets and the order of elements are kept from the client: they depend on hashes
that nobody knows. -/
def isUnordered (c : Collection) : Bool :=
  c.scheme.isHidden && 1 < c.shards.size

/-- How many handles there are. -/
def size (c : Collection) : Nat :=
  c.shards.foldl (fun n s => n + s.size) 0

end Collection

/-- What a sweep tells the listener. It holds the element, if that can be reached. -/
structure Record where
  ticket : Ticket
  hash : UInt64
  last : Option ElementId
  deriving DecidableEq, Repr, Inhabited

/-- A walk through a set: the shard it is in, the shards ahead, the keys of this shard still to be
looked at, and the key of the element that it returned last. -/
structure Cursor where
  set : SetId
  shard : Nat := 0
  ahead : List Nat
  pending : List SlotKey := []
  current : Option SlotKey := none
  deriving DecidableEq, Repr, Inhabited

/-- Things by name, the newest first. -/
abbrev Table (α : Type) := List (String × α)

namespace Table

variable {α : Type}

def find? (t : Table α) (name : String) : Option α :=
  t.lookup name

def erase (t : Table α) (name : String) : Table α :=
  t.filter fun e => e.1 ≠ name

/-- Put a thing under a name, in place of what was there. -/
def put (t : Table α) (name : String) (a : α) : Table α :=
  (name, a) :: erase t name

end Table

structure World where
  cells : Array Cell := #[]
  channels : Array Channel := #[]
  sets : Array Collection := #[]
  /-- The sets of which a shard is locked. -/
  entered : List SetId := []
  /-- The records of the listener calls under way, the innermost first; `none` where the record
  was taken. -/
  hands : List (Option Record) := []
  owners : Table ElementId := []
  channelNames : Table ChannelId := []
  setNames : Table SetId := []
  cursors : Table Cursor := []
  /-- The sets of those cursors that are making a step. -/
  walking : List SetId := []
  tickets : Table Ticket := []
  journal : Array Entry := #[]
  deriving Inhabited

namespace World

/-- Nothing yet. -/
def empty : World := {}

def note (w : World) (e : Entry) : World :=
  { w with journal := w.journal.push e }

/-! ## Elements -/

/-- The number of strong references to an element. -/
def strong (w : World) (e : ElementId) : Nat :=
  ((w.cells[e]?).map Cell.strong).getD 0

def isAlive (w : World) (e : ElementId) : Bool :=
  0 < w.strong e

def watchers (w : World) (e : ElementId) : List Watcher :=
  ((w.cells[e]?).map Cell.watchers).getD []

def face (w : World) (e : ElementId) : Face :=
  ((w.cells[e]?).map fun c => c.element.face).getD default

def value (w : World) (e : ElementId) : Value :=
  (w.face e).value

def onEqual (w : World) (e : ElementId) : Option Script :=
  (w.cells[e]?).bind fun c => c.element.onEqual

/-- A new element with one reference. -/
def create (w : World) (x : Element) : ElementId × World :=
  (w.cells.size, { w with cells := w.cells.push ⟨x, 1, []⟩ })

/-- One more reference to an element. -/
def acquire (w : World) (e : ElementId) : World :=
  { w with cells := w.cells.modify e fun c => { c with strong := c.strong + 1 } }

/-! ## Channels -/

/-- Whether anybody has the channel: the client under a name, or a set that still exists. -/
def hasChannel (w : World) (c : ChannelId) : Bool :=
  w.channelNames.any (fun e => e.2 = c) || w.sets.any fun s => s.isLive && s.channel = c

/-- Put a ticket into a channel. -/
def enqueue (w : World) (c : ChannelId) (t : Ticket) : World :=
  { w with channels := w.channels.modify c (·.enqueue t) }

/-- The client puts a ticket into a channel. -/
def post (w : World) (c : ChannelId) (t : Ticket) : World :=
  (w.note (.posted c t)).enqueue c t

/-- Take what a channel delivers. -/
def drain (w : World) (c : ChannelId) : List Ticket × World :=
  match w.channels[c]? with
  | none => ([], w)
  | some ch => (ch.drain.1, { w with channels := w.channels.set! c ch.drain.2 })

/-- A new channel. -/
def newChannel (w : World) (kind : ChannelKind) : ChannelId × World :=
  (w.channels.size, { w with channels := w.channels.push { kind := kind } })

/-! ## Watching -/

/-- Have the end of an element announced. -/
def watch (w : World) (e : ElementId) (x : Watcher) : World :=
  { w with cells := w.cells.modify e fun c => { c with watchers := c.watchers ++ [x] } }

/-- No longer have the end of an element announced by this ticket. Watchers whose channel nobody
has any more go too. Nothing happens to an element that ended. -/
def unwatch (w : World) (e : ElementId) (t : Ticket) : World :=
  if w.isAlive e then
    let kept := (w.watchers e).filter fun x => x.ticket ≠ t && w.hasChannel x.channel
    { w with cells := w.cells.modify e fun c => { c with watchers := kept } }
  else
    w

/-- Announce the end of an element to one watcher, if anybody has its channel. -/
def announce (w : World) (x : Watcher) : World :=
  if w.hasChannel x.channel then
    (w.enqueue x.channel x.ticket).note (.noticed x.channel x.ticket)
  else
    w

/-- One reference less. With the last the element ends: all its watchers are told, in order, and
what is left to do is its destructor, if it has one. -/
def release (w : World) (e : ElementId) : Option Script × World :=
  match w.cells[e]? with
  | none => (none, w)
  | some c =>
    if c.strong = 1 then
      let w := { w with cells := w.cells.set! e { c with strong := 0, watchers := [] } }
      let w := (c.watchers.foldl announce w).note (.ended e)
      match c.element.onDrop with
      | none => (none, w)
      | some script => (some script, w.note (.destroyed c.element.face.tag))
    else
      (none, { w with cells := w.cells.set! e { c with strong := c.strong - 1 } })

/-! ## Sets -/

def set? (w : World) (s : SetId) : Option Collection :=
  w.sets[s]?

/-- Whether a set has a name. -/
def isNamed (w : World) (s : SetId) : Bool :=
  w.setNames.any fun e => e.2 = s

/-- Whether anybody has the set: the client under a name, or a cursor. -/
def isHeld (w : World) (s : SetId) : Bool :=
  w.isNamed s || w.cursors.any (fun e => e.2.set = s) || w.walking.contains s

def collection (w : World) (s : SetId) : Collection :=
  (w.set? s).getD default

def shardCount (w : World) (s : SetId) : Nat :=
  (w.collection s).shards.size

def shard (w : World) (s : SetId) (k : Nat) : Shard :=
  (w.collection s).shards.getD k {}

def setShard (w : World) (s : SetId) (k : Nat) (sh : Shard) : World :=
  { w with sets := w.sets.modify s fun c => { c with shards := c.shards.set! k sh } }

/-- Store a handle of an element in a set, and have the set watch the element. -/
def store (w : World) (s : SetId) (k : Nat) (h : Handle) : Ticket × World :=
  let (key, sh) := (w.shard s k).insert h
  let t : Ticket := ⟨s, k, key⟩
  let w := (w.setShard s k sh).note (.stored t h.element)
  (t, w.watch h.element ⟨(w.collection s).channel, t⟩)

/-- Take the handle of a ticket out of its set, if it is there. -/
def takeOut (w : World) (t : Ticket) (d : Departure) : Option Handle × World :=
  match (w.shard t.owner t.shard).remove t.key with
  | (none, _) => (none, w)
  | (some h, sh) => (some h, (w.setShard t.owner t.shard sh).note (.departed t d))

/-- Take every handle out of a shard. -/
def takeAll (w : World) (s : SetId) (k : Nat) : List (Ticket × Handle) × World :=
  let (all, sh) := (w.shard s k).drain
  let taken := all.map fun (key, h) => ((⟨s, k, key⟩ : Ticket), h)
  (taken, taken.foldl (fun w x => w.note (.departed x.1 .cleared)) (w.setShard s k sh))

/-- The channel of a set delivers its tickets. -/
def takeNotices (w : World) (s : SetId) : List Ticket × World :=
  w.drain (w.collection s).channel

/-- One more call of the listener; how many there were before. -/
def countCall (w : World) (s : SetId) : Nat × World :=
  ((w.collection s).calls,
    { w with sets := w.sets.modify s fun c => { c with calls := c.calls + 1 } })

end World

end WeakSet
