import WeakSet.Membership

/-!
# Making and unmaking sets

A new set has its shards, a channel of its own unless one is given, and no handles. When a set goes
no element is watched on its behalf any more, and its channel is one user poorer.

A set stays for as long as it has a name or a cursor walks through it. So a set whose name was given
to another one goes with its last cursor.
-/

namespace WeakSet

open Act

/-- What a new set is made from. -/
structure Blueprint where
  label : String
  settings : Settings
  scheme : Hash.Scheme
  isBuilt : Bool
  listener : Listener Script
  deriving Inhabited

/-- Make a set, with the channel given or a fresh queue. -/
def World.newSet (w : World) (b : Blueprint) (channel : Option ChannelId) : SetId × World :=
  let (c, w) :=
    match channel with
    | some c => (c, w)
    | none => w.newChannel .queue
  let shards := Array.replicate b.settings.shardCount (Shard.withRoom b.settings.shardCapacity)
  let set : Collection :=
    { label := b.label, settings := b.settings, scheme := b.scheme, isBuilt := b.isBuilt
      shards := shards, channel := c, listener := b.listener, calls := 0, isLive := true }
  (w.sets.size, { w with sets := w.sets.push set })

/-- Make a set and log it. -/
def construct (b : Blueprint) (channel : Option ChannelId) : Act SetId := do
  log (.created b.settings.shardCount b.settings.capacity b.settings.kind)
  update (·.newSet b channel)

/-- No longer have the elements of a set announce their end to it. -/
def World.unwatchAll (w : World) (s : SetId) : World :=
  (List.range (w.shardCount s)).foldl (fun w k =>
    (w.shard s k).entries.foldl (fun w x => w.unwatch x.2.element ⟨s, k, x.1⟩) w) w

/-- The set is gone. -/
def World.endSet (w : World) (s : SetId) : World :=
  { w with sets := w.sets.modify s fun c => { c with isLive := false } }

/-- Unmake a set. -/
def World.unmake (w : World) (s : SetId) : World :=
  (w.unwatchAll s).endSet s

/-- Unmake a set whoever has it. -/
def destroy (s : SetId) : Act Unit :=
  change (·.unmake s)

/-- Unmake a set if nobody has it any more. -/
def World.retire (w : World) (s : SetId) : World :=
  if w.isHeld s then w else w.unmake s

/-- Give a set a name. A set that had the name before may go. -/
def World.nameSet (w : World) (name : String) (s : SetId) : World :=
  let named := { w with setNames := w.setNames.put name s }
  match w.setNames.find? name with
  | none => named
  | some old => named.retire old

/-- Take a cursor away to make a step with it. -/
def World.takeCursor (w : World) (name : String) (c : Cursor) : World :=
  { w with cursors := w.cursors.erase name, walking := c.set :: w.walking }

/-- Give a cursor a name. A cursor that had the name before is gone, and its set may go. -/
def World.putCursor (w : World) (name : String) (c : Cursor) : World :=
  let put := { w with cursors := w.cursors.put name c }
  match w.cursors.find? name with
  | none => put
  | some old => put.retire old.set

/-- Put a cursor back after a step. -/
def World.returnCursor (w : World) (name : String) (c : Cursor) : World :=
  World.putCursor { w with walking := w.walking.erase c.set } name c

/-- Let go of a cursor. Its set may go. -/
def World.dropCursor (w : World) (name : String) (c : Cursor) : World :=
  World.retire { w with cursors := w.cursors.erase name } c.set

/-- Make a set of some elements. If that panics the set is unmade. -/
def constructOf (run : Runner) (b : Blueprint) (es : List ElementId) : Act SetId := do
  let s ← construct b none
  match ← attempt (addAll run s es) with
  | .ok _ => return s
  | .error p =>
    destroy s
    throw p

end WeakSet
