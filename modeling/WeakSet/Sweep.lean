import WeakSet.Act

/-!
# Sweeping

A sweep takes what the channel of a set delivers and goes through it in order. A ticket of another
set is logged and thrown away. A ticket whose handle is there takes the handle out and reports it:
once, because the handle is gone then. Any other ticket is stale and has no effect. A panic of the
listener is logged and does not stop the sweep; under the policy `escalate` the first one comes out
when the batch is done.

A sweep that finds nothing touches no shard. One that is refused entry to a shard ends there, and
what it had taken from the channel is lost.
-/

namespace WeakSet

open Act

/-- What a sweep has done so far. -/
structure Batch where
  /-- How many handles it took out. -/
  reclaimed : Nat := 0
  /-- The panic that it will end with. -/
  failure : Option Panic := none
  deriving DecidableEq, Repr, Inhabited

/-- Whether a ticket names no handle that set `s` could ever have had. -/
def World.isForeign (w : World) (s : SetId) (t : Ticket) : Bool :=
  t.owner ≠ s || w.shardCount s ≤ t.shard

/-- Take out the handle of a ticket under the lock of its shard. -/
def takeOut (t : Ticket) (d : Departure) : Act (Option Handle) :=
  guarded t.owner (update (·.takeOut t d))

/-- Have a handle that was taken out watched no longer. -/
def forget (t : Ticket) (h : Handle) : Act Unit :=
  change (·.unwatch h.element t)

/-- Close the books on a handle that a sweep took out; the record to report. -/
def closeBooks (t : Ticket) (h : Handle) : Act Record := do
  let ended ← look fun w => !w.isAlive h.element
  forget t h
  log (.reclaimed t ended)
  return ⟨t, h.hash, ← reach h⟩

/-- Run the script for call `n` of the listener of a set. What the listener did not take of the
record in hand is let go of then, before its panic, if any, goes on. -/
def listen (run : Runner) (s : SetId) (n : Nat) : Act Unit := do
  let outcome ← attempt do
    match (← look (·.collection s)).listener.script? n with
    | none => pure ()
    | some script => run .listener script
  let left ← update fun w => (w.hands.head?.join, { w with hands := w.hands.tail })
  match left.bind Record.last with
  | none => pure ()
  | some e => release run e
  settle outcome

/-- Call the listener of a set. It has the record in hand until its script ends. -/
def report (run : Runner) (s : SetId) (r : Record) : Act Unit := do
  let n ← update (·.countCall s)
  note (.reported r.ticket r.hash (← look fun w => r.last.map w.face) (← look (·.isNamed s)))
  change fun w => { w with hands := some r :: w.hands }
  listen run s n

/-- Go on after a report. -/
def Batch.reportEnded (b : Batch) (policy : Policy) (outcome : Except Panic Unit) : Batch :=
  match outcome, policy with
  | .error p, .escalate => ⟨b.reclaimed + 1, b.failure <|> some p⟩
  | _, _ => ⟨b.reclaimed + 1, b.failure⟩

/-- Deal with one ticket of a batch. -/
def sweepOne (run : Runner) (s : SetId) (b : Batch) (t : Ticket) : Act Batch := do
  if ← look (·.isForeign s t) then
    log (.foreign t)
    return b
  match ← takeOut t .swept with
  | none => return b
  | some h =>
    let r ← closeBooks t h
    let outcome ← attempt (report run s r)
    match outcome with
    | .ok _ => pure ()
    | .error p => log (.listenerPanicked t p)
    return b.reportEnded (← look (·.collection s)).settings.policy outcome

/-- Say what a sweep has done, and let its panic out. -/
def closeBatch (b : Batch) : Act Nat := do
  if 0 < b.reclaimed then
    log (.swept b.reclaimed)
  match b.failure with
  | none => return b.reclaimed
  | some p => throw p

/-- Take out the handles whose tickets the channel delivers; how many there were. -/
def sweep (run : Runner) (s : SetId) : Act Nat := do
  let batch ← update (·.takeNotices s)
  closeBatch (← batch.foldlM (sweepOne run s) {})

end WeakSet
