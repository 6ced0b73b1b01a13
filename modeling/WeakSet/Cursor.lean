import WeakSet.Membership

/-!
# Cursors

A cursor walks through a set while the set changes. It lists the keys of one shard at a time and
looks each up when its turn comes: a key whose handle went is passed over, and so is one whose
element ended, after a sweep. What it returns is a reference that the caller has to let go of.

A cursor moves on before it looks. So when a step is refused entry to the shard, or a sweep on the
way panics, the key or the shard at hand is behind it all the same.
-/

namespace WeakSet

open Act

namespace Cursor

/-- A cursor and what a step of it came to. -/
structure Step (α : Type) where
  cursor : Cursor
  outcome : Except Panic α
  deriving Inhabited

/-- What there is under a key. -/
inductive Sight where
  /-- The element can be reached. -/
  | element (e : ElementId)
  /-- The element ended. -/
  | ended
  /-- Nothing to be had: no handle, or one that lets nobody reach its element. -/
  | nothing
  deriving DecidableEq, Repr, Inhabited

/-- Look a key up in a shard that is locked. -/
def sight (s : SetId) (k : Nat) (key : SlotKey) : Act Sight := do
  match (← look (·.shard s k)).get? key with
  | none => return .nothing
  | some h =>
    match ← reach h with
    | some e => return .element e
    | none => if ← look (·.isAlive h.element) then return .nothing else return .ended

/-- Look up a key of the shard that the cursor is in; the element, if it can be reached. -/
def visit (run : Runner) (c : Cursor) (key : SlotKey) : Act (Option ElementId) := do
  match ← guarded c.set (sight c.set c.shard key) with
  | .element e => return some e
  | .nothing => return none
  | .ended =>
    discard (sweep run c.set)
    return none

/-- The next element among keys of the shard that the cursor is in. -/
def nextHere (run : Runner) (c : Cursor) : List SlotKey → Act (Step (Option ElementId))
  | [] => return ⟨{ c with pending := [] }, .ok none⟩
  | key :: keys => do
    match ← attempt (c.visit run key) with
    | .error p => return ⟨{ c with pending := keys }, .error p⟩
    | .ok (some e) => return ⟨{ c with pending := keys, current := some key }, .ok (some e)⟩
    | .ok none => nextHere run c keys

/-- The next element, first in the shard that the cursor is in and then in those ahead. -/
def nextAhead (run : Runner) (c : Cursor) : List Nat → Act (Step (Option ElementId))
  | [] => nextHere run { c with ahead := [] } c.pending
  | k :: ks => do
    let x ← nextHere run { c with ahead := k :: ks } c.pending
    match x.outcome with
    | .ok none =>
      let c := { c with shard := k, ahead := ks, pending := [] }
      match ← attempt (guarded c.set (look fun w => (w.shard c.set k).keys)) with
      | .error p => return ⟨c, .error p⟩
      | .ok keys => nextAhead run { c with pending := keys } ks
    | _ => return x

/-- The next element. -/
def next (run : Runner) (c : Cursor) : Act (Step (Option ElementId)) :=
  nextAhead run { c with current := none } c.ahead

/-- Take out the handle whose element was returned last; whether it was still there. -/
def removeCurrent (c : Cursor) : Act (Step Bool) := do
  let done := { c with current := none }
  match c.current with
  | none => return ⟨done, .ok false⟩
  | some key =>
    let t : Ticket := ⟨c.set, c.shard, key⟩
    match ← attempt (takeOut t .removed) with
    | .error p => return ⟨done, .error p⟩
    | .ok none => return ⟨done, .ok false⟩
    | .ok (some h) =>
      bookRemoval t h
      return ⟨done, .ok true⟩

/-- A cursor before the first element of a set. -/
def start (run : Runner) (s : SetId) : Act Cursor := do
  discard (sweep run s)
  return { set := s, ahead := List.range (← look (·.shardCount s)) }

/-- What a walk to the end comes to: the cursor, the elements that it returned, and whether it
got there. -/
structure Walk where
  cursor : Cursor
  found : List ElementId
  outcome : Except Panic Unit
  deriving Inhabited

/-- All elements among keys of the shard that the cursor is in. -/
def restHere (run : Runner) (c : Cursor) : List SlotKey → Act Walk
  | [] => return ⟨{ c with pending := [], current := none }, [], .ok ()⟩
  | key :: keys => do
    match ← attempt (c.visit run key) with
    | .error p => return ⟨{ c with pending := keys, current := none }, [], .error p⟩
    | .ok none => restHere run c keys
    | .ok (some e) =>
      let x ← restHere run c keys
      return { x with found := e :: x.found }

/-- All elements in the shard that the cursor is in and then in those ahead. -/
def restAhead (run : Runner) (c : Cursor) : List Nat → Act Walk
  | [] => restHere run { c with ahead := [] } c.pending
  | k :: ks => do
    let x ← restHere run { c with ahead := k :: ks } c.pending
    match x.outcome with
    | .error _ => return x
    | .ok _ =>
      let c := { c with shard := k, ahead := ks, pending := [], current := none }
      match ← attempt (guarded c.set (look fun w => (w.shard c.set k).keys)) with
      | .error p => return ⟨c, x.found, .error p⟩
      | .ok keys =>
        let y ← restAhead run { c with pending := keys } ks
        return { y with found := x.found ++ y.found }

/-- Walk to the end, and hold every element that was returned. After a panic they are let go of. -/
def rest (run : Runner) (c : Cursor) : Act (Step (List ElementId)) := do
  let x ← restAhead run c c.ahead
  match x.outcome with
  | .ok _ => return ⟨x.cursor, .ok x.found⟩
  | .error p =>
    releaseAll run x.found
    return ⟨x.cursor, .error p⟩

end Cursor

/-- References to all elements of a set that can be reached. -/
def toList (run : Runner) (s : SetId) : Act (List ElementId) := do
  let c ← Cursor.start run s
  settle (← c.rest run).outcome

end WeakSet
