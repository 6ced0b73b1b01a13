import WeakSet.World

/-!
# Acts

An act changes the world and ends with a result or a panic. A panic does not undo anything: the
world stays as it was when the panic arose. `attempt` catches, `holding` lets go of references
however an act ends, and `guarded` does the same for the lock on a set.

Code of the client's is only ever run through a `Runner`, which every act that may come upon such
code takes as its argument.
-/

namespace WeakSet

abbrev Act := ExceptT Panic (StateM World)

/-- Runs the client's scripts. -/
abbrev Runner := Role → Script → Act Unit

namespace Act

variable {α : Type}

/-- What an act comes to in a world: its result, and the world after it. -/
def exec (a : Act α) (w : World) : Except Panic α × World :=
  (a.run.run w).run

/-- Read off the world. -/
def look (f : World → α) : Act α := do
  return f (← get)

/-- Change the world. -/
def change (f : World → World) : Act Unit :=
  modify f

/-- Change the world and keep a result. -/
def update (f : World → α × World) : Act α :=
  modifyGet f

/-- Carry out an act and have its panic as a value. -/
def attempt (a : Act α) : Act (Except Panic α) :=
  ExceptT.mk do return .ok (← a.run)

/-- The result of an attempt, or its panic again. -/
def settle : Except Panic α → Act α
  | .ok a => pure a
  | .error p => throw p

def note (e : Entry) : Act Unit :=
  change (·.note e)

def log (l : LogLine) : Act Unit :=
  note (.line l)

/-! ## References -/

/-- One more reference to an element, if it is alive. -/
def upgrade (e : ElementId) : Act (Option ElementId) :=
  update fun w => if w.isAlive e then (some e, w.acquire e) else (none, w)

/-- What a handle lets the set reach: its element, unless that ended or the kind forbids it. -/
def reach (h : Handle) : Act (Option ElementId) :=
  match h.kind with
  | .weak => upgrade h.element
  | .phantom => pure none

/-- Let go of a reference. With the last one the destructor runs, and no panic leaves it. -/
def release (run : Runner) (e : ElementId) : Act Unit := do
  match ← update (·.release e) with
  | none => pure ()
  | some script => discard (attempt (run .destructor script))

/-- Let go of several references, in order. -/
def releaseAll (run : Runner) : List ElementId → Act Unit
  | [] => pure ()
  | e :: es => do
    release run e
    releaseAll run es

/-- Carry out an act that holds references, and let go of them however it ends. -/
def holding (run : Runner) (es : List ElementId) (a : Act α) : Act α := do
  let r ← attempt a
  releaseAll run es
  settle r

/-- Carry out an act with one more reference to each of some elements. -/
def borrowing (run : Runner) (es : List ElementId) (a : Act α) : Act α := do
  change fun w => es.foldl World.acquire w
  holding run es a

/-! ## Locks -/

/-- What a refused re-entry says. -/
def reentered : Panic :=
  .text "reentrancy detected: nested entry into data structure"

/-- Lock a shard of a set. Refused while any shard of that set is locked. -/
def enter (s : SetId) : Act Unit := do
  if (← look World.entered).contains s then
    note (.barred s)
    throw reentered
  else
    change fun w => { w with entered := s :: w.entered }

/-- The locked sets, the last one first, without the last lock of one of them. The place that it had
goes to the first of the list. -/
def swapRemove (s : SetId) : List SetId → List SetId
  | [] => []
  | last :: earlier =>
    if last = s then earlier
    else if earlier.contains s then earlier.replace s last
    else last :: earlier

/-- Unlock the shard of a set that is locked. -/
def leave (s : SetId) : Act Unit :=
  change fun w => { w with entered := swapRemove s w.entered }

/-- Carry out an act while a shard of a set is locked. -/
def guarded (s : SetId) (a : Act α) : Act α := do
  enter s
  let r ← attempt a
  leave s
  settle r

end Act

end WeakSet
