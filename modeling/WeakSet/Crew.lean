import WeakSet.Construction

/-!
# Several threads

A thread adds elements to sets, removes what equals a query and lets go of references. None of
these is one step: between its stages other threads run. A stage is what nothing interrupts, such
as taking the notices out of a channel, the locked part of an insertion, or letting go of one
reference together with the announcements that follow from it. The sequential operations are the
same stages without anything in between.

`Crew.follow` runs threads in the order that a schedule gives. `Crew.complete` lets each thread in
turn do one stage until all are done. A panic ends only the thread in which it arises, which still
lets go of what it holds. It is let out when all threads are done.
-/

namespace WeakSet

open Act

/-- What a thread is to do. -/
inductive Chore where
  | add (s : SetId) (e : ElementId)
  | remove (s : SetId) (q : Query)
  | release (e : ElementId)
  deriving DecidableEq, Repr, Inhabited

/-- What nothing interrupts. -/
inductive Stage where
  /-- Take what the channel of a set delivers. -/
  | drain (s : SetId)
  /-- Take out the handle of the next ticket, or end the sweep. -/
  | batch (s : SetId) (b : Batch) (ts : List Ticket)
  /-- Close the books on a handle that was taken out. -/
  | books (s : SetId) (b : Batch) (t : Ticket) (h : Handle) (ts : List Ticket)
  /-- Call the listener. -/
  | report (s : SetId) (b : Batch) (r : Record) (ts : List Ticket)
  /-- The locked part of an insertion. -/
  | insert (s : SetId) (e : ElementId)
  /-- The locked part of a removal. -/
  | remove (s : SetId) (q : Query)
  /-- Let go of a reference. -/
  | release (e : ElementId)
  /-- The end of an insertion. -/
  | inserted (r : Except Panic (Option Ticket))
  /-- The end of a removal. -/
  | removed (r : Except Panic (Option (Ticket × Handle)))

/-- The stages of a chore, as far as they are known beforehand. -/
def Chore.stages : Chore → List Stage
  | add s e => [.drain s, .insert s e]
  | remove s q => [.drain s, .remove s q]
  | release e => [.release e]

namespace Stage

/-- Whether a stage does no more than let go of a reference. -/
def isRelease : Stage → Bool
  | release _ => true
  | _ => false

/-- Whether it only turns out in the course of a stage how many others will come of it. -/
def isUncertain : Stage → Bool
  | drain _ | insert .. | remove .. => true
  | _ => false

/-- How many stages a stage is good for, itself included, those of uncertain ones apart. -/
def known : Stage → Nat
  | batch _ _ ts => 3 * ts.length + 1
  | books _ _ _ _ ts => 3 * ts.length + 3
  | report _ _ _ ts => 3 * ts.length + 2
  | _ => 1

end Stage

/-- A thread: what it has yet to do, what it has done, and the panic that ended it. -/
structure Worker where
  todo : List Stage
  added : Nat := 0
  removed : Nat := 0
  failure : Option Panic := none
  deriving Inhabited

/-- A thread before it starts. -/
def Worker.ofChores (chores : List Chore) : Worker where
  todo := chores.flatMap Chore.stages

/-- Do one stage; the stages that come of it are to be done next. -/
def Worker.perform (run : Runner) (x : Worker) : Stage → Act Worker
  | .drain s => do
    let ts ← update (·.takeNotices s)
    return { x with todo := .batch s {} ts :: x.todo }
  | .batch _ b [] => do
    discard (closeBatch b)
    return x
  | .batch s b (t :: ts) => do
    if ← look (·.isForeign s t) then
      log (.foreign t)
      return { x with todo := .batch s b ts :: x.todo }
    match ← takeOut t .swept with
    | none => return { x with todo := .batch s b ts :: x.todo }
    | some h => return { x with todo := .books s b t h ts :: x.todo }
  | .books s b t h ts => do
    let r ← closeBooks t h
    return { x with todo := .report s b r ts :: x.todo }
  | .report s b r ts => do
    let outcome ← attempt (WeakSet.report run s r)
    match outcome with
    | .ok _ => pure ()
    | .error p => log (.listenerPanicked r.ticket p)
    let policy := (← look (·.collection s)).settings.policy
    return { x with todo := .batch s (b.reportEnded policy outcome) ts :: x.todo }
  | .insert s e => do
    let sec ← insertSection run s e
    return { x with todo := sec.held.map .release ++ .inserted sec.result :: x.todo }
  | .remove s q => do
    let sec ← removeSection run s q
    return { x with todo := sec.held.map .release ++ .removed sec.result :: x.todo }
  | .release e => do
    Act.release run e
    return x
  | .inserted r => do
    match ← settle r with
    | none => return x
    | some t =>
      log (.inserted t)
      return { x with added := x.added + 1 }
  | .removed r => do
    match ← settle r with
    | none => return x
    | some (t, h) =>
      bookRemoval t h
      return { x with removed := x.removed + 1 }

/-- A thread that a panic ended. It only lets go of what it holds. -/
def Worker.fail (x : Worker) (p : Panic) : Worker :=
  { x with todo := x.todo.filter Stage.isRelease, failure := some p }

/-- Do the next stage, if there is one. -/
def Worker.step (run : Runner) (x : Worker) : Act Worker := do
  match x.todo with
  | [] => return x
  | stage :: todo =>
    let rest : Worker := { x with todo := todo }
    match ← attempt (rest.perform run stage) with
    | .ok y => return y
    | .error p => return rest.fail p

/-- The sum of what `f` makes of the members of a list. -/
def sumBy {α : Type} (f : α → Nat) (xs : List α) : Nat :=
  xs.foldr (fun x n => f x + n) 0

/-- How many stages of a thread are uncertain. -/
def Worker.uncertain (x : Worker) : Nat :=
  x.todo.countP Stage.isUncertain

/-- How many stages a thread is known to have before it. -/
def Worker.known (x : Worker) : Nat :=
  sumBy Stage.known x.todo

/-- Threads at work together. -/
abbrev Crew := List Worker

namespace Crew

/-- Let one thread do its next stage. -/
def step (run : Runner) (crew : Crew) (i : Nat) : Act Crew :=
  match crew[i]? with
  | none => return crew
  | some x => do return crew.set i (← x.step run)

/-- Let threads do stages in the order of a schedule. -/
def follow (run : Runner) (schedule : List Nat) (crew : Crew) : Act Crew :=
  schedule.foldlM (step run) crew

/-- Whether all threads are done. -/
def isDone (crew : Crew) : Bool :=
  crew.all fun x => x.todo.isEmpty

/-- One stage of each thread in turn, as often as the threads are known to have stages. -/
def rounds (crew : Crew) : List Nat :=
  (List.replicate (sumBy Worker.known crew) (List.range crew.length)).flatten

/-- Let all threads do one stage each, in turn, until they are done, for at most `n` times their
`rounds`. -/
def finish (run : Runner) : Nat → Crew → Act Crew
  | 0, crew => return crew
  | n + 1, crew => do
    if crew.isDone then
      return crew
    finish run n (← follow run crew.rounds crew)

/-- Let all threads do one stage each, in turn, until they are done. The `rounds` of a crew bring
each thread to its end or through an uncertain stage. -/
def complete (run : Runner) (crew : Crew) : Act Crew :=
  finish run (sumBy Worker.uncertain crew + 1) crew

/-- Let the panic of a thread out, if there was any. -/
def raise (crew : Crew) : Act Unit :=
  match crew.findSome? Worker.failure with
  | none => pure ()
  | some p => throw p

/-- How many insertions succeeded. -/
def added (crew : Crew) : Nat :=
  sumBy Worker.added crew

/-- How many removals succeeded. -/
def removed (crew : Crew) : Nat :=
  sumBy Worker.removed crew

end Crew

/-- Carry out an act of several threads. Nobody collects the log meanwhile. -/
def asCrew {α : Type} (a : Act α) : Act α := do
  note .crewBegan
  let r ← attempt a
  note .crewEnded
  settle r

/-- A new element without scripts, made by a thread. -/
def createPlain (v : Value) : Act ElementId :=
  update (·.create ⟨⟨v, "par"⟩, none, none⟩)

/-- Add one value to a set from several threads at once, each with an element of its own. -/
def addTogether (run : Runner) (s : SetId) (v : Value) (threads : Nat) : Act AddedTogether := do
  discard (sweep run s)
  let es ← (List.replicate threads v).mapM createPlain
  holding run es do
    let crew ← Crew.complete run (es.map fun e => Worker.ofChores [.add s e])
    Crew.raise crew
    return ⟨Crew.added crew, ← length run s⟩

/-- The chores for the `i`th value of a thread: every third element is let go of, the one after it
is removed first, and the next is kept. -/
def mixedChores (s : SetId) (i : Nat) (v : Value) (e : ElementId) : List Chore :=
  match i % 3 with
  | 0 => [.add s e, .release e]
  | 1 => [.add s e, .remove s (.value v), .release e]
  | _ => [.add s e]

/-- The values of a thread, with their numbers. -/
def mixedValues (thread count : Nat) : List (Nat × Value) :=
  (List.range count).map fun i => (i, .number (UInt64.ofNat (thread * count + i)))

/-- Make the elements of a thread; its chores, and the elements that it keeps. -/
def mixedWork (s : SetId) (thread count : Nat) : Act (List Chore × List ElementId) := do
  let work ← (mixedValues thread count).mapM fun (i, v) => do
    let e ← createPlain v
    return (mixedChores s i v e, if i % 3 = 2 then [e] else [])
  return (work.flatMap Prod.fst, work.flatMap Prod.snd)

/-- The handles of a set after a sweep, and how often its listener was called. -/
def tally (run : Runner) (s : SetId) : Act (Nat × Nat) := do
  let n ← length run s
  return (n, ← look fun w => (w.collection s).calls)

/-- Have several threads add, remove and let go of elements of a set. -/
def mixIn (run : Runner) (s : SetId) (threads count : Nat) : Act MixedTogether := do
  let work ← (List.range threads).mapM fun t => mixedWork s t count
  let kept := work.flatMap Prod.snd
  let (crew, size, calls) ← holding run kept do
    let crew ← Crew.complete run (work.map fun x => Worker.ofChores x.1)
    Crew.raise crew
    return (crew, ← tally run s)
  let (sizeAfter, callsAfter) ← tally run s
  return ⟨Crew.added crew, Crew.removed crew, kept.length, size, calls, sizeAfter, callsAfter⟩

/-- Have several threads add, remove and let go of elements of a set of their own. -/
def mixTogether (run : Runner) (settings : Settings) (threads count : Nat) :
    Act MixedTogether := do
  let s ← construct ⟨"", settings, .keyed, true, .silent⟩ none
  let outcome ← attempt (mixIn run s threads count)
  destroy s
  settle outcome

end WeakSet
