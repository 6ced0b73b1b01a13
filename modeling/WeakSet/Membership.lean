import WeakSet.Sweep

/-!
# Membership

Putting elements into a set, finding them and taking them out. Each operation sweeps first. A
probe looks only at handles whose stored hash is the hash of what it looks for, takes a reference
to the element of each that it can reach, and compares. The references are let go of when the
shard is unlocked again; if a comparison panics, the one under comparison goes at once.

At most one live element of each value is in a set: an element is stored under the same lock under
which the probe found no equal one.
-/

namespace WeakSet

open Act

/-- What a probe looks for: a value, or what equals an element. -/
inductive Query where
  | value (v : Value)
  | element (e : ElementId)
  deriving DecidableEq, Repr, Inhabited

namespace Query

/-- The value that is looked for. -/
def target (q : Query) (w : World) : Value :=
  match q with
  | value v => v
  | element e => w.value e

end Query

/-- The part of one element in a comparison. -/
def compareHook (run : Runner) (e : ElementId) : Act Unit := do
  match ← look (·.onEqual e) with
  | none => pure ()
  | some script =>
    note (.compared (← look (·.face e)).tag)
    run .equality script

/-- Whether two elements are equal: each may have code of its own to run, and then their values
decide. -/
def sameElements (run : Runner) (a b : ElementId) : Act Bool := do
  compareHook run a
  compareHook run b
  look fun w => w.value a = w.value b

/-- Whether a stored element is what is looked for. -/
def matchesQuery (run : Runner) (q : Query) (stored : ElementId) : Act Bool :=
  match q with
  | .value v => look fun w => w.value stored = v
  | .element e => sameElements run stored e

/-- What a probe comes back with: the references that it took, in order, and the key of the first
handle that matched, or the panic of a comparison. -/
structure Probe where
  held : List ElementId := []
  found : Except Panic (Option SlotKey)
  deriving Inhabited

/-- Probe the handles in order. -/
def probe (run : Runner) (q : Query) : List (SlotKey × Handle) → Act Probe
  | [] => return { found := .ok none }
  | (key, h) :: rest => do
    match ← reach h with
    | none => probe run q rest
    | some e =>
      match ← attempt (matchesQuery run q e) with
      | .error p =>
        release run e
        return { found := .error p }
      | .ok true => return { held := [e], found := .ok (some key) }
      | .ok false =>
        let p ← probe run q rest
        return { p with held := e :: p.held }

/-- Where a query belongs: its hash and its shard. -/
def locus (s : SetId) (q : Query) : Act (UInt64 × Nat) :=
  look fun w =>
    let hash := (w.collection s).scheme.hash (q.target w)
    (hash, shardOf (w.shardCount s) hash)

/-- Probe a shard that is locked. -/
def probeShard (run : Runner) (s : SetId) (k : Nat) (hash : UInt64) (q : Query) : Act Probe := do
  probe run q ((← look (·.shard s k)).candidates hash)

/-- The locked part of an operation that probes: the references to let go of, and its result. -/
structure Section (α : Type) where
  held : List ElementId
  result : Except Panic α
  deriving Inhabited

/-- Probe a shard under its lock and go on, still under the lock, with what was found. -/
def probeThen {α : Type} (run : Runner) (s : SetId) (q : Query)
    (go : UInt64 → Nat → Option SlotKey → Act α) : Act (Section α) := do
  let (hash, k) ← locus s q
  guarded s do
    let p ← probeShard run s k hash q
    match p.found with
    | .error e => return ⟨p.held, .error e⟩
    | .ok found => return ⟨p.held, .ok (← go hash k found)⟩

/-- Let go of what a section held, and go on with its result. -/
def Section.close {α : Type} (run : Runner) (x : Section α) : Act α := do
  releaseAll run x.held
  settle x.result

/-- The locked part of an insertion: the ticket of the new handle, or nothing if an equal element
is there. -/
def insertSection (run : Runner) (s : SetId) (e : ElementId) : Act (Section (Option Ticket)) :=
  probeThen run s (.element e) fun hash k found =>
    match found with
    | some _ => return none
    | none => some <$> update fun w =>
        w.store s k ⟨e, hash, (w.collection s).settings.kind⟩

/-- The locked part of a lookup. -/
def findSection (run : Runner) (s : SetId) (q : Query) : Act (Section (Option Ticket)) :=
  probeThen run s q fun _ k found => return found.map fun key => ⟨s, k, key⟩

/-- The locked part of a removal: what was taken out. -/
def removeSection (run : Runner) (s : SetId) (q : Query) :
    Act (Section (Option (Ticket × Handle))) :=
  probeThen run s q fun _ k found =>
    match found with
    | none => return none
    | some key => update fun w =>
        let t : Ticket := ⟨s, k, key⟩
        match w.takeOut t .removed with
        | (none, w) => (none, w)
        | (some h, w) => (some (t, h), w)

/-- Put an element into a set; its ticket, or nothing if an equal one is there. -/
def insert (run : Runner) (s : SetId) (e : ElementId) : Act (Option Ticket) := do
  discard (sweep run s)
  let t? ← (← insertSection run s e).close run
  if let some t := t? then
    log (.inserted t)
  return t?

/-- Put an element into a set; whether it came in. -/
def add (run : Runner) (s : SetId) (e : ElementId) : Act Bool :=
  Option.isSome <$> insert run s e

/-- Find what equals a query, without a sweep. -/
def find (run : Runner) (s : SetId) (q : Query) : Act (Option Ticket) := do
  (← findSection run s q).close run

/-- The ticket of what equals a query. -/
def ticketOf (run : Runner) (s : SetId) (q : Query) : Act (Option Ticket) := do
  discard (sweep run s)
  find run s q

/-- Whether something equals a query. -/
def contains (run : Runner) (s : SetId) (q : Query) : Act Bool :=
  Option.isSome <$> ticketOf run s q

/-- Book a removal: the element is watched no longer, and the log says so. -/
def bookRemoval (t : Ticket) (h : Handle) : Act Unit := do
  forget t h
  log (.removed t)

/-- Take out what equals a query; whether there was anything. -/
def remove (run : Runner) (s : SetId) (q : Query) : Act Bool := do
  discard (sweep run s)
  match ← (← removeSection run s q).close run with
  | none => return false
  | some (t, h) =>
    bookRemoval t h
    return true

/-- Do something with each thing of a list; whether it succeeded for any. -/
def anyOf {α : Type} (f : α → Act Bool) (xs : List α) : Act Bool :=
  xs.foldlM (fun changed x => do return (← f x) || changed) false

/-- Whether something holds for each thing of a list; the first that fails ends it. -/
def allOf {α : Type} (f : α → Act Bool) : List α → Act Bool
  | [] => return true
  | x :: xs => do
    if ← f x then allOf f xs else return false

/-- Put elements into a set; whether any came in. -/
def addAll (run : Runner) (s : SetId) (es : List ElementId) : Act Bool :=
  anyOf (add run s) es

/-- Take out what equals one of several queries; whether there was anything. -/
def removeAll (run : Runner) (s : SetId) (qs : List Query) : Act Bool :=
  anyOf (remove run s) qs

/-- Whether each of several queries is met. Never so for none. -/
def containsAll (run : Runner) (s : SetId) (qs : List Query) : Act Bool :=
  if qs.isEmpty then return false else allOf (contains run s) qs

/-- How many handles there are, each shard read under its lock. -/
def count (s : SetId) : Act Nat := do
  (List.range (← look (·.shardCount s))).foldlM
    (fun n k => return n + (← guarded s (look fun w => (w.shard s k).size))) 0

/-- How many handles there are after a sweep. -/
def length (run : Runner) (s : SetId) : Act Nat := do
  discard (sweep run s)
  count s

end WeakSet
