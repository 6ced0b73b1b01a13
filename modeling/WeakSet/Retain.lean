import WeakSet.Membership

/-!
# Filtering and clearing

`retain` goes through a set shard by shard. It takes a reference to the element of every handle of
a shard whose element is alive, asks the predicate about each with no shard locked, and takes out
the handles that were not to be kept, as far as they are still there. A handle that lets nobody
reach its element is not kept, and the predicate is not asked. The references of a shard are let go
of when the shard is done. Handles whose element ended are left to the next sweep, and nothing of
all this is logged.

`clear` takes out every handle, without a sweep and without calling the listener.
-/

namespace WeakSet

open Act

/-- References to the elements of those handles whose element is alive. -/
def pinAll : List (SlotKey × Handle) → Act (List (SlotKey × ElementId))
  | [] => return []
  | (key, h) :: rest => do
    match ← upgrade h.element with
    | none => pinAll rest
    | some e => return (key, e) :: (← pinAll rest)

/-- The keys of the elements that a predicate does not keep. -/
def rejected (keep : ElementId → Act Bool) : List (SlotKey × ElementId) → Act (List SlotKey)
  | [] => return []
  | (key, e) :: rest => do
    if ← keep e then rejected keep rest else return key :: (← rejected keep rest)

/-- Take out the handles of some keys of a shard that is locked; the keys that had one. -/
def takeOutAll (s : SetId) (k : Nat) : List SlotKey → Act (List SlotKey)
  | [] => return []
  | key :: rest => do
    match ← update (·.takeOut ⟨s, k, key⟩ .filtered) with
    | none => takeOutAll s k rest
    | some _ => return key :: (← takeOutAll s k rest)

/-- Filter one shard; whether anything went. -/
def retainShard (run : Runner) (s : SetId) (keep : ElementId → Act Bool) (k : Nat) : Act Bool := do
  let pinned ← guarded s do pinAll (← look (·.shard s k)).entries
  holding run (pinned.map Prod.snd) do
    let doomed ← rejected keep pinned
    if doomed.isEmpty then
      return false
    let taken ← guarded s (takeOutAll s k doomed)
    pinned.forM fun (key, e) =>
      if taken.contains key then change (·.unwatch e ⟨s, k, key⟩) else pure ()
    return !taken.isEmpty

/-- The shards of a set, in order. -/
def shards (s : SetId) : Act (List Nat) :=
  look fun w => List.range (w.shardCount s)

/-- Take out every element for which `keep` fails; whether anything went. -/
def retain (run : Runner) (s : SetId) (keep : ElementId → Act Bool) : Act Bool := do
  discard (sweep run s)
  let kind ← look fun w => (w.collection s).settings.kind
  let keep := fun e => if kind = .weak then keep e else return false
  anyOf (retainShard run s keep) (← shards s)

/-- Whether an element meets one of several queries; the first that is met ends it. -/
def meetsAny (run : Runner) (e : ElementId) : List Query → Act Bool
  | [] => return false
  | q :: qs => do
    if ← matchesQuery run q e then return true else meetsAny run e qs

/-- Take out every element that meets none of several queries; whether anything went. For no
queries nothing goes. -/
def retainAll (run : Runner) (s : SetId) (qs : List Query) : Act Bool := do
  if qs.isEmpty then
    discard (sweep run s)
    return false
  retain run s fun e => meetsAny run e qs

/-- Take out every handle of a shard. -/
def clearShard (s : SetId) (k : Nat) : Act Unit := do
  let taken ← guarded s (update (·.takeAll s k))
  taken.forM fun (t, h) => forget t h

/-- Take out every handle. -/
def clear (s : SetId) : Act Unit := do
  (← shards s).forM (clearShard s)
  log .cleared

end WeakSet
