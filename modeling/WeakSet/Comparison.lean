import WeakSet.Retain

/-!
# Comparing and hashing sets

A set equals itself. It equals another if both have as many handles after a sweep, every handle of
the first lets its element be reached, and the second contains an equal element for each. The hash
of a set is the sum of the hashes of its reachable values under a scheme of its own, modulo
`2 ^ 64`, so it does not depend on how the set orders or hashes them.
-/

namespace WeakSet

open Act

/-- References to the elements of handles that let them be reached, and whether all do. -/
def reachAll : List (SlotKey × Handle) → Act (List ElementId × Bool)
  | [] => return ([], true)
  | (_, h) :: rest => do
    match ← reach h with
    | none => return ((← reachAll rest).1, false)
    | some e =>
      let (es, complete) ← reachAll rest
      return (e :: es, complete)

/-- References to the reachable elements of some shards, and whether there are no others. After a
refused entry what is held already is let go of. -/
def reachableIn (run : Runner) (s : SetId) (es : List ElementId) (complete : Bool) :
    List Nat → Act (List ElementId × Bool)
  | [] => return (es, complete)
  | k :: ks => do
    match ← attempt (guarded s do reachAll (← look (·.shard s k)).entries) with
    | .error p =>
      releaseAll run es
      throw p
    | .ok (more, all) => reachableIn run s (es ++ more) (complete && all) ks

/-- References to the reachable elements of a set, and whether there are no others. -/
def reachable (run : Runner) (s : SetId) : Act (List ElementId × Bool) := do
  reachableIn run s [] true (← shards s)

/-- Whether two sets are equal. -/
def sameSets (run : Runner) (a b : SetId) : Act Bool := do
  if a = b then
    return true
  let n ← length run a
  let m ← length run b
  if n ≠ m then
    return false
  let (es, complete) ← reachable run a
  holding run es do
    if complete then
      allOf (fun e => contains run b (.element e)) es
    else
      return false

/-- The hash of an element, whatever set it is in. -/
def valueHash (v : Value) : UInt64 :=
  Hash.Scheme.sip.hash v

/-- The hash of a set. -/
def hashOf (run : Runner) (s : SetId) : Act UInt64 := do
  discard (sweep run s)
  let (es, _) ← reachable run s
  holding run es (look fun w => es.foldl (fun sum e => sum + valueHash (w.value e)) 0)

end WeakSet
