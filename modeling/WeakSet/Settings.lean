/-!
# Settings

How a set is set up: how many elements it is made for, how many threads are expected to update
it at once, which kind of reference its handles keep, and what a sweep does when the listener
panics. From the number of threads follow the number of shards, a power of two, and the shard of
each hash: its upper half modulo that number (`shardOf`).
-/

namespace WeakSet

/-- The largest admissible concurrency level. -/
def maxConcurrency : Nat := 65536

/-- The largest admissible initial capacity. -/
def maxCapacity : Nat := 1073741824

/-- What a handle keeps of its element. -/
inductive Kind where
  /-- The element can be reached as long as it lives. -/
  | weak
  /-- Only presence is tracked; the element is never reached. -/
  | phantom
  deriving DecidableEq, Repr, Inhabited

/-- What a sweep does when the listener panics. -/
inductive Policy where
  /-- Log it and go on. -/
  | log
  /-- Log it, finish the batch, then let the first panic out. -/
  | escalate
  deriving DecidableEq, Repr, Inhabited

/-- Why a call is answered with an error. -/
inductive Fault where
  | invalidArgument (field reason : String)
  /-- An iteration has no element left. -/
  | exhausted
  /-- A live element of the same value is in the set. -/
  | duplicate
  deriving DecidableEq, Repr, Inhabited

namespace Fault

/-- The wording of a fault. -/
def message : Fault → String
  | invalidArgument field reason => s!"invalid argument `{field}`: {reason}"
  | exhausted => "iteration exhausted"
  | duplicate => "an equal element is already present"

end Fault

structure Settings where
  capacity : Nat := 16
  concurrency : Nat := 16
  kind : Kind := .weak
  policy : Policy := .log
  deriving DecidableEq, Repr, Inhabited

/-- The least power of two that is not below a number. -/
@[irreducible] def roundUp (n : Nat) : Nat :=
  if n ≤ 1 then 1 else 1 <<< ((n - 1).log2 + 1)

namespace Settings

/-- The settings of a set that asks for nothing in particular. -/
def standard : Settings := {}

/-- The first fault of the settings, if they have one. The concurrency level is looked at first. -/
def fault? (c : Settings) : Option Fault :=
  if c.concurrency = 0 then
    some (.invalidArgument "concurrency_level" "must be at least 1")
  else if maxConcurrency < c.concurrency then
    some (.invalidArgument "concurrency_level" s!"must not exceed {maxConcurrency}")
  else if maxCapacity < c.capacity then
    some (.invalidArgument "initial_capacity" s!"must not exceed {maxCapacity}")
  else
    none

/-- The number of shards: the concurrency level rounded up to a power of two. -/
def shardCount (c : Settings) : Nat :=
  roundUp c.concurrency

/-- The capacity of each shard, so that together they hold the capacity asked for. -/
def shardCapacity (c : Settings) : Nat :=
  (min c.capacity maxCapacity + c.shardCount - 1) / c.shardCount

end Settings

/-- The shard of a hash among `count` shards, `count` a power of two. The upper half of the hash
decides, and the lower half is left to the index of the shard. -/
def shardOf (count : Nat) (hash : UInt64) : Nat :=
  (hash >>> 32).toNat &&& (count - 1)

end WeakSet
