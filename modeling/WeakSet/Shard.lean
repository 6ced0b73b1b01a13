import WeakSet.Settings
import WeakSet.Ticket

/-!
# Shards

A shard stores handles in generational slots and finds them through an index of slot keys filed
under hashes. The index does not know the handles: when it outgrows its room it files every key
anew, under the hash that its user tells for the key. A shard tells the hash stored in the handle,
so no key ever moves to another hash.

A shard works with any hash table (`RawTable`). The one that is used is a list (`Index`).
-/

namespace WeakSet

/-- What a set keeps of an element: which it is, the hash of its value, and the kind of the
reference. A handle does not keep the element alive. -/
structure Handle where
  element : ElementId
  hash : UInt64
  kind : Kind
  deriving DecidableEq, Repr, Inhabited

/-- A hash table of slot keys. The table knows of a key only the hash under which it was filed: a condition
tells which key is meant by a lookup or a removal, and a function tells the hashes of the keys when the
table grows. -/
class RawTable (T : Type) where
  withRoom : Nat → T
  get : T → UInt64 → (SlotKey → Bool) → Option SlotKey
  insert : T → UInt64 → SlotKey → (SlotKey → UInt64) → T
  removeEntry : T → UInt64 → (SlotKey → Bool) → Option SlotKey × T
  clear : T → T

/-- Slot keys filed under hashes, with room for some before it has to grow. -/
structure Index where
  room : Nat := 0
  filed : List (UInt64 × SlotKey) := []
  deriving Repr, Inhabited

namespace Index

/-- File a key. A full index grows first and files its keys anew, as `rehash` tells. -/
def insert (ix : Index) (hash : UInt64) (key : SlotKey) (rehash : SlotKey → UInt64) : Index :=
  if ix.filed.length < ix.room then
    { ix with filed := ix.filed ++ [(hash, key)] }
  else
    { room := 2 * ix.room + 4
      filed := ix.filed.map (fun e => (rehash e.2, e.2)) ++ [(hash, key)] }

/-- The keys filed under a hash. -/
def filedUnder (ix : Index) (hash : UInt64) : List SlotKey :=
  ix.filed.filterMap fun e => if e.1 = hash then some e.2 else none

/-- The first key filed under a hash that meets a condition. -/
def get (ix : Index) (hash : UInt64) (p : SlotKey → Bool) : Option SlotKey :=
  (ix.filedUnder hash).find? p

/-- Take the first key that meets a condition out from under a hash. -/
def removeEntry (ix : Index) (hash : UInt64) (p : SlotKey → Bool) : Option SlotKey × Index :=
  match ix.get hash p with
  | none => (none, ix)
  | some key => (some key, { ix with filed := ix.filed.erase (hash, key) })

instance : RawTable Index where
  withRoom room := { room := room }
  get := get
  insert := insert
  removeEntry := removeEntry
  clear ix := { ix with filed := [] }

end Index

structure Shard (T : Type := Index) [RawTable T] where
  index : T := RawTable.withRoom 0
  slots : Slots Handle := {}
  deriving Repr

namespace Shard

variable {T : Type} [RawTable T]

instance : Inhabited (Shard T) where
  default := {}

/-- An empty shard with room for some handles. -/
def withRoom (room : Nat) : Shard T where
  index := RawTable.withRoom room

def size (s : Shard T) : Nat := s.slots.size

def get? (s : Shard T) (k : SlotKey) : Option Handle := s.slots.get? k

def entries (s : Shard T) : List (SlotKey × Handle) := s.slots.entries

def keys (s : Shard T) : List SlotKey := s.slots.keys

/-- The hash stored under a key, zero if there is none. -/
def hashAt (slots : Slots Handle) (k : SlotKey) : UInt64 :=
  match slots.get? k with
  | some h => h.hash
  | none => 0

/-- Store a handle. Whether an equal element is there already is for the caller to find out. -/
def insert (s : Shard T) (h : Handle) : SlotKey × Shard T :=
  let (key, slots) := s.slots.insert h
  (key, { index := RawTable.insert s.index h.hash key (hashAt slots), slots := slots })

/-- Take out the handle under a key, if there is one. -/
def remove (s : Shard T) (k : SlotKey) : Option Handle × Shard T :=
  match s.get? k with
  | none => (none, s)
  | some h =>
    let (_, index) := RawTable.removeEntry s.index h.hash (· = k)
    (some h, { index := index, slots := s.slots.erase k })

/-- Take out every handle, by position. -/
def drain (s : Shard T) : List (SlotKey × Handle) × Shard T :=
  (s.entries, { index := RawTable.clear s.index, slots := s.slots.clear })

/-- The handles a probe for a hash has to look at. -/
def candidates (s : Shard) (hash : UInt64) : List (SlotKey × Handle) :=
  (s.index.filedUnder hash).filterMap fun k =>
    match s.get? k with
    | some h => if h.hash = hash then some (k, h) else none
    | none => none

end Shard

end WeakSet
