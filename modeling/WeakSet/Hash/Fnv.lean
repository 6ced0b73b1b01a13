import WeakSet.Hash.Bytes

/-!
# The FNV-1a hash

FNV-1a in 64 bits: each byte is folded in by exclusive or, and then the state is multiplied by a
prime, modulo `2 ^ 64`.
-/

namespace WeakSet.Hash

/-- The state before the first byte. -/
def fnvBasis : UInt64 := 0xcbf29ce484222325

/-- The factor of each round. -/
def fnvPrime : UInt64 := 0x100000001b3

/-- FNV-1a, 64 bits. -/
def fnv (bs : List UInt8) : UInt64 :=
  bs.foldl (fun h b => (h ^^^ b.toUInt64) * fnvPrime) fnvBasis

end WeakSet.Hash
