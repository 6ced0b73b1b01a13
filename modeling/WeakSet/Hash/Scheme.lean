import WeakSet.Hash.Fnv
import WeakSet.Hash.Sip

/-!
# Hash schemes

A set is built with one of five schemes of its own or with any other function of the value. Equal
values hash alike under each; the sets rely on nothing else.
-/

namespace WeakSet.Hash

inductive Scheme where
  /-- A number is its own hash; a text is the number it begins with. -/
  | identity
  | fnv
  /-- SipHash under the zero key. -/
  | sip
  /-- Every value has the same hash. -/
  | constant (n : UInt64)
  /-- SipHash under a key that is nobody's business. -/
  | keyed
  /-- A function of the client's. -/
  | custom (f : Value → UInt64)
  deriving Inhabited

/-- The decimal digits at the beginning of a text. -/
def leadingDigits (s : String) : List Char :=
  s.toList.takeWhile Char.isDigit

/-- Decimal digits read as a number, modulo `2 ^ 64`. -/
def ofDigits (cs : List Char) : UInt64 :=
  cs.foldl (fun n c => n * 10 + (c.val - '0'.val).toUInt64) 0

/-- The number a text begins with, or the FNV hash of its bytes if it begins with none. -/
def textIdentity (s : String) : UInt64 :=
  match leadingDigits s with
  | [] => Hash.fnv (textBytes s)
  | ds => ofDigits ds

namespace Scheme

/-- The hash of a value. -/
def hash : Scheme → Value → UInt64
  | identity, .number n => n
  | identity, .text s => textIdentity s
  | fnv, v => Hash.fnv (bytes v)
  | sip, v => Hash.sip (bytes v)
  | constant n, _ => n
  | keyed, v => sipKeyed 0x9e3779b97f4a7c15 0xd1b54a32d192ed03 (bytes v)
  | custom f, v => f v

/-- Whether the hashes of this scheme are kept from its users. -/
def isHidden : Scheme → Bool
  | keyed => true
  | _ => false

end Scheme

end WeakSet.Hash
