/-!
# Values

What an element carries, and what a lookup asks for: an unsigned 64-bit number or a text. The
number `97`, the text `"97"` and the text `"a"` are three different values.

`Value.le` is the order in which collections without an order of their own are listed: numbers
before texts, numbers by size, texts by code point, which is the order of their UTF-8 bytes.
-/

namespace WeakSet

inductive Value where
  | number (n : UInt64)
  | text (s : String)
  deriving DecidableEq, Repr, Inhabited

namespace Value

/-- How a value is displayed: a number in decimal, a text as it is. -/
def display : Value → String
  | number n => toString n.toNat
  | text s => s

/-- The size of a value: the number itself, or the length of the text in UTF-8 bytes. -/
def magnitude : Value → Nat
  | number n => n.toNat
  | text s => s.utf8ByteSize

/-- Numbers come before texts, numbers by size, texts bytewise. -/
def le : Value → Value → Bool
  | number a, number b => a ≤ b
  | number _, text _ => true
  | text _, number _ => false
  | text a, text b => a ≤ b

/-- The numbers `first`, `first + step`, …, `n` of them, modulo `2 ^ 64`. -/
def range (first : UInt64) (n : Nat) (step : UInt64) : List Value :=
  (List.range n).map fun i => number (first + UInt64.ofNat i * step)

end Value

/-- An element as it is shown: its value and the name under which it was made. -/
structure Face where
  value : Value
  tag : String
  deriving DecidableEq, Repr, Inhabited

/-- The order in which elements are listed where the set has no order to show. -/
def Face.le (a b : Face) : Bool :=
  if a.value = b.value then a.tag ≤ b.tag else a.value.le b.value

/-- Whether the size of the value is congruent to a remainder. -/
def Face.isCongruent (modulus remainder : Nat) (f : Face) : Bool :=
  f.value.magnitude % max modulus 1 = remainder

/-- The names `stem ++ first`, `stem ++ (first + 1)`, …, `n` of them. -/
def numberedNames (stem : String) (first n : Nat) : List String :=
  (List.range n).map fun i => stem ++ toString (first + i)

end WeakSet
