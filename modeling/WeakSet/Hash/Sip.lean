import WeakSet.Hash.Bytes

/-!
# SipHash

SipHash with one round per word and three final rounds, under a key of two words. The message is
cut into words of eight bytes, least significant first; the last word holds the bytes left over
and, in its top byte, the length of the message modulo 256.
-/

namespace WeakSet.Hash

/-- The four words of state. -/
structure Sip where
  v0 : UInt64
  v1 : UInt64
  v2 : UInt64
  v3 : UInt64
  deriving DecidableEq, Repr

namespace Sip

/-- `w` turned left by `n` bits, `0 < n < 64`. -/
def turn (w n : UInt64) : UInt64 :=
  (w <<< n) ||| (w >>> (64 - n))

/-- The state before the first word, under the key `k0`, `k1`. -/
def start (k0 k1 : UInt64) : Sip where
  v0 := k0 ^^^ 0x736f6d6570736575
  v1 := k1 ^^^ 0x646f72616e646f6d
  v2 := k0 ^^^ 0x6c7967656e657261
  v3 := k1 ^^^ 0x7465646279746573

/-- One round of mixing. -/
def round (s : Sip) : Sip :=
  let a0 := s.v0 + s.v1
  let a1 := turn s.v1 13 ^^^ a0
  let b0 := turn a0 32
  let a2 := s.v2 + s.v3
  let a3 := turn s.v3 16 ^^^ a2
  let c0 := b0 + a3
  let c3 := turn a3 21 ^^^ c0
  let c2 := a2 + a1
  let c1 := turn a1 17 ^^^ c2
  ⟨c0, c1, turn c2 32, c3⟩

/-- Take in one word. -/
def absorb (s : Sip) (w : UInt64) : Sip :=
  let t := round { s with v3 := s.v3 ^^^ w }
  { t with v0 := t.v0 ^^^ w }

/-- Take in a message of `total` bytes of which `bs` is left. -/
def absorbAll (total : Nat) (s : Sip) : List UInt8 → Sip
  | a :: b :: c :: d :: e :: f :: g :: h :: rest =>
    absorbAll total (s.absorb (wordOfBytes [a, b, c, d, e, f, g, h])) rest
  | bs => s.absorb (wordOfBytes bs ||| (UInt64.ofNat total <<< 56))

/-- The final rounds. -/
def finish (s : Sip) : UInt64 :=
  let t := round (round (round { s with v2 := s.v2 ^^^ 0xff }))
  t.v0 ^^^ t.v1 ^^^ t.v2 ^^^ t.v3

end Sip

/-- SipHash-1-3 of `bs` under the key `k0`, `k1`. -/
def sipKeyed (k0 k1 : UInt64) (bs : List UInt8) : UInt64 :=
  (Sip.absorbAll bs.length (Sip.start k0 k1) bs).finish

/-- SipHash-1-3 under the zero key. -/
def sip (bs : List UInt8) : UInt64 :=
  sipKeyed 0 0 bs

end WeakSet.Hash
