import WeakSet.Value

/-!
# The bytes a value hashes as

A number is its eight bytes, least significant first. A text is its UTF-8 bytes and a closing
byte `0xff`, which no UTF-8 text contains, so a text is never the beginning of another.
-/

namespace WeakSet.Hash

/-- The eight bytes of a word, least significant first. -/
def wordBytes (w : UInt64) : List UInt8 :=
  [w.toUInt8, (w >>> 8).toUInt8, (w >>> 16).toUInt8, (w >>> 24).toUInt8,
    (w >>> 32).toUInt8, (w >>> 40).toUInt8, (w >>> 48).toUInt8, (w >>> 56).toUInt8]

/-- The word whose bytes, least significant first, are `bs`; missing ones count as zero. -/
def wordOfBytes (bs : List UInt8) : UInt64 :=
  bs.foldr (fun b w => (w <<< 8) ||| b.toUInt64) 0

/-- The UTF-8 bytes of a text. -/
def textBytes (s : String) : List UInt8 :=
  s.toUTF8.data.toList

/-- Everything a value feeds to a hash function. -/
def bytes : Value → List UInt8
  | .number n => wordBytes n
  | .text s => textBytes s ++ [0xff]

end WeakSet.Hash
