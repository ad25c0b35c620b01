import Federation.Number.Decimal

/-!
# Punycode

Punycode writes a text in ASCII. The ASCII characters of the text come first; after a hyphen follow
numbers, one for each other character in ascending order, which tell how far its code point and
place lie from those of the character before. The digits of a number have values that depend on the
numbers before it, so that numbers of like size are short.
-/

namespace Federation.Url.Punycode

/-! ## Digits -/

/-- The numbers of a text are smaller than this. -/
def numberLimit : Nat := 4294967296

/-- The value of a digit: a letter, or a decimal digit after them. -/
def digit? (c : Char) : Option Nat :=
  if c.isAlpha then some (c.toLower.toNat - 'a'.toNat)
  else if c.isDigit then some (26 + (c.toNat - '0'.toNat))
  else none

/-- A digit below its threshold is the last of a number. Digits stand at the places 36, 72, 108 and
so on. -/
def threshold (place bias : Nat) : Nat :=
  min 26 (max 1 (place - bias))

theorem threshold_pos (place bias : Nat) : 1 ≤ threshold place bias := by
  simp only [threshold]
  omega

theorem threshold_le (place bias : Nat) : threshold place bias ≤ 26 := by
  simp only [threshold]
  omega

/-! ## Bias -/

/-- The places that a number of some size takes, and what is left of it. -/
def reduce (size place : Nat) : Nat × Nat :=
  if 455 < size then reduce (size / 35) (place + 36) else (size, place)
termination_by size
decreasing_by omega

/-- The bias after a number, which was used for the given length of text. -/
def adapt (number length : Nat) (isFirst : Bool) : Nat :=
  let size := if isFirst then number / 700 else number / 2
  let (size, place) := reduce (size + size / length) 0
  place + 36 * size / (size + 38)

/-! ## Decoding -/

/-- A text that is being decoded. -/
structure Decoder where
  text : List Char
  /-- The code point of the last character. -/
  code : Nat
  /-- The place after the last character, and the number read so far added to it. -/
  position : Nat
  /-- The place after the last character. -/
  start : Nat
  bias : Nat
  /-- The weight and place of the next digit. -/
  weight : Nat
  place : Nat

namespace Decoder

/-- A decoder that has read the ASCII characters of a text. -/
def ofBasic (text : List Char) : Decoder :=
  { text := text, code := 128, position := 0, start := 0, bias := 72, weight := 1, place := 36 }

/-- The number that has been read gives the next character. -/
def insert? (d : Decoder) : Option Decoder := do
  let length := d.text.length + 1
  let code := d.code + d.position / length
  let index := d.position % length
  guard (code < 0xD800 || (0xDFFF < code && code < 0x110000))
  return {
    text := d.text.insertIdx index (.ofNat code), code := code,
    position := index + 1, start := index + 1,
    bias := adapt (d.position - d.start) length (d.start == 0),
    weight := 1, place := 36 }

/-- Reads a digit. -/
def read? (d : Decoder) (c : Char) : Option Decoder := do
  let digit ← digit? c
  let limit := threshold d.place d.bias
  let d := { d with position := d.position + digit * d.weight }
  guard (d.position < numberLimit)
  if digit < limit then d.insert?
  else
    guard (d.weight * (36 - limit) < numberLimit)
    return { d with weight := d.weight * (36 - limit), place := d.place + 36 }

end Decoder

/-- The ASCII characters in front of the last hyphen and the digits after it; a hyphen that nothing
stands in front of is no separator. -/
def splitBasic (cs : List Char) : List Char × List Char :=
  match (cs.reverse.dropWhile (· != '-')).tail.reverse with
  | [] => ([], cs)
  | basic => (basic, cs.drop (basic.length + 1))

/-- The text that is written; the last number has to be complete. -/
def decode? (cs : List Char) : Option (List Char) := do
  let (basic, ds) := splitBasic cs
  guard (basic.all fun c => c.toNat < 0x80)
  let d ← ds.foldlM Decoder.read? (.ofBasic basic)
  guard (d.place == 36)
  return d.text

end Federation.Url.Punycode
