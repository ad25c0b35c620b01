/-!
# Decimal numerals

A decimal numeral is a sign, a natural number and a power of ten. Its parts are read from runs of
digits.
-/

namespace Federation.Number

/-! ## Runs of digits -/

/-- The number that a run of digits writes. -/
def ofDigits (cs : List Char) : Nat :=
  cs.foldl (fun n c => 10 * n + (c.toNat - '0'.toNat)) 0

/-- The digits of a number, without leading zeros; zero has one digit. -/
def digits (n : Nat) : List Char :=
  Nat.toDigits 10 n

/-- The number of digits of a number. -/
def digitCount (n : Nat) : Nat :=
  (digits n).length

/-- A run of digits in front of a text, and what follows it. -/
def spanDigits (cs : List Char) : List Char × List Char :=
  (cs.takeWhile Char.isDigit, cs.dropWhile Char.isDigit)

theorem spanDigits_append (cs : List Char) : (spanDigits cs).1 ++ (spanDigits cs).2 = cs :=
  List.takeWhile_append_dropWhile

/-! ## Numerals -/

/-- A decimal numeral: `coefficient * 10 ^ exponent`, with a sign. -/
structure Decimal where
  negative : Bool
  coefficient : Nat
  exponent : Int
deriving DecidableEq, Repr

/-- The numeral with an integer part, a fraction and an exponent. -/
def Decimal.ofParts (negative : Bool) (whole fraction : List Char) (exponent : Int) : Decimal :=
  { negative, coefficient := ofDigits (whole ++ fraction), exponent := exponent - fraction.length }

/-- An exponent part, which is a letter `e`, a sign that may be left out, and digits. Without the
letter the exponent is zero; a letter without digits is refused. -/
def readExponent? : List Char → Option (Int × List Char)
  | c :: rest =>
    if c = 'e' || c = 'E' then
      let (negative, rest) : Bool × List Char :=
        match rest with
        | '-' :: rest => (true, rest)
        | '+' :: rest => (false, rest)
        | rest => (false, rest)
      match spanDigits rest with
      | ([], _) => none
      | (ds, rest) => some (if negative then -(ofDigits ds : Int) else ofDigits ds, rest)
    else some (0, c :: rest)
  | [] => some (0, [])

end Federation.Number
