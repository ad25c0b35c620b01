import Federation.Number.Decimal

/-!
# Double-precision numbers

A double is a sign with either a mantissa times a power of two, or infinity. A decimal numeral
rounds to the nearest double, a tie to the even mantissa.
-/

namespace Federation.Number

/-- The size of a double: `mantissa * 2 ^ exponent`, or larger than every number. -/
inductive Magnitude where
  | finite (mantissa : Nat) (exponent : Int)
  | infinite
deriving DecidableEq, Repr

/-- A double-precision number. -/
structure Binary64 where
  negative : Bool
  magnitude : Magnitude
deriving DecidableEq, Repr

/-! ## Rounding -/

/-- A mantissa has at most this many bits. -/
def precision : Nat := 53

/-- The exponent of the smallest doubles, and of zero. -/
def minExponent : Int := -1074

/-- The exponent of the largest doubles. -/
def maxExponent : Int := 971

/-- A fraction of natural numbers, rounded to the nearest natural number, a tie to the even one. -/
def roundHalfEven (num den : Nat) : Nat :=
  let q := num / den
  let r := num % den
  if 2 * r < den then q else if den < 2 * r then q + 1 else q + q % 2

/-- A fraction divided by a power of two. -/
def divPow2 (num den : Nat) (e : Int) : Nat × Nat :=
  if 0 ≤ e then (num, den * Nat.pow 2 e.toNat) else (num * Nat.pow 2 (-e).toNat, den)

/-- The exponent of the largest power of two that is not above a positive fraction. -/
def floorLog2 (num den : Nat) : Int :=
  let e := (Nat.log2 num : Int) - Nat.log2 den
  let (n, d) := divPow2 num den e
  if d ≤ n then e else e - 1

/-- The magnitude nearest to a positive fraction. -/
def Magnitude.ofFraction (num den : Nat) : Magnitude :=
  let e := max (floorLog2 num den - (precision - 1)) minExponent
  let (n, d) := divPow2 num den e
  let m := roundHalfEven n d
  let (m, e) := if m = Nat.pow 2 precision then (Nat.pow 2 (precision - 1), e + 1) else (m, e)
  if maxExponent < e then .infinite else .finite m e

/-- Decimal numerals of more than this many digits before the point are infinite, and those with
more than this many zeros after it are zero. -/
def digitBound : Int := 400

/-- The double nearest to a decimal numeral. -/
def Decimal.toBinary64 (x : Decimal) : Binary64 :=
  let top := x.exponent + digitCount x.coefficient
  { negative := x.negative
    magnitude :=
      if x.coefficient = 0 || top < -digitBound then .finite 0 minExponent
      else if digitBound < top then .infinite
      else if 0 ≤ x.exponent then .ofFraction (x.coefficient * Nat.pow 10 x.exponent.toNat) 1
      else .ofFraction x.coefficient (Nat.pow 10 (-x.exponent).toNat) }

/-! ## Comparison -/

/-- The magnitude is not above a natural number. -/
def Magnitude.le (bound : Nat) : Magnitude → Bool
  | .finite m e => let (n, d) := divPow2 m 1 (-e); n ≤ bound * d
  | .infinite => false

/-- The magnitude is zero. -/
def Magnitude.isZero : Magnitude → Bool
  | .finite m _ => m == 0
  | .infinite => false

/-- The number lies between zero and a natural number; zero counts with either sign. -/
def Binary64.isBetweenZeroAnd (bound : Nat) (x : Binary64) : Bool :=
  (!x.negative || x.magnitude.isZero) && x.magnitude.le bound

/-! ## Numerals with infinity -/

/-- What the text of a number can stand for. -/
inductive Numeral where
  | number (value : Binary64)
  | notANumber
deriving DecidableEq, Repr

/-- The numerals that are words, in lower case. -/
def Numeral.ofWord? (negative : Bool) (word : String) : Option Numeral :=
  if word = "inf" || word = "infinity" then some (.number ⟨negative, .infinite⟩)
  else if word = "nan" then some .notANumber
  else none

/-- The number that a whole text writes: a sign that may be left out, then a word or digits with at
most one point, with a digit on one side of it at least, and an exponent. -/
def Numeral.read? (cs : List Char) : Option Numeral :=
  let (negative, cs) : Bool × List Char :=
    match cs with
    | '-' :: rest => (true, rest)
    | '+' :: rest => (false, rest)
    | cs => (false, cs)
  match Numeral.ofWord? negative (String.ofList (cs.map Char.toLower)) with
  | some numeral => some numeral
  | none =>
    let (whole, rest) := spanDigits cs
    let (fraction, rest) :=
      match rest with
      | '.' :: rest => spanDigits rest
      | rest => ([], rest)
    if whole.isEmpty && fraction.isEmpty then none
    else
      match readExponent? rest with
      | some (exponent, []) =>
        some (.number (Decimal.ofParts negative whole fraction exponent).toBinary64)
      | _ => none

end Federation.Number
