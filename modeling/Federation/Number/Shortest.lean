import Federation.Number.Binary64

/-!
# Shortest text of a double

A double is written with the fewest digits that read back as the same double, and of those with the
nearest ones, always positionally: no exponent, and no point without a fraction.
-/

namespace Federation.Number

/-! ## The decimal grids -/

/-- A fraction divided by a power of ten. -/
def divPow10 (num den : Nat) (e : Int) : Nat × Nat :=
  if 0 ≤ e then (num, den * Nat.pow 10 e.toNat) else (num * Nat.pow 10 (-e).toNat, den)

/-- The exponent of the largest power of ten that is not above a positive fraction. -/
def floorLog10 (num den : Nat) : Int :=
  if den ≤ num then digitCount (num / den) - 1
  else
    let d := digitCount (den / num)
    if den ≤ num * Nat.pow 10 (d - 1) then 1 - (d : Int) else -(d : Int)

/-- The doubles' neighbourhood: the fractions with denominator `den` between `low` and `high` round
to the same double as `value`, the two ends only if `closed`. -/
structure Rounding where
  low : Nat
  value : Nat
  high : Nat
  den : Nat
  closed : Bool

/-- The neighbourhood of `mantissa * 2 ^ exponent`. Below a power of two it is half as wide. -/
def Rounding.of (mantissa : Nat) (exponent : Int) : Rounding :=
  let below := if mantissa = Nat.pow 2 (precision - 1) && minExponent < exponent then 1 else 2
  let scale := Nat.pow 2 (exponent - 2).toNat
  { low := (4 * mantissa - below) * scale
    value := 4 * mantissa * scale
    high := (4 * mantissa + 2) * scale
    den := Nat.pow 2 (2 - exponent).toNat
    closed := mantissa % 2 == 0 }

/-- `n * 10 ^ e` lies in the neighbourhood. -/
def Rounding.contains (r : Rounding) (n : Nat) (e : Int) : Bool :=
  let at10 (bound : Nat) : Nat × Nat := divPow10 bound r.den e
  let (low, d) := at10 r.low
  let (high, _) := at10 r.high
  if r.closed then low ≤ n * d && n * d ≤ high else low < n * d && n * d < high

/-- The multiple of `10 ^ e` in the neighbourhood that is nearest to the value; a tie goes up. -/
def Rounding.onGrid? (r : Rounding) (e : Int) : Option Nat :=
  let (num, d) := divPow10 r.value r.den e
  let down := num / d
  let up := down + 1
  match r.contains down e, r.contains up e with
  | true, true => some (if 2 * (num % d) < d then down else up)
  | true, false => some down
  | false, true => some up
  | false, false => none

/-- Seventeen digits always tell a double from its neighbours. -/
def maxDigits : Nat := 17

/-- The first grid with a hit, from the coarsest one on. -/
def Rounding.shortest (r : Rounding) : Nat × Int :=
  let top := floorLog10 r.value r.den
  match (List.range maxDigits).findSome? fun (i : Nat) =>
      let e := top - (i : Int)
      (r.onGrid? e).map fun n => (n, e) with
  | some hit => hit
  | none => (r.value / r.den, 0)

/-! ## Text -/

/-- `n * 10 ^ e` in positional notation. -/
def positional (n : Nat) (e : Int) : List Char :=
  if 0 ≤ e then digits (n * Nat.pow 10 e.toNat)
  else
    let places := (-e).toNat
    let fraction := digits (n % Nat.pow 10 places)
    let padded := List.replicate (places - fraction.length) '0' ++ fraction
    let trimmed := (padded.reverse.dropWhile (· == '0')).reverse
    let whole := digits (n / Nat.pow 10 places)
    if trimmed.isEmpty then whole else whole ++ '.' :: trimmed

/-- The text of a magnitude. -/
def Magnitude.text : Magnitude → List Char
  | .finite m e =>
    if m = 0 then ['0']
    else
      let (n, e) := (Rounding.of m e).shortest
      positional n e
  | .infinite => ['i', 'n', 'f']

/-- The text of a double. -/
def Binary64.text (x : Binary64) : String :=
  String.ofList (if x.negative then '-' :: x.magnitude.text else x.magnitude.text)

end Federation.Number
