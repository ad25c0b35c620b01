import Federation.Number.Binary64
import Federation.Text.Quoted
import Federation.Text.Block

/-!
# Tokens

A document is read as a list of tokens. White space, commas, byte order marks and comments separate
tokens and are dropped. The list ends early at a character that starts no token.
-/

namespace Federation.Document

/-! ## Kinds of tokens -/

/-- The tokens that are always spelled alike. -/
inductive Mark where
  | bang | dollar | ampersand | parenOpen | parenClose | spread | colon | equals | atSign
  | bracketOpen | bracketClose | braceOpen | pipe | braceClose
deriving DecidableEq, Repr

/-- A token of a document. -/
inductive Token where
  | mark (mark : Mark)
  | name (text : String)
  | int (value : Int)
  | float (value : Number.Binary64)
  /-- The raw text between double quotes. -/
  | string (raw : List Char)
  /-- The raw text between triple quotes. -/
  | block (raw : List Char)
  /-- No token can be read here. -/
  | unreadable
  /-- A block string holds a character outside its range. -/
  | outsideRange
deriving DecidableEq, Repr

namespace Token

/-- The marks of one character. -/
def markOf? : Char → Option Mark
  | '!' => some .bang
  | '$' => some .dollar
  | '&' => some .ampersand
  | '(' => some .parenOpen
  | ')' => some .parenClose
  | ':' => some .colon
  | '=' => some .equals
  | '@' => some .atSign
  | '[' => some .bracketOpen
  | ']' => some .bracketClose
  | '\x7b' => some .braceOpen
  | '|' => some .pipe
  | '\x7d' => some .braceClose
  | _ => none

/-- A character that separates tokens. -/
def isSeparator (c : Char) : Bool :=
  c == ' ' || c == '\t' || c == '\n' || c == '\r' || c == '\x0c' || c == ',' || c == '\ufeff'

/-- A comment goes up to the end of its line. -/
def endsComment (c : Char) : Bool :=
  c == '\n' || c == '\r'

/-! ## Numbers -/

/-- What may not follow a number directly. -/
def continuesNumber : List Char → Bool
  | c :: _ => Text.isNameStart c || c == '.'
  | [] => false

/-- The digits of a number before the point; zero is their first digit only when it is alone. -/
def isWhole : List Char → Bool
  | [] => false
  | ['0'] => true
  | '0' :: _ => false
  | _ => true

/-- The exponent letter. -/
def startsExponent : List Char → Bool
  | c :: _ => c == 'e' || c == 'E'
  | [] => false

/-- A fraction, whose point needs a digit after it, and what follows. -/
def readFraction? : List Char → Option (List Char × List Char)
  | '.' :: rest =>
    match Number.spanDigits rest with
    | ([], _) => none
    | found => some found
  | rest => some ([], rest)

/-- Reads a number after its sign. -/
def readNumber? (negative : Bool) (cs : List Char) : Option (Token × List Char) := do
  let (whole, rest) := Number.spanDigits cs
  guard (isWhole whole)
  let (fraction, rest) ← readFraction? rest
  let hasExponent := startsExponent rest
  let (exponent, rest) ← Number.readExponent? rest
  guard (!continuesNumber rest)
  if fraction.isEmpty && !hasExponent then
    let n := Number.ofDigits whole
    return (.int (if negative then -(n : Int) else n), rest)
  else return (.float (Number.Decimal.ofParts negative whole fraction exponent).toBinary64, rest)

/-! ## Reading one token -/

/-- Reads a string after its first quote. -/
def readString (cs : List Char) : Token × List Char :=
  match cs with
  | '\"' :: '\"' :: rest =>
    match Text.scanBlock rest with
    | .closed raw rest => (.block raw, rest)
    | .unclosed => (.unreadable, [])
    | .outsideRange => (.outsideRange, [])
  | cs =>
    match Text.spanQuoted? cs with
    | some (raw, rest) => (.string raw, rest)
    | none => (.unreadable, [])

/-- Reads the token that starts with a character. -/
def read (c : Char) (rest : List Char) : Token × List Char :=
  match markOf? c with
  | some m => (.mark m, rest)
  | none =>
    if Text.isNameStart c then
      (.name (String.ofList (c :: rest.takeWhile Text.isNamePart)), rest.dropWhile Text.isNamePart)
    else if c == '\"' then readString rest
    else if c == '.' then
      match rest with
      | '.' :: '.' :: rest => (.mark .spread, rest)
      | _ => (.unreadable, [])
    else
      let number := if c == '-' then readNumber? true rest else readNumber? false (c :: rest)
      number.getD (.unreadable, [])

/-! ## Reading a document -/

/-- Reads tokens for a number of steps, each of which uses up a character. -/
def scanFor : Nat → List Char → List Token
  | 0, _ => []
  | _ + 1, [] => []
  | steps + 1, c :: rest =>
    if isSeparator c then scanFor steps rest
    else if c == '#' then scanFor steps (rest.dropWhile fun c => !endsComment c)
    else
      let (token, rest) := read c rest
      token :: scanFor steps rest

/-- The tokens of a document. -/
def scan (text : String) : List Token :=
  scanFor text.length text.toList

end Token

end Federation.Document
