import Federation.Text.Character

/-!
# Quoted strings

A string literal between double quotes. Writing escapes the quote, the backslash and every control
character; reading takes every escape that the grammar of string literals has.
-/

namespace Federation.Text

/-! ## Writing -/

/-- One character of a string, as it stands between quotes. -/
def escapeChar (c : Char) : List Char :=
  if c = '\"' then ['\\', '\"']
  else if c = '\\' then ['\\', '\\']
  else if c = '\n' then ['\\', 'n']
  else if c = '\r' then ['\\', 'r']
  else if c = '\t' then ['\\', 't']
  else if isControl c then '\\' :: 'u' :: fourHexDigits c.toNat
  else [c]

/-- The characters of a string, as they stand between quotes. -/
def escape (cs : List Char) : List Char :=
  cs.flatMap escapeChar

/-- A string as a literal, with its quotes. -/
def quote (s : String) : String :=
  String.ofList ('\"' :: (escape s.toList ++ ['\"']))

@[simp] theorem escape_nil : escape [] = [] := rfl

@[simp] theorem escape_cons (c : Char) (cs : List Char) :
    escape (c :: cs) = escapeChar c ++ escape cs := rfl

/-! ## Reading -/

/-- A character that may stand for itself between quotes. -/
def isPlainInQuotes (c : Char) : Bool :=
  c = '\t' || (0x20 ≤ c.toNat && c.toNat ≤ 0xFFFF && c ≠ '\"' && c ≠ '\\')

/-- The character that a backslash and a letter stand for. -/
def simpleEscape? : Char → Option Char
  | '\"' => some '\"'
  | '\\' => some '\\'
  | '/' => some '/'
  | 'b' => some '\x10'
  | 'f' => some '\x0c'
  | 'n' => some '\n'
  | 'r' => some '\r'
  | 't' => some '\t'
  | _ => none

/-- The character of a four-digit escape; surrogates are no characters. -/
def hexEscape? (a b c d : Char) : Option Char := do
  let n ← fourHexValue? a b c d
  if 0xD800 ≤ n && n ≤ 0xDFFF then none else some (Char.ofNat n)

/-- Goes on after an opening quote: the raw text up to the closing quote, and what follows it. -/
def spanQuoted? : List Char → Option (List Char × List Char)
  | '\"' :: rest => some ([], rest)
  | '\\' :: 'u' :: a :: b :: c :: d :: rest =>
    if (fourHexValue? a b c d).isSome then do
      let (raw, after) ← spanQuoted? rest
      return ('\\' :: 'u' :: a :: b :: c :: d :: raw, after)
    else none
  | '\\' :: e :: rest =>
    if (simpleEscape? e).isSome then do
      let (raw, after) ← spanQuoted? rest
      return ('\\' :: e :: raw, after)
    else none
  | c :: rest =>
    if isPlainInQuotes c then do
      let (raw, after) ← spanQuoted? rest
      return (c :: raw, after)
    else none
  | [] => none

/-- The string that a raw text between quotes stands for. -/
def unescape? : List Char → Option (List Char)
  | '\\' :: 'u' :: a :: b :: c :: d :: rest => do
    let char ← hexEscape? a b c d
    return char :: (← unescape? rest)
  | '\\' :: e :: rest => do
    let char ← simpleEscape? e
    return char :: (← unescape? rest)
  | c :: rest => (unescape? rest).map (c :: ·)
  | [] => some []

end Federation.Text
