import Federation.Text.Lines

/-!
# Block strings

A string literal between triple quotes. Its value drops blank lines at both ends and the indentation
that all lines but the first share, and unescapes triple quotes.
-/

namespace Federation.Text

/-! ## Finding the end -/

/-- A character that may stand in a block string. -/
def isPlainInBlock (c : Char) : Bool :=
  c = '\t' || c = '\n' || c = '\r' || (0x20 ≤ c.toNat && c.toNat ≤ 0xFFFF)

/-- What reading the inside of a block string can come to. -/
inductive BlockScan where
  /-- The raw text up to the closing quotes, and what follows them. -/
  | closed (raw rest : List Char)
  /-- The text ends before the closing quotes. -/
  | unclosed
  /-- A character that no block string can hold comes first. -/
  | outsideRange

/-- The same scan with more raw text in front. -/
def BlockScan.prepend (front : List Char) : BlockScan → BlockScan
  | .closed raw rest => .closed (front ++ raw) rest
  | .unclosed => .unclosed
  | .outsideRange => .outsideRange

/-- Reads on after opening triple quotes, up to the first triple quotes without a backslash. -/
def scanBlock : List Char → BlockScan
  | '\"' :: '\"' :: '\"' :: rest => .closed [] rest
  | '\\' :: '\"' :: '\"' :: '\"' :: rest =>
    (scanBlock rest).prepend ['\\', '\"', '\"', '\"']
  | c :: rest => if isPlainInBlock c then (scanBlock rest).prepend [c] else .outsideRange
  | [] => .unclosed

/-! ## Its value -/

/-- Triple quotes lose the backslash in front of them. -/
def unescapeTriples : List Char → List Char
  | '\\' :: '\"' :: '\"' :: '\"' :: rest => '\"' :: '\"' :: '\"' :: unescapeTriples rest
  | c :: rest => c :: unescapeTriples rest
  | [] => []

/-- Triple quotes get a backslash in front of them. -/
def escapeTriples : List Char → List Char
  | '\"' :: '\"' :: '\"' :: rest => '\\' :: '\"' :: '\"' :: '\"' :: escapeTriples rest
  | c :: rest => c :: escapeTriples rest
  | [] => []

/-- The smallest indentation of the lines that are not blank, zero without any. -/
def commonIndentation (ls : List (List Char)) : Nat :=
  (((ls.filter fun line => !isBlankLine line).map indentation).min?).getD 0

/-- Lines without the blank ones at both ends. -/
def trimBlankLines {α : Type} (blank : α → Bool) (ls : List α) : List α :=
  ((ls.dropWhile blank).reverse.dropWhile blank).reverse

/-- The fewest bytes that a block string which is not blank must have for its value to be read. -/
def shortestBlock : Nat := 6

/-- The value of a block string. A text that is not blank and shorter than `shortestBlock` has none,
and neither has one whose common indentation ends inside a character. -/
def blockValue? (raw : List Char) : Option (List Char) :=
  let ls := lines raw
  let indent := commonIndentation (ls.drop 1)
  let dedented := ls.mapIdx fun i line =>
    (isBlankLine line, if i = 0 then some line else dropBytes? indent line)
  match trimBlankLines Prod.fst dedented with
  | [] => some []
  | kept =>
    if utf8Length raw < shortestBlock then none
    else (kept.mapM Prod.snd).map fun ls => unescapeTriples (unlines ls)

end Federation.Text
