import Federation.Text.Character

/-!
# Lines

A line ends at a line feed, together with a carriage return right before it; a text that ends with
a line end has no further, empty line.
-/

namespace Federation.Text

/-- The lines of a text, without their ends. -/
def lines : List Char → List (List Char)
  | [] => []
  | '\n' :: rest => [] :: lines rest
  | '\r' :: '\n' :: rest => [] :: lines rest
  | c :: rest =>
    match lines rest with
    | [] => [[c]]
    | line :: others => (c :: line) :: others

@[simp] theorem lines_nil : lines [] = [] := rfl

@[simp] theorem lines_newline (rest : List Char) : lines ('\n' :: rest) = [] :: lines rest := rfl

/-- A line of white space only, which is also how an empty line counts. -/
def isBlankLine (line : List Char) : Bool :=
  line.all isBlank

/-- The number of bytes of white space in front of a line. -/
def indentation (line : List Char) : Nat :=
  utf8Length (line.takeWhile isBlank)

/-- Cuts a number of bytes off the front of a line; nothing is left of a line that is too short. A
cut inside a character is refused. -/
def dropBytes? : Nat → List Char → Option (List Char)
  | 0, line => some line
  | _ + 1, [] => some []
  | n + 1, c :: rest => if utf8Width c ≤ n + 1 then dropBytes? (n + 1 - utf8Width c) rest else none

/-- Lines put back together, with a line feed between neighbours. -/
def unlines : List (List Char) → List Char
  | [] => []
  | [line] => line
  | line :: others => line ++ '\n' :: unlines others

end Federation.Text
