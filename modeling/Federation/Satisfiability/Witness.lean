import Federation.Document.Schema

/-!
# Witness queries

The smallest query that gets to a field, printed with two blanks of indentation for each level.
-/

namespace Federation

/-- Where a query enters the schema: at a root type, or at an entity. -/
inductive Entry where
  | root (root : RootOperation)
  | entity (typeName : String)
deriving DecidableEq, Repr

namespace Entry

/-- The selections that lead to where the query enters. -/
def path : Entry → List String
  | .root _ => []
  | .entity typeName =>
    ["_entities(representations: $representations)", "... on " ++ typeName]

/-- The first line of the query. -/
def opening : Entry → String
  | .root .query => "\x7b"
  | .root .mutation => "mutation \x7b"
  | .root .subscription => "subscription \x7b"
  | .entity _ => "query($representations: [_Any!]!) \x7b"

end Entry

namespace Witness

/-- The blanks in front of a line. -/
def indentation (depth : Nat) : String :=
  String.ofList (List.replicate (2 * depth) ' ')

/-- The lines of a field. A value to select from gets dots as its selections. -/
def fieldLines (field : String) (isComposite : Bool) (depth : Nat) : List String :=
  let blanks := indentation depth
  if isComposite then [blanks ++ field ++ " \x7b", blanks ++ "  ...", blanks ++ "\x7d"]
  else [blanks ++ field]

/-- The lines of a field inside selections. -/
def lines (field : String) (isComposite : Bool) : List String → Nat → List String
  | [], depth => fieldLines field isComposite depth
  | step :: path, depth =>
    let blanks := indentation depth
    (blanks ++ step ++ " \x7b") :: lines field isComposite path (depth + 1) ++ [blanks ++ "\x7d"]

/-- The smallest query that gets to a field. -/
def text (entry : Entry) (path : List String) (field : String) (isComposite : Bool) : String :=
  "\n".intercalate (entry.opening :: lines field isComposite path 1 ++ ["\x7d"])

end Witness

end Federation
