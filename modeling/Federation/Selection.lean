import Federation.Document.Operation
import Federation.NameTable
import Federation.Value

/-!
# Selections

Field sets name fields of an entity, such as `id organization { id }`. Reading one fails with the
cause; writing one gives a single normal spelling.
-/

namespace Federation

/-- A selection of a field set. -/
inductive Selection where
  | field (name : String) (arguments : List (String × Value)) (selections : List Selection)
  | inlineFragment (condition : String) (selections : List Selection)
deriving Repr, Inhabited

/-- The selections of a `fields` argument. -/
abbrev SelectionSet : Type := List Selection

/-! ## Reading -/

/-- Why a field set cannot be read. -/
inductive FieldSetError where
  | unreadable
  | beyondLimit
  | variable
  | untypedFragment
  | fragmentSpread
deriving DecidableEq, Repr

namespace FieldSetError

/-- The cause as words, for the `fields` argument of a directive. -/
def message (directive : String) : FieldSetError → String
  | .unreadable | .beyondLimit =>
    s!"could not parse the `fields` argument in `@{directive}` as a selection set: <parse error>"
  | .variable =>
    s!"the `fields` argument in `@{directive}` was invalid: variables are not allowed"
  | .untypedFragment =>
    s!"the `fields` argument in `@{directive}` was invalid: inline fragments must have a type condition"
  | .fragmentSpread =>
    s!"the `fields` argument in `@{directive}` was invalid: fragment spreads are not allowed."

end FieldSetError

/-- Reads part of a field set, and mentions its texts up to the first fault. -/
abbrev FieldSetReading (α : Type) : Type := ExceptT FieldSetError (StateM NameTable) α

namespace SelectionSet

/-- The arguments of a field; the name of each is mentioned before its value. -/
def readArguments : List (String × Document.Literal) → FieldSetReading (List (String × Value))
  | [] => return []
  | (name, literal) :: others => do
    modify (·.mention name)
    match Value.ofLiteral? literal with
    | none => throw .variable
    | some value =>
      modify (·.mentionAll value.mentions)
      return (name, value) :: (← readArguments others)

mutual

/-- One selection. -/
def readSelection : Document.RawSelection → FieldSetReading Selection
  | .field name arguments selections => do
    modify (·.mention name)
    let arguments ← readArguments arguments
    return .field name arguments (← readSelections selections)
  | .inlineFragment condition selections => do
    let selections ← readSelections selections
    match condition with
    | none => throw .untypedFragment
    | some condition =>
      modify (·.mention condition)
      return .inlineFragment condition selections
  | .fragmentSpread _ => throw .fragmentSpread

/-- Selections one after the other. -/
def readSelections : List Document.RawSelection → FieldSetReading (List Selection)
  | [] => return []
  | first :: others => do
    let first ← readSelection first
    return first :: (← readSelections others)

end

/-- Reads a whole field set. Its text, too, is mentioned once it has been read. -/
def read (text : String) : FieldSetReading SelectionSet := do
  match Document.readFirstOperation ("\x7b " ++ text ++ " \x7d") with
  | .error .ungrammatical => throw .unreadable
  | .error .beyondLimit => throw .beyondLimit
  | .ok operation =>
    let selections ← readSelections (operation.getD [])
    modify (·.mention text)
    return selections

end SelectionSet

/-! ## Writing -/

namespace Selection

/-- The arguments of a field, if there are any. -/
def argumentsText : List (String × Value) → String
  | [] => ""
  | arguments => "(" ++ ", ".intercalate (Value.fieldTexts arguments) ++ ")"

mutual

/-- A selection in its normal spelling. -/
def text : Selection → String
  | .field name arguments selections => name ++ argumentsText arguments ++ groupText selections
  | .inlineFragment condition selections => "... on " ++ condition ++ groupText selections

/-- Selections in braces, if there are any. -/
def groupText : List Selection → String
  | [] => ""
  | first :: others => " \x7b " ++ text first ++ followingText others ++ " \x7d"

/-- Selections, each after a space. -/
def followingText : List Selection → String
  | [] => ""
  | first :: others => " " ++ text first ++ followingText others

end

end Selection

/-- Selections in their normal spelling, without outer braces. -/
def SelectionSet.text (selections : SelectionSet) : String :=
  " ".intercalate (selections.map Selection.text)

/-! ## Parts of a selection -/

namespace Selection

/-- A field without arguments and selections of its own. -/
def leaf? : Selection → Option String
  | .field name [] [] => some name
  | _ => none

/-- The name of a selected field. -/
def fieldName? : Selection → Option String
  | .field name _ _ => some name
  | .inlineFragment _ _ => none

mutual

/-- The number of leaf fields that a selection fetches. -/
def leafCount : Selection → Nat
  | .field _ _ [] => 1
  | .field _ _ (first :: others) => leafCount first + leafCounts others
  | .inlineFragment _ selections => leafCounts selections

/-- The number of leaf fields that selections fetch. -/
def leafCounts : List Selection → Nat
  | [] => 0
  | first :: others => leafCount first + leafCounts others

end

end Selection

/-- The number of leaf fields that a field set fetches. -/
def SelectionSet.leafCount (selections : SelectionSet) : Nat :=
  Selection.leafCounts selections

end Federation
