import Federation.Document.Schema

/-!
# Operations

Field sets are written in the language of operations. Only the selections of the first operation of
a document matter, yet all of the document has to be well formed.
-/

namespace Federation.Document

/-- A selection as a document writes it, without its alias and directives. -/
inductive RawSelection where
  | field (name : String) (arguments : List (String × Literal)) (selections : List RawSelection)
  | inlineFragment (condition : Option String) (selections : List RawSelection)
  | fragmentSpread (name : String)
deriving Repr, Inhabited

/-! ## Selections -/

/-- Reads what follows three points, with a reader for selections in braces. -/
def readFragment (selectionSet : Reader (List RawSelection)) : Reader RawSelection := do
  match ← Reader.peek with
  | some (.name "on") =>
    Reader.advance
    let condition ← Reader.name
    let _ ← Directive.readAll true
    return .inlineFragment (some condition) (← selectionSet)
  | some (.name name) =>
    Reader.advance
    let _ ← Directive.readAll true
    return .fragmentSpread name
  | _ =>
    let _ ← Directive.readAll true
    return .inlineFragment none (← selectionSet)

/-- Reads a field, with a reader for selections in braces. -/
def readField (selectionSet : Reader (List RawSelection)) : Reader RawSelection := do
  let first ← Reader.name
  let name ← if ← Reader.accept .colon then Reader.name else pure first
  let arguments ←
    Reader.optionalGroup .parenOpen (Reader.upTo .parenClose (Directive.readArgument true))
  let _ ← Directive.readAll true
  let selections ← if ← Reader.atMark .braceOpen then selectionSet else pure []
  return .field name arguments selections

/-- Reads selections in braces that nest to a depth at most. -/
def readSelectionSetFor : Nat → Reader (List RawSelection)
  | 0 => Reader.reject
  | depth + 1 => do
    Reader.expect .braceOpen
    Reader.someUpTo .braceClose do
      if ← Reader.accept .spread then readFragment (readSelectionSetFor depth)
      else readField (readSelectionSetFor depth)

/-- Reads selections in braces. Each level of nesting takes a token. -/
def readSelectionSet : Reader (List RawSelection) := do
  readSelectionSetFor (← get).length

/-! ## Documents -/

/-- The tokens that may follow the type of a variable. -/
def mayFollowVariableType : Token → Bool
  | .mark m => [.equals, .atSign, .parenClose, .dollar].contains m
  | _ => false

/-- The declaration of a variable. -/
def readVariable : Reader Unit := do
  Reader.expect .dollar
  let _ ← Reader.name
  Reader.expect .colon
  let _ ← readType mayFollowVariableType
  let _ ← readDefault
  let _ ← Directive.readAll true

/-- The name of an operation, which may be left out. -/
def readOperationName : Reader Unit := do
  match ← Reader.peek with
  | some (.name _) => Reader.advance
  | _ => return ()

/-- An operation gives its selections, a fragment definition nothing. -/
def readExecutable : Reader (Option (List RawSelection)) := do
  match ← Reader.peek with
  | some (.mark .braceOpen) => return some (← readSelectionSet)
  | some (.name "fragment") =>
    Reader.advance
    if ← Reader.atName "on" then Reader.reject
    let _ ← Reader.name
    Reader.expectName "on"
    let _ ← Reader.name
    let _ ← Directive.readAll true
    let _ ← readSelectionSet
    return none
  | some (.name word) =>
    if (RootOperation.ofKeyword? word).isSome then
      Reader.advance
      readOperationName
      let _ ← Reader.optionalGroup .parenOpen (Reader.someUpTo .parenClose readVariable)
      let _ ← Directive.readAll true
      return some (← readSelectionSet)
    else Reader.reject
  | _ => Reader.reject

/-- The selections of all operations of a document. -/
def readOperations : Reader (List (List RawSelection)) := do
  let first ← readExecutable
  let others ← Reader.repeatWhile (fun tokens => !tokens.isEmpty) readExecutable
  return (first :: others).filterMap id

/-- The selections of the document's first operation. -/
def readFirstOperation (text : String) : Except ReadError (Option (List RawSelection)) :=
  (Reader.run readOperations text).map List.head?

end Federation.Document
