import Federation.Document.Reader

/-!
# Literals and directives

The values that stand in a document, and the directives that carry them.
-/

namespace Federation.Document

/-! ## Literals -/

/-- A value as a document writes it. -/
inductive Literal where
  | null
  | int (value : Int)
  | float (value : Number.Binary64)
  | string (value : String)
  | boolean (value : Bool)
  | enum (name : String)
  | list (items : List Literal)
  | object (fields : List (String × Literal))
  | variable (name : String)
deriving Repr, Inhabited

namespace Literal

/-- The text of a string. -/
def asString? : Literal → Option String
  | .string s => some s
  | _ => none

/-- The value of a truth value. -/
def asBoolean? : Literal → Option Bool
  | .boolean b => some b
  | _ => none

/-- The items of a list. -/
def asItems? : Literal → Option (List Literal)
  | .list items => some items
  | _ => none

/-- Integers are held in 64 bits with a sign. -/
def isHeld (n : Int) : Bool :=
  -9223372036854775808 ≤ n && n < 9223372036854775808

/-- The literal that a name stands for. -/
def ofName (text : String) : Literal :=
  if text = "true" then .boolean true
  else if text = "false" then .boolean false
  else if text = "null" then .null
  else .enum text

/-! ## Reading literals -/

/-- The text of a string. -/
def readQuoted (raw : List Char) : Reader String := do
  Reader.advance
  match Text.unescape? raw with
  | some text => return String.ofList text
  | none => Reader.reject

/-- The tokens that may follow a literal somewhere. Constant literals have directives after them,
and the word for a variable can be read in their place even though none may stand there. -/
def mayFollow (allowVariables : Bool) : Token → Bool
  | .name _ | .int _ | .float _ | .string _ | .block _ => true
  | .mark m =>
    [.bracketOpen, .bracketClose, .braceOpen, .braceClose, .parenClose, .dollar].contains m ||
      (!allowVariables && m == .atSign)
  | .unreadable | .outsideRange => false

/-- Reads a literal that nests to a depth at most. -/
def readFor (allowVariables : Bool) : Nat → Reader Literal
  | 0 => Reader.reject
  | depth + 1 => do
    match ← Reader.peek with
    | some (.string raw) => return .string (← readQuoted raw)
    | some (.block raw) =>
      Reader.advance
      match Text.blockValue? raw with
      | some text => return .string (String.ofList text)
      | none => Reader.overLimit (mayFollow allowVariables)
    | some (.int n) =>
      Reader.advance
      if isHeld n then return .int n else Reader.overLimit (mayFollow allowVariables)
    | some (.float x) =>
      Reader.advance
      return .float x
    | some (.name text) =>
      Reader.advance
      return ofName text
    | some (.mark .bracketOpen) =>
      Reader.advance
      return .list (← Reader.upTo .bracketClose (readFor allowVariables depth))
    | some (.mark .braceOpen) =>
      Reader.advance
      let field : Reader (String × Literal) := do
        let name ← Reader.name
        Reader.expect .colon
        return (name, ← readFor allowVariables depth)
      return .object (← Reader.upTo .braceClose field)
    | some (.mark .dollar) =>
      Reader.advance
      let name ← Reader.name
      if allowVariables then return .variable name else Reader.reject
    | _ => Reader.reject

/-- Reads a literal. Each level of nesting takes a token, so no literal is deeper than there are
tokens. -/
def read (allowVariables : Bool) : Reader Literal := do
  readFor allowVariables (← get).length

end Literal

/-! ## Descriptions -/

/-- A description as a document writes it. Nobody may ever ask for its text, so a block string is
kept as it stands. -/
inductive Description where
  | quoted (text : String)
  | block (raw : List Char)
deriving DecidableEq, Repr

namespace Description

/-- The text of a description. -/
def text? : Description → Option String
  | .quoted text => some text
  | .block raw => (Text.blockValue? raw).map String.ofList

/-- Reads a description if there is one. -/
def readOptional : Reader (Option Description) := do
  match ← Reader.peek with
  | some (.string raw) => return some (.quoted (← Literal.readQuoted raw))
  | some (.block raw) =>
    Reader.advance
    return some (.block raw)
  | _ => return none

end Description

/-! ## Directives -/

/-- A directive with its arguments. -/
structure Directive where
  name : String
  arguments : List (String × Literal)
deriving Repr, Inhabited

namespace Directive

/-- The first argument of a name. -/
def argument? (d : Directive) (name : String) : Option Literal :=
  d.arguments.lookup name

/-- The text of the first argument of a name. -/
def text? (d : Directive) (name : String) : Option String :=
  (d.argument? name).bind Literal.asString?

/-- A named value. -/
def readArgument (allowVariables : Bool) : Reader (String × Literal) := do
  let name ← Reader.name
  Reader.expect .colon
  return (name, ← Literal.read allowVariables)

/-- Reads directives as long as there are any. -/
def readAll (allowVariables : Bool) : Reader (List Directive) :=
  Reader.repeatWhile (fun tokens => tokens.head? == some (.mark .atSign)) do
    Reader.expect .atSign
    let name ← Reader.name
    let arguments ←
      Reader.optionalGroup .parenOpen (Reader.upTo .parenClose (readArgument allowVariables))
    return { name := name, arguments := arguments }

end Directive

end Federation.Document
