import Federation.Document.Literal
import Federation.TypeRef

/-!
# Schema documents

A subgraph describes itself in a document of schema blocks and type blocks. A type may have any
number of blocks, of which those that start with `extend` are extensions.
-/

namespace Federation

/-- The three kinds of operations a schema can have a root type for. -/
inductive RootOperation where
  | query | mutation | subscription
deriving DecidableEq, Repr

namespace RootOperation

/-- All kinds, in the order they are looked through. -/
def all : List RootOperation := [.query, .mutation, .subscription]

/-- The name of the root type when a schema does not choose another. -/
def typeName : RootOperation → String
  | .query => "Query"
  | .mutation => "Mutation"
  | .subscription => "Subscription"

/-- The word that stands for the kind of operation in a schema block. -/
def keyword : RootOperation → String
  | .query => "query"
  | .mutation => "mutation"
  | .subscription => "subscription"

/-- The kind of operation that a word stands for. -/
def ofKeyword? (word : String) : Option RootOperation :=
  all.find? fun root => root.keyword == word

@[simp] theorem ofKeyword?_keyword (root : RootOperation) :
    ofKeyword? root.keyword = some root := by
  cases root <;> rfl

end RootOperation

namespace Document

/-! ## Blocks -/

/-- An argument, or a field of an input type. -/
structure InputDecl where
  description : Option Description
  name : String
  type : TypeRef
  defaultValue : Option Literal
  directives : List Directive

/-- A field of an object or interface type. -/
structure FieldDecl where
  description : Option Description
  name : String
  arguments : List InputDecl
  type : TypeRef
  directives : List Directive

/-- A value of an enum type. -/
structure EnumValueDecl where
  description : Option Description
  name : String
  directives : List Directive

/-- What a type block declares, by the kind of type. -/
inductive TypeBody where
  | object (interfaces : List String) (fields : List FieldDecl)
  | interface (interfaces : List String) (fields : List FieldDecl)
  | union (members : List String)
  | enum (values : List EnumValueDecl)
  | inputObject (fields : List InputDecl)
  | scalar

/-- A block that defines or extends a type. -/
structure TypeBlock where
  isExtension : Bool
  description : Option Description
  name : String
  directives : List Directive
  body : TypeBody

/-- A block that defines or extends the schema. -/
structure SchemaBlock where
  directives : List Directive
  roots : List (RootOperation × String)

/-- The root type that a schema block chooses first for a kind of operation. -/
def SchemaBlock.root? (block : SchemaBlock) (root : RootOperation) : Option String :=
  block.roots.lookup root

/-- A block of a schema document. Directive definitions have no effect. -/
inductive Block where
  | type (block : TypeBlock)
  | schema (block : SchemaBlock)
  | directiveDefinition

/-- The schema block, if it is one. -/
def Block.schema? : Block → Option SchemaBlock
  | .schema block => some block
  | _ => none

/-- The type block, if it is one. -/
def Block.type? : Block → Option TypeBlock
  | .type block => some block
  | _ => none

/-- A whole document. -/
abbrev Schema : Type := List Block

/-- The schema blocks of a document. -/
def Schema.schemaBlocks (schema : Schema) : List SchemaBlock :=
  schema.filterMap Block.schema?

/-- The type blocks of a document. -/
def Schema.typeBlocks (schema : Schema) : List TypeBlock :=
  schema.filterMap Block.type?

/-! ## Reading types and values -/

/-- A type with this many list levels cannot be read. -/
def unreadableListLevels : Nat := 16

/-- Marks after a named type, each of which applies to all that stands before it. -/
def readMarksFor : Nat → Wrapping → Reader Wrapping
  | 0, w => return w
  | times + 1, w => do
    if ← Reader.accept .bang then readMarksFor times w.require
    else if ← Reader.accept .bracketClose then readMarksFor times w.wrapList
    else return w

/-- A type reference. Opening brackets are not counted; the closing ones make the lists. -/
def readType (mayFollow : Token → Bool) : Reader TypeRef := do
  let _ ← Reader.repeatWhile (fun tokens => tokens.head? == some (.mark .bracketOpen))
    Reader.advance
  let name ← Reader.name
  let wrapping ← readMarksFor (← get).length {}
  if unreadableListLevels ≤ wrapping.lists.length then Reader.overLimit mayFollow
  return { name, wrapping }

/-- The tokens that may follow a type somewhere in a declaration. -/
def mayFollowType : Token → Bool
  | .name _ | .string _ | .block _ => true
  | .mark m => [.equals, .atSign, .parenClose, .braceClose].contains m
  | .int _ | .float _ | .unreadable | .outsideRange => false

/-- A default value, if there is one. -/
def readDefault : Reader (Option Literal) := do
  if ← Reader.accept .equals then
    return some (← Literal.read false)
  else return none

/-- An argument or an input field. -/
def readInputDecl : Reader InputDecl := do
  let description ← Description.readOptional
  let name ← Reader.name
  Reader.expect .colon
  let type ← readType mayFollowType
  let defaultValue ← readDefault
  return { description, name, type, defaultValue, directives := ← Directive.readAll false }

/-- Declared arguments, if there are any. -/
def readArgumentDecls : Reader (List InputDecl) :=
  Reader.optionalGroup .parenOpen (Reader.someUpTo .parenClose readInputDecl)

/-- A field of an object or interface type. -/
def readFieldDecl : Reader FieldDecl := do
  let description ← Description.readOptional
  let name ← Reader.name
  let arguments ← readArgumentDecls
  Reader.expect .colon
  let type ← readType mayFollowType
  return { description, name, arguments, type, directives := ← Directive.readAll false }

/-- The names that stand for other literals, and so for no enum value. -/
def literalWords : List String := ["true", "false", "null"]

/-- A value of an enum type. -/
def readEnumValueDecl : Reader EnumValueDecl := do
  let description ← Description.readOptional
  match ← Reader.peek with
  | some (.name text) =>
    if literalWords.contains text then Reader.reject
    else
      Reader.advance
      return { description, name := text, directives := ← Directive.readAll false }
  | _ => Reader.reject

/-! ## Reading blocks -/

/-- The interfaces that a type declares to implement. -/
def readInterfaces : Reader (List String) := do
  if ← Reader.acceptName "implements" then Reader.separatedNames .ampersand Reader.name
  else return []

/-- Members between braces, if there are braces. -/
def readMembers {α : Type} (member : Reader α) : Reader (List α) :=
  Reader.optionalGroup .braceOpen (Reader.someUpTo .braceClose member)

/-- The member types of a union, if there are any. -/
def readUnionMembers : Reader (List String) :=
  Reader.optionalGroup .equals (Reader.separatedNames .pipe Reader.name)

/-- The rest of a type block after the word for its kind. -/
def readTypeBlock (isExtension : Bool) (description : Option Description) (keyword : String) :
    Reader TypeBlock := do
  let name ← Reader.name
  match keyword with
  | "type" =>
    let interfaces ← readInterfaces
    let directives ← Directive.readAll false
    let fields ← readMembers readFieldDecl
    return { isExtension, description, name, directives, body := .object interfaces fields }
  | "interface" =>
    let interfaces ← readInterfaces
    let directives ← Directive.readAll false
    let fields ← readMembers readFieldDecl
    return { isExtension, description, name, directives, body := .interface interfaces fields }
  | "union" =>
    let directives ← Directive.readAll false
    return { isExtension, description, name, directives, body := .union (← readUnionMembers) }
  | "enum" =>
    let directives ← Directive.readAll false
    let values ← readMembers readEnumValueDecl
    return { isExtension, description, name, directives, body := .enum values }
  | "input" =>
    let directives ← Directive.readAll false
    let fields ← readMembers readInputDecl
    return { isExtension, description, name, directives, body := .inputObject fields }
  | _ =>
    let directives ← Directive.readAll false
    return { isExtension, description, name, directives, body := .scalar }

/-- The root type of a kind of operation. -/
def readRoot : Reader (RootOperation × String) := do
  match ← Reader.peek with
  | some (.name word) =>
    match RootOperation.ofKeyword? word with
    | some root =>
      Reader.advance
      Reader.expect .colon
      return (root, ← Reader.name)
    | none => Reader.reject
  | _ => Reader.reject

/-- The rest of a schema block. Only an extension may leave out the braces. -/
def readSchemaBlock (isExtension : Bool) : Reader SchemaBlock := do
  let directives ← Directive.readAll false
  if isExtension then
    let roots ← Reader.optionalGroup .braceOpen (Reader.upTo .braceClose readRoot)
    return { directives := directives, roots := roots }
  else
    Reader.expect .braceOpen
    return { directives, roots := ← Reader.upTo .braceClose readRoot }

/-- The places that a directive definition may name. -/
def directiveLocations : List String :=
  ["QUERY", "MUTATION", "SUBSCRIPTION", "FIELD", "FRAGMENT_DEFINITION", "FRAGMENT_SPREAD",
    "INLINE_FRAGMENT", "VARIABLE_DEFINITION", "SCHEMA", "SCALAR", "OBJECT", "FIELD_DEFINITION",
    "ARGUMENT_DEFINITION", "INTERFACE", "UNION", "ENUM", "ENUM_VALUE", "INPUT_OBJECT",
    "INPUT_FIELD_DEFINITION"]

/-- A place that a directive definition names. -/
def readLocation : Reader String := do
  match ← Reader.peek with
  | some (.name text) =>
    Reader.advance
    if directiveLocations.contains text then return text else Reader.reject
  | _ => Reader.reject

/-- The rest of a directive definition. -/
def readDirectiveDefinition : Reader Unit := do
  Reader.expect .atSign
  let _ ← Reader.name
  let _ ← readArgumentDecls
  let _ ← Reader.acceptName "repeatable"
  Reader.expectName "on"
  let _ ← Reader.separatedNames .pipe readLocation

/-- The words that start a type block. -/
def typeKeywords : List String := ["type", "interface", "union", "enum", "input", "scalar"]

/-- A block of a schema document. -/
def readBlock : Reader Block := do
  let description ← Description.readOptional
  let isExtension ← Reader.acceptName "extend"
  match ← Reader.peek with
  | some (.name word) =>
    if typeKeywords.contains word then
      Reader.advance
      return .type (← readTypeBlock isExtension description word)
    else if word = "schema" then
      Reader.advance
      return .schema (← readSchemaBlock isExtension)
    else if word = "directive" && !isExtension then
      Reader.advance
      readDirectiveDefinition
      return .directiveDefinition
    else Reader.reject
  | _ => Reader.reject

/-- All blocks of a document, of which there has to be one. -/
def readBlocks : Reader Schema := do
  let first ← readBlock
  let others ← Reader.repeatWhile (fun tokens => !tokens.isEmpty) readBlock
  return first :: others

/-- Reads a schema document. -/
def Schema.read (text : String) : Except ReadError Schema :=
  Reader.run readBlocks text

end Document

end Federation
