import Federation.Subgraph.Basic

/-!
# Supergraph models

The composed schema as plain data. Both schema texts and all contracts are computed from it. Types,
default values and field sets are held as the text in which a schema writes them.
-/

namespace Federation.Supergraph

/-! ## Directives -/

/-- The value of an argument of a directive. -/
inductive Value where
  | string (value : String)
  | int (value : Int)
  | boolean (value : Bool)
  | enum (name : String)
  | list (items : List Value)
deriving Repr, Inhabited

/-- A list of strings. -/
def Value.strings (items : List String) : Value :=
  .list (items.map .string)

/-- A list of lists of strings. -/
def Value.stringGroups (groups : List (List String)) : Value :=
  .list (groups.map strings)

/-- A directive with its arguments. -/
structure Directive where
  name : String
  arguments : List (String × Value) := []
deriving Repr, Inhabited

namespace Directive

/-- The first argument of a name. -/
def argument? (d : Directive) (name : String) : Option Value :=
  d.arguments.lookup name

/-- The directive tells how subgraphs are joined, which is no concern of clients. -/
def isJoin (d : Directive) : Bool :=
  "join__".toList.isPrefixOf d.name.toList

/-- The name of a `@tag`. -/
def tag? (d : Directive) : Option String :=
  if d.name = "tag" then
    match d.argument? "name" with
    | some (.string name) => some name
    | _ => none
  else none

/-- The directive that hides an element from clients. -/
def inaccessible : Directive :=
  { name := "inaccessible" }

/-- The directive hides an element from clients. -/
def isInaccessible (d : Directive) : Bool :=
  d.name == "inaccessible"

end Directive

/-- Some directive hides the element from clients. -/
def isHidden (directives : List Directive) : Bool :=
  directives.any Directive.isInaccessible

/-- The tags of the element. -/
def tagsOf (directives : List Directive) : List String :=
  directives.filterMap Directive.tag?

/-! ## Elements -/

/-- An argument or an input field. -/
structure Input where
  name : String
  description : Option String
  type : String
  defaultValue : Option String
  directives : List Directive
deriving Repr, Inhabited

/-- An output field. -/
structure Field where
  name : String
  description : Option String
  arguments : List Input
  type : String
  directives : List Directive
deriving Repr, Inhabited

/-- A value of an enum type. -/
structure EnumValue where
  name : String
  description : Option String
  directives : List Directive
deriving Repr, Inhabited

/-- What a type consists of, by its kind. -/
inductive Body where
  | object (interfaces : List String) (fields : List Field)
  | interface (interfaces : List String) (fields : List Field)
  | union (members : List String)
  | enum (values : List EnumValue)
  | scalar
  | inputObject (fields : List Input)
deriving Repr, Inhabited

namespace Body

/-- The word that a schema writes for the kind of type. -/
def keyword : Body → String
  | .object _ _ => "type"
  | .interface _ _ => "interface"
  | .union _ => "union"
  | .enum _ => "enum"
  | .scalar => "scalar"
  | .inputObject _ => "input"

/-- The interfaces of an object or interface. -/
def interfaces : Body → List String
  | .object interfaces _ | .interface interfaces _ => interfaces
  | _ => []

/-- The output fields of an object or interface. -/
def fields : Body → List Field
  | .object _ fields | .interface _ fields => fields
  | _ => []

end Body

/-- A type of the supergraph. -/
structure TypeDefinition where
  name : String
  description : Option String
  directives : List Directive
  body : Body
deriving Repr, Inhabited

/-! ## Models -/

/-- A specification that the supergraph links. -/
structure Link where
  url : String
  purpose : Option String := none
  imports : List String := []
deriving DecidableEq, Repr, Inhabited

/-- A subgraph as the supergraph lists it. -/
structure Graph where
  name : String
  enumValue : String
  url : Option String
deriving DecidableEq, Repr, Inhabited

/-- The composed schema. -/
structure Model where
  links : List Link
  graphs : List Graph
  roots : RootTypes
  types : List TypeDefinition
deriving Repr, Inhabited

/-- A text without a text in front of it. -/
def afterPrefix? (front text : String) : Option String :=
  if front.toList.isPrefixOf text.toList then some (String.ofList (text.toList.drop front.length))
  else none

namespace Model

/-- The type of a name. -/
def type? (m : Model) (name : String) : Option TypeDefinition :=
  m.types.find? fun type => type.name == name

/-- The URL of the join specification, without its version. -/
def joinUrl : String := "https://specs.apollo.dev/join/"

/-- The version of the join specification that the supergraph links. -/
def joinVersion? (m : Model) : Option String :=
  m.links.findSome? fun link => afterPrefix? joinUrl link.url

end Model

end Federation.Supergraph
