import Federation.Subgraph.Attributes
import Federation.Document.Schema

/-!
# Type definitions

A type as one subgraph defines it. All blocks of the type have been joined.
-/

namespace Federation

/-! ## Members -/

/-- An argument of a field. -/
structure Argument where
  name : String
  type : TypeRef
  description : Option String
  attributes : Attributes
  defaultValue : Option Value
deriving Inhabited

/-- How a subgraph itself uses a field in its field sets. -/
structure FieldUsage where
  inKey : Bool := false
  inRequires : Bool := false
  inProvides : Bool := false
deriving DecidableEq, Repr, Inhabited

/-- The uses of either side. -/
def FieldUsage.union (a b : FieldUsage) : FieldUsage where
  inKey := a.inKey || b.inKey
  inRequires := a.inRequires || b.inRequires
  inProvides := a.inProvides || b.inProvides

/-- A field of an object, interface or input type. -/
structure Field where
  name : String
  type : TypeRef
  description : Option String
  attributes : Attributes
  arguments : List Argument := []
  /-- Only fields of input types have one. -/
  defaultValue : Option Value := none
  /-- The field stands in an extension of its type. -/
  inExtension : Bool
  usage : FieldUsage := {}
deriving Inhabited

/-- The field is used in a `@requires` or `@provides` of its subgraph. -/
def Field.isUsedInFieldSet (f : Field) : Bool :=
  f.usage.inRequires || f.usage.inProvides

/-- The argument of a name. -/
def Field.argument? (f : Field) (name : String) : Option Argument :=
  f.arguments.find? fun argument => argument.name == name

/-- A value of an enum type. -/
structure EnumValue where
  name : String
  description : Option String
  attributes : Attributes
deriving Inhabited

/-- A field set that tells the objects of a type apart. -/
structure Key where
  selections : SelectionSet
  /-- Objects can be fetched by this key from this subgraph. -/
  isResolvable : Bool
deriving Inhabited

namespace Key

/-- The key's field set in its normal spelling. -/
def text (k : Key) : String :=
  k.selections.text

/-- The fields that the key selects at the top without arguments or selections. -/
def leaves (k : Key) : List String :=
  k.selections.filterMap Selection.leaf?

end Key

/-! ## Types -/

/-- The kinds of types. -/
inductive TypeKind where
  | object | interface | union | inputObject | scalar | enum
deriving DecidableEq, Repr, Inhabited

namespace TypeKind

/-- The kind in words. -/
def describe : TypeKind → String
  | .object => "Object Type"
  | .interface => "Interface Type"
  | .union => "Union Type"
  | .inputObject => "Input Object Type"
  | .scalar => "Scalar Type"
  | .enum => "Enum Type"

/-- Types of this kind have fields or members to select from. -/
def isComposite : TypeKind → Bool
  | .object | .interface | .union => true
  | .inputObject | .scalar | .enum => false

end TypeKind

/-- A type as one subgraph defines it. -/
structure TypeDef where
  name : String
  kind : TypeKind
  description : Option String
  attributes : Attributes := {}
  /-- The type has extensions only, or is marked with `@extends`. -/
  isExtension : Bool
  isUsedAsInput : Bool := false
  isUsedAsOutput : Bool := false
  keys : List Key := []
  /-- Fields in the order in which their names were first mentioned. -/
  fields : List Field := []
  enumValues : List EnumValue := []
  /-- The names of the member types of a union. -/
  members : List String := []
  /-- The names of the types this type declares to implement. -/
  interfaces : List String := []
deriving Inhabited

namespace TypeDef

/-- The field of a name. -/
def field? (d : TypeDef) (name : String) : Option Field :=
  d.fields.find? fun field => field.name == name

/-- An object type that stands in for an interface. -/
def isInterfaceObject (d : TypeDef) : Bool :=
  d.kind == .interface && d.attributes.isInterfaceObject

/-- The type has a key. -/
def isEntity (d : TypeDef) : Bool :=
  !d.keys.isEmpty

/-- The keys by which objects can be fetched. -/
def resolvableKeys (d : TypeDef) : List Key :=
  d.keys.filter Key.isResolvable

/-- Objects can be fetched by some key. -/
def hasResolvableKey (d : TypeDef) : Bool :=
  d.keys.any Key.isResolvable

/-- The coordinate of a field. -/
def coordinate (d : TypeDef) (field : String) : String :=
  d.name ++ "." ++ field

theorem name_of_field? {d : TypeDef} {name : String} {field : Field}
    (h : d.field? name = some field) : field.name = name := by
  simpa using List.find?_some h

end TypeDef

end Federation
