import Federation.Diagnostic
import Federation.Subgraph.Definition
import Federation.Subgraph.Link

/-!
# Subgraphs

A subgraph is one of the schemas to compose. Its types have different names, and what refers to a
type does so by name.
-/

namespace Federation

/-- The names of the root types of a schema. -/
structure RootTypes where
  query : Option String := none
  mutation : Option String := none
  subscription : Option String := none
deriving DecidableEq, Repr, Inhabited

namespace RootTypes

/-- The root type for a kind of operation. -/
def get (r : RootTypes) : RootOperation → Option String
  | .query => r.query
  | .mutation => r.mutation
  | .subscription => r.subscription

/-- Chooses the root type for a kind of operation. -/
def set (r : RootTypes) (root : RootOperation) (name : String) : RootTypes :=
  match root with
  | .query => { r with query := some name }
  | .mutation => { r with mutation := some name }
  | .subscription => { r with subscription := some name }

@[simp] theorem get_set (r : RootTypes) (root : RootOperation) (name : String) :
    (r.set root name).get root = some name := by
  cases root <;> rfl

end RootTypes

/-- A schema to compose. -/
structure Subgraph where
  name : String
  /-- The name of the subgraph in the enumeration of all subgraphs. -/
  enumValue : String
  url : Option String
  version : FederationVersion := .v1
  roots : RootTypes := {}
  features : Features := {}
  links : List Link := []
  /-- Imports by local name, the latest first. -/
  imports : List (String × Import) := []
  /-- Types in the order of their first blocks. -/
  definitions : List TypeDef := []
  /-- What was found while the schema was taken in. -/
  diagnostics : Diagnostics := []
deriving Inhabited

namespace Subgraph

/-! ## Types -/

/-- The type of a name. -/
def definition? (s : Subgraph) (name : String) : Option TypeDef :=
  s.definitions.find? fun definition => definition.name == name

/-- The subgraph defines a type of a name. -/
def defines (s : Subgraph) (name : String) : Bool :=
  s.definitions.any fun definition => definition.name == name

/-- The types of the names in a list, in the order in which the subgraph defines them. -/
def definitionsIn (s : Subgraph) (names : List String) : List TypeDef :=
  s.definitions.filter fun definition => names.contains definition.name

/-- The types that declare to implement an interface. -/
def implementers (s : Subgraph) (name : String) : List TypeDef :=
  s.definitions.filter fun definition => definition.interfaces.contains name

/-- The types that a value of a type can be narrowed to. -/
def possibleTypes (s : Subgraph) (d : TypeDef) : List TypeDef :=
  match d.kind with
  | .interface => s.implementers d.name
  | .union => s.definitionsIn d.members
  | _ => []

/-- Changes the type of a name. -/
def modifyDefinition (s : Subgraph) (name : String) (f : TypeDef → TypeDef) : Subgraph :=
  { s with definitions := s.definitions.map fun d => if d.name == name then f d else d }

theorem mem_of_definition? {s : Subgraph} {name : String} {d : TypeDef}
    (h : s.definition? name = some d) : d ∈ s.definitions :=
  List.mem_of_find?_eq_some h

theorem name_of_definition? {s : Subgraph} {name : String} {d : TypeDef}
    (h : s.definition? name = some d) : d.name = name := by
  simpa using List.find?_some h

/-! ## Fields -/

/-- The definition of a field's named type. -/
def typeOf? (s : Subgraph) (field : Field) : Option TypeDef :=
  s.definition? field.type.name

/-- The field is resolved elsewhere: `@external` stands on it, or, after the first version of
federation, on its type. -/
def isExternal (s : Subgraph) (parent : TypeDef) (field : Field) : Bool :=
  field.attributes.isExternal || (parent.attributes.isExternal && !s.version.isV1)

/-- Several subgraphs may resolve the field: `@shareable` stands on it or on its type. In the first
version of federation all fields of objects are shareable that are not in extensions. -/
def isShareable (s : Subgraph) (parent : TypeDef) (field : Field) : Bool :=
  field.attributes.isShareable || parent.attributes.isShareable ||
    (s.version.isV1 && parent.kind == .object && !field.inExtension)

/-! ## Links -/

/-- The import of a local name. -/
def import? (s : Subgraph) (localName : String) : Option Import :=
  s.imports.lookup localName

/-- The first link of a name space. -/
def linkOf? (s : Subgraph) (nameSpace : String) : Option Link :=
  s.links.find? fun link => link.nameSpace == nameSpace

/-- The name of a type that is imported from a specification. -/
def importsType (s : Subgraph) (name : String) : Bool :=
  (s.import? name).any fun found => !found.isDirective

end Subgraph

/-! ## Sets of subgraphs -/

/-- A place in a set of subgraphs. -/
abbrev SubgraphId : Type := Nat

/-- The subgraphs to compose, in the order they were added, with all texts they mention. -/
structure SubgraphSet where
  names : NameTable := {}
  subgraphs : List Subgraph := []
deriving Inhabited

namespace SubgraphSet

/-- The number of subgraphs. -/
def size (set : SubgraphSet) : Nat :=
  set.subgraphs.length

/-- The subgraph at a place. -/
def subgraph? (set : SubgraphSet) (id : SubgraphId) : Option Subgraph :=
  set.subgraphs[id]?

/-- The subgraphs with their places. -/
def enumerated (set : SubgraphSet) : List (SubgraphId × Subgraph) :=
  set.subgraphs.mapIdx fun id s => (id, s)

/-- The place of the first subgraph of a name. -/
def idOfName? (set : SubgraphSet) (name : String) : Option SubgraphId :=
  set.subgraphs.findIdx? fun s => s.name == name

/-- Some subgraph has a name. -/
def hasName (set : SubgraphSet) (name : String) : Bool :=
  set.subgraphs.any fun s => s.name == name

/-- The name of the subgraph at a place. -/
def nameOf (set : SubgraphSet) (id : SubgraphId) : String :=
  ((set.subgraph? id).map Subgraph.name).getD ""

/-- The enumeration value of the subgraph at a place. -/
def enumValueOf (set : SubgraphSet) (id : SubgraphId) : String :=
  ((set.subgraph? id).map Subgraph.enumValue).getD ""

/-- The features that any subgraph uses. -/
def features (set : SubgraphSet) : Features :=
  set.subgraphs.foldl (fun features s => features.union s.features) {}

/-- What was found while the subgraphs were taken in. -/
def diagnostics (set : SubgraphSet) : Diagnostics :=
  set.subgraphs.flatMap Subgraph.diagnostics

end SubgraphSet

end Federation
