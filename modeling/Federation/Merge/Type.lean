import Federation.Merge.ListSize

/-!
# Merged types

A type that may be defined by several subgraphs, all of which define it as the same kind of type.
-/

namespace Federation

/-! ## Types -/

/-- A value of an enum type, with the subgraphs that define it. -/
structure MergedEnumValue where
  name : String
  metadata : Metadata := {}
  subgraphs : List SubgraphId := []
deriving Inhabited

/-- A member of a union, with the subgraphs that declare it. -/
structure MergedMember where
  name : String
  subgraphs : List SubgraphId := []
deriving Inhabited

/-- What a merged type consists of, by its kind. -/
inductive MergedBody where
  | object (interfaces : List String) (fields : List MergedField)
  /-- The implementations are objects and interfaces. -/
  | interface (interfaces : List String) (fields : List MergedField) (implementations : List String)
  | union (members : List MergedMember)
  | enum (values : List MergedEnumValue)
  | scalar
  | inputObject (fields : List MergedInput)
deriving Inhabited

/-- The kind of type that consists of this. -/
def MergedBody.kind : MergedBody → TypeKind
  | .object _ _ => .object
  | .interface _ _ _ => .interface
  | .union _ => .union
  | .enum _ => .enum
  | .scalar => .scalar
  | .inputObject _ => .inputObject

/-- A type of a kind before any subgraph has added to it. -/
def MergedBody.empty : TypeKind → MergedBody
  | .object => .object [] []
  | .interface => .interface [] [] []
  | .union => .union []
  | .enum => .enum []
  | .scalar => .scalar
  | .inputObject => .inputObject []

@[simp] theorem MergedBody.kind_empty (kind : TypeKind) : (MergedBody.empty kind).kind = kind := by
  cases kind <;> rfl

/-- A merged type. -/
structure MergedType where
  name : String
  metadata : Metadata := {}
  /-- The type as each subgraph defines it. -/
  byGraph : ByGraph TypeDef := []
  body : MergedBody
deriving Inhabited

namespace MergedType

/-- The kind of the type. -/
def kind (t : MergedType) : TypeKind :=
  t.body.kind

/-- The interfaces that any subgraph declares the type to implement. -/
def interfaces (t : MergedType) : List String :=
  match t.body with
  | .object interfaces _ | .interface interfaces _ _ => interfaces
  | _ => []

/-- The output fields of an object or interface. -/
def fields (t : MergedType) : List MergedField :=
  match t.body with
  | .object _ fields | .interface _ fields _ => fields
  | _ => []

/-- The output field of a name. -/
def field? (t : MergedType) (name : String) : Option MergedField :=
  t.fields.find? fun field => field.name == name

/-- The objects and interfaces that implement an interface. -/
def implementations (t : MergedType) : List String :=
  match t.body with
  | .interface _ _ implementations => implementations
  | _ => []

/-- The subgraphs in which objects stand in for the interface. -/
def interfaceObjectSubgraphs (t : MergedType) : List SubgraphId :=
  (t.byGraph.filter fun entry => entry.2.isInterfaceObject).map Prod.fst

/-- The coordinate of a field. -/
def coordinate (t : MergedType) (field : String) : String :=
  t.name ++ "." ++ field

end MergedType

/-! ## Enum types -/

/-- How the values of an enum type are merged. -/
inductive EnumStrategy where
  /-- Clients may only send values that every subgraph knows. -/
  | intersection
  /-- Clients have to expect every value that some subgraph returns. -/
  | union
  /-- All subgraphs have to define the same values. -/
  | consistency
deriving DecidableEq, Repr

/-- The use of an enum type decides how its values are merged. -/
def EnumStrategy.ofUse (usedAsInput usedAsOutput : Bool) : EnumStrategy :=
  match usedAsInput, usedAsOutput with
  | true, false => .intersection
  | false, true => .union
  | _, _ => .consistency

namespace MergedType

/-- Some subgraph uses the type for arguments or input fields. -/
def isUsedAsInput (t : MergedType) : Bool :=
  t.byGraph.any fun entry => entry.2.isUsedAsInput

/-- Some subgraph uses the type for output fields. -/
def isUsedAsOutput (t : MergedType) : Bool :=
  t.byGraph.any fun entry => entry.2.isUsedAsOutput

/-- How the values of the enum type are merged. -/
def enumStrategy (t : MergedType) : EnumStrategy :=
  .ofUse t.isUsedAsInput t.isUsedAsOutput

/-- All subgraphs that define the enum type define a value. -/
def isDefinedEverywhere (t : MergedType) (value : MergedEnumValue) : Bool :=
  t.byGraph.all fun entry => value.subgraphs.contains entry.1

/-- A value is hidden from clients: it is marked so, or some subgraph would not take it. -/
def isHiddenValue (t : MergedType) (value : MergedEnumValue) : Bool :=
  value.metadata.isInaccessible ||
    (t.enumStrategy == .intersection && !t.isDefinedEverywhere value)

end MergedType

/-! ## Schemas -/

/-- The merged schema: all types in the order in which the subgraphs first define them. -/
structure MergedSchema where
  types : List MergedType := []
deriving Inhabited

namespace MergedSchema

/-- The type of a name. -/
def type? (m : MergedSchema) (name : String) : Option MergedType :=
  m.types.find? fun type => type.name == name

/-- The object type of a name. -/
def object? (m : MergedSchema) (name : String) : Option MergedType :=
  (m.type? name).filter fun type => type.kind == .object

/-- The interface type of a name. -/
def interface? (m : MergedSchema) (name : String) : Option MergedType :=
  (m.type? name).filter fun type => type.kind == .interface

/-- The root type for a kind of operation. -/
def root? (m : MergedSchema) (root : RootOperation) : Option MergedType :=
  m.object? root.typeName

/-- A field of an object or interface type. -/
def field? (m : MergedSchema) (typeName field : String) : Option MergedField :=
  (m.type? typeName).bind fun type => type.field? field

/-- The type can have fields or members selected from it. -/
def isComposite (m : MergedSchema) (name : String) : Bool :=
  (m.type? name).any fun type => type.kind.isComposite

/-- An object or interface type as a subgraph defines it. -/
def typeIn? (m : MergedSchema) (name : String) (id : SubgraphId) : Option TypeDef := do
  let type ← m.type? name
  match type.kind with
  | .object | .interface => type.byGraph.get? id
  | _ => none

end MergedSchema

end Federation
