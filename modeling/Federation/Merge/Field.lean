import Federation.Merge.Metadata

/-!
# Merged fields

A field, argument or input field that may be defined by several subgraphs. It keeps what each of
them says next to what they agree on.
-/

namespace Federation

/-! ## Tables by subgraph -/

/-- Entries of the subgraphs that define something, in the order of the subgraphs. -/
abbrev ByGraph (α : Type) : Type := List (SubgraphId × α)

namespace ByGraph

/-- The entry of a subgraph. -/
def get? {α : Type} (entries : ByGraph α) (id : SubgraphId) : Option α :=
  entries.lookup id

/-- A subgraph has an entry. -/
def has {α : Type} (entries : ByGraph α) (id : SubgraphId) : Bool :=
  entries.any fun entry => entry.1 == id

/-- The subgraphs with an entry. -/
def ids {α : Type} (entries : ByGraph α) : List SubgraphId :=
  entries.map Prod.fst

/-- Sets the entry of a subgraph: a second entry takes the place of the first. -/
def set {α : Type} (entries : ByGraph α) (id : SubgraphId) (value : α) : ByGraph α :=
  if entries.has id then entries.map fun entry => if entry.1 == id then (id, value) else entry
  else entries ++ [(id, value)]

end ByGraph

/-- Changes the first item that is the right one; without one, a fresh item is changed and added at
the end. -/
def upsert {α : Type} (isRight : α → Bool) (fresh : α) (f : α → α) : List α → List α
  | [] => [f fresh]
  | first :: others =>
    if isRight first then f first :: others else first :: upsert isRight fresh f others

/-! ## Arguments and input fields -/

/-- An argument or an input field. -/
structure MergedInput where
  name : String
  /-- The strictest of the subgraphs' types, unless they disagree. -/
  type : TypeRef
  /-- The first default value. -/
  defaultValue : Option Value := none
  metadata : Metadata := {}
  byGraph : ByGraph TypeRef := []
  typesDisagree : Bool := false
deriving Inhabited

/-- What one subgraph says about an argument or an input field. -/
structure InputInGraph where
  name : String
  type : TypeRef
  description : Option String
  attributes : Attributes
  defaultValue : Option Value

/-- An argument as its subgraph declares it. -/
def InputInGraph.ofArgument (a : Argument) : InputInGraph where
  name := a.name
  type := a.type
  description := a.description
  attributes := a.attributes
  defaultValue := a.defaultValue

/-- An input field as its subgraph declares it. -/
def InputInGraph.ofField (f : Field) : InputInGraph where
  name := f.name
  type := f.type
  description := f.description
  attributes := f.attributes
  defaultValue := f.defaultValue

namespace MergedInput

/-- Adds what one subgraph says. -/
def absorb (m : MergedInput) (id : SubgraphId) (i : InputInGraph) : MergedInput :=
  let composed := m.type.composeInput? i.type
  { m with
    metadata := m.metadata.absorb i.attributes i.description
    type := composed.getD m.type
    typesDisagree := m.typesDisagree || composed.isNone
    defaultValue := m.defaultValue.or i.defaultValue
    byGraph := m.byGraph.set id i.type }

/-- Adds what one subgraph says to the item of its name. -/
def absorbInto (inputs : List MergedInput) (id : SubgraphId) (i : InputInGraph) :
    List MergedInput :=
  upsert (fun m => m.name == i.name) { name := i.name, type := i.type } (·.absorb id i) inputs

end MergedInput

/-! ## Output fields -/

/-- What one subgraph says about an output field. -/
structure FieldInGraph where
  definition : Field
  isExternal : Bool
  isShareable : Bool
  /-- What the field requires besides the leaves of its type's keys. -/
  requires : Option SelectionSet
  /-- What the field provides besides the leaves of the keys of its value's type. -/
  provides : Option SelectionSet
deriving Inhabited

namespace FieldInGraph

/-- The type of the field in the subgraph. -/
def type (f : FieldInGraph) : TypeRef :=
  f.definition.type

/-- The override on the field in the subgraph. -/
def override (f : FieldInGraph) : Option Override :=
  f.definition.attributes.override

/-- The field is part of a key of the subgraph. -/
def isUsedAsKey (f : FieldInGraph) : Bool :=
  f.definition.usage.inKey

/-- The field moves only while a label is active. -/
def hasProgressiveOverride (f : FieldInGraph) : Bool :=
  f.override.any fun o => o.label.isSome

end FieldInGraph

/-- An output field. -/
structure MergedField where
  name : String
  /-- The weakest of the subgraphs' types, unless they disagree. -/
  type : TypeRef
  metadata : Metadata := {}
  arguments : List MergedInput := []
  byGraph : ByGraph FieldInGraph := []
  typesDisagree : Bool := false
  /-- The field was copied to an implementation of an interface that objects stand in for. -/
  isFromInterfaceObject : Bool := false
deriving Inhabited

namespace MergedField

/-- The subgraph that takes the field over from a subgraph of a name, and what it says. -/
def overrider? (m : MergedField) (subgraphName : String) : Option (SubgraphId × FieldInGraph) :=
  m.byGraph.find? fun entry => entry.2.override.any fun o => o.source == subgraphName

/-- The subgraphs that define the field without `@external`. -/
def resolving (m : MergedField) : List SubgraphId :=
  (m.byGraph.filter fun entry => !entry.2.isExternal).map Prod.fst

/-- Adds what one subgraph says. -/
def absorb (m : MergedField) (id : SubgraphId) (f : FieldInGraph) : MergedField :=
  let field := f.definition
  let composed := m.type.composeOutput? field.type
  { m with
    metadata := m.metadata.absorb field.attributes field.description
    type := composed.getD m.type
    typesDisagree := m.typesDisagree || composed.isNone
    arguments := field.arguments.foldl (fun inputs a =>
      MergedInput.absorbInto inputs id (.ofArgument a)) m.arguments
    byGraph := m.byGraph.set id f }

/-- Adds what one subgraph says to the field of its name. -/
def absorbInto (fields : List MergedField) (id : SubgraphId) (f : FieldInGraph) :
    List MergedField :=
  upsert (fun m => m.name == f.definition.name)
    { name := f.definition.name, type := f.definition.type } (·.absorb id f) fields

/-- The argument of a name. -/
def argument? (m : MergedField) (name : String) : Option MergedInput :=
  m.arguments.find? fun a => a.name == name

end MergedField

/-! ## Field sets without key leaves -/

/-- The leaves of all keys of a type. -/
def TypeDef.keyLeaves (d : TypeDef) : List String :=
  d.keys.flatMap Key.leaves

/-- A field set without the leaves in a list, if anything is left. Keys are fetched in any case, so
their leaves need not be selected again. -/
def SelectionSet.pruned? (leaves : List String) (selections : SelectionSet) :
    Option SelectionSet :=
  let kept := selections.filter fun selection => !(selection.leaf?.any leaves.contains)
  if kept.isEmpty then none else some kept

/-- A field of a subgraph, ready to be merged. -/
def FieldInGraph.of (s : Subgraph) (parent : TypeDef) (field : Field) : FieldInGraph where
  definition := field
  isExternal := s.isExternal parent field
  isShareable := s.isShareable parent field
  requires := field.attributes.requires.bind (SelectionSet.pruned? parent.keyLeaves)
  provides := field.attributes.provides.bind
    (SelectionSet.pruned? (((s.typeOf? field).map TypeDef.keyLeaves).getD []))

end Federation
