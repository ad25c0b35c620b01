import Federation.Merge.Type

/-!
# Merging

The types of all subgraphs are merged by name, subgraph after subgraph. This fails only if two
subgraphs define a type as different kinds. Afterwards every interface knows its implementations,
and the fields that objects add to an interface they stand in for are copied to its implementations.
-/

namespace Federation

/-! ## Conflicts -/

/-- Two subgraphs define a type as different kinds. -/
structure MergeError where
  typeName : String
  firstKind : TypeKind
  firstSubgraph : String
  secondKind : TypeKind
  secondSubgraph : String
deriving DecidableEq, Repr

/-- The conflict in words. -/
def MergeError.message (e : MergeError) : String :=
  s!"Type \"{e.typeName}\" has mismatched kind: it is defined as {e.firstKind.describe} in subgraph \"{e.firstSubgraph}\" but {e.secondKind.describe} in subgraph \"{e.secondSubgraph}\""

/-! ## Adding types -/

namespace MergedEnumValue

/-- Adds a value that a subgraph defines. -/
def absorbInto (values : List MergedEnumValue) (id : SubgraphId) (v : EnumValue) :
    List MergedEnumValue :=
  upsert (fun m => m.name == v.name) { name := v.name } (fun m =>
    { m with
      metadata := m.metadata.absorb v.attributes v.description
      subgraphs := Attributes.addNew m.subgraphs id }) values

end MergedEnumValue

namespace MergedMember

/-- Adds a member that a subgraph declares. -/
def absorbInto (members : List MergedMember) (id : SubgraphId) (name : String) :
    List MergedMember :=
  upsert (fun m => m.name == name) { name := name } (fun m =>
    { m with subgraphs := Attributes.addNew m.subgraphs id }) members

end MergedMember

/-- Adds the fields that a subgraph defines. -/
def absorbFields (s : Subgraph) (id : SubgraphId) (d : TypeDef) (fields : List MergedField) :
    List MergedField :=
  d.fields.foldl (fun fields field => MergedField.absorbInto fields id (.of s d field)) fields

/-- Adds the interfaces that a subgraph declares. -/
def absorbInterfaces (d : TypeDef) (interfaces : List String) : List String :=
  d.interfaces.foldl Attributes.addNew interfaces

/-- Adds what a subgraph declares to what a type consists of. -/
def MergedBody.absorb (s : Subgraph) (id : SubgraphId) (d : TypeDef) : MergedBody → MergedBody
  | .object interfaces fields =>
    .object (absorbInterfaces d interfaces) (absorbFields s id d fields)
  | .interface interfaces fields implementations =>
    .interface (absorbInterfaces d interfaces) (absorbFields s id d fields) implementations
  | .union members =>
    .union (d.members.foldl (fun members name => MergedMember.absorbInto members id name) members)
  | .enum values =>
    .enum (d.enumValues.foldl (fun values v => MergedEnumValue.absorbInto values id v) values)
  | .scalar => .scalar
  | .inputObject fields =>
    .inputObject (d.fields.foldl (fun fields field =>
      MergedInput.absorbInto fields id (.ofField field)) fields)

/-- Adds a type that a subgraph defines to the type of its name. -/
def MergedType.absorb (t : MergedType) (s : Subgraph) (id : SubgraphId) (d : TypeDef) :
    MergedType :=
  { t with
    metadata := t.metadata.absorb d.attributes d.description
    byGraph := t.byGraph.set id d
    body := t.body.absorb s id d }

namespace MergedSchema

/-- Adds a type that a subgraph defines, with the names of all subgraphs at hand. -/
def addType (nameOf : SubgraphId → String) (s : Subgraph) (id : SubgraphId) (m : MergedSchema)
    (d : TypeDef) : Except MergeError MergedSchema :=
  match m.type? d.name with
  | none =>
    let fresh : MergedType := { name := d.name, body := .empty d.kind }
    .ok { types := m.types ++ [fresh.absorb s id d] }
  | some existing =>
    if existing.kind = d.kind then
      .ok { types := m.types.map fun t => if t.name == d.name then t.absorb s id d else t }
    else
      .error
        { typeName := d.name
          firstKind := existing.kind
          firstSubgraph := (existing.byGraph.ids.head?.map nameOf).getD ""
          secondKind := d.kind
          secondSubgraph := s.name }

/-- Adds all types that a subgraph defines. -/
def addSubgraph (nameOf : SubgraphId → String) (m : MergedSchema) (entry : SubgraphId × Subgraph) :
    Except MergeError MergedSchema :=
  entry.2.definitions.foldlM (addType nameOf entry.2 entry.1) m

/-! ## Interfaces -/

/-- The types that are declared to implement an interface. -/
def implementersOf (m : MergedSchema) (interface : String) : List String :=
  (m.types.filter fun t => t.interfaces.contains interface).map MergedType.name

/-- Every interface gets to know its implementations. -/
def withImplementations (m : MergedSchema) : MergedSchema where
  types := m.types.map fun t =>
    match t.body with
    | .interface interfaces fields _ =>
      { t with body := .interface interfaces fields (m.implementersOf t.name) }
    | _ => t

/-- The fields of an interface that objects standing in for it define. -/
def interfaceObjectFields (t : MergedType) : List MergedField :=
  let standIns := t.interfaceObjectSubgraphs
  t.fields.filter fun field => field.byGraph.any fun entry => standIns.contains entry.1

/-- The fields to copy, each with the type that gets it. -/
def copies (m : MergedSchema) : List (String × MergedField) :=
  (m.types.filter fun t => t.kind == .interface).flatMap fun t =>
    (interfaceObjectFields t).flatMap fun field =>
      t.implementations.map fun implementation => (implementation, field)

/-- The copy of an interface's field on an implementation, which no subgraph defines there. -/
def copyOf (field : MergedField) : MergedField :=
  { field with byGraph := [], isFromInterfaceObject := true }

/-- Copies a field to an object type that does not have it. -/
def copyField (m : MergedSchema) (copy : String × MergedField) : MergedSchema where
  types := m.types.map fun t =>
    match t.body with
    | .object interfaces fields =>
      if t.name == copy.1 && !(fields.any fun field => field.name == copy.2.name) then
        { t with body := .object interfaces (fields ++ [copyOf copy.2]) }
      else t
    | _ => t

/-- Copies the fields that objects standing in for interfaces add. -/
def withCopiedFields (m : MergedSchema) : MergedSchema :=
  m.copies.foldl copyField m

/-! ## Whole schemas -/

/-- The last steps, after all subgraphs have been added. -/
def finish (m : MergedSchema) : MergedSchema :=
  m.withImplementations.withCopiedFields

/-- Merges all subgraphs. -/
def ofSubgraphs (set : SubgraphSet) : Except MergeError MergedSchema := do
  let merged ← set.enumerated.foldlM (addSubgraph set.nameOf) {}
  return merged.finish

end MergedSchema

end Federation
