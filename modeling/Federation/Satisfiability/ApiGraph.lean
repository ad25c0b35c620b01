import Federation.Merge.Type
import Federation.Reachability

/-!
# The API as a graph

The types that clients can select from, with the steps that a client query can take: to the value of
a field, or to a possible type. Inaccessible types and fields are not part of it.
-/

namespace Federation

/-- A step of a client query, with the type that it leads to. -/
inductive ApiMove where
  | field (name typeName : String)
  | narrow (typeName : String)
deriving DecidableEq, Repr

/-- The type that a step leads to. -/
def ApiMove.target : ApiMove → String
  | .field _ typeName | .narrow typeName => typeName

/-- A type that clients can select from. -/
structure ApiType where
  name : String
  moves : List ApiMove
deriving DecidableEq, Repr

/-- All types that clients can select from. -/
structure ApiGraph where
  types : List ApiType

/-! ## The graph of a merged schema -/

namespace MergedSchema

/-- Clients can see the type of a name, or there is none. -/
def isAccessible (m : MergedSchema) (name : String) : Bool :=
  !((m.type? name).any fun t => t.metadata.isInaccessible)

/-- The step to a field, if clients can see the field and its type. -/
def apiField? (m : MergedSchema) (field : MergedField) : Option ApiMove :=
  if field.metadata.isInaccessible || !m.isAccessible field.type.name then none
  else some (.field field.name field.type.name)

/-- The steps to the possible types that clients can see. -/
def apiNarrowings (m : MergedSchema) (t : MergedType) : List ApiMove :=
  let possible := match t.body with
    | .interface _ _ implementations => implementations
    | .union members => members.map MergedMember.name
    | _ => []
  (possible.filter m.isAccessible).map .narrow

/-- A type with all its steps. -/
def apiType (m : MergedSchema) (t : MergedType) : ApiType where
  name := t.name
  moves := t.fields.filterMap m.apiField? ++ m.apiNarrowings t

/-- The API of the schema. -/
def apiGraph (m : MergedSchema) : ApiGraph where
  types := (m.types.filter fun t => t.kind.isComposite && !t.metadata.isInaccessible).map m.apiType

end MergedSchema

namespace ApiGraph

/-- The names of all types. -/
def names (g : ApiGraph) : List String :=
  g.types.map ApiType.name

/-- The steps that lead on from a type. -/
def moves (g : ApiGraph) (name : String) : List ApiMove :=
  ((g.types.find? fun t => t.name == name).map ApiType.moves).getD []

/-- Some query that starts at a type gets to another. -/
def leadsTo (g : ApiGraph) (start target : String) : Bool :=
  Reachability.leadsTo g.names (fun name => (g.moves name).map ApiMove.target) start target

end ApiGraph

end Federation
