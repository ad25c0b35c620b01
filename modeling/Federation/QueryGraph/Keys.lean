import Federation.QueryGraph.Fields

/-!
# Moves between subgraphs

An object can be fetched from another subgraph by a key that can be filled in where the planner is.
Of several such keys the one with the fewest leaf fields is used.
-/

namespace Federation

/-! ## Keys that can be filled in -/

namespace Subgraph

/-- The subgraph has a field itself. Fields of keys count even when they are external. -/
def holds (s : Subgraph) (t : TypeDef) (field : Field) : Bool :=
  !s.isExternal t field || field.usage.inKey

mutual

/-- A selection can be fetched from a type without leaving the subgraph. -/
def canProvideOne (s : Subgraph) (t : TypeDef) : Selection → Bool
  | .field name _ selections =>
    (t.field? name).any fun field =>
      s.holds t field &&
        (selections.isEmpty || (s.typeOf? field).any fun u => canProvide s u selections)
  | .inlineFragment condition selections =>
    if condition = t.name then canProvide s t selections
    else (s.definition? condition).any fun u => canProvide s u selections

/-- All selections can be fetched from a type without leaving the subgraph. -/
def canProvide (s : Subgraph) (t : TypeDef) : List Selection → Bool
  | [] => true
  | first :: others => canProvideOne s t first && canProvide s t others

end

end Subgraph

namespace Key

/-- The number of leaf fields of a key. -/
def leafCount (k : Key) : Nat :=
  k.selections.leafCount

/-- The first of the keys with the fewest leaf fields. -/
def cheapest? : List Key → Option Key
  | [] => none
  | key :: keys =>
    match cheapest? keys with
    | none => some key
    | some other => if other.leafCount < key.leafCount then some other else some key

/-- The cheapest resolvable key that a type of a subgraph can fill in. -/
def cheapestFrom? (s : Subgraph) (t : TypeDef) (keys : List Key) : Option Key :=
  cheapest? (keys.filter fun key => key.isResolvable && s.canProvide t key.selections)

end Key

/-! ## Edges -/

namespace QueryGraph

/-- Adds the edge from a type in one subgraph to a type in another, if both have nodes and some key
can be filled in. -/
def addKeyEdge (set : SubgraphSet) (makeMove : Key → Move) (keys : List Key) (target : NodeId)
    (sourceName : String) (g : QueryGraph) (source : SubgraphId × TypeDef) : QueryGraph :=
  let key? := (set.subgraph? source.1).bind fun s => Key.cheapestFrom? s source.2 keys
  match g.base? sourceName source.1, key? with
  | some head, some key => (g.addEdge head (makeMove key) target).2
  | _, _ => g

/-- Adds the edges that lead to a type in one subgraph from all others that define it. -/
def joinTarget (set : SubgraphSet) (t : MergedType) (g : QueryGraph)
    (target : SubgraphId × TypeDef) : QueryGraph :=
  match g.base? t.name target.1 with
  | none => g
  | some node =>
    let sources := t.byGraph.filter fun source => source.1 != target.1
    sources.foldl (addKeyEdge set .entity target.2.keys node t.name) g

/-- Adds the edges that lead to what stands in for an interface from an implementation. -/
def joinImplementation (set : SubgraphSet) (merged : MergedSchema) (node : NodeId)
    (keys : List Key) (g : QueryGraph) (implementation : String) : QueryGraph :=
  match merged.object? implementation with
  | none => g
  | some object => object.byGraph.foldl (addKeyEdge set .interfaceObject keys node object.name) g

/-- Adds the edges that lead to what stands in for an interface in one subgraph. -/
def joinInterfaceObject (set : SubgraphSet) (merged : MergedSchema) (t : MergedType)
    (g : QueryGraph) (target : SubgraphId × TypeDef) : QueryGraph :=
  match g.base? t.name target.1 with
  | none => g
  | some node =>
    t.implementations.foldl (joinImplementation set merged node target.2.keys) g

/-- Adds all edges that lead to a type by a key. -/
def joinType (set : SubgraphSet) (merged : MergedSchema) (g : QueryGraph) (t : MergedType) :
    QueryGraph :=
  match t.kind with
  | .object | .interface =>
    let g := t.byGraph.foldl (joinTarget set t) g
    let standIns := t.byGraph.filter fun entry => entry.2.isInterfaceObject
    standIns.foldl (joinInterfaceObject set merged t) g
  | _ => g

/-- Adds all edges between subgraphs. -/
def joinSubgraphs (set : SubgraphSet) (merged : MergedSchema) (g : QueryGraph) : QueryGraph :=
  merged.types.foldl (joinType set merged) g

end QueryGraph

end Federation
