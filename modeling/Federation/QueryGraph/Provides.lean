import Federation.QueryGraph.Keys

/-!
# Provided fields

A field with `@provides` leads to a copy of the node of its type, where the external fields that it
provides can be resolved. The node itself stays as it is, because other fields lead to it as well.
-/

namespace Federation.QueryGraph

/-- The edge of a provided field. If the node has none, one is added, provided that the subgraph
declares the field. -/
def provideField? (merged : MergedSchema) (subgraph : SubgraphId) (node : NodeId) (field : String)
    (g : QueryGraph) : Option (EdgeId × QueryGraph) :=
  match g.findEdge? node fun e => e.resolves field with
  | some edge => some (edge, g)
  | none =>
    match (merged.field? (g.typeNameOf node) field).bind fun f => f.byGraph.get? subgraph with
    | none => none
    | some f =>
      let (tail, g) := g.baseFor f.type.name subgraph
      some (g.addEdge node (.field field none true) tail)

/-- The edge to a possible type. -/
def findNarrowing? (g : QueryGraph) (node : NodeId) (typeName : String) : Option EdgeId :=
  g.findEdge? node fun e => e.move.isNarrowing && g.typeNameOf e.tail == typeName

mutual

/-- Lets a node resolve a provided selection. -/
def provideOne (merged : MergedSchema) (subgraph : SubgraphId) (node : NodeId) (g : QueryGraph) :
    Selection → QueryGraph
  | .field name _ selections =>
    match provideField? merged subgraph node name g with
    | none => g
    | some (edge, g) =>
      if selections.isEmpty then g
      else
        let (copy, g) := g.splitTail edge
        provide merged subgraph copy g selections
  | .inlineFragment condition selections =>
    if condition = g.typeNameOf node then provide merged subgraph node g selections
    else
      match g.findNarrowing? node condition with
      | none => g
      | some edge =>
        let (copy, g) := g.splitTail edge
        provide merged subgraph copy g selections

/-- Lets a node resolve all provided selections. -/
def provide (merged : MergedSchema) (subgraph : SubgraphId) (node : NodeId) (g : QueryGraph) :
    List Selection → QueryGraph
  | [] => g
  | first :: others =>
    provide merged subgraph node (provideOne merged subgraph node g first) others

end

/-- Lets what a field leads to resolve what the field provides. -/
def resolveProvision (merged : MergedSchema) (g : QueryGraph) (p : Provision) : QueryGraph :=
  let (copy, g) := g.splitTail p.edge
  provide merged p.subgraph copy g p.selections

/-! ## Whole graphs -/

/-- The subgraphs with their own moves only. -/
def draft (set : SubgraphSet) (merged : MergedSchema) : Draft :=
  set.enumerated.foldl (Draft.addSubgraph merged set.nameOf) {}

/-- The query graph of all subgraphs. -/
def ofSubgraphs (set : SubgraphSet) (merged : MergedSchema) : QueryGraph :=
  let d := draft set merged
  d.provisions.foldl (resolveProvision merged) (joinSubgraphs set merged d.graph)

/-- The labels of all overrides, each once, in the order of their first mention. -/
def labelsOf (set : SubgraphSet) (merged : MergedSchema) : List String :=
  set.names.sortBy id (draft set merged).labels.eraseDups

end Federation.QueryGraph
