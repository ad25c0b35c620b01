import Federation.QueryGraph.Provides
import Federation.Reachability

/-!
# Planning

A query planner can be at any of several nodes of the query graph. It resolves a field from a node,
or from one that it gets to by keys. A field with `@requires` asks for more: its selections have to
be resolvable first, and a key has to lead back to the subgraph.
-/

namespace Federation

/-- What a planner knows: the query graph, and the labels that are active. -/
structure Planner where
  merged : MergedSchema
  graph : QueryGraph
  activeLabels : List String

namespace Planner

/-! ## Moves -/

/-- The nodes in a list, each once and in the order of the graph. -/
def options (p : Planner) (nodes : List NodeId) : List NodeId :=
  p.graph.ids.filter nodes.contains

/-- A move is possible with the labels that are active. -/
def allows (p : Planner) (condition : Option LabelCondition) : Bool :=
  condition.all fun c => c.holds p.activeLabels

/-- The nodes that some key leads to. -/
def keyTails (p : Planner) (node : NodeId) : List NodeId :=
  ((p.graph.edges node).filter fun e => e.move.isByKey).map Edge.tail

/-- Some nodes, and all nodes that keys lead to from there. -/
def withKeyMoves (p : Planner) (nodes : List NodeId) : List NodeId :=
  Reachability.closure p.graph.ids p.keyTails nodes

/-- An edge can be taken to resolve a field at a node, given which fields have their requirements
met. A provided field has no requirements. -/
def canTake (p : Planner) (isMet : NodeId → String → Bool) (node : NodeId) (field : String)
    (e : Edge) : Bool :=
  match e.move with
  | .field name condition isProvided =>
    name == field && p.allows condition && (isProvided || isMet node name)
  | _ => false

/-- The nodes that a field leads to, given which fields have their requirements met. -/
def advanceWhere (p : Planner) (isMet : NodeId → String → Bool) (nodes : List NodeId)
    (field : String) : List NodeId :=
  p.options ((p.withKeyMoves nodes).flatMap fun node =>
    ((p.graph.edges node).filter (p.canTake isMet node field)).map Edge.tail)

/-- The nodes where the value may be of a type: those of the type itself, and those that a node can
be narrowed to. -/
def narrowed (p : Planner) (typeName : String) (node : NodeId) : List NodeId :=
  if p.graph.typeNameOf node == typeName then [node]
  else
    ((p.graph.edges node).filter fun e =>
      e.move.isNarrowing && p.graph.typeNameOf e.tail == typeName).map Edge.tail

/-- The nodes that narrowing to a type leads to. -/
def advanceToType (p : Planner) (nodes : List NodeId) (typeName : String) : List NodeId :=
  p.options ((p.withKeyMoves nodes).flatMap (p.narrowed typeName))

mutual

/-- A selection can be resolved. A fragment on a type that the value never has asks for nothing. -/
def resolvesOne (p : Planner) (isMet : NodeId → String → Bool) (nodes : List NodeId) :
    Selection → Bool
  | .field name _ selections =>
    let next := p.advanceWhere isMet nodes name
    !next.isEmpty && (selections.isEmpty || resolves p isMet next selections)
  | .inlineFragment condition selections =>
    let next := p.advanceToType nodes condition
    next.isEmpty || resolves p isMet next selections

/-- All selections can be resolved. -/
def resolves (p : Planner) (isMet : NodeId → String → Bool) (nodes : List NodeId) :
    List Selection → Bool
  | [] => true
  | first :: others => resolvesOne p isMet nodes first && resolves p isMet nodes others

end

/-! ## Requirements -/

/-- What a field requires at a node. -/
def requirements (p : Planner) (node : NodeId) (field : String) : SelectionSet :=
  match p.graph.node? node with
  | none => []
  | some n =>
    let f? := (p.merged.field? n.typeName field).bind fun f => f.byGraph.get? n.subgraph
    (f?.bind FieldInGraph.requires).getD []

/-- Some key leads back to a node. -/
def canResume (p : Planner) (node : NodeId) : Bool :=
  match p.graph.node? node with
  | none => false
  | some n => (p.merged.typeIn? n.typeName n.subgraph).any TypeDef.hasResolvableKey

/-- Whether the requirements of a field are met. -/
inductive Outcome where
  | met
  | unmet
  | noWayBack
deriving DecidableEq, Repr

/-- Whether the requirements of a field at a node are met. They never are by way of fields that wait
for their own requirements; so a depth of one more than there are edges is enough. -/
def outcomeWithin (p : Planner) (depth : Nat) (waiting : List (NodeId × String)) (node : NodeId)
    (field : String) : Outcome :=
  let requirements := p.requirements node field
  if requirements.isEmpty then .met
  else if waiting.contains (node, field) then .unmet
  else if !p.canResume node then .noWayBack
  else
    match depth with
    | 0 => .unmet
    | depth + 1 =>
      let isMet := fun n f => p.outcomeWithin depth ((node, field) :: waiting) n f == .met
      if p.resolves isMet [node] requirements then .met else .unmet

/-- Whether the requirements of a field at a node are met. -/
def outcome (p : Planner) (node : NodeId) (field : String) : Outcome :=
  p.outcomeWithin (p.graph.edgeCount + 1) [] node field

/-- The nodes that a field leads to. -/
def advance (p : Planner) (nodes : List NodeId) (field : String) : List NodeId :=
  p.advanceWhere (fun node field => p.outcome node field == .met) nodes field

end Planner

end Federation
