import Federation.Satisfiability.Planner
import Federation.Satisfiability.Witness

/-!
# Failures

Why a field cannot be resolved: for each subgraph where the planner may be, what keeps it from
resolving the field there and from getting to another subgraph that has the field.
-/

namespace Federation.Failure

/-- What is at hand to explain a failure. -/
structure Context where
  planner : Planner
  nameOf : SubgraphId → String

namespace Context

/-! ## At a node -/

/-- The name of the subgraph that a field has moved to. -/
def overriderName (c : Context) (field : MergedField) (id : SubgraphId) : String :=
  ((field.overrider? (c.nameOf id)).map fun found => c.nameOf found.1).getD ""

/-- What the requirements of a field keep a node from. -/
def requirementReasons (c : Context) (id : NodeId) (node : Node) (field : String) : List String :=
  let coordinate := node.typeName ++ "." ++ field
  let subgraph := c.nameOf node.subgraph
  match c.planner.outcome id field with
  | .met => []
  | .unmet => [s!"cannot satisfy @requires conditions on field \"{coordinate}\""]
  | .noWayBack =>
    [s!"@requires condition on field \"{coordinate}\" can be satisfied but missing usable key on \"{node.typeName}\" in subgraph \"{subgraph}\" to resume query"]

/-- Why an edge does not resolve the field. -/
def edgeReasons (c : Context) (id : NodeId) (node : Node) (field : MergedField) (e : Edge) :
    List String :=
  let coordinate := node.typeName ++ "." ++ field.name
  match e.move with
  | .field _ condition _ =>
    if e.isIgnored then
      let overrider := c.overriderName field node.subgraph
      [s!"field \"{coordinate}\" is overridden by subgraph \"{overrider}\""]
    else
      match condition.filter fun condition => !condition.holds c.planner.activeLabels with
      | some condition =>
        let subgraph := c.nameOf node.subgraph
        let state := if condition.active then "active" else "inactive"
        [s!"field \"{coordinate}\" is only resolved by subgraph \"{subgraph}\" when the override label \"{condition.label}\" is {state}"]
      | none => c.requirementReasons id node field.name
  | _ => []

/-- Why a node does not resolve a field itself. -/
def nodeReasons (c : Context) (id : NodeId) (fieldName : String) : List String :=
  match c.planner.graph.node? id with
  | none => []
  | some node =>
    let coordinate := node.typeName ++ "." ++ fieldName
    let field? := c.planner.merged.field? node.typeName fieldName
    match field?, field?.bind fun field => field.byGraph.get? node.subgraph with
    | some field, some f =>
      let edges := (c.planner.graph.allEdges id).filter fun e => e.resolves fieldName
      if edges.isEmpty && f.isExternal then
        [s!"field \"{coordinate}\" is not resolvable because marked @external"]
      else edges.flatMap (c.edgeReasons id node field)
    | _, _ => [s!"cannot find field \"{coordinate}\""]

/-! ## Between subgraphs -/

/-- Why no key leads from one subgraph to another that has a field. -/
def keyReasons (c : Context) (typeName : String) (source target : SubgraphId)
    (coordinate : String) : List String :=
  match c.planner.merged.typeIn? typeName target with
  | none => []
  | some t =>
    let goal := c.nameOf target
    if t.keys.isEmpty then
      [s!"cannot move to subgraph \"{goal}\", which has field \"{coordinate}\", because type \"{typeName}\" has no @key defined in subgraph \"{goal}\""]
    else if !t.hasResolvableKey then
      [s!"cannot move to subgraph \"{goal}\", which has field \"{coordinate}\", because none of the @key defined on type \"{typeName}\" in subgraph \"{goal}\" are resolvable (they are all declared with their \"resolvable\" argument set to false)"]
    else
      let origin := c.nameOf source
      t.resolvableKeys.map fun key =>
        let fields := key.text
        s!"cannot move to subgraph \"{goal}\" using @key(fields: \"{fields}\") of \"{typeName}\", the key field(s) cannot be resolved from subgraph \"{origin}\""

/-- Why a node does not resolve a field by way of another subgraph that has the field. -/
def detourReasons (c : Context) (id : NodeId) (node : Node) (coordinate fieldName : String)
    (other : SubgraphId) : List String :=
  let graph := c.planner.graph
  let reached := (c.planner.withKeyMoves [id]).find? fun reached =>
    (graph.node? reached).any fun n => n.subgraph == other
  match reached with
  | some reached => c.nodeReasons reached fieldName
  | none => c.keyReasons node.typeName node.subgraph other coordinate

/-- Why a field of a type cannot be resolved from a node. -/
def optionReasons (c : Context) (typeName fieldName : String) (id : NodeId) (node : Node) :
    List String :=
  let coordinate := typeName ++ "." ++ fieldName
  let byGraph := ((c.planner.merged.field? typeName fieldName).map MergedField.byGraph).getD []
  let others := byGraph.filter fun entry => entry.1 != node.subgraph && !entry.2.isExternal
  c.nodeReasons id fieldName ++
    others.flatMap fun entry => c.detourReasons id node coordinate fieldName entry.1

/-! ## Altogether -/

/-- Adds the reasons of a node to those of its subgraph, each once. -/
def addReasons (c : Context) (typeName fieldName : String)
    (reasons : List (String × List String)) (id : NodeId) : List (String × List String) :=
  match c.planner.graph.node? id with
  | none => reasons
  | some node =>
    let name := c.nameOf node.subgraph
    upsert (fun entry => entry.1 == name) (name, []) (fun entry =>
      (entry.1, (c.optionReasons typeName fieldName id node).foldl Attributes.addNew entry.2))
      reasons

/-- The reasons of a subgraph as text. -/
def reasonText (entry : String × List String) : String :=
  let opening := s!"\n- from subgraph \"{entry.1}\":"
  match entry.2 with
  | [] => ""
  | [reason] => opening ++ " " ++ reason ++ "."
  | reasons => opening ++ String.join (reasons.map fun reason => "\n  - " ++ reason ++ ".")

/-- The message on a field of a type that cannot be resolved from some nodes. -/
def message (c : Context) (witness typeName fieldName : String) (nodes : List NodeId) : String :=
  let reasons := nodes.foldl (c.addReasons typeName fieldName) []
  s!"The following supergraph API query:\n{witness}\ncannot be satisfied by the subgraphs because:" ++
    String.join (reasons.map reasonText)

end Context

end Federation.Failure
