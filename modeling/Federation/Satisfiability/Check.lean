import Federation.Satisfiability.Walk

/-!
# Satisfiability

Every query of the API has to be resolvable by the subgraphs. Queries start at the root types, and
at the entities that no root type leads to. All labels of overrides are inactive at first; then each
of them is active alone.
-/

namespace Federation.Satisfiability

/-- What is to be checked. -/
structure Problem where
  set : SubgraphSet
  merged : MergedSchema
  graph : QueryGraph
  api : ApiGraph

/-- The problem that some subgraphs and their merged schema pose. -/
def Problem.of (set : SubgraphSet) (merged : MergedSchema) : Problem where
  set
  merged
  graph := .ofSubgraphs set merged
  api := merged.apiGraph

/-! ## Starts -/

/-- Where queries start: at a type, with a planner at any of some nodes. -/
structure Start where
  entry : Entry
  typeName : String
  options : List NodeId

namespace Problem

/-- The base nodes of a type in some subgraphs, in the order of the graph. -/
def baseNodes (p : Problem) (typeName : String) (ids : List SubgraphId) : List NodeId :=
  let nodes := ids.filterMap (p.graph.base? typeName)
  p.graph.ids.filter nodes.contains

/-- The start at a root type, if clients can see it. -/
def rootStart? (p : Problem) (root : RootOperation) : Option Start := do
  let t ← p.merged.root? root
  if t.metadata.isInaccessible then none
  else
    some { entry := .root root, typeName := t.name, options := p.baseNodes t.name t.byGraph.ids }

/-- The starts at root types. -/
def rootStarts (p : Problem) : List Start :=
  RootOperation.all.filterMap p.rootStart?

/-- Queries from some root type get to a type. -/
def isReachable (p : Problem) (typeName : String) : Bool :=
  p.rootStarts.any fun start => p.api.leadsTo start.typeName typeName

/-- The start at an object type that no root type leads to, if some key leads there. -/
def entityStart? (p : Problem) (t : MergedType) : Option Start :=
  let fetchable := t.byGraph.filter fun entry => entry.2.hasResolvableKey
  let options := p.baseNodes t.name (fetchable.map Prod.fst)
  if t.kind ≠ .object || t.metadata.isInaccessible || options.isEmpty || p.isReachable t.name then
    none
  else some { entry := .entity t.name, typeName := t.name, options }

/-- All starts. -/
def starts (p : Problem) : List Start :=
  p.rootStarts ++ p.merged.types.filterMap p.entityStart?

/-! ## Walks -/

/-- What is walked while some labels are active. -/
def walker (p : Problem) (activeLabels : List String) : Walker where
  api := p.api
  planner := { merged := p.merged, graph := p.graph, activeLabels }
  nameOf := p.set.nameOf

/-- Walks from all starts while some labels are active. -/
def walkWith (p : Problem) (report : FailureReport) (activeLabels : List String) :
    FailureReport :=
  (p.starts.foldl (fun progress start =>
    (p.walker activeLabels).walk start.entry start.typeName start.options progress)
    { report := report }).report

/-- The sets of labels that are tried: none, then each label alone. -/
def labelStates (p : Problem) : List (List String) :=
  [] :: (QueryGraph.labelsOf p.set p.merged).map fun label => [label]

/-- The fields that cannot be resolved. -/
def report (p : Problem) : FailureReport :=
  p.labelStates.foldl p.walkWith {}

end Problem

/-- An error for each field that cannot be resolved. -/
def check (set : SubgraphSet) (merged : MergedSchema) : Diagnostics :=
  (Problem.of set merged).report.messages.map (.error .satisfiabilityError)

end Federation.Satisfiability
