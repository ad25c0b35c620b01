import Federation.Satisfiability.ApiGraph
import Federation.Satisfiability.Failure

/-!
# Walking the API

All queries of the API are tried, depth first, while keeping the nodes where a planner can be. A
state is left out when the same type was already walked from fewer nodes: with fewer nodes a query
can only fail more. A field that leads to no node at all is reported, once for every field of a
type.
-/

namespace Federation

/-- Where a walk is: at a type of the API, with a planner at any of some nodes. -/
structure WalkState where
  typeName : String
  options : List NodeId
  /-- The selections that led here. -/
  path : List String

/-- The fields that cannot be resolved, and the message on each. -/
structure FailureReport where
  failed : List (String × String) := []
  messages : List String := []

namespace FailureReport

/-- The field was reported before. -/
def mentions (r : FailureReport) (typeName field : String) : Bool :=
  r.failed.contains (typeName, field)

/-- Adds a field with the message on it. -/
def add (r : FailureReport) (typeName field message : String) : FailureReport where
  failed := r.failed ++ [(typeName, field)]
  messages := r.messages ++ [message]

end FailureReport

/-- How far the walks have come. -/
structure WalkProgress where
  /-- Types that were walked, each with the nodes where the planner was. -/
  visited : List (String × List NodeId) := []
  report : FailureReport := {}

/-- The type was walked from some of the same nodes. -/
def WalkProgress.covers (p : WalkProgress) (state : WalkState) : Bool :=
  p.visited.any fun v => v.1 == state.typeName && v.2.all state.options.contains

/-- What is walked, and with what. -/
structure Walker where
  api : ApiGraph
  planner : Planner
  nameOf : SubgraphId → String

namespace Walker

/-! ## Single steps -/

/-- The message on a field that cannot be resolved. -/
def message (w : Walker) (entry : Entry) (state : WalkState) (field target : String) : String :=
  let context : Failure.Context := { planner := w.planner, nameOf := w.nameOf }
  let witness := Witness.text entry state.path field (w.planner.merged.isComposite target)
  context.message witness state.typeName field state.options

/-- The nodes that a step leads to. -/
def advance (w : Walker) (options : List NodeId) : ApiMove → List NodeId
  | .field name _ => w.planner.advance options name
  | .narrow typeName => w.planner.advanceToType options typeName

/-- The report after a step from a state. Narrowing to a type that the value never has is no
failure. -/
def reportMove (w : Walker) (entry : Entry) (state : WalkState) (r : FailureReport)
    (move : ApiMove) : FailureReport :=
  match move with
  | .field name target =>
    if !(w.advance state.options move).isEmpty || r.mentions state.typeName name then r
    else r.add state.typeName name (w.message entry state name target)
  | .narrow _ => r

/-- The state after a step, if there is more to select from. -/
def follow? (w : Walker) (state : WalkState) (move : ApiMove) : Option WalkState :=
  let options := w.advance state.options move
  let selection := match move with
    | .field name _ => name
    | .narrow typeName => "... on " ++ typeName
  if options.isEmpty || !w.planner.merged.isComposite move.target then none
  else some { typeName := move.target, options, path := state.path ++ [selection] }

/-- The states that follow a state, the last step first. -/
def successors (w : Walker) (state : WalkState) : List WalkState :=
  ((w.api.moves state.typeName).filterMap (w.follow? state)).reverse

/-- The report after all steps from a state. -/
def reportAll (w : Walker) (entry : Entry) (state : WalkState) (r : FailureReport) :
    FailureReport :=
  (w.api.moves state.typeName).foldl (w.reportMove entry state) r

/-- The progress after a visit to a state. -/
def visit (w : Walker) (entry : Entry) (state : WalkState) (p : WalkProgress) : WalkProgress where
  visited := p.visited ++ [(state.typeName, state.options)]
  report := w.reportAll entry state p.report

/-! ## Whole walks -/

/-- Walks from the states on a stack, with a bound on the number of visits. -/
def walkWithin (w : Walker) (entry : Entry) (visits : Nat) (stack : List WalkState)
    (p : WalkProgress) : WalkProgress :=
  match stack with
  | [] => p
  | state :: stack =>
    if p.covers state then walkWithin w entry visits stack p
    else
      match visits with
      | 0 => p
      | visits + 1 =>
        walkWithin w entry visits (w.successors state ++ stack) (w.visit entry state p)
termination_by (visits, stack.length)

/-- No walk makes more visits than there are types of the API and sets of nodes to visit them with.
-/
def visitBound (w : Walker) : Nat :=
  w.api.types.length * Nat.pow 2 w.planner.graph.size

/-- Walks all queries that start at an entry. -/
def walk (w : Walker) (entry : Entry) (typeName : String) (options : List NodeId)
    (p : WalkProgress) : WalkProgress :=
  w.walkWithin entry w.visitBound [{ typeName, options, path := entry.path }] p

end Walker

end Federation
