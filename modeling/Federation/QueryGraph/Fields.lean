import Federation.Merge.Type
import Federation.QueryGraph.Basic

/-!
# Moves inside a subgraph

Every composite type of a subgraph becomes a node. From there lead the fields that the subgraph may
resolve, and the narrowing to each possible type.
-/

namespace Federation

/-! ## Fields -/

/-- A field that a subgraph may resolve. -/
structure FieldPlan where
  name : String
  /-- The named type of the field in the subgraph. -/
  typeName : String
  condition : Option LabelCondition
  /-- The field has moved to another subgraph for good. -/
  isOverridden : Bool
  provides : SelectionSet

namespace FieldPlan

/-- The condition for a field to be resolved: its override has to be active where it has moved to,
and inactive where it has moved from. -/
def conditionOf (f : FieldInGraph) (overrider? : Option FieldInGraph) : Option LabelCondition :=
  match f.override, overrider? with
  | some o, _ => o.label.map fun label => { label, active := true }
  | none, some overrider =>
    (overrider.override.bind Override.label).map fun label => { label, active := false }
  | none, none => none

/-- A field of a subgraph, unless it is external and not even part of a key. -/
def of? (nameOf : SubgraphId → String) (id : SubgraphId) (field : MergedField) :
    Option FieldPlan := do
  let f ← field.byGraph.get? id
  if f.isExternal && !f.isUsedAsKey then none
  else
    let overrider? := (field.overrider? (nameOf id)).map Prod.snd
    let condition := conditionOf f overrider?
    some
      { name := field.name
        typeName := f.type.name
        condition
        isOverridden := overrider?.isSome && condition.isNone
        provides := f.provides.getD [] }

end FieldPlan

/-- The fields of a type that a subgraph may resolve. -/
def MergedSchema.fieldPlans (m : MergedSchema) (nameOf : SubgraphId → String) (id : SubgraphId)
    (typeName : String) : List FieldPlan :=
  (((m.type? typeName).map MergedType.fields).getD []).filterMap (FieldPlan.of? nameOf id)

/-! ## Drafts -/

/-- An edge of a field with `@provides`. -/
structure Provision where
  edge : EdgeId
  subgraph : SubgraphId
  selections : SelectionSet

/-- A query graph while the subgraphs are added to it. -/
structure Draft where
  graph : QueryGraph := {}
  /-- All labels of overrides. -/
  labels : List String := []
  /-- What is still to be provided. -/
  provisions : List Provision := []

namespace Draft

/-- Adds the edge of a field. -/
def addField (id : SubgraphId) (node : NodeId) (d : Draft) (plan : FieldPlan) : Draft :=
  let (tail, g) := d.graph.baseFor plan.typeName id
  let (edge, g) := g.addEdge node (.field plan.name plan.condition false) tail
  { graph := if plan.isOverridden then g.ignoreEdge edge else g
    labels := d.labels ++ (plan.condition.map LabelCondition.label).toList
    provisions :=
      if plan.provides.isEmpty then d.provisions
      else d.provisions ++ [{ edge, subgraph := id, selections := plan.provides }] }

/-- Adds the edge to a possible type. -/
def addPossibleType (id : SubgraphId) (node : NodeId) (d : Draft) (typeName : String) : Draft :=
  let (tail, g) := d.graph.baseFor typeName id
  { d with graph := (g.addEdge node .narrow tail).2 }

/-- Adds the node of a type, with all its fields and possible types. -/
def addType (id : SubgraphId) (d : Draft) (t : TypeDef) (plans : List FieldPlan)
    (possibleTypes : List String) : Draft :=
  let (node, graph) := d.graph.baseFor t.name id
  let d := plans.foldl (addField id node) { d with graph }
  possibleTypes.foldl (addPossibleType id node) d

/-! ## Whole subgraphs -/

/-- What is at hand while a subgraph is added. -/
structure Source where
  id : SubgraphId
  subgraph : Subgraph
  merged : MergedSchema
  nameOf : SubgraphId → String

namespace Source

/-- The fields that lead on from a type. -/
def plans (s : Source) (t : TypeDef) : List FieldPlan :=
  match t.kind with
  | .object | .interface => s.merged.fieldPlans s.nameOf s.id t.name
  | _ => []

/-- The names of the types that a value of a type can be narrowed to. -/
def possibleTypes (s : Source) (t : TypeDef) : List String :=
  (s.subgraph.possibleTypes t).map TypeDef.name

/-- The types that a type leads to. -/
def next (s : Source) (t : TypeDef) : List String :=
  let composite := (s.plans t).filterMap fun plan =>
    ((s.subgraph.definition? plan.typeName).filter fun d => d.kind.isComposite).map TypeDef.name
  composite ++ s.possibleTypes t

end Source

/-- A draft and the types of the subgraph that are not part of it. -/
structure Expansion where
  draft : Draft
  unexpanded : List TypeDef

/-- The types of other names are fewer. -/
theorem length_filter_name_lt {name : String} {types : List TypeDef} {t : TypeDef}
    (h : (types.find? fun t => t.name == name) = some t) :
    (types.filter fun other => other.name != name).length < types.length := by
  have hname := List.find?_some h
  exact List.length_filter_lt_length_iff_exists.mpr
    ⟨t, List.mem_of_find?_eq_some h, by simpa using hname⟩

/-- Adds types in the order of a queue. What a new type leads to goes to the end of the queue. -/
def expand (s : Source) (queue : List String) (e : Expansion) : Expansion :=
  match queue with
  | [] => e
  | name :: queue =>
    match h : e.unexpanded.find? fun t => t.name == name with
    | none => expand s queue e
    | some t =>
      have := length_filter_name_lt h
      expand s (queue ++ s.next t)
        { draft := addType s.id e.draft t (s.plans t) (s.possibleTypes t)
          unexpanded := e.unexpanded.filter fun other => other.name != name }
termination_by (e.unexpanded.length, queue.length)
decreasing_by
  · exact Prod.Lex.right _ (by simp)
  · exact Prod.Lex.left _ _ (by simpa using this)

/-- Adds a subgraph. Queries reach its types from its root types, from its entities, and through
other subgraphs. -/
def addSubgraph (merged : MergedSchema) (nameOf : SubgraphId → String) (d : Draft)
    (entry : SubgraphId × Subgraph) : Draft :=
  let s : Source := { id := entry.1, subgraph := entry.2, merged, nameOf }
  let roots := RootOperation.all.filterMap s.subgraph.roots.get
  let entities := (s.subgraph.definitions.filter TypeDef.isEntity).map TypeDef.name
  let composites := s.subgraph.definitions.filter fun t => t.kind.isComposite
  let e := expand s roots { draft := d, unexpanded := s.subgraph.definitions }
  let e := expand s entities e
  (expand s (composites.map TypeDef.name) e).draft

end Draft

end Federation
