import Federation.Merge.Merge

/-!
# Rules

A rule looks at the merged types and fields one at a time, with all subgraphs at hand, and says what
is wrong with each. All rules see everything; none stops the others.
-/

namespace Federation.Validation

/-- What rules have at hand. -/
structure Context where
  set : SubgraphSet
  merged : MergedSchema

namespace Context

/-- The name of a subgraph. -/
def nameOf (c : Context) (id : SubgraphId) : String :=
  c.set.nameOf id

/-- The subgraph at a place. -/
def subgraph (c : Context) (id : SubgraphId) : Subgraph :=
  (c.set.subgraph? id).getD default

/-- Subgraphs as a phrase. -/
def phrase (c : Context) (ids : List SubgraphId) : String :=
  subgraphPhrase (ids.map c.nameOf)

/-- The interface types among some names. -/
def interfacesIn (c : Context) (names : List String) : List MergedType :=
  names.filterMap c.merged.interface?

end Context

/-- A rule, by what it looks at. -/
structure Rule where
  onType : Context → MergedType → Diagnostics := fun _ _ => []
  onField : Context → MergedType → MergedField → Diagnostics := fun _ _ _ => []
  onInputField : Context → MergedType → MergedInput → Diagnostics := fun _ _ _ => []

/-- The input fields of a type. -/
def inputFieldsOf (t : MergedType) : List MergedInput :=
  match t.body with
  | .inputObject fields => fields
  | _ => []

/-- What rules say about a type, then about each of its fields. -/
def checkType (rules : List Rule) (c : Context) (t : MergedType) : Diagnostics :=
  rules.flatMap (fun rule => rule.onType c t) ++
    t.fields.flatMap (fun field => rules.flatMap fun rule => rule.onField c t field) ++
    (inputFieldsOf t).flatMap fun field => rules.flatMap fun rule => rule.onInputField c t field

/-- What rules say about all types. -/
def checkAll (rules : List Rule) (c : Context) : Diagnostics :=
  c.merged.types.flatMap (checkType rules c)

/-- A type stands in for an interface in a subgraph. -/
def isInterfaceObjectIn (t : MergedType) (id : SubgraphId) : Bool :=
  (t.byGraph.get? id).any TypeDef.isInterfaceObject

end Federation.Validation
