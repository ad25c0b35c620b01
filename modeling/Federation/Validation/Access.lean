import Federation.Validation.Rule

/-!
# Access

What a field requires is fetched on behalf of the client, so the client needs at least the access
for it. Interfaces state no access requirements of their own. A visible interface field has visible
implementations.
-/

namespace Federation.Validation

/-! ## Required fields -/

/-- The access that a field of a type takes: its own, its type's, and, on an interface that objects
stand in for, that of all implementations. -/
def requiredAccess (c : Context) (typeName : String) (field : MergedField) : AccessRequirements :=
  let own := field.metadata.access
  match c.merged.type? typeName with
  | none => own
  | some t =>
    let required := own.conjunction t.metadata.access
    if t.interfaceObjectSubgraphs.isEmpty then required
    else t.implementations.foldl (fun required implementation =>
      let required :=
        match c.merged.type? implementation with
        | some t => required.conjunction t.metadata.access
        | none => required
      match c.merged.field? implementation field.name with
      | some f => required.conjunction f.metadata.access
      | none => required) required

mutual

/-- The first part of a selection on a type whose access the provided one does not cover. -/
def uncovered? (c : Context) (provided : AccessRequirements) (typeName : String) :
    Selection → Option String
  | .field name _ selections =>
    if name = "__typename" then none
    else
      match c.merged.field? typeName name with
      | none => none
      | some field =>
        if provided.satisfies (requiredAccess c typeName field) then
          uncoveredIn? c provided field.type.name selections
        else some (typeName ++ "." ++ name)
  | .inlineFragment condition selections =>
    let isCovered := (c.merged.type? condition).all fun t => provided.satisfies t.metadata.access
    if isCovered then uncoveredIn? c provided condition selections else some condition

/-- The first part of some selections on a type whose access the provided one does not cover. -/
def uncoveredIn? (c : Context) (provided : AccessRequirements) (typeName : String) :
    List Selection → Option String
  | [] => none
  | first :: others =>
    match uncovered? c provided typeName first with
    | some found => some found
    | none => uncoveredIn? c provided typeName others

end

/-- The access that a field states in a subgraph, together with its type there. -/
def statedAccess (t : MergedType) (id : SubgraphId) (f : FieldInGraph) : AccessRequirements :=
  let own := AccessRequirements.ofAttributes f.definition.attributes
  let attributes := ((t.byGraph.get? id).map TypeDef.attributes).getD {}
  own.conjunction (.ofAttributes attributes)

/-- A field asks for the access that its required fields ask for. -/
def accessOnRequires : Rule where
  onField c t field :=
    if t.kind ≠ .object then []
    else field.byGraph.filterMap fun (id, f) => do
      let selections ← f.definition.attributes.requires
      let target ← uncoveredIn? c (statedAccess t id f) t.name selections
      let name := c.nameOf id
      return .error .missingTransitiveAuthRequirements
        s!"[{name}] Field \"{t.coordinate field.name}\" does not specify necessary @authenticated, @requiresScopes and/or @policy auth requirements to access the transitive field \"{target}\" data from @requires selection set."

/-! ## Interfaces -/

/-- No access directive stands on an interface or on its fields. -/
def accessOnInterface : Rule where
  onType c t :=
    if t.kind ≠ .interface then []
    else t.byGraph.flatMap fun (id, d) =>
      let kind := if d.isInterfaceObject then "interface object" else "interface"
      let name := c.nameOf id
      d.attributes.accessDirectives.map fun directive =>
        .error .authRequirementsAppliedOnInterface
          s!"[{name}] Invalid use of {directive} on {kind} \"{t.name}\": {directive} cannot be applied on interfaces, interface objects or their fields"
  onField c t field :=
    if t.kind ≠ .interface then []
    else field.byGraph.flatMap fun (id, f) =>
      let name := c.nameOf id
      f.definition.attributes.accessDirectives.map fun directive =>
        .error .authRequirementsAppliedOnInterface
          s!"[{name}] Invalid use of {directive} on field \"{t.coordinate field.name}\": {directive} cannot be applied on interfaces, interface objects or their fields"

/-! ## Visibility -/

/-- A visible field of a visible interface is not hidden on a visible implementation. -/
def implementedByInaccessible : Rule where
  onField c t field :=
    if t.kind ≠ .interface || t.metadata.isInaccessible || field.metadata.isInaccessible then []
    else t.implementations.filterMap fun implementation => do
      let type ← c.merged.type? implementation
      guard (!type.metadata.isInaccessible)
      let found ← type.field? field.name
      guard found.metadata.isInaccessible
      return .error .implementedByInaccessible
        s!"Field \"{type.coordinate field.name}\" is @inaccessible but implements the interface field \"{t.coordinate field.name}\", which is in the API schema."

end Federation.Validation
