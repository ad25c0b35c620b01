import Federation.Validation.Rule

/-!
# Field sets

Keys, `@requires` and `@provides` select fields that exist in the subgraph. Fields of keys take no
arguments. What is required or provided is resolved elsewhere.
-/

namespace Federation.Validation

/-! ## Unknown fields and types -/

/-- What a field set selects that does not exist. -/
inductive SelectionProblem where
  | unknownField (typeName field : String)
  | unknownType (name : String)
deriving DecidableEq, Repr

/-- The problem in words. -/
def SelectionProblem.message : SelectionProblem → String
  | .unknownField typeName field => s!"Cannot query field \"{field}\" on type \"{typeName}\""
  | .unknownType name => s!"Unknown type \"{name}\""

mutual

/-- The first problem of a selection on a type. -/
def problemOf? (s : Subgraph) (d : TypeDef) : Selection → Option SelectionProblem
  | .field name _ selections =>
    if name = "__typename" then none
    else
      match d.field? name with
      | none => some (.unknownField d.name name)
      | some field =>
        match s.typeOf? field with
        | none => none
        | some target => problemIn? s target selections
  | .inlineFragment condition selections =>
    match s.definition? condition with
    | none => some (.unknownType condition)
    | some target => problemIn? s target selections

/-- The first problem of some selections on a type. -/
def problemIn? (s : Subgraph) (d : TypeDef) : List Selection → Option SelectionProblem
  | [] => none
  | first :: others =>
    match problemOf? s d first with
    | some problem => some problem
    | none => problemIn? s d others

end

/-- The fields of a type that a field set selects at the top. -/
def topFields (d : TypeDef) (selections : SelectionSet) : List Field :=
  selections.filterMap fun selection => selection.fieldName?.bind d.field?

/-! ## Keys -/

/-- What is wrong with a key of a type. -/
def keyProblems (s : Subgraph) (d : TypeDef) (key : Key) : Diagnostics :=
  (match problemIn? s d key.selections with
  | none => []
  | some problem =>
    [.error .keyInvalidFields
      s!"[{s.name}] On type \"{d.name}\", for @key(fields: \"{key.text}\"): {problem.message} (the field should either be added to this subgraph or, if it should not be resolved by this subgraph, you need to add it to this subgraph with @external)."]) ++
  ((topFields d key.selections).filter fun field => !field.arguments.isEmpty).map fun field =>
    .error .keyInvalidFields
      s!"[{s.name}] On type \"{d.name}\", for @key(fields: \"{key.text}\"): field \"{d.coordinate field.name}\" cannot be included because it has arguments (fields with argument are not allowed in @key)"

/-! ## Required and provided fields -/

/-- A field that a subgraph selects although it resolves it itself. -/
def isResolvedHere (s : Subgraph) (d : TypeDef) (field : Field) : Bool :=
  !s.isExternal d field && !field.usage.inKey

/-- What is wrong with the `@requires` of a field. -/
def requiresProblems (s : Subgraph) (parent : TypeDef) (field : Field) (selections : SelectionSet) :
    Diagnostics :=
  let coordinate := parent.coordinate field.name
  match problemIn? s parent selections with
  | some problem =>
    [.error .requiresInvalidFields
      s!"[{s.name}] On field \"{coordinate}\", for @requires(fields: \"{selections.text}\"): {problem.message} (if the field is defined in another subgraph, you need to add it to this subgraph with @external)."]
  | none =>
    ((topFields parent selections).filter (isResolvedHere s parent)).map fun selected =>
      .error .requiresFieldsMissingExternal
        s!"[{s.name}] On field \"{coordinate}\", for @requires(fields: \"{selections.text}\"): field \"{parent.coordinate selected.name}\" should not be part of a @requires since it is already provided by this subgraph (it is not marked @external)"

/-- What is wrong with the `@provides` of a field on objects of a type. -/
def providesProblemsOn (s : Subgraph) (coordinate : String) (target : TypeDef)
    (selections : SelectionSet) : Diagnostics :=
  match problemIn? s target selections with
  | some problem =>
    [.error .providesInvalidFields
      s!"[{s.name}] On field \"{coordinate}\", for @provides(fields: \"{selections.text}\"): {problem.message} (if the field is defined in another subgraph, you need to add it to this subgraph with @external)."]
  | none =>
    if s.version.isV1 || target.kind == .union then []
    else
      ((topFields target selections).filter (isResolvedHere s target)).map fun selected =>
        .error .providesFieldsMissingExternal
          s!"[{s.name}] On field \"{coordinate}\", for @provides(fields: \"{selections.text}\"): field \"{target.coordinate selected.name}\" should not be part of a @provides since it is already provided by this subgraph (it is not marked @external)"

/-- What is wrong with the `@provides` of a field. -/
def providesProblems (s : Subgraph) (parent : TypeDef) (field : Field) (selections : SelectionSet) :
    Diagnostics :=
  let coordinate := parent.coordinate field.name
  match (s.typeOf? field).filter fun target => target.kind.isComposite with
  | none =>
    [.error .providesOnNonObjectField
      s!"[{s.name}] Invalid @provides directive on field \"{coordinate}\": field has type \"{field.type.text}\" which is not a Composite Type"]
  | some target => providesProblemsOn s coordinate target selections

/-- What is wrong with the field sets of a field. -/
def fieldSetProblems (s : Subgraph) (parent : TypeDef) (field : Field) : Diagnostics :=
  (match field.attributes.requires with
  | some selections => requiresProblems s parent field selections
  | none => []) ++
  match field.attributes.provides with
  | some selections => providesProblems s parent field selections
  | none => []

/-- Field sets select what exists, and what is resolved where it should be. -/
def fieldSetSelections : Rule where
  onType c t :=
    match t.kind with
    | .object | .interface => t.byGraph.flatMap fun (id, d) =>
        d.keys.flatMap (keyProblems (c.subgraph id) d)
    | _ => []
  onField c t field := field.byGraph.flatMap fun (id, f) =>
    match t.byGraph.get? id with
    | some d => fieldSetProblems (c.subgraph id) d f.definition
    | none => []

end Federation.Validation
