import Federation.Validation.Rule

/-!
# Agreement between subgraphs

The subgraphs agree on the types of fields and arguments, on the values of enum types that are used
both ways, and on required input fields.
-/

namespace Federation.Validation

/-! ## Types of fields and arguments -/

/-- Adds a subgraph to the entry of its type. -/
def addToType (entries : List (String × List String)) (type name : String) :
    List (String × List String) :=
  upsert (fun e => e.1 == type) (type, []) (fun e => (e.1, e.2 ++ [name])) entries

/-- Types as a phrase: `it has type "Int" in subgraph "a" but type "ID" in subgraph "b"`. -/
def typePhrase (c : Context) (types : ByGraph TypeRef) : String :=
  let entries := types.foldl (fun entries e => addToType entries e.2.text (c.nameOf e.1)) []
  let phrases := entries.map fun e => s!"type \"{e.1}\" in {subgraphPhrase e.2}"
  match phrases with
  | [] => "it has "
  | [single] => "it has " ++ single
  | first :: others => "it has " ++ first ++ " but " ++ " and ".intercalate others

/-- The types of a field and of its arguments agree. -/
def fieldTypes : Rule where
  onField c t field :=
    let coordinate := t.coordinate field.name
    let types : ByGraph TypeRef := field.byGraph.map fun e => (e.1, e.2.type)
    (if field.typesDisagree then
      [.error .fieldTypeMismatch
        s!"Type of field \"{coordinate}\" is incompatible across subgraphs: {typePhrase c types}"]
    else []) ++
    (field.arguments.filter MergedInput.typesDisagree).map fun argument =>
      .error .fieldArgumentTypeMismatch
        s!"Type of argument \"{coordinate}({argument.name}:)\" is incompatible across subgraphs: {typePhrase c argument.byGraph}"
  onInputField c t field :=
    if field.typesDisagree then
      [.error .fieldTypeMismatch
        s!"Type of field \"{t.coordinate field.name}\" is incompatible across subgraphs: {typePhrase c field.byGraph}"]
    else []

/-! ## Values of enum types -/

/-- Enum types that are used both ways, or not at all, have the same values everywhere. -/
def enumValues : Rule where
  onType c t :=
    match t.body with
    | .enum values =>
      if t.enumStrategy ≠ .consistency then []
      else
        let usage :=
          if t.isUsedAsInput then "is used as both input type and output type"
          else "is not used as the type of any field or argument"
        (values.filter fun v => !t.isDefinedEverywhere v).map fun v =>
          let (defining, missing) := t.byGraph.ids.partition v.subgraphs.contains
          .error .enumValueMismatch
            s!"Enum type \"{t.name}\" {usage}, but value \"{v.name}\" is not defined in all the subgraphs defining \"{t.name}\": \"{v.name}\" is defined in {c.phrase defining} but not in {c.phrase missing}"
    | _ => []

/-! ## Required input fields -/

/-- A required input field is known to all subgraphs that define its type. -/
def requiredInputFields : Rule where
  onInputField c t field :=
    let requiring := (field.byGraph.filter fun e => e.2.wrapping.isRequired).map Prod.fst
    let missing := t.byGraph.ids.filter fun id => !field.byGraph.has id
    if requiring.isEmpty || missing.isEmpty then []
    else
      [.error .requiredInputFieldMissingInSomeSubgraph
        s!"Input object field \"{t.coordinate field.name}\" is required in some subgraphs but does not appear in all subgraphs: it is required in {c.phrase requiring} but does not appear in {c.phrase missing}"]

end Federation.Validation
