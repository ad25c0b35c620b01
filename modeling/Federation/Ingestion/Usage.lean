import Federation.Subgraph.Basic

/-!
# Uses of fields and types

Once all types of a subgraph are known, its field sets and field types tell which fields and types
it uses, and how.
-/

namespace Federation

namespace Subgraph

/-! ## Fields in field sets -/

/-- A field that some field set selects. -/
structure UsedField where
  typeName : String
  fieldName : String
  usage : FieldUsage

mutual

/-- The fields that a selection on a type uses. -/
def fieldsUsedBy (s : Subgraph) (usage : FieldUsage) (parent : TypeDef) : Selection → List UsedField
  | .field name _ selections =>
    match parent.field? name with
    | none => []
    | some field =>
      let used : UsedField := { typeName := parent.name, fieldName := name, usage }
      match s.typeOf? field with
      | none => [used]
      | some target => used :: fieldsUsedByAll s usage target selections
  | .inlineFragment condition selections =>
    match s.definition? condition with
    | none => []
    | some target => fieldsUsedByAll s usage target selections

/-- The fields that selections on a type use. -/
def fieldsUsedByAll (s : Subgraph) (usage : FieldUsage) (parent : TypeDef) :
    List Selection → List UsedField
  | [] => []
  | first :: others => fieldsUsedBy s usage parent first ++ fieldsUsedByAll s usage parent others

end

/-- The fields that the directives of a field use. -/
def fieldsUsedByField (s : Subgraph) (parent : TypeDef) (field : Field) : List UsedField :=
  let required :=
    match field.attributes.requires with
    | some selections => s.fieldsUsedByAll { inRequires := true } parent selections
    | none => []
  let provided :=
    match field.attributes.provides, s.typeOf? field with
    | some selections, some target => s.fieldsUsedByAll { inProvides := true } target selections
    | _, _ => []
  required ++ provided

/-- The fields that a type's keys and fields use. -/
def fieldsUsedByType (s : Subgraph) (d : TypeDef) : List UsedField :=
  d.keys.flatMap (fun key => s.fieldsUsedByAll { inKey := true } d key.selections) ++
    d.fields.flatMap (s.fieldsUsedByField d)

/-- All fields that the subgraph's field sets use. -/
def usedFields (s : Subgraph) : List UsedField :=
  s.definitions.flatMap s.fieldsUsedByType

/-- How a field is used, all uses taken together. -/
def usageIn (used : List UsedField) (typeName fieldName : String) : FieldUsage :=
  used.foldl (fun usage u =>
    if u.typeName == typeName && u.fieldName == fieldName then usage.union u.usage else usage) {}

/-! ## Types of fields and arguments -/

/-- The names of the types that arguments and input fields have. -/
def inputTypeNames (s : Subgraph) : List String :=
  s.definitions.flatMap fun d =>
    let ofFields := if d.kind == .inputObject then d.fields.map (·.type.name) else []
    ofFields ++ d.fields.flatMap fun field => field.arguments.map (·.type.name)

/-- The names of the types that output fields have. -/
def outputTypeNames (s : Subgraph) : List String :=
  s.definitions.flatMap fun d =>
    if d.kind == .inputObject then [] else d.fields.map (·.type.name)

/-! ## Completion -/

/-- The subgraph with the uses of its fields and types noted. -/
def withUsages (s : Subgraph) : Subgraph :=
  let used := s.usedFields
  let inputs := s.inputTypeNames
  let outputs := s.outputTypeNames
  let definitions := s.definitions.map fun d =>
    { d with
      isUsedAsInput := inputs.contains d.name
      isUsedAsOutput := outputs.contains d.name
      fields := d.fields.map fun field => { field with usage := usageIn used d.name field.name } }
  { s with definitions }

/-- The subgraph with fields in the order in which their names were first mentioned, and members and
interfaces in the order in which the subgraph defines them. -/
def sorted (names : NameTable) (s : Subgraph) : Subgraph :=
  let definitions := s.definitions.map fun d =>
    { d with
      fields := names.sortBy Field.name d.fields
      members := (s.definitionsIn d.members).map TypeDef.name
      interfaces := (s.definitionsIn d.interfaces).map TypeDef.name }
  { s with definitions }

end Subgraph

end Federation
