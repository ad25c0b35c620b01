import Federation.Ingestion.Directives
import Federation.Ingestion.Links

/-!
# Type blocks

Type blocks are gone through twice. The first time each block finds or founds its type, so that the
second time, when fields and members are taken in, all types are known.
-/

namespace Federation

open Document (TypeBlock TypeBody FieldDecl InputDecl EnumValueDecl)

/-! ## Which blocks count -/

/-- The scalars and enums that serve federation itself and are never composed. -/
def machineryTypes : List String :=
  ["_Any", "_FieldSet", "FieldSet", "link__Import", "link__Purpose", "federation__FieldSet",
    "federation__Scope", "federation__Policy", "federation__ContextFieldValue"]

/-- The block is about a type that serves federation itself. -/
def isMachinery (s : Subgraph) (block : TypeBlock) : Bool :=
  match block.body with
  | .object _ _ => block.name == "_Service"
  | .union _ => block.name == "_Entity"
  | .scalar | .enum _ => machineryTypes.contains block.name || s.importsType block.name
  | .interface _ _ | .inputObject _ => false

/-- The kind of type that a block declares. An object that stands in for an interface is one. -/
def kindOf (s : Subgraph) (block : TypeBlock) : TypeKind :=
  match block.body with
  | .object _ _ =>
    if block.directives.any fun d => DirectiveRole.resolve? s d.name == some .interfaceObject then
      .interface
    else .object
  | .interface _ _ => .interface
  | .union _ => .union
  | .enum _ => .enum
  | .inputObject _ => .inputObject
  | .scalar => .scalar

/-! ## Founding types -/

/-- Finds the type of a block, or founds it. A block of another kind than its type is refused. -/
def foundType (typeName : String) (kind : TypeKind) (isExtension : Bool)
    (description : Option String) : Ingestion Bool := do
  match (← Ingestion.subgraph).definition? typeName with
  | none =>
    Ingestion.mention typeName
    let definition : TypeDef := { name := typeName, kind, description, isExtension }
    Ingestion.modifySubgraph fun s => { s with definitions := s.definitions ++ [definition] }
    return true
  | some existing =>
    if existing.kind = kind then
      Ingestion.modifyDefinition typeName fun d =>
        { d with
          isExtension := d.isExtension && isExtension
          description := d.description.or description }
      return true
    else
      Ingestion.report .typeKindMismatch
        s!"Type \"{typeName}\" is defined both as {existing.kind.describe} and as {kind.describe}"
      return false

/-- Registers an object type as a root if it is one. -/
def registerRoot (roots : RootTypes) (block : TypeBlock) (typeName : String) : Ingestion Unit := do
  match roots.matchName block.name with
  | .root root => Ingestion.modifySubgraph fun s => { s with roots := s.roots.set root typeName }
  | .displaced =>
    Ingestion.report .rootTypeUsed
      s!"The {block.name} type has the default name for a root but is itself not a root. This is not valid in a federation context."
  | .notRoot => return ()

/-- Takes in the directives of a type block. -/
def ingestTypeDirectives (typeName : String) (block : TypeBlock) : Ingestion Unit := do
  let before := (((← Ingestion.subgraph).definition? typeName).map TypeDef.attributes).getD {}
  let attributes ← Attributes.ingest typeName before block.directives
  Ingestion.modifyDefinition typeName fun d => { d with attributes }
  ingestKeys typeName block.directives
  if attributes.isExtended then
    Ingestion.modifyDefinition typeName fun d => { d with isExtension := true }

/-- Takes in the head of a type block. -/
def ingestTypeHead (roots : RootTypes) (block : TypeBlock) : Ingestion Unit := do
  let s ← Ingestion.subgraph
  unless isMachinery s block do
    let typeName := roots.canonicalName block.name
    let kind := kindOf s block
    let description ← Ingestion.describe block.description
    if ← foundType typeName kind block.isExtension description then
      if kind = .object then registerRoot roots block typeName
      ingestTypeDirectives typeName block

/-! ## Fields and values -/

/-- Takes in a default value. -/
def ingestDefault (literal : Option Document.Literal) : Ingestion (Option Value) := do
  match literal.bind Value.ofLiteral? with
  | none => return none
  | some value =>
    Ingestion.mentionAll value.mentions
    return some value

/-- Takes in an argument of a field. -/
def ingestArgument (coordinate : String) (decl : InputDecl) : Ingestion Argument := do
  Ingestion.mentionType decl.type
  let attributes ← Attributes.ingest s!"{coordinate}({decl.name}:)" {} decl.directives
  let description ← Ingestion.describe decl.description
  let defaultValue ← ingestDefault decl.defaultValue
  Ingestion.mention decl.name
  return { name := decl.name, type := decl.type, description, attributes, defaultValue }

/-- Adds a field to a type, which may not have one of its name yet. -/
def addField (typeName what : String) (field : Field) : Ingestion Unit := do
  let existing := ((← Ingestion.subgraph).definition? typeName).bind fun d => d.field? field.name
  match existing with
  | none => Ingestion.modifyDefinition typeName fun d => { d with fields := d.fields ++ [field] }
  | some _ =>
    Ingestion.report .invalidGraphql
      s!"{what} \"{typeName}.{field.name}\" is defined more than once."

/-- The fields of the query type through which federation itself asks a subgraph. -/
def machineryFields : List String := ["_entities", "_service"]

/-- Takes in a field of an object or interface type. -/
def ingestField (roots : RootTypes) (typeName : String) (inExtension : Bool) (decl : FieldDecl) :
    Ingestion Unit := do
  unless typeName == RootOperation.query.typeName && machineryFields.contains decl.name do
    let coordinate := typeName ++ "." ++ decl.name
    let type := { decl.type with name := roots.canonicalName decl.type.name }
    Ingestion.mentionType type
    let attributes ← Attributes.ingest coordinate {} decl.directives
    let arguments ← decl.arguments.mapM (ingestArgument coordinate)
    let description ← Ingestion.describe decl.description
    Ingestion.mention decl.name
    addField typeName "Field"
      { name := decl.name, type, description, attributes, arguments, inExtension }

/-- Takes in a field of an input type. -/
def ingestInputField (typeName : String) (inExtension : Bool) (decl : InputDecl) :
    Ingestion Unit := do
  Ingestion.mentionType decl.type
  let attributes ← Attributes.ingest (typeName ++ "." ++ decl.name) {} decl.directives
  let description ← Ingestion.describe decl.description
  let defaultValue ← ingestDefault decl.defaultValue
  Ingestion.mention decl.name
  addField typeName "Input field"
    { name := decl.name, type := decl.type, description, attributes, defaultValue, inExtension }

/-- Takes in a value of an enum type, which may not have one of its name yet. -/
def ingestEnumValue (typeName : String) (decl : EnumValueDecl) : Ingestion Unit := do
  let coordinate := typeName ++ "." ++ decl.name
  let attributes ← Attributes.ingest coordinate {} decl.directives
  let description ← Ingestion.describe decl.description
  Ingestion.mention decl.name
  let values := (((← Ingestion.subgraph).definition? typeName).map TypeDef.enumValues).getD []
  if values.any fun value => value.name == decl.name then
    Ingestion.report .invalidGraphql s!"Enum value \"{coordinate}\" is defined more than once."
  else
    let value : EnumValue := { name := decl.name, description, attributes }
    Ingestion.modifyDefinition typeName fun d => { d with enumValues := d.enumValues ++ [value] }

/-! ## Members -/

/-- Takes in a member of a union, which has to be a type of the subgraph. -/
def ingestMember (roots : RootTypes) (typeName member : String) : Ingestion Unit := do
  let name := roots.canonicalName member
  if (← Ingestion.subgraph).defines name then
    Ingestion.modifyDefinition typeName fun d =>
      { d with members := Attributes.addNew d.members name }
  else
    Ingestion.report .invalidGraphql
      s!"Union member `{name}` of `{typeName}` is used but not defined in the subgraph."

/-- Takes in an implemented interface, which has to be a type of the subgraph. -/
def ingestInterface (typeName name : String) : Ingestion Unit := do
  if (← Ingestion.subgraph).defines name then
    Ingestion.modifyDefinition typeName fun d =>
      { d with interfaces := Attributes.addNew d.interfaces name }
  else
    Ingestion.report .invalidGraphql
      s!"`{typeName}` implements `{name}`, but `{name}` is not defined in the subgraph."

/-- Takes in what a type block declares. -/
def ingestBody (roots : RootTypes) (typeName : String) (inExtension : Bool) :
    TypeBody → Ingestion Unit
  | .object interfaces fields | .interface interfaces fields => do
    interfaces.forM (ingestInterface typeName)
    fields.forM (ingestField roots typeName inExtension)
  | .union members => members.forM (ingestMember roots typeName)
  | .enum values => values.forM (ingestEnumValue typeName)
  | .inputObject fields => fields.forM (ingestInputField typeName inExtension)
  | .scalar => return ()

/-- Takes in the body of a type block, unless its head was refused. -/
def ingestTypeBody (roots : RootTypes) (block : TypeBlock) : Ingestion Unit := do
  let s ← Ingestion.subgraph
  unless isMachinery s block do
    let typeName := roots.canonicalName block.name
    match s.definition? typeName with
    | none => return ()
    | some definition =>
      if definition.kind = kindOf s block then
        ingestBody roots typeName (block.isExtension || definition.attributes.isExtended) block.body

/-- Takes in all type blocks. -/
def ingestTypeBlocks (roots : RootTypes) (blocks : List TypeBlock) : Ingestion Unit := do
  blocks.forM (ingestTypeHead roots)
  blocks.forM (ingestTypeBody roots)

end Federation
