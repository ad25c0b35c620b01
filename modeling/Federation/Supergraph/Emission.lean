import Federation.Merge.Merge
import Federation.Supergraph.Model

/-!
# Emission

A merged schema turns into a supergraph model. Join directives tell which subgraph defines what; a
field that all subgraphs of its type define alike needs none.
-/

namespace Federation.Supergraph

/-- Names the enumeration value of every subgraph. -/
abbrev GraphNames : Type := SubgraphId → String

/-! ## Arguments of directives -/

/-- The argument that names a subgraph. -/
def graphArgument (names : GraphNames) (id : SubgraphId) : String × Value :=
  ("graph", .enum (names id))

/-- An argument that is only written when it is true. -/
def flagArgument (name : String) (value : Bool) : List (String × Value) :=
  if value then [(name, .boolean true)] else []

/-- An argument that is only written when it is false. -/
def denialArgument (name : String) (value : Bool) : List (String × Value) :=
  if value then [] else [(name, .boolean false)]

/-- An argument that is only written when there is a value. -/
def optionalArgument {α : Type} (name : String) (toValue : α → Value) (value : Option α) :
    List (String × Value) :=
  match value with
  | some value => [(name, toValue value)]
  | none => []

/-! ## Metadata -/

/-- A directive that is only written when something holds. -/
def directiveIf (holds : Bool) (directive : Directive) : List Directive :=
  if holds then [directive] else []

/-- The `@tag` directives, in the order of their names. -/
def tagDirectives (tags : List String) : List Directive :=
  (tags.mergeSort fun a b => !decide (b < a)).map fun tag =>
    { name := "tag", arguments := [("name", .string tag)] }

/-- The `@deprecated` directive. -/
def deprecatedDirective (d : Deprecation) : Directive :=
  { name := "deprecated", arguments := optionalArgument "reason" .string d.reason }

/-- The directives that state the metadata of an element. -/
def metadataDirectives (m : Metadata) : List Directive :=
  tagDirectives m.tags ++
    directiveIf m.isInaccessible .inaccessible ++
    directiveIf m.access.authenticated { name := "authenticated" } ++
    directiveIf (!m.access.scopes.isEmpty)
      { name := "requiresScopes", arguments := [("scopes", .stringGroups m.access.scopes)] } ++
    directiveIf (!m.access.policies.isEmpty)
      { name := "policy", arguments := [("policies", .stringGroups m.access.policies)] } ++
    (m.cost.toList.map fun weight => { name := "cost", arguments := [("weight", .int weight)] }) ++
    m.deprecation.toList.map deprecatedDirective

/-! ## Arguments and fields -/

/-- An argument or input field. -/
def emitInput (m : MergedInput) : Input where
  name := m.name
  description := m.metadata.description
  type := m.type.text
  defaultValue := m.defaultValue.map Federation.Value.text
  directives := metadataDirectives m.metadata

/-- The `@listSize` directive. One slicing argument is required unless it says otherwise. -/
def listSizeDirective (l : ListSize) : Directive where
  name := "listSize"
  arguments :=
    optionalArgument "assumedSize" (fun n : Nat => .int n) l.assumedSize ++
      (if l.slicingArguments.isEmpty then [] else
        [("slicingArguments", .strings l.slicingArguments)]) ++
      (if l.sizedFields.isEmpty then [] else [("sizedFields", .strings l.sizedFields)]) ++
      denialArgument "requireOneSlicingArgument"
        (l.requireOneSlicingArgument || l.slicingArguments.isEmpty)

/-- The directive for what one subgraph says about a field. -/
def joinField (names : GraphNames) (field : MergedField) (id : SubgraphId) (f : FieldInGraph) :
    Directive where
  name := "join__field"
  arguments :=
    graphArgument names id ::
      (optionalArgument "requires" (fun s : SelectionSet => .string s.text) f.requires ++
        optionalArgument "provides" (fun s : SelectionSet => .string s.text) f.provides ++
        (if f.type = field.type then [] else [("type", .string f.type.text)]) ++
        flagArgument "external" f.isExternal ++
        optionalArgument "override" (fun o : Override => .string o.source) f.override ++
        optionalArgument "overrideLabel" .string (f.override.bind Override.label))

/-- A subgraph says something about a field that goes without saying for other fields. -/
def isRemarkable (field : MergedField) (f : FieldInGraph) : Bool :=
  f.isExternal || f.override.isSome || f.requires.isSome || f.provides.isSome ||
    decide (f.type ≠ field.type)

/-- The directives that tell where a field is defined, on a type that a number of subgraphs define.
A field that no subgraph defines on the type has a bare one. -/
def joinFields (names : GraphNames) (field : MergedField) (typeCount : Nat) : List Directive :=
  if field.byGraph.isEmpty then [{ name := "join__field" }]
  else if field.byGraph.length ≠ typeCount || field.byGraph.any fun e => isRemarkable field e.2 then
    field.byGraph.map fun e => joinField names field e.1 e.2
  else []

/-- All subgraphs that resolve a field take an argument. -/
def isTakenEverywhere (field : MergedField) (argument : MergedInput) : Bool :=
  field.resolving.all argument.byGraph.has

/-- An output field, with the arguments that all resolving subgraphs take. -/
def emitField (names : GraphNames) (typeCount : Nat) (field : MergedField) : Field where
  name := field.name
  description := field.metadata.description
  arguments := (field.arguments.filter (isTakenEverywhere field)).map emitInput
  type := field.type.text
  directives :=
    joinFields names field typeCount ++ metadataDirectives field.metadata ++
      field.listSize.merged.toList.map listSizeDirective

/-! ## Types -/

/-- The directive for a type in a subgraph, by one of its keys if it has any. -/
def joinType (names : GraphNames) (id : SubgraphId) (d : TypeDef) (key : Option Key) :
    Directive where
  name := "join__type"
  arguments :=
    graphArgument names id ::
      (optionalArgument "key" (fun k : Key => .string k.text) key ++
        flagArgument "extension" d.isExtension ++
        denialArgument "resolvable" (key.all Key.isResolvable) ++
        flagArgument "isInterfaceObject" d.isInterfaceObject)

/-- The directives for an object or interface in a subgraph: one for each key. -/
def joinTypes (names : GraphNames) (id : SubgraphId) (d : TypeDef) : List Directive :=
  if d.keys.isEmpty then [joinType names id d none]
  else d.keys.map fun key => joinType names id d (some key)

/-- The directive for any other type in a subgraph. -/
def joinPlainType (names : GraphNames) (id : SubgraphId) : Directive :=
  { name := "join__type", arguments := [graphArgument names id] }

/-- The directives for the interfaces of a type in a subgraph. -/
def joinImplements (names : GraphNames) (id : SubgraphId) (d : TypeDef) : List Directive :=
  d.interfaces.map fun interface =>
    { name := "join__implements",
      arguments := [graphArgument names id, ("interface", .string interface)] }

/-- The directives for a member of a union. -/
def joinMember (names : GraphNames) (m : MergedMember) : List Directive :=
  m.subgraphs.map fun id =>
    { name := "join__unionMember",
      arguments := [graphArgument names id, ("member", .string m.name)] }

/-- The directives that tell where a type is defined. -/
def joinDirectives (names : GraphNames) (t : MergedType) : List Directive :=
  match t.body with
  | .object _ _ | .interface _ _ _ =>
    t.byGraph.flatMap (fun e => joinTypes names e.1 e.2) ++
      t.byGraph.flatMap fun e => joinImplements names e.1 e.2
  | .union members => t.byGraph.ids.map (joinPlainType names) ++ members.flatMap (joinMember names)
  | .enum _ | .scalar | .inputObject _ => t.byGraph.ids.map (joinPlainType names)

/-- A value of an enum type. A value that some subgraph would not take is hidden even if no subgraph
says so. -/
def emitEnumValue (names : GraphNames) (t : MergedType) (v : MergedEnumValue) : EnumValue where
  name := v.name
  description := v.metadata.description
  directives :=
    (v.subgraphs.map fun id =>
      { name := "join__enumValue", arguments := [graphArgument names id] }) ++
      metadataDirectives v.metadata ++
      directiveIf (t.isHiddenValue v && !v.metadata.isInaccessible) .inaccessible

/-- What a type consists of. An input type keeps the fields that all its subgraphs take. -/
def emitBody (names : GraphNames) (t : MergedType) : Body :=
  match t.body with
  | .object interfaces fields => .object interfaces (fields.map (emitField names t.byGraph.length))
  | .interface interfaces fields _ =>
    .interface interfaces (fields.map (emitField names t.byGraph.length))
  | .union members => .union (members.map MergedMember.name)
  | .enum values => .enum (values.map (emitEnumValue names t))
  | .scalar => .scalar
  | .inputObject fields =>
    .inputObject ((fields.filter fun f => f.byGraph.length == t.byGraph.length).map emitInput)

/-- A type of the supergraph. -/
def emitType (names : GraphNames) (t : MergedType) : TypeDefinition where
  name := t.name
  description := t.metadata.description
  directives := joinDirectives names t ++ metadataDirectives t.metadata
  body := emitBody names t

/-! ## Links -/

/-- All directives on the parts of a type. -/
def Body.directives : Body → List Directive
  | .object _ fields | .interface _ fields =>
    fields.flatMap fun f => f.directives ++ f.arguments.flatMap Input.directives
  | .enum values => values.flatMap EnumValue.directives
  | .inputObject fields => fields.flatMap Input.directives
  | .union _ | .scalar => []

/-- All directives on a type and its parts. -/
def TypeDefinition.allDirectives (d : TypeDefinition) : List Directive :=
  d.directives ++ d.body.directives

/-- The features that some directives belong to. -/
def featuresOf (directives : List Directive) : Features :=
  let has (name : String) : Bool := directives.any fun d => d.name == name
  { tag := has "tag"
    inaccessible := has "inaccessible"
    authenticated := has "authenticated"
    policy := has "policy"
    requiresScopes := has "requiresScopes"
    cost := has "cost" || has "listSize" }

/-- Some directive names an override label. -/
def usesOverrideLabels (directives : List Directive) : Bool :=
  directives.any fun d => (d.argument? "overrideLabel").isSome

/-- A link that is only there when a feature is used. -/
def linkIf (used : Bool) (link : Link) : List Link :=
  if used then [link] else []

/-- The specifications to link: those of the features in use, and override labels need the later
version of the join specification. -/
def linksFor (features : Features) (overrideLabels : Bool) : List Link :=
  [{ url := "https://specs.apollo.dev/link/v1.0" },
    { url := Model.joinUrl ++ (if overrideLabels then "v0.4" else "v0.3"),
      purpose := some "EXECUTION" }] ++
    linkIf features.tag { url := "https://specs.apollo.dev/tag/v0.3" } ++
    linkIf features.inaccessible
      { url := "https://specs.apollo.dev/inaccessible/v0.2", purpose := some "SECURITY" } ++
    linkIf features.authenticated
      { url := "https://specs.apollo.dev/authenticated/v0.1", purpose := some "SECURITY" } ++
    linkIf features.requiresScopes
      { url := "https://specs.apollo.dev/requiresScopes/v0.1", purpose := some "SECURITY" } ++
    linkIf features.policy
      { url := "https://specs.apollo.dev/policy/v0.1", purpose := some "SECURITY" } ++
    linkIf features.cost
      { url := "https://specs.apollo.dev/cost/v0.1", imports := ["@cost", "@listSize"] }

/-! ## Models -/

/-- A subgraph as the supergraph lists it. -/
def emitGraph (s : Subgraph) : Graph where
  name := s.name
  enumValue := s.enumValue
  url := s.url

/-- The root types, under their usual names. -/
def emitRoots (m : MergedSchema) : RootTypes where
  query := (m.root? .query).map MergedType.name
  mutation := (m.root? .mutation).map MergedType.name
  subscription := (m.root? .subscription).map MergedType.name

/-- The model of a merged schema. -/
def emit (set : SubgraphSet) (m : MergedSchema) : Model :=
  let types := m.types.map (emitType set.enumValueOf)
  let directives := types.flatMap TypeDefinition.allDirectives
  { links := linksFor (set.features.union (featuresOf directives)) (usesOverrideLabels directives)
    graphs := set.subgraphs.map emitGraph
    roots := emitRoots m
    types }

end Federation.Supergraph
