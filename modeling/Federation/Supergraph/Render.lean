import Federation.Supergraph.Model
import Federation.Text.Block
import Federation.Text.Quoted

/-!
# Schema texts

A model has two texts: the supergraph schema with all directives, and the API schema that clients
see. The API schema shows nothing that is inaccessible, no type without visible parts, and nothing
that refers to such a type.
-/

namespace Federation.Supergraph

/-! ## Hidden types -/

/-- An element that refers to a type by its text is hidden when it is inaccessible or the type is
hidden. -/
def isHiddenReference (hidden : List String) (directives : List Directive) (type : String) : Bool :=
  isHidden directives || hidden.contains (TypeRef.nameOfText type)

/-- Nothing of a type is visible while some types are hidden. Scalars have no parts. -/
def Body.isEmptied (hidden : List String) : Body → Bool
  | .object _ fields | .interface _ fields =>
    fields.all fun f => isHiddenReference hidden f.directives f.type
  | .inputObject fields => fields.all fun f => isHiddenReference hidden f.directives f.type
  | .union members => members.all hidden.contains
  | .enum values => values.all fun v => isHidden v.directives
  | .scalar => false

namespace Model

/-- The types that are hidden because nothing of them is visible, and were not hidden before. -/
def newlyHidden (m : Model) (hidden : List String) : List String :=
  (m.types.filter fun d => !hidden.contains d.name && d.body.isEmptied hidden).map
    TypeDefinition.name

/-- Hides types, for a number of rounds, until there are none to hide. -/
def hideFor (m : Model) : Nat → List String → List String
  | 0, hidden => hidden
  | rounds + 1, hidden =>
    match m.newlyHidden hidden with
    | [] => hidden
    | more => hideFor m rounds (hidden ++ more)

/-- The inaccessible types. -/
def inaccessibleTypes (m : Model) : List String :=
  (m.types.filter fun d => isHidden d.directives).map TypeDefinition.name

/-- The hidden types. Each round but the last hides a type, so there are no more rounds than types.
-/
def hiddenTypes (m : Model) : List String :=
  m.hideFor m.types.length m.inaccessibleTypes

end Model

/-! ## Directives -/

mutual

/-- The text of an argument's value. -/
def Value.text : Value → String
  | .string s => Text.quote s
  | .int n => toString n
  | .boolean true => "true"
  | .boolean false => "false"
  | .enum name => name
  | .list items => "[" ++ ", ".intercalate (Value.texts items) ++ "]"

/-- The texts of several values. -/
def Value.texts : List Value → List String
  | [] => []
  | first :: others => first.text :: Value.texts others

end

/-- The text of a directive. -/
def Directive.text (d : Directive) : String :=
  if d.arguments.isEmpty then "@" ++ d.name
  else
    let arguments := d.arguments.map fun a => a.1 ++ ": " ++ a.2.text
    "@" ++ d.name ++ "(" ++ ", ".intercalate arguments ++ ")"

/-! ## Descriptions -/

/-- What stands in front of the parts of a type. -/
def indent : String := "  "

/-- What stands in front of arguments on lines of their own. -/
def deepIndent : String := "    "

/-- A line of a block string. Empty lines are not indented. -/
def blockLine (indent : String) (line : List Char) : String :=
  (if line.isEmpty then "" else indent) ++ String.ofList (Text.escapeTriples line) ++ "\n"

/-- A description of one line is quoted, a longer one is a block string. -/
def descriptionText (indent : String) : Option String → String
  | none => ""
  | some text =>
    if text.toList.contains '\n' then
      indent ++ "\"\"\"\n" ++
        String.join ((Text.lines text.toList).map (blockLine indent)) ++ indent ++ "\"\"\"\n"
    else indent ++ Text.quote text ++ "\n"

/-! ## What is shown -/

/-- Which parts of a model a text shows. -/
structure Audience where
  /-- Clients see neither hidden elements nor directives, `@deprecated` apart. -/
  isPublic : Bool
  hidden : List String

namespace Audience

/-- A type is shown. -/
def showsType (a : Audience) (name : String) : Bool :=
  !a.hidden.contains name

/-- A directive is shown. -/
def showsDirective (a : Audience) (d : Directive) : Bool :=
  !a.isPublic || d.name == "deprecated"

/-- An element that refers to a type by its text is shown. -/
def shows (a : Audience) (directives : List Directive) (type : String) : Bool :=
  !a.isPublic || !isHiddenReference a.hidden directives type

/-- A value of an enum type is shown. -/
def showsValue (a : Audience) (v : EnumValue) : Bool :=
  !a.isPublic || !isHidden v.directives

end Audience

/-! ## Parts of types -/

/-- Directives behind an element. -/
def trailingDirectives (a : Audience) (directives : List Directive) : String :=
  String.join ((directives.filter a.showsDirective).map fun d => " " ++ d.text)

/-- The text of an argument or input field. -/
def Input.text (a : Audience) (i : Input) : String :=
  i.name ++ ": " ++ i.type ++
    (match i.defaultValue with
    | some value => " = " ++ value
    | none => "") ++
    trailingDirectives a i.directives

/-- The text of an argument on a line of its own. -/
def Input.lineText (a : Audience) (i : Input) : String :=
  "\n" ++ descriptionText deepIndent i.description ++ deepIndent ++ i.text a

/-- The arguments of a field. If one has a description, each gets a line of its own. -/
def argumentsText (a : Audience) (arguments : List Input) : String :=
  match arguments.filter fun i => a.shows i.directives i.type with
  | [] => ""
  | shown =>
    if shown.any fun i => i.description.isSome then
      "(" ++ String.join (shown.map (Input.lineText a)) ++ "\n" ++ indent ++ ")"
    else "(" ++ ", ".intercalate (shown.map (Input.text a)) ++ ")"

/-- The text of an output field. -/
def Field.text (a : Audience) (f : Field) : String :=
  descriptionText indent f.description ++ indent ++ f.name ++ argumentsText a f.arguments ++ ": " ++
    f.type ++ trailingDirectives a f.directives ++ "\n"

/-- The text of an input field. -/
def Input.fieldText (a : Audience) (i : Input) : String :=
  descriptionText indent i.description ++ indent ++ i.text a ++ "\n"

/-- The text of a value of an enum type. -/
def EnumValue.text (a : Audience) (v : EnumValue) : String :=
  descriptionText indent v.description ++ indent ++ v.name ++ trailingDirectives a v.directives ++
    "\n"

/-! ## Types -/

/-- The interfaces of a type. -/
def interfacesText (a : Audience) (interfaces : List String) : String :=
  match interfaces.filter a.showsType with
  | [] => ""
  | shown => " implements " ++ " & ".intercalate shown

/-- The members of a union. -/
def membersText (a : Audience) (members : List String) : String :=
  " |".intercalate ((members.filter a.showsType).map (" " ++ ·))

/-- Parts of a type between braces, which start a new line after directives. -/
def braced (afterDirectives : Bool) (parts : List String) : String :=
  (if afterDirectives then "\n\x7b\n" else " \x7b\n") ++ String.join parts ++ "\x7d\n"

/-- What a type consists of. -/
def Body.text (a : Audience) (afterDirectives : Bool) : Body → String
  | .object _ fields | .interface _ fields =>
    braced afterDirectives
      ((fields.filter fun f => a.shows f.directives f.type).map (Field.text a))
  | .union members => (if afterDirectives then "\n =" else " =") ++ membersText a members ++ "\n"
  | .enum values => braced afterDirectives ((values.filter a.showsValue).map (EnumValue.text a))
  | .scalar => "\n"
  | .inputObject fields =>
    braced afterDirectives
      ((fields.filter fun f => a.shows f.directives f.type).map (Input.fieldText a))

/-- The text of a type. -/
def TypeDefinition.text (a : Audience) (d : TypeDefinition) : String :=
  let directives := d.directives.filter a.showsDirective
  descriptionText "" d.description ++ d.body.keyword ++ " " ++ d.name ++
    interfacesText a d.body.interfaces ++
    String.join (directives.map fun d => "\n" ++ indent ++ d.text) ++
    d.body.text a (!directives.isEmpty)

/-! ## The API schema -/

/-- What clients see of a model. -/
def Audience.clients (m : Model) : Audience where
  isPublic := true
  hidden := m.hiddenTypes

/-- The text of the API schema. -/
def Model.publicText (m : Model) : String :=
  let a := Audience.clients m
  "\n".intercalate ((m.types.filter fun d => a.showsType d.name).map (TypeDefinition.text a))

/-! ## The supergraph schema -/

/-- The directive that links a specification. -/
def Link.directive (l : Link) : Directive where
  name := "link"
  arguments :=
    ("url", .string l.url) ::
      ((l.purpose.toList.map fun purpose => ("for", .enum purpose)) ++
        if l.imports.isEmpty then [] else [("import", .strings l.imports)])

/-- The root type for a kind of operation. -/
def rootText (m : Model) (root : RootOperation) : String :=
  match m.roots.get root with
  | some name => indent ++ root.keyword ++ ": " ++ name ++ "\n"
  | none => ""

/-- The schema definition. -/
def schemaText (m : Model) : String :=
  "schema\n" ++ String.join (m.links.map fun l => indent ++ l.directive.text ++ "\n") ++
    "\x7b\n" ++ String.join (RootOperation.all.map (rootText m)) ++ "\x7d\n"

/-- The definitions of the join directives, `@join__field` apart, and of `@link`. -/
def joinDefinitions : List String :=
  ["directive @join__enumValue(graph: join__Graph!) repeatable on ENUM_VALUE\n",
    "directive @join__graph(name: String!, url: String!) on ENUM_VALUE\n",
    "directive @join__implements(graph: join__Graph!, interface: String!) repeatable on OBJECT | INTERFACE\n",
    "directive @join__type(graph: join__Graph!, key: join__FieldSet, extension: Boolean! = false, resolvable: Boolean! = true, isInterfaceObject: Boolean! = false) repeatable on OBJECT | INTERFACE | UNION | ENUM | INPUT_OBJECT | SCALAR\n",
    "directive @join__unionMember(graph: join__Graph!, member: String!) repeatable on UNION\n",
    "directive @link(url: String, as: String, for: link__Purpose, import: [link__Import]) repeatable on SCHEMA\n"]

/-- The definition of `@join__field`, which in the later version takes a label. -/
def joinFieldDefinition (takesLabel : Bool) : String :=
  "directive @join__field(graph: join__Graph, requires: join__FieldSet, provides: join__FieldSet, type: String, external: Boolean, override: String, usedOverridden: Boolean" ++
    (if takesLabel then ", overrideLabel: String" else "") ++
    ") repeatable on FIELD_DEFINITION | INPUT_FIELD_DEFINITION\n"

/-- The definitions that come with a linked feature, after the start of its URL. -/
def featureDefinitions : List (String × List String) :=
  [("https://specs.apollo.dev/tag/",
      ["directive @tag(name: String!) repeatable on FIELD_DEFINITION | OBJECT | INTERFACE | UNION | ARGUMENT_DEFINITION | SCALAR | ENUM | ENUM_VALUE | INPUT_OBJECT | INPUT_FIELD_DEFINITION | SCHEMA\n"]),
    ("https://specs.apollo.dev/inaccessible/",
      ["directive @inaccessible on FIELD_DEFINITION | OBJECT | INTERFACE | UNION | ARGUMENT_DEFINITION | SCALAR | ENUM | ENUM_VALUE | INPUT_OBJECT | INPUT_FIELD_DEFINITION\n"]),
    ("https://specs.apollo.dev/authenticated/",
      ["directive @authenticated on FIELD_DEFINITION | OBJECT | INTERFACE | SCALAR | ENUM\n"]),
    ("https://specs.apollo.dev/requiresScopes/",
      ["directive @requiresScopes(scopes: [[requiresScopes__Scope!]!]!) on FIELD_DEFINITION | OBJECT | INTERFACE | SCALAR | ENUM\n",
        "scalar requiresScopes__Scope\n"]),
    ("https://specs.apollo.dev/policy/",
      ["directive @policy(policies: [[policy__Policy!]!]!) on FIELD_DEFINITION | OBJECT | INTERFACE | SCALAR | ENUM\n",
        "scalar policy__Policy\n"]),
    ("https://specs.apollo.dev/cost/",
      ["directive @cost(weight: Int!) on ARGUMENT_DEFINITION | ENUM | FIELD_DEFINITION | INPUT_FIELD_DEFINITION | OBJECT | SCALAR\n",
        "directive @listSize(assumedSize: Int, slicingArguments: [String!], sizedFields: [String!], requireOneSlicingArgument: Boolean = true) on FIELD_DEFINITION\n"])]

/-- The definitions of the features that a model links. -/
def linkedDefinitions (m : Model) : List String :=
  (featureDefinitions.filter fun feature =>
    m.links.any fun l => (afterPrefix? feature.1 l.url).isSome).flatMap Prod.snd

/-- The line for a subgraph in the enumeration of subgraphs. -/
def Graph.text (g : Graph) : String :=
  let directive : Directive :=
    { name := "join__graph",
      arguments := [("name", .string g.name), ("url", .string (g.url.getD ""))] }
  indent ++ g.enumValue ++ " " ++ directive.text ++ "\n"

/-- The enumeration of subgraphs. -/
def graphsText (m : Model) : String :=
  "enum join__Graph \x7b\n" ++ String.join (m.graphs.map Graph.text) ++ "\x7d\n"

/-- The types that the join and link directives need. -/
def supportingTypes : List String :=
  ["scalar join__FieldSet\n", "scalar link__Import\n",
    "enum link__Purpose \x7b\n" ++ indent ++ "SECURITY\n" ++ indent ++ "EXECUTION\n\x7d\n"]

/-- The blocks of the supergraph schema. -/
def Model.supergraphBlocks (m : Model) : List String :=
  let a : Audience := { isPublic := false, hidden := [] }
  [schemaText m] ++ joinDefinitions ++
    [joinFieldDefinition (m.joinVersion? == some "v0.4")] ++ linkedDefinitions m ++
    [graphsText m] ++ supportingTypes ++ m.types.map (TypeDefinition.text a)

/-- The text of the supergraph schema, with an empty line between blocks. -/
def Model.supergraphText (m : Model) : String :=
  "\n".intercalate m.supergraphBlocks

end Federation.Supergraph
