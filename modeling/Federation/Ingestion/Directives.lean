import Federation.Ingestion.Progress
import Federation.Subgraph.DirectiveArguments
import Federation.Subgraph.DirectiveRole

/-!
# Directives

The directives of an element turn into its attributes, and the `@key` directives of a type into its
keys.
-/

namespace Federation

open Document (Directive Literal)

namespace Attributes

/-! ## Groups of names -/

/-- The texts of a list of strings; other items are left out. -/
def stringGroup? (items : Literal) : Option (List String) :=
  items.asItems?.map fun items => items.filterMap Literal.asString?

/-- The groups of an argument that is a list of lists of strings. -/
def stringGroups (directive : Directive) (argument : String) : List (List String) :=
  let items := ((directive.argument? argument).bind Literal.asItems?).getD []
  items.filterMap stringGroup?

/-- Adds an item that is new at the end. -/
def addNew {α : Type} [BEq α] (items : List α) (item : α) : List α :=
  if items.contains item then items else items ++ [item]

/-- The items without repetitions, each where it stands first. -/
def distinct {α : Type} [BEq α] (items : List α) : List α :=
  items.foldl addNew []

/-! ## Single directives -/

/-- Reads the field set of a directive on a field. -/
def ingestFieldSet (location : String) (directive : Directive) (directiveName : String)
    (wrongType unusable : ErrorCode) : Ingestion (Option SelectionSet) := do
  match directive.text? "fields" with
  | none =>
    Ingestion.report wrongType
      s!"On field \"{location}\", for @{directiveName}: the `fields` argument must be a string."
    return none
  | some text =>
    match ← Ingestion.readFieldSet text with
    | .ok selections => return some selections
    | .error fault =>
      let message := fault.message directiveName
      Ingestion.report unusable
        s!"On field \"{location}\", for @{directiveName}(fields: \"{text}\"): {message}"
      return none

/-- Adds what a directive in its role says about the element at a location. -/
def ingestRole (location : String) (a : Attributes) (directive : Directive) :
    DirectiveRole → Ingestion Attributes
  | .key => return a
  | .authenticated => do
    Ingestion.useFeatures { authenticated := true }
    return { a with isAuthenticated := true }
  | .cost =>
    match readCost directive.arguments with
    | .ok weight => do
      Ingestion.useFeatures { cost := true }
      return { a with cost := some weight }
    | .error fault => do
      Ingestion.report .directiveCostInvalidWeight
        s!"Invalid @cost directive at {location}: {fault.message}"
      return a
  | .listSize =>
    match readListSize directive.arguments with
    | .ok listSize => do
      Ingestion.mentionAll listSize.slicingArguments
      Ingestion.mentionAll listSize.sizedFields
      Ingestion.useFeatures { cost := true }
      return { a with listSize := some listSize }
    | .error fault => do
      Ingestion.report .listSizeInvalidAssumedSize
        s!"Invalid @listSize directive at {location}: {fault.message}"
      return a
  | .deprecated =>
    match readDeprecation directive.arguments with
    | .ok deprecation => do
      Ingestion.mentionOptional deprecation.reason
      return { a with deprecation := some deprecation }
    | .error fault => do
      Ingestion.report .invalidGraphql
        s!"Invalid @deprecated directive at {location}: {fault.message}"
      return a
  | .extended => return { a with isExtended := true }
  | .external => return { a with isExternal := true }
  | .inaccessible => do
    Ingestion.useFeatures { inaccessible := true }
    return { a with isInaccessible := true }
  | .interfaceObject => return { a with isInterfaceObject := true }
  | .override => do
    let source? := directive.text? "from"
    let label := directive.text? "label"
    Ingestion.mentionOptional source?
    Ingestion.mentionOptional label
    match source? with
    | some source => return { a with override := some { source := source, label := label } }
    | none =>
      Ingestion.report .invalidGraphql
        s!"Invalid @override directive at {location}: the `from` argument is required."
      return a
  | .policy => do
    let groups := stringGroups directive "policies"
    Ingestion.mentionAll groups.flatten
    Ingestion.useFeatures { policy := true }
    return { a with policies := a.policies ++ distinct groups }
  | .requiresScopes => do
    let groups := stringGroups directive "scopes"
    Ingestion.mentionAll groups.flatten
    Ingestion.useFeatures { requiresScopes := true }
    return { a with scopes := a.scopes ++ distinct groups }
  | .provides => do
    match ← ingestFieldSet location directive "provides" .providesInvalidFieldsType
        .providesInvalidFields with
    | some selections => return { a with provides := some selections }
    | none => return a
  | .requires => do
    match ← ingestFieldSet location directive "requires" .requiresInvalidFieldsType
        .requiresInvalidFields with
    | some selections => return { a with requires := some selections }
    | none => return a
  | .shareable => return { a with isShareable := true }
  | .tag =>
    match directive.text? "name" with
    | none => return a
    | some tag => do
      Ingestion.mention tag
      Ingestion.useFeatures { tag := true }
      return { a with tags := addNew a.tags tag }

/-- Adds what a directive says about the element at a location. -/
def ingestDirective (location : String) (a : Attributes) (directive : Directive) :
    Ingestion Attributes := do
  match DirectiveRole.resolve? (← Ingestion.subgraph) directive.name with
  | some role => ingestRole location a directive role
  | none => return a

/-- Adds what directives say about the element at a location. -/
def ingest (location : String) (a : Attributes) (directives : List Directive) :
    Ingestion Attributes :=
  directives.foldlM (ingestDirective location) a

end Attributes

/-! ## Keys -/

/-- Takes in a `@key` directive of a type. Keys are resolvable unless they say otherwise. -/
def ingestKey (typeName : String) (directive : Directive) : Ingestion Unit := do
  match directive.text? "fields" with
  | none =>
    Ingestion.report .keyInvalidFieldsType
      s!"On type \"{typeName}\", for @key: the `fields` argument must be a string."
  | some text =>
    match ← Ingestion.readFieldSet text with
    | .ok selections =>
      let isResolvable :=
        ((directive.argument? "resolvable").bind Literal.asBoolean?).getD true
      Ingestion.modifyDefinition typeName fun d =>
        { d with keys := d.keys ++ [{ selections := selections, isResolvable := isResolvable }] }
    | .error fault =>
      let message := fault.message "key"
      Ingestion.report .keyInvalidFields
        s!"On type \"{typeName}\", for @key(fields: \"{text}\"): {message}"

/-- Takes in the `@key` directives of a type. -/
def ingestKeys (typeName : String) (directives : List Directive) : Ingestion Unit := do
  let s ← Ingestion.subgraph
  (directives.filter fun directive =>
    DirectiveRole.resolve? s directive.name == some .key).forM (ingestKey typeName)

end Federation
