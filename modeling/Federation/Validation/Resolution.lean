import Federation.Number.Binary64
import Federation.Validation.Rule

/-!
# Where fields are resolved

Some subgraph has to resolve a field; several may only if all of them share it; and an override
moves a field from one of them to another.
-/

namespace Federation.Validation

/-! ## External fields -/

/-- An external field of an extension's key is only there to name the key. -/
def isKeyStub (t : MergedType) (id : SubgraphId) (f : FieldInGraph) : Bool :=
  f.isUsedAsKey && (t.byGraph.get? id).any TypeDef.isExtension

/-- Objects that stand in for an interface of the type resolve the field. -/
def isResolvedByInterfaceObject (c : Context) (t : MergedType) (field : MergedField) : Bool :=
  (c.interfacesIn t.interfaces).any fun interface =>
    match interface.field? field.name with
    | none => false
    | some found => interface.interfaceObjectSubgraphs.any fun id =>
        (found.byGraph.get? id).any fun f => !f.isExternal

/-- A field that is external everywhere is resolved nowhere. -/
def externalMissingOnBase : Rule where
  onField c t field :=
    let allExternal := !field.byGraph.isEmpty && field.byGraph.all fun e => e.2.isExternal
    let allStubs := field.byGraph.all fun e => isKeyStub t e.1 e.2
    if !allExternal || allStubs || isResolvedByInterfaceObject c t field then []
    else
      let subgraphs := c.phrase field.byGraph.ids
      [.error .externalMissingOnBase
        s!"Field \"{t.coordinate field.name}\" is marked @external on all the subgraphs in which it is listed ({subgraphs})."]

/-- An interface of the type declares the field in the same subgraph. -/
def implementsInterfaceField (s : Subgraph) (d : TypeDef) (name : String) : Bool :=
  (s.definitionsIn d.interfaces).any fun interface => (interface.field? name).isSome

/-- An external field is there for a key, a `@requires`, a `@provides` or an interface. -/
def externalUnused : Rule where
  onField c t field := field.byGraph.filterMap fun (id, f) =>
    let s := c.subgraph id
    let isUsed := f.isUsedAsKey || f.definition.isUsedInFieldSet
    let implements := (t.byGraph.get? id).any fun d => implementsInterfaceField s d field.name
    if !f.isExternal || isUsed || s.version.isV1 || implements then none
    else some (.error .externalUnused
      s!"[{s.name}] Field \"{t.coordinate field.name}\" is marked @external but is not used in any federation directive (@key, @provides, @requires) or to satisfy an interface; the field declaration has no use and should be removed (or the field should not be @external).")

/-! ## Shared fields -/

/-- A subgraph that resolves a field. -/
structure Resolver where
  id : SubgraphId
  isShareable : Bool

/-- The resolver of a field in a subgraph that defines it. Key fields can always be shared. -/
def Resolver.of (id : SubgraphId) (f : FieldInGraph) : Resolver where
  id
  isShareable := f.isShareable || f.isUsedAsKey

/-- The subgraphs that resolve the field of an interface for objects that stand in for it. -/
def interfaceObjectResolvers (interface : MergedType) (field : MergedField) : List Resolver :=
  interface.interfaceObjectSubgraphs.filterMap fun id =>
    ((field.byGraph.get? id).filter fun f => !f.isExternal).map (Resolver.of id)

/-- The subgraphs that resolve a field of an object type themselves. -/
def ownResolvers (c : Context) (field : MergedField) : List Resolver :=
  (field.byGraph.filter fun e =>
    !e.2.isExternal && (field.overrider? (c.nameOf e.1)).isNone).map fun e => .of e.1 e.2

/-- Adds a resolver unless its subgraph has one. -/
def addResolver (resolvers : List Resolver) (r : Resolver) : List Resolver :=
  if resolvers.any fun other => other.id == r.id then resolvers else resolvers ++ [r]

/-- All subgraphs that resolve a field of an object type. -/
def objectResolvers (c : Context) (t : MergedType) (field : MergedField) : List Resolver :=
  (c.interfacesIn t.interfaces).foldl (fun resolvers interface =>
    match interface.field? field.name with
    | none => resolvers
    | some found => (interfaceObjectResolvers interface found).foldl addResolver resolvers)
    (ownResolvers c field)

/-- All subgraphs that resolve a field. -/
def resolversOf (c : Context) (t : MergedType) (field : MergedField) : List Resolver :=
  match t.kind with
  | .object => objectResolvers c t field
  | .interface => interfaceObjectResolvers t field
  | _ => []

/-- A field that several subgraphs resolve is shareable in all of them. -/
def invalidFieldSharing : Rule where
  onField c t field :=
    let resolvers := resolversOf c t field
    let coordinate := t.coordinate field.name
    let resolving := c.phrase (resolvers.map Resolver.id)
    let unshared := (resolvers.filter fun r => !r.isShareable).map Resolver.id
    if resolvers.length < 2 then []
    else if t.name = RootOperation.subscription.typeName then
      [.error .invalidFieldSharing
        s!"Fields on root level subscription object cannot be marked as shareable: \"{coordinate}\" is resolved from {resolving}"]
    else if unshared.isEmpty then []
    else
      let definedAs :=
        if unshared.length = resolvers.length then "all of them" else c.phrase unshared
      [.error .invalidFieldSharing
        s!"Non-shareable field \"{coordinate}\" is resolved from multiple subgraphs: it is resolved from {resolving} and defined as non-shareable in {definedAs}"]

/-! ## Overrides -/

/-- What stands between the parentheses of a label like `percent(10)`. -/
def percentText? (label : String) : Option (List Char) :=
  let opening := "percent(".toList
  let cs := label.toList
  if opening.isPrefixOf cs && (cs.drop opening.length).getLast? == some ')' then
    some (cs.drop opening.length).dropLast
  else none

/-- A label is a percentage between 0 and 100, or a word that starts with a letter. -/
def isValidLabel (label : String) : Bool :=
  match percentText? label with
  | some text =>
    match Number.Numeral.read? text with
    | some (.number x) => x.isBetweenZeroAnd 100
    | _ => false
  | none =>
    match label.toList with
    | first :: others =>
      first.isAlpha && others.all fun c => c.isAlphanum || ['_', '-', ':', '.'].contains c
    | [] => false

/-- What is wrong with the label of an override. -/
def labelProblems (coordinate subgraph : String) (o : Override) : Diagnostics :=
  match o.label with
  | none => []
  | some label =>
    if isValidLabel label then []
    else [.error .overrideLabelInvalid
      s!"Invalid @override label \"{label}\" on field \"{coordinate}\" on subgraph \"{subgraph}\": labels must start with a letter and after that may contain alphanumerics, underscores, minuses, colons, periods, or be of the form \"percent(x)\" where x is a float between 0-100 inclusive."]

/-- What is wrong with an override, given what the overridden subgraph says about the field. A field
moves only once, and with a label both sides have to be able to resolve it. -/
def sourceProblems (coordinate subgraph : String) (o : Override) (source : FieldInGraph) :
    Diagnostics :=
  (if source.override.isNone then [] else
    [.error .overrideSourceHasOverride
      s!"Field \"{coordinate}\" on subgraph \"{subgraph}\" is also marked with directive @override in subgraph \"{o.source}\". Only one @override directive is allowed per field."]) ++
  (if o.label.isNone || source.definition.attributes.requires.isNone then [] else
    [.error .overrideCollisionWithAnotherDirective
      s!"@override cannot be used on field \"{coordinate}\" on subgraph \"{subgraph}\" since \"{coordinate}\" on \"{o.source}\" is marked with directive \"@requires\""])

/-- What is wrong with an override apart from its label. -/
def overrideProblems (c : Context) (coordinate : String) (field : MergedField) (id : SubgraphId)
    (f : FieldInGraph) (o : Override) : Diagnostics :=
  let name := c.nameOf id
  if o.source = name then
    [.error .overrideFromSelfError
      s!"Source and destination subgraphs \"{name}\" are the same for overridden field \"{coordinate}\""]
  else if f.isExternal then
    [.error .overrideCollisionWithAnotherDirective
      s!"@override cannot be used on field \"{coordinate}\" on subgraph \"{name}\" since \"{coordinate}\" on \"{name}\" is marked with directive \"@external\""]
  else
    match c.set.idOfName? o.source with
    | none =>
      [.warning .fromSubgraphDoesNotExist
        s!"Source subgraph \"{o.source}\" for field \"{coordinate}\" on subgraph \"{name}\" does not exist."]
    | some sourceId =>
      match field.byGraph.get? sourceId with
      | none => []
      | some source => sourceProblems coordinate name o source

/-- Overrides of object fields name another subgraph, and a valid label if any. -/
def overrideRules : Rule where
  onField c t field :=
    if t.kind ≠ .object then []
    else field.byGraph.flatMap fun (id, f) =>
      match f.override with
      | none => []
      | some o =>
        let coordinate := t.coordinate field.name
        labelProblems coordinate (c.nameOf id) o ++ overrideProblems c coordinate field id f o

end Federation.Validation
