import Federation.Validation.Rule

/-!
# Costs and list sizes

`@listSize` stands on lists, or names fields that are; its slicing arguments are arguments of the
field, and the same on an interface and its implementations. `@cost` does not stand on fields of
interfaces.
-/

namespace Federation.Validation

/-! ## Single directives -/

/-- What is wrong with a sized field of a `@listSize` directive. -/
def sizedFieldProblem? (target : Option TypeDef) (sizedField : String) : Option String :=
  match target.bind fun d => d.field? sizedField with
  | none => some "is not a field"
  | some field => if field.type.wrapping.isList then none else some "is not a list"

/-- What is wrong with a `@listSize` directive in a subgraph. -/
def listSizeProblems (c : Context) (coordinate : String) (id : SubgraphId) (f : FieldInGraph)
    (l : ListSize) : Diagnostics :=
  let name := c.nameOf id
  let target := (c.subgraph id).typeOf? f.definition
  (if f.type.wrapping.isList || !l.sizedFields.isEmpty then [] else
    [.error .listSizeAppliedToNonList s!"[{name}] \"{coordinate}\" is not a list"]) ++
  l.sizedFields.filterMap fun sizedField =>
    (sizedFieldProblem? target sizedField).map fun problem =>
      .error .listSizeInvalidSizedField
        s!"[{name}] Sized field \"{sizedField}\" of @listSize on \"{coordinate}\" {problem} on type \"{f.type.name}\""

/-- The warnings about slicing arguments that had to be dropped. -/
def droppedArguments (coordinate : String) (field : MergedField) : Diagnostics :=
  field.listSize.dropped.map fun argument =>
    .warning .listSizeInvalidSlicingArgument
      s!"Slicing argument \"{argument}\" of @listSize on \"{coordinate}\" is not an argument of the field in every subgraph defining it, it was removed"

/-! ## Interfaces -/

/-- The merged slicing arguments, if there are any. -/
def slicingArguments? (field : MergedField) : Option (List String) :=
  (field.listSize.merged.map ListSize.slicingArguments).filter fun arguments => !arguments.isEmpty

/-- Two lists have the same arguments in any order. -/
def sameArguments (a b : List String) : Bool :=
  a.length == b.length && a.all b.contains

/-- Names in quotation marks. -/
def quotedNames (names : List String) : String :=
  ", ".intercalate (names.map quotedName)

/-- Implementations slice on the arguments of the interface field. -/
def implementationProblems (c : Context) (t : MergedType) (field : MergedField) : Diagnostics :=
  match slicingArguments? field with
  | none => []
  | some expected => t.implementations.filterMap fun implementation => do
    let found ← c.merged.field? implementation field.name
    let actual ← slicingArguments? found
    guard (!sameArguments expected actual)
    return .error .listSizeInvalidSlicingArgument
      s!"Slicing arguments [{quotedNames actual}] of @listSize on \"{implementation}.{field.name}\" do not match the slicing arguments [{quotedNames expected}] of the interface field \"{t.coordinate field.name}\""

/-- `@listSize` fits the field it stands on. -/
def listSizeRules : Rule where
  onField c t field :=
    let coordinate := t.coordinate field.name
    field.byGraph.flatMap (fun (id, f) =>
      match f.definition.attributes.listSize with
      | none => []
      | some l => listSizeProblems c coordinate id f l) ++
    droppedArguments coordinate field ++
    if t.kind = .interface then implementationProblems c t field else []

/-- Fields of interfaces have no cost, unless objects stand in for the interface. -/
def costOnInterfaceField : Rule where
  onField c t field :=
    if t.kind ≠ .interface then []
    else field.byGraph.filterMap fun (id, f) =>
      if isInterfaceObjectIn t id || f.definition.attributes.cost.isNone then none
      else
        let name := c.nameOf id
        some (.error .costAppliedToInterfaceField
          s!"[{name}] @cost cannot be applied to interface \"{t.coordinate field.name}\"")

end Federation.Validation
