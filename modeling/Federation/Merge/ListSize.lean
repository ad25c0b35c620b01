import Federation.Merge.Field

/-!
# Merged list sizes

The `@listSize` directives of all subgraphs on one field. Only slicing arguments that the field has
in every subgraph that resolves it can be used; if all of them are lost, so is the directive.
-/

namespace Federation

/-- The outcome of merging the `@listSize` directives on a field. -/
structure MergedListSize where
  /-- The merged directive, if there is one. -/
  merged : Option ListSize
  /-- Slicing arguments that the field lacks somewhere. -/
  dropped : List String
deriving DecidableEq, Repr

namespace MergedField

/-- The `@listSize` directives of the subgraphs. -/
def listSizes (m : MergedField) : List ListSize :=
  m.byGraph.filterMap fun entry => entry.2.definition.attributes.listSize

/-- Every subgraph that resolves the field has an argument. -/
def hasArgumentEverywhere (m : MergedField) (name : String) : Bool :=
  m.byGraph.all fun entry => entry.2.isExternal || (entry.2.definition.argument? name).isSome

/-- The merged `@listSize` directive. -/
def listSize (m : MergedField) : MergedListSize :=
  let sizes := m.listSizes
  let candidates := Attributes.distinct (sizes.flatMap ListSize.slicingArguments)
  let (slicing, dropped) := candidates.partition m.hasArgumentEverywhere
  if sizes.isEmpty then { merged := none, dropped := [] }
  else if !candidates.isEmpty && slicing.isEmpty then { merged := none, dropped }
  else
    let merged : ListSize :=
      { assumedSize := (sizes.filterMap ListSize.assumedSize).max?
        slicingArguments := slicing
        sizedFields := Attributes.distinct (sizes.flatMap ListSize.sizedFields)
        requireOneSlicingArgument := sizes.all ListSize.requireOneSlicingArgument }
    { merged := some merged, dropped }

end MergedField

end Federation
