import Federation.Satisfiability.Check
import Federation.Setting
import Federation.Supergraph.Emission
import Federation.Supergraph.TagFilter
import Federation.Validation.Validate

/-!
# Composition

Subgraphs are merged into one schema, which is checked by the rules and then for satisfiability. If
nothing fatal was found, the supergraph is emitted and written in both of its forms.
-/

namespace Federation

/-! ## Options -/

/-- What a composition is asked to do. -/
structure CompositionOptions where
  /-- Check that every field of the API can be resolved. -/
  runSatisfiability : Bool := true
  /-- Fail on warnings, too. -/
  warningsAreFatal : Bool := false
deriving DecidableEq, Repr, Inhabited

namespace CompositionOptions

/-- The options by name. -/
def parts : List (Setting.Part CompositionOptions) :=
  [{ name := "run_satisfiability",
     update := fun s options => return { options with runSatisfiability := ← s.asBool } },
    { name := "warnings_are_fatal",
      update := fun s options => return { options with warningsAreFatal := ← s.asBool } }]

/-- Reads options. -/
def ofSetting : Setting → Except SettingError CompositionOptions :=
  Setting.asRecord "CompositionOptions" parts {}

end CompositionOptions

namespace Supergraph.TagFilter

/-- The tags of a filter by their role. -/
def parts : List (Setting.Part TagFilter) :=
  [{ name := "include",
     update := fun s filter => return { filter with included := ← s.asTexts } },
    { name := "exclude",
      update := fun s filter => return { filter with excluded := ← s.asTexts } }]

/-- Reads a filter. -/
def ofSetting : Setting → Except SettingError TagFilter :=
  Setting.asRecord "TagFilter" parts {}

end Supergraph.TagFilter

/-! ## Results -/

/-- A supergraph in all its forms. -/
structure ComposedSupergraph where
  model : Supergraph.Model
  /-- The schema that a gateway plans queries with. -/
  supergraphText : String
  /-- The schema that clients see. -/
  publicText : String
deriving Inhabited

/-- What came of a composition: a supergraph only if nothing fatal was found. -/
structure Composition where
  diagnostics : Diagnostics
  supergraph : Option ComposedSupergraph
deriving Inhabited

/-- A supergraph with its texts. -/
def ComposedSupergraph.of (model : Supergraph.Model) : ComposedSupergraph where
  model
  supergraphText := model.supergraphText
  publicText := model.publicText

/-! ## Composing -/

namespace SubgraphSet

/-- The diagnostics of the subgraphs and of the rules, and the merged schema unless there is none.
-/
def baseDiagnostics (set : SubgraphSet) : Diagnostics × Option MergedSchema :=
  match MergedSchema.ofSubgraphs set with
  | .error e => (set.diagnostics ++ [.error .typeKindMismatch e.message], none)
  | .ok merged =>
    (set.diagnostics ++ Validation.validate { set := set, merged := merged }, some merged)

/-- The fields that cannot be resolved. They are looked for only if they are asked for and nothing
fatal was found before. -/
def satisfiabilityDiagnostics (set : SubgraphSet) (options : CompositionOptions)
    (base : Diagnostics) (merged : MergedSchema) : Diagnostics :=
  if options.runSatisfiability && !base.anyFatal then Satisfiability.check set merged else []

/-- All diagnostics, and the merged schema unless there is none. -/
def allDiagnostics (set : SubgraphSet) (options : CompositionOptions) :
    Diagnostics × Option MergedSchema :=
  let (base, merged?) := set.baseDiagnostics
  let all := base ++ (merged?.map (set.satisfiabilityDiagnostics options base)).getD []
  (if options.warningsAreFatal then all.promoteAll else all, merged?)

/-- Composes the subgraphs. -/
def compose (set : SubgraphSet) (options : CompositionOptions := {}) : Composition :=
  let (diagnostics, merged?) := set.allDiagnostics options
  { diagnostics
    supergraph :=
      if diagnostics.anyFatal then none
      else merged?.map fun merged => .of (Supergraph.emit set merged) }

end SubgraphSet

end Federation
