import Federation.Proofs.Merge.FieldSets
import Federation.Validation.Validate
import Mathlib.Data.Option.Basic

/-!
# Rules and rewritten field sets

Most rules do not look at field sets.
-/

namespace Federation

/-! ## Diagnostics without messages -/

/-- The severity and code of a diagnostic, without its message. -/
def Diagnostic.outline (d : Diagnostic) : Severity × ErrorCode :=
  (d.severity, d.code)

namespace Diagnostics

/-- The severities and codes of diagnostics, without their messages. -/
def outline (ds : Diagnostics) : List (Severity × ErrorCode) :=
  ds.map Diagnostic.outline

@[simp] theorem outline_append (ds ds' : Diagnostics) :
    outline (ds ++ ds') = ds.outline ++ ds'.outline :=
  List.map_append

/-- The outlines of diagnostics that are found in the same places. -/
theorem outline_flatMap_congr {α : Type} {items : List α} {found found' : α → Diagnostics}
    (h : ∀ a ∈ items, (found a).outline = (found' a).outline) :
    outline (items.flatMap found) = outline (items.flatMap found') := by
  have hflat : ∀ found : α → Diagnostics,
      outline (items.flatMap found) = items.flatMap fun a => (found a).outline :=
    fun _ => List.map_flatMap
  rw [hflat, hflat, List.flatMap_congr h]

theorem outline_filterMap_congr {α : Type} {items : List α} {found found' : α → Option Diagnostic}
    (h : ∀ a ∈ items, (found a).map Diagnostic.outline = (found' a).map Diagnostic.outline) :
    outline (items.filterMap found) = outline (items.filterMap found') := by
  rw [outline, outline, List.map_filterMap, List.map_filterMap, List.filterMap_congr h]

/-- The outline of errors with the same code depends on their number only. -/
theorem outline_map_error {α : Type} (items : List α) (code : ErrorCode) (message : α → String) :
    outline (items.map fun a => .error code (message a)) =
      List.replicate items.length (.error, code) := by
  have hmap : (items.map fun _ => (Severity.error, code)) =
      List.replicate items.length (.error, code) := List.map_const'
  rw [← hmap, outline, List.map_map]
  rfl

theorem anyFatal_of_outline_eq {ds ds' : Diagnostics} (h : ds.outline = ds'.outline) :
    ds.anyFatal = ds'.anyFatal := by
  have hany : ∀ ds : Diagnostics,
      ds.anyFatal = ds.outline.any fun found => found.1 == Severity.error := fun ds => by
    rw [outline, List.any_map]
    rfl
  rw [hany, hany, h]

theorem outline_promoteAll (ds : Diagnostics) :
    outline ds.promoteAll = ds.outline.map fun found => (.error, found.2) := by
  rw [outline, outline, promoteAll, List.map_map, List.map_map]
  rfl

/-- The diagnostics that are not about satisfiability. -/
def besidesSatisfiability (ds : Diagnostics) : Diagnostics :=
  ds.filter fun d => d.code != .satisfiabilityError

theorem outline_besidesSatisfiability (ds : Diagnostics) :
    ds.besidesSatisfiability.outline =
      ds.outline.filter fun found => found.2 != .satisfiabilityError := by
  rw [outline, outline, besidesSatisfiability, List.filter_map]
  rfl

end Diagnostics

namespace Validation

/-- The context with its field sets rewritten. -/
def Context.mapFieldSets (f : SubgraphId → String → FieldSetRewriting) (c : Context) : Context where
  set := c.set.mapFieldSets f
  merged := c.merged.mapFieldSets f

section

variable (f : SubgraphId → String → FieldSetRewriting) (c : Context)

@[simp] theorem nameOf_mapFieldSets : (c.mapFieldSets f).nameOf = c.nameOf :=
  c.set.nameOf_mapFieldSets f

@[simp] theorem phrase_mapFieldSets : (c.mapFieldSets f).phrase = c.phrase := by
  funext ids
  rw [Context.phrase, Context.phrase, nameOf_mapFieldSets]

theorem subgraph_mapFieldSets (id : SubgraphId) :
    (c.mapFieldSets f).subgraph id = (c.subgraph id).mapFieldSets (f id) := by
  rw [Context.subgraph, Context.subgraph, Context.mapFieldSets, SubgraphSet.subgraph?_mapFieldSets]
  cases c.set.subgraph? id <;> rfl

theorem interfacesIn_mapFieldSets (names : List String) :
    (c.mapFieldSets f).interfacesIn names =
      (c.interfacesIn names).map (MergedType.mapFieldSets f) := by
  rw [Context.interfacesIn, Context.interfacesIn, List.map_filterMap]
  exact congrArg (List.filterMap · names) (funext fun name =>
    c.merged.interface?_mapFieldSets f name)

@[simp] theorem merged_mapFieldSets :
    (c.mapFieldSets f).merged = c.merged.mapFieldSets f := rfl

variable (t : MergedType) (field : MergedField)

/-! ## Where fields are resolved -/

theorem isKeyStub_mapFieldSets (id : SubgraphId) (g : FieldSetRewriting) (x : FieldInGraph) :
    isKeyStub (t.mapFieldSets f) id (x.mapFieldSets g) = isKeyStub t id x := by
  simp [isKeyStub, Option.any_map]

theorem isResolvedByInterfaceObject_mapFieldSets (g : SubgraphId → FieldSetRewriting) :
    isResolvedByInterfaceObject (c.mapFieldSets f) (t.mapFieldSets f) (field.mapFieldSets g) =
      isResolvedByInterfaceObject c t field := by
  simp only [isResolvedByInterfaceObject, MergedType.interfaces_mapFieldSets,
    interfacesIn_mapFieldSets, List.any_map]
  congr 1
  funext interface
  simp only [Function.comp, MergedType.field?_mapFieldSets, MergedField.name_mapFieldSets]
  cases interface.field? field.name with
  | none => rfl
  | some found => simp [Option.any_map]

theorem implementsInterfaceField_mapFieldSets (s : Subgraph) (d : TypeDef) (name : String)
    (g : String → FieldSetRewriting) (h : FieldSetRewriting) :
    implementsInterfaceField (s.mapFieldSets g) (d.mapFieldSets h) name =
      implementsInterfaceField s d name := by
  simp [implementsInterfaceField, Subgraph.definitionsIn_mapFieldSets, TypeDef.field?_mapFieldSets,
    Function.comp_def]

theorem interfaceObjectResolvers_mapFieldSets (g : SubgraphId → FieldSetRewriting) :
    interfaceObjectResolvers (t.mapFieldSets f) (field.mapFieldSets g) =
      interfaceObjectResolvers t field := by
  simp only [interfaceObjectResolvers, MergedType.interfaceObjectSubgraphs_mapFieldSets,
    MergedField.byGraph_mapFieldSets, ByGraph.get?_mapEntries, Option.filter_map, Option.map_map]
  rfl

theorem ownResolvers_mapFieldSets (g : SubgraphId → FieldSetRewriting) :
    ownResolvers (c.mapFieldSets f) (field.mapFieldSets g) = ownResolvers c field := by
  simp only [ownResolvers, MergedField.overrider?, MergedField.byGraph_mapFieldSets,
    ByGraph.filter_mapEntries, ByGraph.map_mapEntries, ByGraph.find?_mapEntries, Option.isNone_map,
    nameOf_mapFieldSets]
  rfl

theorem resolversOf_mapFieldSets (g : SubgraphId → FieldSetRewriting) :
    resolversOf (c.mapFieldSets f) (t.mapFieldSets f) (field.mapFieldSets g) =
      resolversOf c t field := by
  have hobject : objectResolvers (c.mapFieldSets f) (t.mapFieldSets f) (field.mapFieldSets g) =
      objectResolvers c t field := by
    simp only [objectResolvers, MergedType.interfaces_mapFieldSets, interfacesIn_mapFieldSets,
      List.foldl_map, ownResolvers_mapFieldSets, MergedType.field?_mapFieldSets,
      MergedField.name_mapFieldSets]
    congr 1
    funext resolvers interface
    cases interface.field? field.name with
    | none => rfl
    | some found => simp only [Option.map_some, interfaceObjectResolvers_mapFieldSets]
  simp only [resolversOf, MergedType.kind_mapFieldSets, hobject,
    interfaceObjectResolvers_mapFieldSets]

theorem overrideProblems_mapFieldSets (coordinate : String) (g : SubgraphId → FieldSetRewriting)
    (id : SubgraphId) (h : FieldSetRewriting) (x : FieldInGraph) (o : Override) :
    overrideProblems (c.mapFieldSets f) coordinate (field.mapFieldSets g) id (x.mapFieldSets h) o =
      overrideProblems c coordinate field id x o := by
  have hset : (c.mapFieldSets f).set.idOfName? = c.set.idOfName? := c.set.idOfName?_mapFieldSets f
  simp only [overrideProblems, nameOf_mapFieldSets, FieldInGraph.isExternal_mapFieldSets, hset,
    MergedField.byGraph_mapFieldSets, ByGraph.get?_mapEntries]
  congr 2
  cases c.set.idOfName? o.source with
  | none => rfl
  | some sourceId =>
    cases hsource : field.byGraph.get? sourceId with
    | none => simp [hsource]
    | some source => simp [hsource, sourceProblems]

/-! ## Access, costs and list sizes -/

theorem requiredAccess_mapFieldSets (typeName : String) (g : SubgraphId → FieldSetRewriting) :
    requiredAccess (c.mapFieldSets f) typeName (field.mapFieldSets g) =
      requiredAccess c typeName field := by
  rw [requiredAccess, requiredAccess, merged_mapFieldSets, MergedSchema.type?_mapFieldSets]
  cases c.merged.type? typeName with
  | none => rfl
  | some t =>
    simp only [Option.map_some, MergedType.metadata_mapFieldSets, MergedField.metadata_mapFieldSets,
      MergedType.interfaceObjectSubgraphs_mapFieldSets, MergedType.implementations_mapFieldSets,
      MergedField.name_mapFieldSets, MergedSchema.type?_mapFieldSets,
      MergedSchema.field?_mapFieldSets]
    congr 2
    funext required implementation
    cases c.merged.type? implementation <;> cases c.merged.field? implementation field.name <;> rfl

theorem isInterfaceObjectIn_mapFieldSets (id : SubgraphId) :
    isInterfaceObjectIn (t.mapFieldSets f) id = isInterfaceObjectIn t id := by
  simp only [isInterfaceObjectIn, MergedType.byGraph_mapFieldSets, ByGraph.get?_mapEntries,
    Option.any_map]
  rfl

theorem listSizeProblems_mapFieldSets (coordinate : String) (id : SubgraphId)
    (g : FieldSetRewriting) (x : FieldInGraph) (l : ListSize) :
    listSizeProblems (c.mapFieldSets f) coordinate id (x.mapFieldSets g) l =
      listSizeProblems c coordinate id x l := by
  have hfield : ∀ sizedField : String,
      sizedFieldProblem? (((c.mapFieldSets f).subgraph id).typeOf? (x.mapFieldSets g).definition)
          sizedField =
        sizedFieldProblem? ((c.subgraph id).typeOf? x.definition) sizedField := fun sizedField => by
    rw [subgraph_mapFieldSets, FieldInGraph.definition_mapFieldSets,
      Subgraph.typeOf?_mapFieldSets]
    cases (c.subgraph id).typeOf? x.definition with
    | none => rfl
    | some target =>
      simp only [sizedFieldProblem?, Option.map_some, Option.bind_some,
        TypeDef.field?_mapFieldSets]
      cases target.field? sizedField <;> rfl
  simp only [listSizeProblems, nameOf_mapFieldSets, hfield]
  rfl

theorem implementationProblems_mapFieldSets (g : SubgraphId → FieldSetRewriting) :
    implementationProblems (c.mapFieldSets f) (t.mapFieldSets f) (field.mapFieldSets g) =
      implementationProblems c t field := by
  simp only [implementationProblems, slicingArguments?, MergedField.listSize_mapFieldSets,
    MergedType.implementations_mapFieldSets, merged_mapFieldSets,
    MergedSchema.field?_mapFieldSets, MergedField.name_mapFieldSets]
  split
  · rfl
  · refine congrArg (List.filterMap · t.implementations) (funext fun implementation => ?_)
    cases c.merged.field? implementation field.name with
    | none => rfl
    | some found =>
      simp only [Option.map_some, Option.bind_eq_bind, Option.bind_some,
        MergedField.listSize_mapFieldSets]
      rfl

theorem typePhrase_mapFieldSets (types : ByGraph TypeRef) :
    typePhrase (c.mapFieldSets f) types = typePhrase c types := by
  simp only [typePhrase, nameOf_mapFieldSets]

end

/-! ## Rules that do not look at field sets -/

/-- A rule says the same of rewritten field sets. -/
structure Rule.Overlooks (rule : Rule) (f : SubgraphId → String → FieldSetRewriting) : Prop where
  onType : ∀ c t, rule.onType (c.mapFieldSets f) (t.mapFieldSets f) = rule.onType c t
  onField : ∀ c t field, rule.onField (c.mapFieldSets f) (t.mapFieldSets f)
    (field.mapFieldSets fun id => f id t.name) = rule.onField c t field
  onInputField : ∀ c t field,
    rule.onInputField (c.mapFieldSets f) (t.mapFieldSets f) field = rule.onInputField c t field

section

variable (f : SubgraphId → String → FieldSetRewriting)

theorem overlooks_externalMissingOnBase : externalMissingOnBase.Overlooks f where
  onType _ _ := rfl
  onField c t field := by
    unfold externalMissingOnBase
    simp only [isResolvedByInterfaceObject_mapFieldSets, isKeyStub_mapFieldSets,
      MergedField.byGraph_mapFieldSets, ByGraph.isEmpty_mapEntries, ByGraph.all_mapEntries,
      FieldInGraph.isExternal_mapFieldSets, ByGraph.ids_mapEntries, phrase_mapFieldSets]
    rfl
  onInputField _ _ _ := rfl

theorem overlooks_externalUnused : externalUnused.Overlooks f where
  onType _ _ := rfl
  onField c t field := by
    unfold externalUnused
    simp only [subgraph_mapFieldSets, implementsInterfaceField_mapFieldSets, Option.any_map,
      MergedField.byGraph_mapFieldSets, ByGraph.filterMap_mapEntries,
      MergedType.byGraph_mapFieldSets, ByGraph.get?_mapEntries, MergedField.name_mapFieldSets]
    rfl
  onInputField _ _ _ := rfl

theorem overlooks_invalidFieldSharing : invalidFieldSharing.Overlooks f where
  onType _ _ := rfl
  onField c t field := by
    unfold invalidFieldSharing
    simp only [resolversOf_mapFieldSets, phrase_mapFieldSets]
    rfl
  onInputField _ _ _ := rfl

theorem overlooks_overrideRules : overrideRules.Overlooks f where
  onType _ _ := rfl
  onField c t field := by
    unfold overrideRules
    simp only [MergedType.kind_mapFieldSets, MergedField.byGraph_mapFieldSets,
      ByGraph.flatMap_mapEntries, FieldInGraph.override_mapFieldSets, nameOf_mapFieldSets,
      overrideProblems_mapFieldSets]
    rfl
  onInputField _ _ _ := rfl

theorem overlooks_accessOnInterface : accessOnInterface.Overlooks f where
  onType c t := by
    unfold accessOnInterface
    simp only [MergedType.kind_mapFieldSets, MergedType.byGraph_mapFieldSets,
      ByGraph.flatMap_mapEntries, nameOf_mapFieldSets]
    rfl
  onField c t field := by
    unfold accessOnInterface
    simp only [MergedType.kind_mapFieldSets, MergedField.byGraph_mapFieldSets,
      ByGraph.flatMap_mapEntries, nameOf_mapFieldSets]
    rfl
  onInputField _ _ _ := rfl

theorem overlooks_costOnInterfaceField : costOnInterfaceField.Overlooks f where
  onType _ _ := rfl
  onField c t field := by
    unfold costOnInterfaceField
    simp only [MergedType.kind_mapFieldSets, MergedField.byGraph_mapFieldSets,
      ByGraph.filterMap_mapEntries, nameOf_mapFieldSets, isInterfaceObjectIn_mapFieldSets]
    rfl
  onInputField _ _ _ := rfl

theorem overlooks_listSizeRules : listSizeRules.Overlooks f where
  onType _ _ := rfl
  onField c t field := by
    unfold listSizeRules
    simp only [MergedField.byGraph_mapFieldSets, ByGraph.flatMap_mapEntries,
      listSizeProblems_mapFieldSets, droppedArguments, MergedField.listSize_mapFieldSets,
      MergedType.kind_mapFieldSets, implementationProblems_mapFieldSets]
    rfl
  onInputField _ _ _ := rfl

theorem overlooks_fieldTypes : fieldTypes.Overlooks f where
  onType _ _ := rfl
  onField c t field := by
    unfold fieldTypes
    simp only [typePhrase_mapFieldSets, MergedField.byGraph_mapFieldSets, ByGraph.map_mapEntries]
    rfl
  onInputField c t field := by
    unfold fieldTypes
    simp only [typePhrase_mapFieldSets]
    rfl

theorem overlooks_implementedByInaccessible : implementedByInaccessible.Overlooks f where
  onType _ _ := rfl
  onField c t field := by
    unfold implementedByInaccessible
    simp only [MergedType.kind_mapFieldSets, MergedType.implementations_mapFieldSets,
      merged_mapFieldSets, MergedSchema.type?_mapFieldSets]
    refine congrArg (ite _ []) ?_
    refine congrArg (List.filterMap · t.implementations) (funext fun implementation => ?_)
    cases c.merged.type? implementation with
    | none => rfl
    | some type =>
      simp only [Option.map_some, Option.bind_eq_bind, Option.bind_some,
        MergedType.metadata_mapFieldSets, MergedType.field?_mapFieldSets,
        MergedField.name_mapFieldSets]
      cases type.field? field.name <;> rfl
  onInputField _ _ _ := rfl

theorem overlooks_enumValues : enumValues.Overlooks f where
  onType c t := by
    have hbody : (t.mapFieldSets f).body = t.body.mapFieldSets fun id => f id t.name := by
      rw [MergedType.mapFieldSets]
    unfold enumValues
    simp only [MergedType.enumStrategy_mapFieldSets, MergedType.isUsedAsInput_mapFieldSets,
      MergedType.isDefinedEverywhere_mapFieldSets, MergedType.byGraph_mapFieldSets,
      ByGraph.ids_mapEntries, phrase_mapFieldSets, MergedType.name_mapFieldSets, hbody]
    cases t.body <;> rfl
  onField _ _ _ := rfl
  onInputField _ _ _ := rfl

theorem overlooks_requiredInputFields : requiredInputFields.Overlooks f where
  onType _ _ := rfl
  onField _ _ _ := rfl
  onInputField c t field := by
    unfold requiredInputFields
    simp only [MergedType.byGraph_mapFieldSets, ByGraph.ids_mapEntries, phrase_mapFieldSets]
    rfl

end

/-! ## All rules -/

/-- A rule finds the same in rewritten field sets, up to messages. -/
structure Rule.KeepsOutline (rule : Rule) (f : SubgraphId → String → FieldSetRewriting)
    (c : Context) : Prop where
  onType : ∀ t ∈ c.merged.types,
    (rule.onType (c.mapFieldSets f) (t.mapFieldSets f)).outline = (rule.onType c t).outline
  onField : ∀ t ∈ c.merged.types, ∀ field ∈ t.fields,
    (rule.onField (c.mapFieldSets f) (t.mapFieldSets f)
      (field.mapFieldSets fun id => f id t.name)).outline = (rule.onField c t field).outline
  onInputField : ∀ t ∈ c.merged.types, ∀ field,
    (rule.onInputField (c.mapFieldSets f) (t.mapFieldSets f) field).outline =
      (rule.onInputField c t field).outline

theorem Rule.Overlooks.keepsOutline {rule : Rule} {f : SubgraphId → String → FieldSetRewriting}
    (h : rule.Overlooks f) (c : Context) : rule.KeepsOutline f c where
  onType t _ := congrArg Diagnostics.outline (h.onType c t)
  onField t _ field _ := congrArg Diagnostics.outline (h.onField c t field)
  onInputField t _ field := congrArg Diagnostics.outline (h.onInputField c t field)

theorem inputFieldsOf_mapFieldSets (f : SubgraphId → String → FieldSetRewriting) (t : MergedType) :
    inputFieldsOf (t.mapFieldSets f) = inputFieldsOf t := by
  obtain ⟨name, metadata, byGraph, body⟩ := t
  cases body <;> rfl

theorem hasQueries_mapFieldSets (f : SubgraphId → String → FieldSetRewriting) (m : MergedSchema) :
    hasQueries (m.mapFieldSets f) = hasQueries m := by
  simp [hasQueries, MergedSchema.mapFieldSets, MergedType.fields_mapFieldSets, Function.comp_def]

/-- If every rule finds the same in rewritten field sets, so does validation. -/
theorem outline_validate_mapFieldSets {f : SubgraphId → String → FieldSetRewriting} {c : Context}
    (h : ∀ rule ∈ rules, rule.KeepsOutline f c) :
    (validate (c.mapFieldSets f)).outline = (validate c).outline := by
  have hqueries : queryProblems (c.mapFieldSets f).merged = queryProblems c.merged := by
    rw [queryProblems, queryProblems, merged_mapFieldSets, hasQueries_mapFieldSets]
  rw [validate, validate, hqueries, Diagnostics.outline_append, Diagnostics.outline_append]
  congr 1
  unfold checkAll
  rw [merged_mapFieldSets, MergedSchema.mapFieldSets, List.flatMap_map]
  refine Diagnostics.outline_flatMap_congr fun t ht => ?_
  unfold checkType
  simp only [Diagnostics.outline_append, MergedType.fields_mapFieldSets, List.flatMap_map,
    inputFieldsOf_mapFieldSets]
  refine congr (congrArg _ (congr (congrArg _ ?_) ?_)) ?_
  · exact Diagnostics.outline_flatMap_congr fun rule hrule => (h rule hrule).onType t ht
  · exact Diagnostics.outline_flatMap_congr fun field hfield =>
      Diagnostics.outline_flatMap_congr fun rule hrule => (h rule hrule).onField t ht field hfield
  · exact Diagnostics.outline_flatMap_congr fun field _ =>
      Diagnostics.outline_flatMap_congr fun rule hrule => (h rule hrule).onInputField t ht field

end Validation

end Federation
