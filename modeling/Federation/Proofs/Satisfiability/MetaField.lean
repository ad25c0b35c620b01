import Federation.Proofs.Ingestion.Evaluation
import Federation.Proofs.Merge.Contents
import Federation.Proofs.QueryGraph.Occurrences
import Federation.Proofs.Satisfiability.Reports
import Federation.Proofs.Validation.MetaField
import Federation.Proofs.Options

/-!
# The meta field in compositions

Adding `__typename` to keys and to what fields require does not change what validation finds, but a
key that selects it is of no use, and what requires it is never resolved.
-/

namespace Federation

open Selection

/-! ## Validation -/

/-- Whether an implementation has a key of the text of a key of its interface is not changed. -/
def Subgraph.MatchesKeysAlike (s : Subgraph) (f : String → FieldSetRewriting) : Prop :=
  ∀ d ∈ s.definitions, ∀ key ∈ d.keys, ∀ implementer ∈ s.implementers d.name,
    ∀ other ∈ implementer.keys,
      (f implementer.name none other.selections).text = (f d.name none key.selections).text ↔
        other.text = key.text

namespace SubgraphSet

variable {set : SubgraphSet} {f : SubgraphId → String → FieldSetRewriting} {m m' : MergedSchema}

/-- What rules need of a rewriting, from what the subgraphs say. -/
theorem admits_of_ofSubgraphs (hset : set.HasProperNames)
    (hm : MergedSchema.ofSubgraphs set = .ok m)
    (hreserved : ∀ s ∈ set.subgraphs, s.HasNoMetaField)
    (hf : FieldSetRewriting.TouchesOnlyMetaField f)
    (hkeys : ∀ id s, set.subgraph? id = some s → s.MatchesKeysAlike (f id)) :
    (Validation.Context.mk set m).Admits f := by
  have hentry : ∀ t ∈ m.types, ∀ e ∈ t.byGraph,
      ∃ s, set.subgraph? e.1 = some s ∧ s.definition? t.name = some e.2 := fun t ht e he =>
    (MergedSchema.mem_byGraph_iff hset hm ht).mp he
  constructor
  · exact hf
  · intro t ht e he
    obtain ⟨s, -, hd⟩ := hentry t ht e he
    exact Subgraph.name_of_definition? hd
  · intro t ht e he
    obtain ⟨s, hs, hd⟩ := hentry t ht e he
    exact hreserved s (List.mem_of_getElem? hs) e.2 (Subgraph.mem_of_definition? hd)
  · intro t ht e he key hkey implementer himplementer other hother
    obtain ⟨s, hs, hd⟩ := hentry t ht e he
    have hsubgraph : (Validation.Context.mk set m).subgraph e.1 = s := by
      rw [Validation.Context.subgraph, hs, Option.getD_some]
    rw [hsubgraph] at himplementer
    exact hkeys e.1 s hs e.2 (Subgraph.mem_of_definition? hd) key hkey implementer himplementer
      other hother

/-- Forgetting what fields require besides leaves is admissible after an admissible rewriting. -/
theorem admits_none (h : (Validation.Context.mk set m).Admits f)
    (hm : m'.mapFieldSets .none = m.mapFieldSets f) :
    (Validation.Context.mk (set.mapFieldSets f) m').Admits .none := by
  have hentry : ∀ t' ∈ m'.types, ∀ e' ∈ t'.byGraph, ∃ t ∈ m.types, t'.name = t.name ∧
      ∃ e ∈ t.byGraph, e' = (e.1, e.2.mapFieldSets (f e.1 t.name)) := by
    intro t' ht' e' he'
    have hmem : t'.mapFieldSets .none ∈ (m.mapFieldSets f).types := by
      rw [← hm]
      exact List.mem_map_of_mem ht'
    obtain ⟨t, ht, heq⟩ := List.mem_map.mp hmem
    have hname : (t.mapFieldSets f).name = (t'.mapFieldSets .none).name := by rw [heq]
    have hbyGraph := congrArg MergedType.byGraph heq
    rw [MergedType.byGraph_mapFieldSets, MergedType.byGraph_mapFieldSets] at hbyGraph
    have hsame : t'.byGraph.mapEntries
        (fun _ => TypeDef.mapFieldSets fun _ selections => selections) = t'.byGraph := by
      simp [ByGraph.mapEntries]
    rw [← hsame, ← hbyGraph] at he'
    obtain ⟨e, he, rfl⟩ := List.mem_map.mp he'
    exact ⟨t, ht, hname.symm, e, he, rfl⟩
  constructor
  · exact fun _ _ _ _ => rfl
  · intro t' ht' e' he'
    obtain ⟨t, ht, hname, e, he, rfl⟩ := hentry t' ht' e' he'
    rw [hname]
    exact h.named t ht e he
  · intro t' ht' e' he'
    obtain ⟨t, ht, hname, e, he, rfl⟩ := hentry t' ht' e' he'
    rw [TypeDef.field?_mapFieldSets, h.reserved t ht e he]
    rfl
  · exact fun _ _ _ _ _ _ _ _ _ _ => Iff.rfl

/-- Validation finds the same in sets of subgraphs that differ in the meta field only. -/
theorem outline_validate_rewritten (h : (Validation.Context.mk set m).Admits f)
    (hm : m'.mapFieldSets .none = m.mapFieldSets f) :
    (Validation.validate ⟨set.mapFieldSets f, m'⟩).outline =
      (Validation.validate ⟨set, m⟩).outline := by
  -- the merged schemas themselves differ in what fields require besides leaves, which has to be
  -- forgotten on one side first
  have hforget := (admits_none h hm).outline_validate
  have hrewrite := h.outline_validate
  have hsame : (Validation.Context.mk (set.mapFieldSets f) m').mapFieldSets .none =
      (Validation.Context.mk set m).mapFieldSets f := by
    rw [Validation.Context.mapFieldSets, Validation.Context.mapFieldSets, hm, mapFieldSets_none]
  rw [← hforget, hsame, hrewrite]

/-- Before satisfiability is checked, the same is found in sets of subgraphs that differ in the meta
field only, and either both can be merged or none. -/
theorem baseDiagnostics_rewritten (hset : set.HasProperNames)
    (hreserved : ∀ s ∈ set.subgraphs, s.HasNoMetaField)
    (hf : FieldSetRewriting.TouchesOnlyMetaField f)
    (hkeys : ∀ id s, set.subgraph? id = some s → s.MatchesKeysAlike (f id)) :
    (set.mapFieldSets f).baseDiagnostics.1.outline = set.baseDiagnostics.1.outline ∧
      (set.mapFieldSets f).baseDiagnostics.2.isSome = set.baseDiagnostics.2.isSome := by
  have hmerge := MergedSchema.ofSubgraphs_mapFieldSets f set
  unfold baseDiagnostics
  rcases errors_or_values_of_map_eq hmerge with ⟨e, hm', hm⟩ | ⟨m', m, hm', hm, hsame⟩
  · rw [hm', hm, diagnostics_mapFieldSets]
    exact ⟨rfl, rfl⟩
  · have hadmits := admits_of_ofSubgraphs hset hm hreserved hf hkeys
    have hvalidate := outline_validate_rewritten hadmits hsame
    rw [hm', hm]
    refine ⟨?_, rfl⟩
    rw [diagnostics_mapFieldSets, Diagnostics.outline_append, Diagnostics.outline_append,
      hvalidate]

/-! ## What cannot be resolved -/

theorem unresolved_eq_nil_of_unchecked (set : SubgraphSet) {options : CompositionOptions}
    (h : options.runSatisfiability = false) : set.unresolved options = [] := by
  unfold unresolved
  cases set.baseDiagnostics.2 with
  | none => rfl
  | some m =>
    rw [Option.map_some, Option.getD_some, satisfiabilityDiagnostics, h]
    rfl

/-- Each field that cannot be resolved is an error of the same code. -/
theorem outline_unresolved (set : SubgraphSet) (options : CompositionOptions) :
    (set.unresolved options).outline =
      List.replicate (set.unresolved options).length (.error, .satisfiabilityError) := by
  unfold unresolved
  cases set.baseDiagnostics.2 with
  | none => rfl
  | some m =>
    rw [Option.map_some, Option.getD_some, satisfiabilityDiagnostics]
    split
    · rw [Satisfiability.check, Diagnostics.outline_map_error, List.length_map]
    · rfl

/-- The outline of a composition is that of what is found before satisfiability is checked and one
error more for each field that cannot be resolved. -/
theorem outline_compose (set : SubgraphSet) (options : CompositionOptions) :
    (set.compose options).diagnostics.outline =
      (set.baseDiagnostics.1.outline ++
        List.replicate (set.unresolved options).length
          (Severity.error, ErrorCode.satisfiabilityError)).map
          fun found : Severity × ErrorCode =>
            (if options.warningsAreFatal then .error else found.1, found.2) := by
  rw [diagnostics_compose_eq, ← outline_unresolved, ← Diagnostics.outline_append]
  cases options.warningsAreFatal with
  | true => exact Diagnostics.outline_promoteAll _
  | false => exact (List.map_id _).symm

/-- Everything is resolved in a composition without fatal diagnostics, if this was to be checked. -/
theorem unresolved_eq_nil {options : CompositionOptions}
    (h : (set.compose options).diagnostics.anyFatal = false) : set.unresolved options = [] := by
  have hnot : (Severity.error, ErrorCode.satisfiabilityError) ∉
      (set.compose options).diagnostics.outline := by
    intro hmem
    obtain ⟨d, hd, houtline⟩ := List.mem_map.mp hmem
    have hfatal : d.isFatal = true := by
      rw [Diagnostic.isFatal, (Prod.mk.inj houtline).1]
      rfl
    exact List.any_eq_false.mp h d hd hfatal
  by_contra hne
  have hmem : (Severity.error, ErrorCode.satisfiabilityError) ∈
      List.replicate (set.unresolved options).length
        (Severity.error, ErrorCode.satisfiabilityError) :=
    List.mem_replicate.mpr ⟨fun h => hne (List.length_eq_zero_iff.mp h), rfl⟩
  rw [outline_compose] at hnot
  exact hnot (List.mem_map.mpr ⟨_, List.mem_append_right _ hmem, Prod.ext (ite_self _) rfl⟩)

theorem isSome_supergraph_compose (set : SubgraphSet) (options : CompositionOptions) :
    (set.compose options).supergraph.isSome =
      (!(set.compose options).diagnostics.anyFatal && set.baseDiagnostics.2.isSome) := by
  show (if (set.compose options).diagnostics.anyFatal then none
    else set.baseDiagnostics.2.map fun m => ComposedSupergraph.of (Supergraph.emit set m)).isSome = _
  cases (set.compose options).diagnostics.anyFatal with
  | true => rfl
  | false => exact Option.isSome_map

/-- **Sets of subgraphs that differ in the meta field only are composed alike but for what cannot be
resolved.** The errors and warnings are of the same codes besides those for satisfiability, and
altogether exactly if as many fields cannot be resolved. Composing succeeds alike if everything is
resolved in both sets or in none. -/
theorem compose_rewritten (hset : set.HasProperNames)
    (hreserved : ∀ s ∈ set.subgraphs, s.HasNoMetaField)
    (hf : FieldSetRewriting.TouchesOnlyMetaField f)
    (hkeys : ∀ id s, set.subgraph? id = some s → s.MatchesKeysAlike (f id))
    (options : CompositionOptions) :
    ((set.mapFieldSets f).compose options).diagnostics.besidesSatisfiability.outline =
        (set.compose options).diagnostics.besidesSatisfiability.outline ∧
      (((set.mapFieldSets f).compose options).diagnostics.outline =
          (set.compose options).diagnostics.outline ↔
        ((set.mapFieldSets f).unresolved options).length = (set.unresolved options).length) ∧
      (((set.mapFieldSets f).unresolved options = [] ↔ set.unresolved options = []) →
        ((set.mapFieldSets f).compose options).supergraph.isSome =
          (set.compose options).supergraph.isSome) := by
  obtain ⟨hbase, hmerged⟩ := baseDiagnostics_rewritten hset hreserved hf hkeys
  have hlength : ((set.mapFieldSets f).unresolved options).length =
        (set.unresolved options).length →
      ((set.mapFieldSets f).compose options).diagnostics.outline =
        (set.compose options).diagnostics.outline := by
    intro h
    rw [outline_compose, outline_compose, hbase, h]
  refine ⟨?_, ⟨fun h => ?_, hlength⟩, fun hresolved => ?_⟩
  · rw [Diagnostics.outline_besidesSatisfiability, Diagnostics.outline_besidesSatisfiability,
      outline_compose, outline_compose, hbase]
    simp [List.filter_map, Function.comp_def]
  · rw [outline_compose, outline_compose, hbase] at h
    have hlengths := congrArg List.length h
    simpa using hlengths
  · rw [isSome_supergraph_compose, isSome_supergraph_compose, hmerged]
    by_cases hnone : set.unresolved options = []
    · rw [Diagnostics.anyFatal_of_outline_eq (hlength (by rw [hnone, hresolved.mpr hnone]))]
    · have hfatal : ∀ {set : SubgraphSet}, set.unresolved options ≠ [] →
          (set.compose options).diagnostics.anyFatal = true := fun hne =>
        Bool.of_not_eq_false fun hquiet => hne (unresolved_eq_nil hquiet)
      rw [hfatal hnone, hfatal fun h => hnone (hresolved.mp h)]

end SubgraphSet

/-! ## Rewritten subgraphs -/

theorem Subgraph.HasNoMetaField.mapFieldSets {s : Subgraph} (h : s.HasNoMetaField)
    (f : String → FieldSetRewriting) : (s.mapFieldSets f).HasNoMetaField := by
  intro d' hd'
  obtain ⟨d, hd, rfl⟩ := List.mem_map.mp hd'
  rw [TypeDef.field?_mapFieldSets, h d hd]
  rfl

theorem Subgraph.HasProperNames.mapFieldSets {s : Subgraph} (h : s.HasProperNames)
    (f : String → FieldSetRewriting) : (s.mapFieldSets f).HasProperNames := by
  refine h.mapDefinitions (fun _ => rfl) fun d hd => ?_
  have hfields : ∀ field' ∈ (d.mapFieldSets (f d.name)).fields,
      ∃ field ∈ d.fields, field' = field.mapRequires (f d.name (some field.name)) := by
    intro field' hfield'
    obtain ⟨field, hfield, rfl⟩ := List.mem_map.mp hfield'
    exact ⟨field, hfield, rfl⟩
  have hnames : (d.mapFieldSets (f d.name)).fields.map Field.name = d.fields.map Field.name := by
    rw [TypeDef.mapFieldSets, List.map_map]
    rfl
  obtain ⟨hunique, henumValues, hmembers, hinterfaces, htypes⟩ := h.parts d hd
  refine ⟨hnames ▸ hunique, henumValues, hmembers, hinterfaces, fun field' hfield' => ?_⟩
  obtain ⟨field, hfield, rfl⟩ := hfields field' hfield'
  exact htypes field hfield

theorem SubgraphSet.exists_of_mem_mapFieldSets {set : SubgraphSet}
    {f : SubgraphId → String → FieldSetRewriting} {s' : Subgraph}
    (h : s' ∈ (set.mapFieldSets f).subgraphs) :
    ∃ id, ∃ s ∈ set.subgraphs, s' = s.mapFieldSets (f id) := by
  obtain ⟨id, hid, rfl⟩ := List.mem_mapIdx.mp h
  exact ⟨id, _, List.getElem_mem hid, rfl⟩

/-! ## Uses of fields -/

/-- The uses of fields are the same in subgraphs that differ in the meta field only. -/
theorem Subgraph.usedFields_rewritten {s : Subgraph} (hs : s.HasNoMetaField)
    {f : SubgraphId → String → FieldSetRewriting}
    (hf : FieldSetRewriting.TouchesOnlyMetaField f) (id : SubgraphId) :
    (s.mapFieldSets (f id)).usedFields = s.usedFields := by
  have hall : ∀ d ∈ s.definitions, ∀ usage typeName field selections,
      (s.mapFieldSets (f id)).fieldsUsedByAll usage (d.mapFieldSets (f id d.name))
          (f id typeName field selections) = s.fieldsUsedByAll usage d selections := by
    intro d hd usage typeName field selections
    rw [fieldsUsedByAll_mapFieldSets, ← fieldsUsedByAll_withoutTypenames hs usage (hs d hd), hf,
      fieldsUsedByAll_withoutTypenames hs usage (hs d hd)]
  have hfield : ∀ d ∈ s.definitions, ∀ field : Field,
      (s.mapFieldSets (f id)).fieldsUsedByField (d.mapFieldSets (f id d.name))
          (field.mapRequires (f id d.name (some field.name))) = s.fieldsUsedByField d field := by
    intro d hd field
    unfold fieldsUsedByField
    simp only [Field.requires_mapRequires, Field.provides_mapRequires, typeOf?_mapFieldSets]
    congr 1
    · cases field.attributes.requires with
      | none => rfl
      | some selections => exact hall d hd _ _ _ selections
    · cases field.attributes.provides with
      | none => rfl
      | some selections =>
        cases s.typeOf? field with
        | none => rfl
        | some target => exact fieldsUsedByAll_mapFieldSets _ s _ _ target selections
  have hdefinitions : (s.mapFieldSets (f id)).definitions =
      s.definitions.map fun d => d.mapFieldSets (f id d.name) := rfl
  unfold usedFields
  rw [hdefinitions, List.flatMap_map]
  refine List.flatMap_congr fun d hd => ?_
  have hfields : (d.mapFieldSets (f id d.name)).fields =
      d.fields.map fun field => field.mapRequires (f id d.name (some field.name)) := rfl
  unfold fieldsUsedByType
  rw [TypeDef.keys_mapFieldSets, hfields, List.flatMap_map, List.flatMap_map]
  congr 1
  · exact List.flatMap_congr fun key _ => hall d hd _ _ _ key.selections
  · exact List.flatMap_congr fun field _ => hfield d hd field

/-! ## Resolution -/

/-- A composition without fatal diagnostics has resolved everything, if it was to check this. -/
theorem SubgraphSet.check_eq_nil_of_compose {set : SubgraphSet} {m : MergedSchema}
    (hm : MergedSchema.ofSubgraphs set = .ok m)
    (h : set.compose.diagnostics.anyFatal = false) : Satisfiability.check set m = [] := by
  have hnone := unresolved_eq_nil h
  rw [unresolved, merged_baseDiagnostics hm, Option.map_some, Option.getD_some,
    satisfiabilityDiagnostics, anyFatal_baseDiagnostics h] at hnone
  exact hnone

theorem Key.mem_of_cheapest? {keys : List Key} {key : Key} (h : Key.cheapest? keys = some key) :
    key ∈ keys := by
  induction keys generalizing key with
  | nil => cases h
  | cons first others ih =>
    rw [cheapest?] at h
    cases hother : cheapest? others with
    | none =>
      rw [hother] at h
      exact Option.some.inj h ▸ List.mem_cons_self
    | some other =>
      rw [hother] at h
      dsimp only at h
      split at h
      · exact Option.some.inj h ▸ List.mem_cons_of_mem _ (ih hother)
      · exact Option.some.inj h ▸ List.mem_cons_self

/-- No key that selects the meta field is chosen to move between subgraphs. -/
theorem Key.withoutTypenames_of_cheapestFrom? {s : Subgraph} (hs : s.HasNoMetaField) {d : TypeDef}
    (hd : d ∈ s.definitions) {keys : List Key} {key : Key}
    (h : Key.cheapestFrom? s d keys = some key) :
    withoutTypenames key.selections = key.selections := by
  have hprovided := (List.mem_filter.mp (Key.mem_of_cheapest? h)).2
  rw [Bool.and_eq_true] at hprovided
  exact Subgraph.withoutTypenames_of_canProvide hs (hs d hd) hprovided.2

/-- No subgraph says anything about the meta field. -/
theorem MergedSchema.fieldIn?_metaField {set : SubgraphSet} (hset : set.HasProperNames)
    (hreserved : ∀ s ∈ set.subgraphs, s.HasNoMetaField) {m : MergedSchema}
    (hm : MergedSchema.ofSubgraphs set = .ok m) (typeName : String) (id : SubgraphId) :
    m.fieldIn? typeName "__typename" id = none := by
  have hnone : set.fieldEntriesOf typeName "__typename" = [] := by
    refine List.filter_eq_nil_iff.mpr fun entry hentry => ?_
    obtain ⟨e, he, hadded⟩ := List.mem_flatMap.mp hentry
    obtain ⟨field, hfield, rfl⟩ := List.mem_map.mp hadded
    obtain ⟨hs, hd⟩ := SubgraphSet.mem_typeEntries.mp (SubgraphSet.mem_entriesOf.mp he).1
    have hfind := hreserved e.subgraph (List.mem_of_getElem? hs) e.definition hd
    exact List.find?_eq_none.mp hfind field hfield
  cases ht : m.type? typeName with
  | none => rw [fieldIn?, field?, ht]; rfl
  | some t =>
    cases hfield : t.field? "__typename" with
    | none => rw [fieldIn?, field?, ht, Option.bind_some, hfield]; rfl
    | some field =>
      have hname : field.name = "__typename" := by simpa using List.find?_some hfield
      have hbyGraph := byGraph_of_mem_fields hset hm ht (List.mem_of_find?_eq_some hfield)
      rw [hname, hnone] at hbyGraph
      rw [fieldIn?, field?, ht, Option.bind_some, hfield, Option.bind_some, hbyGraph]
      rfl

/-- What selects the meta field is never resolved. -/
theorem Planner.resolves_eq_false_of_metaField {p : Planner} (hg : p.graph.IsTyped p.merged)
    (hreserved : ∀ typeName id, p.merged.fieldIn? typeName "__typename" id = none)
    (isMet : NodeId → String → Bool) (nodes : List NodeId) {selections : List Selection}
    {arguments : List (String × Value)} {below : List Selection}
    (h : .field "__typename" arguments below ∈ selections) :
    p.resolves isMet nodes selections = false := by
  have hedges : ∀ node, (p.graph.edges node).filter (p.canTake isMet node "__typename") = [] := by
    intro node
    refine List.filter_eq_nil_iff.mpr fun e he htake => ?_
    obtain ⟨n, hn, hmem⟩ := QueryGraph.exists_node?_of_mem_allEdges (QueryGraph.mem_edges.mp he).1
    have hfits := hg node n hn e hmem
    unfold Edge.Fits at hfits
    unfold canTake at htake
    cases hmove : e.move with
    | field name condition isProvided =>
      rw [hmove] at hfits htake
      obtain ⟨f, w, hf, -⟩ := hfits
      simp only [Bool.and_eq_true, beq_iff_eq] at htake
      rw [htake.1.1, hreserved] at hf
      cases hf
    | entity key | interfaceObject key | narrow =>
      rw [hmove] at htake
      cases htake
  have hadvance : p.advanceWhere isMet nodes "__typename" = [] := by
    simp [advanceWhere, hedges, options]
  induction selections with
  | nil => cases h
  | cons first others ih =>
    rw [resolves, Bool.and_eq_false_iff]
    rcases List.mem_cons.mp h with rfl | h
    · left
      rw [resolvesOne, hadvance]
      rfl
    · exact .inr (ih h)

/-- **The meta field matters only for resolution.** Suppose that the subgraphs declare no field of
the reserved name `__typename`, and that their keys and what their fields require are rewritten by
adding or dropping `__typename`, at any depth, so that keys of implementations have the texts of keys
of their interfaces exactly if they had before. Then the subgraphs use the same fields, and composing
them finds errors and warnings of the same codes besides those for satisfiability, and altogether
exactly if as many fields cannot be resolved. It succeeds as before if everything is resolved in both
sets of subgraphs or in none. But no key that selects `__typename` is chosen to move between the
rewritten subgraphs, and a planner never resolves what selects it. -/
theorem meta_field_matters_only_for_resolution {set : SubgraphSet} (hset : set.Ingested)
    (hreserved : ∀ s ∈ set.subgraphs, s.HasNoMetaField)
    {f : SubgraphId → String → FieldSetRewriting} (hf : FieldSetRewriting.TouchesOnlyMetaField f)
    (hkeys : ∀ id s, set.subgraph? id = some s → s.MatchesKeysAlike (f id))
    (options : CompositionOptions) :
    (∀ id s, set.subgraph? id = some s → (s.mapFieldSets (f id)).usedFields = s.usedFields) ∧
    ((set.mapFieldSets f).compose options).diagnostics.besidesSatisfiability.outline =
      (set.compose options).diagnostics.besidesSatisfiability.outline ∧
    (((set.mapFieldSets f).compose options).diagnostics.outline =
        (set.compose options).diagnostics.outline ↔
      ((set.mapFieldSets f).unresolved options).length = (set.unresolved options).length) ∧
    (((set.mapFieldSets f).unresolved options = [] ↔ set.unresolved options = []) →
      ((set.mapFieldSets f).compose options).supergraph.isSome =
        (set.compose options).supergraph.isSome) ∧
    (∀ s ∈ (set.mapFieldSets f).subgraphs, ∀ d ∈ s.definitions, ∀ keys key,
      Key.cheapestFrom? s d keys = some key →
        withoutTypenames key.selections = key.selections) ∧
    ∀ m, MergedSchema.ofSubgraphs (set.mapFieldSets f) = .ok m →
      ∀ labels isMet nodes selections arguments below,
        .field "__typename" arguments below ∈ selections →
          (Planner.mk m (.ofSubgraphs (set.mapFieldSets f) m) labels).resolves isMet nodes
            selections = false := by
  have hproper := hset.hasProperNames
  obtain ⟨hcodes, houtline, hsuccess⟩ :=
    SubgraphSet.compose_rewritten hproper hreserved hf hkeys options
  refine ⟨?_, hcodes, houtline, hsuccess, ?_, ?_⟩
  · intro id s hs
    exact Subgraph.usedFields_rewritten (hreserved s (List.mem_of_getElem? hs)) hf id
  · intro s' hs' d hd keys key hkey
    obtain ⟨id, s, hs, rfl⟩ := SubgraphSet.exists_of_mem_mapFieldSets hs'
    exact Key.withoutTypenames_of_cheapestFrom? ((hreserved s hs).mapFieldSets (f id)) hd hkey
  · intro m hm labels isMet nodes selections arguments below hmem
    refine Planner.resolves_eq_false_of_metaField (QueryGraph.isTyped_ofSubgraphs hm) ?_ isMet nodes
      hmem
    refine MergedSchema.fieldIn?_metaField ?_ ?_ hm
    · intro s' hs'
      obtain ⟨id, s, hs, rfl⟩ := SubgraphSet.exists_of_mem_mapFieldSets hs'
      exact (hproper s hs).mapFieldSets (f id)
    · intro s' hs'
      obtain ⟨id, s, hs, rfl⟩ := SubgraphSet.exists_of_mem_mapFieldSets hs'
      exact (hreserved s hs).mapFieldSets (f id)

/-- Two schemas. The second adds a field to objects that it fetches by a key. -/
def keyedSources : List SchemaSource :=
  [⟨"type Query\x7bt:T\x7dtype T@key(fields:\"id\")\x7bid:ID\x7d", "a", none⟩,
    ⟨"type T@key(fields:\"id\")\x7bid:ID f:Int\x7d", "b", none⟩]

/-- Adds `__typename` to what the second subgraph selects on a type. -/
def addMetaField : SubgraphId → String → FieldSetRewriting :=
  fun id typeName _ selections =>
    if id = 1 ∧ typeName = "T" then selections ++ [.field "__typename" [] []] else selections

theorem touchesOnlyMetaField_addMetaField :
    FieldSetRewriting.TouchesOnlyMetaField addMetaField := by
  intro id typeName field selections
  unfold addMetaField
  split
  · induction selections with
    | nil => rfl
    | cons first others ih => rw [List.cons_append, withoutTypenames, withoutTypenames, ih]
  · rfl

theorem validates_keyed :
    ((SubgraphSet.ofSources keyedSources).toOption.any fun set =>
      !set.baseDiagnostics.1.anyFatal && set.subgraphs.all fun s => s.definitions.all fun d =>
        (d.field? "__typename").isNone && (s.implementers d.name).isEmpty) = true := by
  rw [SubgraphSet.ofSources_eq_foldlM_insertSource]
  decide +kernel

/-- The field that the second schema adds cannot be resolved if its key selects the meta field. -/
theorem walks_keyed :
    ((SubgraphSet.ofSources keyedSources).toOption.any fun set =>
      ((MergedSchema.ofSubgraphs set).toOption.any fun merged =>
        (Satisfiability.check set merged).isEmpty) &&
      (MergedSchema.ofSubgraphs (set.mapFieldSets addMetaField)).toOption.any fun merged =>
        (Satisfiability.Problem.of (set.mapFieldSets addMetaField) merged).starts.any fun start =>
          ((Satisfiability.Problem.of (set.mapFieldSets addMetaField) merged).walker []).stops true
            start.typeName start.options [.field "t" "T", .field "f" "Int"]) = true := by
  cbv

/-- What is needed of the two schemas. -/
theorem exists_keyed :
    ∃ set, SubgraphSet.ofSources keyedSources = .ok set ∧
      set.baseDiagnostics.1.anyFatal = false ∧ (∀ s ∈ set.subgraphs, s.HasNoMetaField) ∧
      ∀ id s, set.subgraph? id = some s → s.MatchesKeysAlike (addMetaField id) := by
  obtain ⟨set, hset, hvalid⟩ := exists_ok_of_any validates_keyed
  simp only [Bool.and_eq_true, Bool.not_eq_true', List.all_eq_true, Option.isNone_iff_eq_none,
    List.isEmpty_iff] at hvalid
  refine ⟨set, hset, hvalid.1, fun s hs d hd => (hvalid.2 s hs d hd).1, ?_⟩
  intro id s hs d hd key _ implementer himplementer
  rw [(hvalid.2 s (List.mem_of_getElem? hs) d hd).2] at himplementer
  cases himplementer

/-- Without the check for satisfiability, the two schemas compose with the meta field in the key as
they do without it. -/
theorem meta_field_matters_only_for_resolution_of_keyed :
    ∃ set, SubgraphSet.ofSources keyedSources = .ok set ∧
      ((set.mapFieldSets addMetaField).compose
          { runSatisfiability := false }).diagnostics.outline =
        (set.compose { runSatisfiability := false }).diagnostics.outline ∧
      ((set.mapFieldSets addMetaField).compose { runSatisfiability := false }).supergraph.isSome =
        (set.compose { runSatisfiability := false }).supergraph.isSome := by
  obtain ⟨set, hset, -, hreserved, hkeys⟩ := exists_keyed
  obtain ⟨-, -, houtline, hsuccess, -⟩ := meta_field_matters_only_for_resolution
    (SubgraphSet.ingested_ofSources hset) hreserved touchesOnlyMetaField_addMetaField hkeys
    { runSatisfiability := false }
  rw [SubgraphSet.unresolved_eq_nil_of_unchecked _ rfl,
    SubgraphSet.unresolved_eq_nil_of_unchecked _ rfl] at houtline hsuccess
  exact ⟨set, hset, houtline.mpr rfl, hsuccess Iff.rfl⟩

/-- With the check, adding the meta field to a key of an accepted set of subgraphs can make the
composition fail. -/
theorem meta_field_in_a_key_is_not_harmless :
    ¬ ∀ set : SubgraphSet, set.Ingested → (∀ s ∈ set.subgraphs, s.HasNoMetaField) →
      ∀ f, FieldSetRewriting.TouchesOnlyMetaField f → set.compose.supergraph.isSome →
        (set.mapFieldSets f).compose.supergraph.isSome := by
  intro hclaim
  obtain ⟨set, hset, hvalid, hreserved, hkeys⟩ := exists_keyed
  have hwalks := walks_keyed
  rw [hset] at hwalks
  simp only [Except.toOption, Option.any_some, Bool.and_eq_true] at hwalks
  obtain ⟨m, hm, hquiet⟩ := exists_ok_of_any hwalks.1
  obtain ⟨m', hm', hstops⟩ := exists_ok_of_any hwalks.2
  have hcomposed : set.compose.supergraph.isSome = true := by
    have hdiagnostics : set.compose.diagnostics = set.baseDiagnostics.1 :=
      SubgraphSet.diagnostics_compose hm (List.isEmpty_iff.mp hquiet)
    have hfatal : set.compose.diagnostics.anyFatal = false := by
      rw [hdiagnostics]
      exact hvalid
    rw [SubgraphSet.supergraph_compose hm hfatal]
    rfl
  have hrewritten := hclaim set (SubgraphSet.ingested_ofSources hset) hreserved addMetaField
    touchesOnlyMetaField_addMetaField hcomposed
  obtain ⟨composed, hsupergraph⟩ := Option.isSome_iff_exists.mp hrewritten
  have hnone := SubgraphSet.check_eq_nil_of_compose hm'
    (SubgraphSet.anyFatal_of_supergraph hsupergraph)
  obtain ⟨start, hstart, hfails⟩ := List.any_eq_true.mp hstops
  have hreports := Satisfiability.Problem.reports_report hm'
  have hfailed := hreports.failed_ne_nil (Satisfiability.Problem.walksSchema hm') List.mem_cons_self
    (fun _ _ hpath move hmove => hpath move (List.mem_cons_of_mem _ hmove))
    (Satisfiability.Problem.keepsFailures_of_fields _ []) (by simp [ApiMove.isField])
    ⟨start, hstart, hfails⟩
  exact hreports.messages_ne_nil_iff.mpr hfailed (List.map_eq_nil_iff.mp hnone)

end Federation
