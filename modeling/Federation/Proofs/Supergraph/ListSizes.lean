import Federation.Proofs.Merge.Consensus
import Federation.Proofs.Supergraph.Arguments
import Federation.Proofs.Supergraph.JoinDirectives

/-!
# List sizes in the supergraph

The slicing arguments of a field and its arguments are merged separately, but both are kept if they
are arguments in all subgraphs that resolve the field. If no subgraph resolves it, this means nothing:
then all slicing arguments are kept, and those arguments that some subgraph happens to mention.
-/

namespace Federation

/-! ## Slicing -/

/-- The `@listSize` directive of the field of the supergraph slices on an argument. -/
def Supergraph.Field.SlicesOn (f : Supergraph.Field) (argument : String) : Prop :=
  ∃ directive ∈ f.directives, directive.name = "listSize" ∧
    ∃ names, directive.argument? "slicingArguments" = some (.strings names) ∧ argument ∈ names

namespace SubgraphSet

/-- Some subgraph slices a field on an argument. -/
def SomeSlicesOn (set : SubgraphSet) (typeName fieldName argument : String) : Prop :=
  ∃ s ∈ set.subgraphs, ∃ d, s.definition? typeName = some d ∧ ∃ field ∈ d.fields,
    field.name = fieldName ∧ ∃ l, field.attributes.listSize = some l ∧
      argument ∈ l.slicingArguments

/-- Some subgraph takes an argument of a field, whether or not it resolves the field. -/
def SomeTakes (set : SubgraphSet) (typeName fieldName argument : String) : Prop :=
  ∃ s ∈ set.subgraphs, ∃ d, s.definition? typeName = some d ∧ ∃ field ∈ d.fields,
    field.name = fieldName ∧ field.Takes argument

/-- Some subgraph resolves a field. -/
def SomeResolves (set : SubgraphSet) (typeName fieldName : String) : Prop :=
  ∃ s ∈ set.subgraphs, ∃ field, s.ResolvesField typeName field ∧ field.name = fieldName

end SubgraphSet

/-! ## Merged list sizes -/

theorem Field.isSome_argument?_iff {field : Field} {name : String} :
    (field.argument? name).isSome ↔ field.Takes name := by
  simp [argument?, Takes, List.find?_isSome]

namespace MergedField

/-- The merged directive slices on the arguments that some subgraph slices on and that are arguments
everywhere. -/
theorem mem_slicingArguments_iff {field : MergedField} {name : String} :
    (∃ l, field.listSize.merged = some l ∧ name ∈ l.slicingArguments) ↔
      (∃ l ∈ field.listSizes, name ∈ l.slicingArguments) ∧
        field.hasArgumentEverywhere name = true := by
  have hmem : name ∈ (Attributes.distinct (field.listSizes.flatMap ListSize.slicingArguments)).filter
      field.hasArgumentEverywhere ↔ (∃ l ∈ field.listSizes, name ∈ l.slicingArguments) ∧
        field.hasArgumentEverywhere name = true := by
    rw [List.mem_filter, Attributes.mem_distinct, List.mem_flatMap]
  rw [← hmem]
  simp only [listSize, List.partition_eq_filter_filter]
  split
  · -- without directives there is nothing to slice on
    rename_i hempty
    simp [List.isEmpty_iff.mp hempty, Attributes.distinct]
  · split
    · -- all slicing arguments are lost
      rename_i hlost
      simp only [Bool.and_eq_true, Bool.not_eq_true', List.isEmpty_iff] at hlost
      simp [hlost.2]
    · simp

end MergedField

namespace MergedSchema

variable {set : SubgraphSet} {m : MergedSchema} (hset : set.HasProperNames)
  (h : ofSubgraphs set = .ok m) {t : MergedType} (ht : t ∈ m.types) {field : MergedField}
  (hfield : field ∈ t.fields)

include hset h ht hfield

/-- The entries of a merged field are those of the subgraphs that define a field of its name. -/
theorem exists_mem_byGraph_iff {p : FieldInGraph → Prop} :
    (∃ entry ∈ field.byGraph, p entry.2) ↔ ∃ s ∈ set.subgraphs, ∃ d, s.definition? t.name = some d ∧
      ∃ g ∈ d.fields, g.name = field.name ∧ p (.of s d g) := by
  constructor
  · rintro ⟨⟨id, f⟩, hentry, hp⟩
    obtain ⟨s, hs, d, hd, g, hg, hname, rfl⟩ :=
      (mem_byGraph_of_mem_fields hset h ht hfield).mp hentry
    exact ⟨s, List.mem_of_getElem? hs, d, hd, g, hg, hname, hp⟩
  · rintro ⟨s, hs, d, hd, g, hg, hname, hp⟩
    obtain ⟨id, hid⟩ := List.mem_iff_getElem?.mp hs
    exact ⟨(id, .of s d g),
      (mem_byGraph_of_mem_fields hset h ht hfield).mpr ⟨s, hid, d, hd, g, hg, hname, rfl⟩, hp⟩

/-- A name is an argument everywhere if all subgraphs that resolve the field take it. -/
theorem hasArgumentEverywhere_iff {name : String} :
    field.hasArgumentEverywhere name = true ↔ set.AllTake t.name field.name name := by
  have hlacks := exists_mem_byGraph_iff hset h ht hfield
    (p := fun f => f.isExternal = false ∧ ¬ f.definition.Takes name)
  rw [MergedField.hasArgumentEverywhere, List.all_eq_true]
  constructor
  · intro hall s hs g hg hname
    by_contra hlack
    obtain ⟨d, hd, hmem, hresolved⟩ := hg
    obtain ⟨entry, hentry, hexternal, hlack⟩ :=
      hlacks.mpr ⟨s, hs, d, hd, g, hmem, hname, hresolved, hlack⟩
    have hhas := hall entry hentry
    rw [hexternal, Bool.false_or, Field.isSome_argument?_iff] at hhas
    exact hlack hhas
  · intro hall entry hentry
    rw [Bool.or_eq_true, Field.isSome_argument?_iff]
    by_contra hneither
    rw [not_or, Bool.not_eq_true] at hneither
    obtain ⟨s, hs, d, hd, g, hg, hname, hresolved, hlack⟩ := hlacks.mp ⟨entry, hentry, hneither⟩
    exact hlack (hall s hs g ⟨d, hd, hg, hresolved⟩ hname)

/-- The subgraphs list the sizes of a merged field. -/
theorem exists_slicingArguments_iff {name : String} :
    (∃ l ∈ field.listSizes, name ∈ l.slicingArguments) ↔
      set.SomeSlicesOn t.name field.name name := by
  have hslices := exists_mem_byGraph_iff hset h ht hfield
    (p := fun f => ∃ l, f.definition.attributes.listSize = some l ∧ name ∈ l.slicingArguments)
  refine Iff.trans ?_ hslices
  simp only [MergedField.listSizes, List.mem_filterMap]
  constructor
  · rintro ⟨l, ⟨entry, hentry, hl⟩, hname⟩
    exact ⟨entry, hentry, l, hl, hname⟩
  · rintro ⟨entry, hentry, l, hl, hname⟩
    exact ⟨l, ⟨entry, hentry, hl⟩, hname⟩

/-- The subgraphs list the arguments of a merged field. -/
theorem exists_argument_iff (hdefined : field.byGraph ≠ []) {name : String} :
    (∃ argument ∈ field.arguments, argument.name = name) ↔
      set.SomeTakes t.name field.name name := by
  have hnamed : ∀ s ∈ set.subgraphs,
      (∃ part ∈ Subgraph.namedArguments t.name field.name s, part.1 = name) ↔
        ∃ d, s.definition? t.name = some d ∧ ∃ g ∈ d.fields, g.name = field.name ∧
          g.Takes name := by
    intro s hs
    cases hd : s.definition? t.name with
    | none => simp [Subgraph.namedArguments, Subgraph.partsOf, hd]
    | some d =>
      have hparts := (hset s hs).parts d (Subgraph.mem_of_definition? hd)
      have hfields : (∃ g ∈ d.fields, g.name = field.name ∧ g.Takes name) ↔
          ∃ g ∈ (d.field? field.name).toList, g.Takes name := by
        rw [TypeDef.field?, ← filter_key_eq_toList hparts.fields]
        simp [and_assoc]
      simp only [Option.some.injEq, exists_eq_left', hfields]
      simp [Subgraph.namedArguments, Subgraph.partsOf, hd, Field.Takes]
  constructor
  · rintro ⟨argument, hargument, hname⟩
    obtain ⟨⟨s, hs, hpart⟩, -⟩ :=
      (mem_arguments_iff hset h ht hfield hdefined).mp ⟨argument, hargument, hname, rfl⟩
    exact ⟨s, hs, (hnamed s hs).mp hpart⟩
  · rintro ⟨s, hs, htakes⟩
    obtain ⟨argument, hargument, hname, -⟩ := (mem_arguments_iff hset h ht hfield hdefined).mpr
      ⟨⟨s, hs, (hnamed s hs).mpr htakes⟩, rfl⟩
    exact ⟨argument, hargument, hname⟩

end MergedSchema

/-! ## Emitted list sizes -/

namespace Supergraph

theorem Value.strings_injective : Function.Injective Value.strings := by
  intro names names' heq
  have hitems := Value.list.inj heq
  exact List.map_injective_iff.mpr (fun _ _ => Value.string.inj) hitems

/-- A list of slicing arguments is written unless it is empty. -/
theorem slicingArguments_listSizeDirective (l : ListSize) :
    (listSizeDirective l).argument? "slicingArguments" =
      if l.slicingArguments.isEmpty then none else some (.strings l.slicingArguments) := by
  have hsized : (optionalArgument "assumedSize" (fun n : Nat => Value.int n) l.assumedSize).lookup
      "slicingArguments" = none := by
    cases l.assumedSize <;> rfl
  have hrest : ((if l.sizedFields.isEmpty then [] else [("sizedFields", Value.strings l.sizedFields)]) ++
      denialArgument "requireOneSlicingArgument"
        (l.requireOneSlicingArgument || l.slicingArguments.isEmpty)).lookup
          "slicingArguments" = none := by
    unfold denialArgument
    split <;> split <;> rfl
  unfold listSizeDirective Directive.argument?
  dsimp only
  rw [List.append_assoc, List.append_assoc, List.lookup_append, hsized, Option.none_or,
    List.lookup_append, hrest, Option.or_none]
  split <;> rfl

/-- The emitted directive slices on the arguments of the merged one. -/
theorem slicesOn_emitField_iff {names : GraphNames} {typeCount : Nat} {field : MergedField}
    {name : String} :
    (emitField names typeCount field).SlicesOn name ↔
      ∃ l, field.listSize.merged = some l ∧ name ∈ l.slicingArguments := by
  constructor
  · rintro ⟨directive, hmem, hname, arguments, harguments, hargument⟩
    -- no other directive has the name
    simp only [emitField, List.mem_append] at hmem
    rcases hmem with (hjoin | hmetadata) | hsize
    · rw [name_of_mem_joinFields hjoin] at hname
      exact absurd hname (by decide)
    · have hnames := name_mem_of_mem_metadataDirectives hmetadata
      rw [hname] at hnames
      exact absurd hnames (by decide)
    · obtain ⟨l, hl, rfl⟩ := List.mem_map.mp hsize
      rw [slicingArguments_listSizeDirective] at harguments
      split at harguments
      · cases harguments
      · obtain rfl := Value.strings_injective (Option.some.inj harguments)
        exact ⟨l, Option.mem_toList.mp hl, hargument⟩
  · rintro ⟨l, hl, hargument⟩
    have hne : ¬ l.slicingArguments.isEmpty = true := fun hempty => by
      rw [List.isEmpty_iff.mp hempty] at hargument
      cases hargument
    refine ⟨listSizeDirective l, ?_, rfl, l.slicingArguments, ?_, hargument⟩
    · exact List.mem_append_right _ (List.mem_map_of_mem (Option.mem_toList.mpr hl))
    · rw [slicingArguments_listSizeDirective, if_neg hne]

section

variable {set : SubgraphSet} {m : MergedSchema} (hset : set.HasProperNames)
  (h : MergedSchema.ofSubgraphs set = .ok m) {t : MergedType} (ht : t ∈ m.types)
  {field : MergedField} (hfield : field ∈ t.fields) {names : GraphNames} {typeCount : Nat}
  {name : String}

include hset h ht hfield

/-- An emitted field slices on the arguments that some subgraph slices on and that all subgraphs take
which resolve the field. -/
theorem slicesOn_emitField_iff_someSlicesOn :
    (emitField names typeCount field).SlicesOn name ↔
      set.SomeSlicesOn t.name field.name name ∧ set.AllTake t.name field.name name := by
  rw [slicesOn_emitField_iff, MergedField.mem_slicingArguments_iff,
    MergedSchema.exists_slicingArguments_iff hset h ht hfield,
    MergedSchema.hasArgumentEverywhere_iff hset h ht hfield]

/-- An emitted field takes a slicing argument if some subgraph takes it, and so do all that resolve
the field. -/
theorem takes_emitField_iff_someTakes (hsliced : set.SomeSlicesOn t.name field.name name) :
    (emitField names typeCount field).Takes name ↔
      set.SomeTakes t.name field.name name ∧ set.AllTake t.name field.name name := by
  -- a field that is sliced is no copy
  have hdefined : field.byGraph ≠ [] := by
    obtain ⟨l, hl, -⟩ := (MergedSchema.exists_slicingArguments_iff hset h ht hfield).mpr hsliced
    obtain ⟨entry, hentry, -⟩ := List.mem_filterMap.mp hl
    exact List.ne_nil_of_mem hentry
  have htaken := fun (argument : MergedInput) (hargument : argument ∈ field.arguments) =>
    MergedSchema.isTakenEverywhere_iff hset h ht hfield hdefined hargument
  rw [takes_emitField_iff, ← MergedSchema.exists_argument_iff hset h ht hfield hdefined]
  constructor
  · rintro ⟨argument, hargument, rfl, heverywhere⟩
    exact ⟨⟨argument, hargument, rfl⟩, (htaken argument hargument).mp heverywhere⟩
  · rintro ⟨⟨argument, hargument, rfl⟩, hall⟩
    exact ⟨argument, hargument, rfl, (htaken argument hargument).mpr hall⟩

end

/-- **A field of the supergraph slices on arguments that it has exactly if some subgraph resolves it,
or every slicing argument is one in some subgraph.** Slicing arguments and arguments are both kept if
all subgraphs that resolve the field take them. This says nothing if no subgraph does: a slicing
argument is kept then even if no subgraph takes it at all. -/
theorem slicing_arguments_are_arguments_iff {set : SubgraphSet} (hset : set.Ingested)
    {options : CompositionOptions} {composed : ComposedSupergraph}
    (h : (set.compose options).supergraph = some composed) {d : TypeDefinition}
    (hd : d ∈ composed.model.types) {f : Field} (hf : f ∈ d.body.fields) :
    (∀ name, f.SlicesOn name ↔
        set.SomeSlicesOn d.name f.name name ∧ set.AllTake d.name f.name name) ∧
      ((∀ name, f.SlicesOn name → f.Takes name) ↔
        set.SomeResolves d.name f.name ∨
          ∀ name, set.SomeSlicesOn d.name f.name name → set.SomeTakes d.name f.name name) := by
  obtain ⟨m, hm, -, rfl⟩ := SubgraphSet.exists_merged_of_supergraph h
  obtain ⟨t, ht, rfl⟩ := List.mem_map.mp hd
  obtain ⟨field, hfield, rfl⟩ := exists_of_mem_fields_emitType hf
  have hslices : ∀ name, (emitField set.enumValueOf t.byGraph.length field).SlicesOn name ↔
      set.SomeSlicesOn t.name field.name name ∧ set.AllTake t.name field.name name :=
    fun _ => slicesOn_emitField_iff_someSlicesOn hset.hasProperNames hm ht hfield
  have htakes : ∀ name, set.SomeSlicesOn t.name field.name name →
      ((emitField set.enumValueOf t.byGraph.length field).Takes name ↔
        set.SomeTakes t.name field.name name ∧ set.AllTake t.name field.name name) :=
    fun _ => takes_emitField_iff_someTakes hset.hasProperNames hm ht hfield
  refine ⟨hslices, ?_⟩
  constructor
  · intro hlaw
    by_contra hneither
    rw [not_or] at hneither
    obtain ⟨hunresolved, hneither⟩ := hneither
    refine hneither fun name hsliced => ?_
    -- without a subgraph that resolves the field, all of them take everything
    have hall : set.AllTake t.name field.name name := fun s hs g hg hname =>
      absurd ⟨s, hs, g, hg, hname⟩ hunresolved
    exact ((htakes name hsliced).mp (hlaw name ((hslices name).mpr ⟨hsliced, hall⟩))).1
  · intro hcases name hslicing
    obtain ⟨hsliced, hall⟩ := (hslices name).mp hslicing
    refine (htakes name hsliced).mpr ⟨?_, hall⟩
    rcases hcases with ⟨s, hs, g, hg, hname⟩ | hmentioned
    · have hgtakes := hall s hs g hg hname
      obtain ⟨definition, hdefinition, hmem, -⟩ := hg
      exact ⟨s, hs, definition, hdefinition, g, hmem, hname, hgtakes⟩
    · exact hmentioned name hsliced

end Supergraph

/-- A schema with an external field that no schema resolves, sliced on an argument that it lacks. -/
def SchemaSource.slicedStub : SchemaSource :=
  ⟨"type Query\x7bu:U\x7dextend type U@key(fields:\"l\")" ++
    "\x7bl:[ID]@external@listSize(slicingArguments:[\"first\"])\x7d", "a", none⟩

theorem SchemaSource.composes_slicedStub :
    ((SubgraphSet.ofSources [slicedStub]).toOption.any fun set =>
      (MergedSchema.ofSubgraphs set).toOption.any fun m =>
        !(set.compose { runSatisfiability := false }).diagnostics.anyFatal &&
          (Supergraph.emit set m).types.any fun d => d.name == "U" &&
            d.body.fields.any fun f => f.name == "l" && (f.arguments.isEmpty &&
              f.directives.any fun directive => directive.name == "listSize" &&
                match directive.argument? "slicingArguments" with
                | some (.list [.string name]) => name == "first"
                | _ => false)) = true := by
  rw [SubgraphSet.ofSources_eq_foldlM_insertSource]
  decide +kernel

/-- The schema composes to a field without arguments that slices on one. -/
theorem SubgraphSet.exists_composed_slicedStub :
    ∃ set composed, SubgraphSet.ofSources [.slicedStub] = .ok set ∧ set.Ingested ∧
      (set.compose { runSatisfiability := false }).supergraph = some composed ∧
      ∃ d ∈ composed.model.types, d.name = "U" ∧ ∃ f ∈ d.body.fields, f.name = "l" ∧
        f.SlicesOn "first" ∧ ¬ f.Takes "first" := by
  obtain ⟨set, hset, hmerges⟩ := exists_ok_of_any SchemaSource.composes_slicedStub
  obtain ⟨m, hm, hcomposes⟩ := exists_ok_of_any hmerges
  rw [Bool.and_eq_true, Bool.not_eq_true'] at hcomposes
  obtain ⟨hvalid, hcomposes⟩ := hcomposes
  simp only [List.any_eq_true, Bool.and_eq_true, beq_iff_eq, List.isEmpty_iff] at hcomposes
  obtain ⟨d, hd, hname, f, hf, hfieldname, hnone, directive, hdirective, hlistSize, hslices⟩ :=
    hcomposes
  refine ⟨set, _, hset, ingested_ofSources hset, supergraph_compose hm hvalid, d, hd, hname, f, hf,
    hfieldname, ⟨directive, hdirective, hlistSize, ["first"], ?_, List.mem_singleton_self _⟩, ?_⟩
  · split at hslices
    · rename_i name harguments
      rw [harguments, beq_iff_eq.mp hslices]
      rfl
    · cases hslices
  · rintro ⟨a, ha, -⟩
    rw [hnone] at ha
    cases ha

namespace Supergraph

/-- No schema resolves the field, and none takes the argument that it is sliced on. -/
theorem slicing_arguments_are_arguments_iff_of_slicedStub :
    ∃ set composed, SubgraphSet.ofSources [.slicedStub] = .ok set ∧ set.Ingested ∧
      (set.compose { runSatisfiability := false }).supergraph = some composed ∧
      (∃ d ∈ composed.model.types, d.name = "U" ∧ ∃ f ∈ d.body.fields, f.name = "l" ∧
        f.SlicesOn "first" ∧ ¬ f.Takes "first") ∧
      set.SomeSlicesOn "U" "l" "first" ∧ ¬ set.SomeResolves "U" "l" := by
  obtain ⟨set, composed, hset, hingested, hcomposed, d, hd, hname, f, hf, hfieldname, hslices,
    hlacks⟩ := SubgraphSet.exists_composed_slicedStub
  obtain ⟨hsliced, hlaw⟩ := slicing_arguments_are_arguments_iff hingested hcomposed hd hf
  rw [hname, hfieldname] at hsliced hlaw
  refine ⟨set, composed, hset, hingested, hcomposed,
    ⟨d, hd, hname, f, hf, hfieldname, hslices, hlacks⟩, ((hsliced "first").mp hslices).1, ?_⟩
  intro hresolved
  exact hlacks (hlaw.mpr (.inl hresolved) "first" hslices)

/-- A composition may emit a field that slices on an argument that it does not have. -/
theorem composition_keeps_unknown_slicing_argument :
    ¬ ∀ set : SubgraphSet, set.Ingested → ∀ options composed,
      (set.compose options).supergraph = some composed → ∀ d ∈ composed.model.types,
        ∀ f ∈ d.body.fields, ∀ name, f.SlicesOn name → f.Takes name := by
  intro hlaw
  obtain ⟨set, composed, -, hingested, hcomposed, d, hd, -, f, hf, -, hslices, hlacks⟩ :=
    SubgraphSet.exists_composed_slicedStub
  exact hlacks (hlaw set hingested _ composed hcomposed d hd f hf "first" hslices)

end Supergraph

end Federation
