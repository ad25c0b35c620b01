import Federation.Proofs.Merge.Contents
import Federation.Proofs.Validation.Rules

/-!
# Arguments of fields in the supergraph

A field of the supergraph keeps the arguments that all subgraphs take that resolve the field. No rule
speaks about the others, so an argument may get lost that a subgraph requires.
-/

namespace Federation

/-! ## Taking arguments -/

/-- A call has to give the argument: its type is non-null, and it has no default value. -/
def Argument.isRequired (a : Argument) : Bool :=
  a.type.wrapping.isRequired && a.defaultValue.isNone

/-- The field has an argument of a name. -/
def Field.Takes (field : Field) (argument : String) : Prop :=
  ∃ a ∈ field.arguments, a.name = argument

/-- The field of the supergraph has an argument of a name. -/
def Supergraph.Field.Takes (f : Supergraph.Field) (argument : String) : Prop :=
  ∃ a ∈ f.arguments, a.name = argument

/-- The subgraph defines a field of a type, and not as `@external`. -/
def Subgraph.ResolvesField (s : Subgraph) (typeName : String) (field : Field) : Prop :=
  ∃ d, s.definition? typeName = some d ∧ field ∈ d.fields ∧ s.isExternal d field = false

namespace SubgraphSet

/-- All subgraphs that resolve a field take an argument. -/
def AllTake (set : SubgraphSet) (typeName fieldName argument : String) : Prop :=
  ∀ s ∈ set.subgraphs, ∀ field, s.ResolvesField typeName field → field.name = fieldName →
    field.Takes argument

/-- A subgraph that resolves a field requires an argument. -/
def SomeRequires (set : SubgraphSet) (typeName fieldName argument : String) : Prop :=
  ∃ s ∈ set.subgraphs, ∃ field, s.ResolvesField typeName field ∧ field.name = fieldName ∧
    ∃ a ∈ field.arguments, a.isRequired = true ∧ a.name = argument

end SubgraphSet

/-- The arguments that a subgraph defines under the name of a field are those that the field takes. -/
theorem Subgraph.ResolvesField.exists_namedArguments_iff {s : Subgraph} (hs : s.HasProperNames)
    {typeName name : String} {g : Field} (hg : s.ResolvesField typeName g) :
    (∃ part ∈ s.namedArguments typeName g.name, part.1 = name) ↔ g.Takes name := by
  obtain ⟨d, hd, hmem, -⟩ := hg
  have hfound : d.field? g.name = some g :=
    find?_key_eq_some (hs.parts d (mem_of_definition? hd)).fields hmem
  have hnamed : s.namedArguments typeName g.name = g.arguments.map fun a => (a.name, a.type) := by
    simp [namedArguments, partsOf, hd, hfound]
  rw [hnamed]
  simp [Field.Takes]

/-! ## Merged fields -/

namespace MergedSchema

variable {set : SubgraphSet} {m : MergedSchema} (hset : set.HasProperNames)
  (h : ofSubgraphs set = .ok m) {t : MergedType} (ht : t ∈ m.types) {field : MergedField}
  (hfield : field ∈ t.fields)

include hset h ht hfield

/-- A subgraph is among the resolving ones of a merged field if it resolves a field of its name. -/
theorem mem_resolving_iff {id : SubgraphId} :
    id ∈ field.resolving ↔ ∃ s, set.subgraph? id = some s ∧
      ∃ g, s.ResolvesField t.name g ∧ g.name = field.name := by
  rw [MergedField.resolving, List.mem_map]
  constructor
  · rintro ⟨⟨i, f⟩, hf, rfl⟩
    obtain ⟨hmem, hresolved⟩ := List.mem_filter.mp hf
    obtain ⟨s, hs, d, hd, g, hg, hname, rfl⟩ :=
      (mem_byGraph_of_mem_fields hset h ht hfield).mp hmem
    rw [Bool.not_eq_true'] at hresolved
    exact ⟨s, hs, g, ⟨d, hd, hg, hresolved⟩, hname⟩
  · rintro ⟨s, hs, g, ⟨d, hd, hg, hresolved⟩, hname⟩
    have hmem := (mem_byGraph_of_mem_fields hset h ht hfield).mpr ⟨s, hs, d, hd, g, hg, hname, rfl⟩
    refine ⟨(id, .of s d g), List.mem_filter.mpr ⟨hmem, ?_⟩, rfl⟩
    rw [Bool.not_eq_true']
    exact hresolved

/-- A merged field has the arguments that the fields of the subgraphs take, each with the subgraphs
whose fields take it. -/
theorem mem_arguments_iff (hdefined : field.byGraph ≠ []) {name : String} {types : ByGraph TypeRef} :
    (∃ argument ∈ field.arguments, argument.name = name ∧ argument.byGraph = types) ↔
      (∃ s ∈ set.subgraphs, ∃ part ∈ Subgraph.namedArguments t.name field.name s, part.1 = name) ∧
        types = set.defining (Subgraph.namedArguments t.name field.name) name := by
  rw [← SubgraphSet.mem_collected, ← arguments_eq_collected hset h ht hfield hdefined, List.mem_map]
  simp only [Prod.mk.injEq]

/-- All resolving subgraphs list an argument of a merged field exactly if all their fields take it. -/
theorem isTakenEverywhere_iff (hdefined : field.byGraph ≠ []) {argument : MergedInput}
    (hargument : argument ∈ field.arguments) :
    Supergraph.isTakenEverywhere field argument = true ↔
      set.AllTake t.name field.name argument.name := by
  have htypes := ((mem_arguments_iff hset h ht hfield hdefined).mp
    ⟨argument, hargument, rfl, rfl⟩).2
  have htakes : ∀ {s : Subgraph} {g : Field}, s ∈ set.subgraphs → s.ResolvesField t.name g →
      g.name = field.name → ((∃ part ∈ Subgraph.namedArguments t.name field.name s,
        part.1 = argument.name) ↔ g.Takes argument.name) :=
    fun hs hg hname => hname ▸ hg.exists_namedArguments_iff (hset _ hs)
  rw [Supergraph.isTakenEverywhere, List.all_eq_true]
  constructor
  · intro htaken s hs g hg hname
    obtain ⟨id, hid⟩ := List.mem_iff_getElem?.mp hs
    have hhas := htaken id ((mem_resolving_iff hset h ht hfield).mpr ⟨s, hid, g, hg, hname⟩)
    rw [ByGraph.has_eq_true_iff, htypes, SubgraphSet.mem_ids_defining] at hhas
    obtain ⟨s', hid', hpart⟩ := hhas
    obtain rfl : s = s' := Option.some.inj (hid.symm.trans hid')
    exact (htakes hs hg hname).mp hpart
  · intro hall id hid
    obtain ⟨s, hs, g, hg, hname⟩ := (mem_resolving_iff hset h ht hfield).mp hid
    have hmem := List.mem_of_getElem? hs
    rw [ByGraph.has_eq_true_iff, htypes, SubgraphSet.mem_ids_defining]
    exact ⟨s, hs, (htakes hmem hg hname).mpr (hall s hmem g hg hname)⟩

/-- The merged field has an argument that all resolving subgraphs list exactly if all their fields
take it. -/
theorem exists_isTakenEverywhere_iff {s : Subgraph} (hs : s ∈ set.subgraphs) {g : Field}
    (hg : s.ResolvesField t.name g) (hname : g.name = field.name) {name : String} :
    (∃ argument ∈ field.arguments, argument.name = name ∧
        Supergraph.isTakenEverywhere field argument = true) ↔
      set.AllTake t.name field.name name := by
  have hdefined : field.byGraph ≠ [] := by
    obtain ⟨id, hid⟩ := List.mem_iff_getElem?.mp hs
    obtain ⟨d, hd, hmem, -⟩ := hg
    exact List.ne_nil_of_mem ((mem_byGraph_of_mem_fields hset h ht hfield).mpr
      ⟨s, hid, d, hd, g, hmem, hname, rfl⟩)
  constructor
  · rintro ⟨argument, hargument, rfl, htaken⟩
    exact (isTakenEverywhere_iff hset h ht hfield hdefined hargument).mp htaken
  · intro hall
    have hpart : ∃ part ∈ Subgraph.namedArguments t.name field.name s, part.1 = name :=
      hname ▸ (hg.exists_namedArguments_iff (hset s hs)).mpr (hall s hs g hg hname)
    obtain ⟨argument, hargument, rfl, -⟩ :=
      (mem_arguments_iff hset h ht hfield hdefined).mpr ⟨⟨s, hs, hpart⟩, rfl⟩
    exact ⟨argument, hargument, rfl,
      (isTakenEverywhere_iff hset h ht hfield hdefined hargument).mpr hall⟩

end MergedSchema

/-! ## Emitted fields -/

namespace Supergraph

/-- A field of the supergraph has an argument exactly if the merged field has one of that name that is
taken everywhere. -/
theorem takes_emitField_iff {names : GraphNames} {typeCount : Nat} {field : MergedField}
    {name : String} :
    (emitField names typeCount field).Takes name ↔
      ∃ argument ∈ field.arguments, argument.name = name ∧ isTakenEverywhere field argument = true := by
  constructor
  · rintro ⟨emitted, hemitted, rfl⟩
    obtain ⟨argument, hargument, rfl⟩ := List.mem_map.mp hemitted
    obtain ⟨hmem, htaken⟩ := List.mem_filter.mp hargument
    exact ⟨argument, hmem, rfl, htaken⟩
  · rintro ⟨argument, hmem, rfl, htaken⟩
    exact ⟨emitInput argument,
      List.mem_map_of_mem (List.mem_filter.mpr ⟨hmem, htaken⟩), rfl⟩

/-- An emitted type has the emitted fields of the merged type. -/
theorem fields_emitType (names : GraphNames) (t : MergedType) :
    (emitType names t).body.fields = t.fields.map (emitField names t.byGraph.length) := by
  unfold emitType emitBody MergedType.fields
  cases t.body <;> rfl

/-- The fields of an emitted type are the fields of the merged type. -/
theorem exists_of_mem_fields_emitType {names : GraphNames} {t : MergedType} {f : Field}
    (hf : f ∈ (emitType names t).body.fields) :
    ∃ field ∈ t.fields, f = emitField names t.byGraph.length field := by
  rw [fields_emitType] at hf
  obtain ⟨field, hfield, rfl⟩ := List.mem_map.mp hf
  exact ⟨field, hfield, rfl⟩

/-- **A field of the supergraph keeps an argument exactly if all subgraphs that resolve the field take
it**, whether they require it or not. So a call of the field gives all arguments that subgraphs require
exactly if none of them is unknown to another subgraph, of which composition makes no rule. -/
theorem required_arguments_are_kept_iff_common {set : SubgraphSet} (hset : set.Ingested)
    {options : CompositionOptions} {composed : ComposedSupergraph}
    (h : (set.compose options).supergraph = some composed) {d : TypeDefinition}
    (hd : d ∈ composed.model.types) {f : Field} (hf : f ∈ d.body.fields) :
    (∀ s ∈ set.subgraphs, ∀ field, s.ResolvesField d.name field → field.name = f.name →
        ∀ a ∈ field.arguments, f.Takes a.name ↔ set.AllTake d.name f.name a.name) ∧
      ((∀ argument, set.SomeRequires d.name f.name argument → f.Takes argument) ↔
        ∀ argument, set.SomeRequires d.name f.name argument →
          set.AllTake d.name f.name argument) := by
  obtain ⟨m, hm, -, rfl⟩ := SubgraphSet.exists_merged_of_supergraph h
  obtain ⟨t, ht, rfl⟩ := List.mem_map.mp hd
  obtain ⟨field, hfield, rfl⟩ := exists_of_mem_fields_emitType hf
  have hkept : ∀ s ∈ set.subgraphs, ∀ g, s.ResolvesField t.name g → g.name = field.name →
      ∀ argument, (emitField set.enumValueOf t.byGraph.length field).Takes argument ↔
        set.AllTake t.name field.name argument := fun s hs g hg hname argument =>
    takes_emitField_iff.trans
      (MergedSchema.exists_isTakenEverywhere_iff hset.hasProperNames hm ht hfield hs hg hname)
  refine ⟨fun s hs g hg hname a _ => hkept s hs g hg hname a.name,
    forall_congr' fun argument => forall_congr' ?_⟩
  rintro ⟨s, hs, g, hg, hname, -⟩
  exact hkept s hs g hg hname argument

end Supergraph

/-- A schema with a field that requires an argument. -/
def SchemaSource.strictLookup : SchemaSource :=
  ⟨"type Query\x7bx(a:Int!):Int\x7d", "a", none⟩

/-- A schema with the field, without an argument. -/
def SchemaSource.plainLookup : SchemaSource :=
  ⟨"type Query\x7bx:Int\x7d", "b", none⟩

theorem SchemaSource.composes_lookups :
    ((SubgraphSet.ofSources [strictLookup, plainLookup]).toOption.any fun set =>
      (MergedSchema.ofSubgraphs set).toOption.any fun m =>
        !(set.compose { runSatisfiability := false }).diagnostics.anyFatal &&
          (((Supergraph.emit set m).types.any fun d => d.name == "Query" &&
            d.body.fields.any fun f => f.name == "x" && f.arguments.isEmpty) &&
          set.subgraphs.any fun s => (s.definition? "Query").any fun d => d.fields.any fun field =>
            !s.isExternal d field && (field.name == "x" && field.arguments.any fun a =>
              a.isRequired && a.name == "a"))) = true := by decide +kernel

/-- The schemas compose to a field without the argument that one of them requires. -/
theorem SubgraphSet.exists_composed_lookups :
    ∃ set composed, SubgraphSet.ofSources [.strictLookup, .plainLookup] = .ok set ∧ set.Ingested ∧
      (set.compose { runSatisfiability := false }).supergraph = some composed ∧
      set.SomeRequires "Query" "x" "a" ∧
      ∃ d ∈ composed.model.types, d.name = "Query" ∧
        ∃ f ∈ d.body.fields, f.name = "x" ∧ f.arguments = [] := by
  obtain ⟨set, hset, hmerges⟩ := exists_ok_of_any SchemaSource.composes_lookups
  obtain ⟨m, hm, hcomposes⟩ := exists_ok_of_any hmerges
  rw [Bool.and_eq_true, Bool.not_eq_true'] at hcomposes
  obtain ⟨hvalid, hcomposes⟩ := hcomposes
  simp only [List.any_eq_true, Option.any_eq_true, Bool.and_eq_true, Bool.not_eq_true', beq_iff_eq,
    List.isEmpty_iff] at hcomposes
  obtain ⟨⟨d, hd, hname, f, hf, hfieldname, harguments⟩, s, hs, parent, hparent, g, hg, hresolved,
    hgname, a, ha, hrequired, haname⟩ := hcomposes
  exact ⟨set, _, hset, ingested_ofSources hset, supergraph_compose hm hvalid,
    ⟨s, hs, g, ⟨parent, hparent, hg, hresolved⟩, hgname, a, ha, hrequired, haname⟩, d, hd, hname, f,
    hf, hfieldname, harguments⟩

namespace Supergraph

/-- One schema requires an argument, so not all that resolve the field take it. -/
theorem required_arguments_are_kept_iff_common_of_lookups :
    ∃ set composed, SubgraphSet.ofSources [.strictLookup, .plainLookup] = .ok set ∧ set.Ingested ∧
      (set.compose { runSatisfiability := false }).supergraph = some composed ∧
      (∃ d ∈ composed.model.types, d.name = "Query" ∧ ∃ f ∈ d.body.fields, f.name = "x" ∧
        ¬ f.Takes "a") ∧
      set.SomeRequires "Query" "x" "a" ∧ ¬ set.AllTake "Query" "x" "a" := by
  obtain ⟨set, composed, hset, hingested, hcomposed, hrequires, d, hd, hname, f, hf, hfieldname,
    harguments⟩ := SubgraphSet.exists_composed_lookups
  have hdropped : ¬ f.Takes "a" := by
    rintro ⟨a, ha, -⟩
    rw [harguments] at ha
    cases ha
  refine ⟨set, composed, hset, hingested, hcomposed, ⟨d, hd, hname, f, hf, hfieldname, hdropped⟩,
    hrequires, fun hall => hdropped ?_⟩
  have hkept := (required_arguments_are_kept_iff_common hingested hcomposed hd hf).1
  obtain ⟨s, hs, g, hg, hgname, a, ha, -, haname⟩ := hrequires
  rw [hname, hfieldname] at hkept
  exact haname ▸ (hkept s hs g hg hgname a ha).mpr (haname ▸ hall)

/-- A composition may drop an argument that a subgraph requires. -/
theorem composition_drops_required_argument :
    ¬ ∀ set : SubgraphSet, set.Ingested → ∀ options composed,
      (set.compose options).supergraph = some composed → ∀ d ∈ composed.model.types,
        ∀ f ∈ d.body.fields, ∀ argument, set.SomeRequires d.name f.name argument →
          f.Takes argument := by
  intro hkept
  obtain ⟨set, composed, -, hingested, hcomposed, hrequires, d, hd, hname, f, hf, hfieldname,
    harguments⟩ := SubgraphSet.exists_composed_lookups
  rw [← hname, ← hfieldname] at hrequires
  obtain ⟨a, ha, -⟩ := hkept set hingested _ composed hcomposed d hd f hf "a" hrequires
  rw [harguments] at ha
  cases ha

end Supergraph

end Federation
