import Federation.Proofs.Merge.EnumValues
import Federation.Proofs.Supergraph.References

/-!
# Input types in the supergraph

An input type keeps the fields that all subgraphs have which define it. To find them, fields and types
are compared by the numbers of their subgraphs; the rule about required fields compares the subgraphs
themselves. Both come to the same, so a required field is kept.
-/

namespace Federation

/-! ## Required fields -/

namespace Validation

/-- If a subgraph requires an input field in which nothing fatal was found, every subgraph that
defines the type has the field. -/
theorem has_of_isRequired {c : Context} (h : (validate c).anyFatal = false) {t : MergedType}
    (ht : t ∈ c.merged.types) {field : MergedInput} (hfield : field ∈ inputFieldsOf t)
    {id : SubgraphId} {type : TypeRef} (htype : (id, type) ∈ field.byGraph)
    (hrequired : type.wrapping.isRequired = true) :
    ∀ id ∈ t.byGraph.ids, field.byGraph.has id = true := by
  have hrule : requiredInputFields ∈ rules := by simp [rules]
  have hnone := anyFatal_onInputField h hrule ht hfield
  have hrequiring : id ∈ (field.byGraph.filter fun e => e.2.wrapping.isRequired).map Prod.fst :=
    List.mem_map_of_mem (List.mem_filter.mpr ⟨htype, hrequired⟩)
  unfold requiredInputFields at hnone
  dsimp only at hnone
  split at hnone
  · rename_i hempty
    rcases Bool.or_eq_true_iff.mp hempty with hempty | hempty
    · -- the subgraph at hand requires the field
      rw [List.isEmpty_iff.mp hempty] at hrequiring
      cases hrequiring
    · intro other hother
      have hhas := List.filter_eq_nil_iff.mp (List.isEmpty_iff.mp hempty) other hother
      simpa using hhas
  · cases hnone

end Validation

/-! ## Kept fields -/

/-- What a subgraph defines under a name is collected, if it defines nothing else under it. -/
theorem SubgraphSet.mem_defining_of_mem {α : Type} {set : SubgraphSet} {id : SubgraphId}
    {s : Subgraph} (hs : set.subgraph? id = some s) {namedIn : Subgraph → List (String × α)}
    (hunique : ((namedIn s).map Prod.fst).Nodup) {part : String × α} (hpart : part ∈ namedIn s) :
    (id, part.2) ∈ set.defining namedIn part.1 := by
  refine List.mem_filterMap.mpr ⟨(id, s), mem_enumerated.mpr hs, ?_⟩
  have hfound := find?_key_eq_some hunique hpart
  rw [filter_key_eq_toList hunique part.1, hfound]
  rfl

namespace Supergraph

/-- Input types are emitted as input types, and nothing else is. -/
theorem exists_inputObject_emitType_iff {names : GraphNames} {t : MergedType} :
    (∃ fields, (emitType names t).body = .inputObject fields) ↔ t.kind = .inputObject := by
  unfold emitType emitBody MergedType.kind
  cases t.body <;> simp [MergedBody.kind]

end Supergraph

namespace SubgraphSet.MergesTo

open Supergraph

variable {set : SubgraphSet} {m : MergedSchema} (h : set.MergesTo m) {t : MergedType}
  (ht : t ∈ m.types)

include h ht

/-- A merged type is defined by some subgraph, as a type of its kind. -/
theorem exists_definition : ∃ s ∈ set.subgraphs, ∃ d ∈ s.definitions,
    s.definition? t.name = some d ∧ d.kind = t.kind := by
  obtain ⟨s, hs, hdefines⟩ := h.mem_names_iff.mp (List.mem_map_of_mem ht)
  obtain ⟨d, hd⟩ := Subgraph.defines_iff.mp hdefines
  exact ⟨s, hs, d, Subgraph.mem_of_definition? hd, hd, h.kind_of_definition? ht hs hd⟩

/-- A field that a subgraph defines in an input type is merged, together with the type that the
subgraph gives to it. -/
theorem exists_inputField_of_mem (hkind : t.kind = .inputObject) {id : SubgraphId} {s : Subgraph}
    (hs : set.subgraph? id = some s) {d : TypeDef} (hd : s.definition? t.name = some d) {g : Field}
    (hg : g ∈ d.fields) :
    ∃ field ∈ t.inputFields, field.name = g.name ∧ (id, g.type) ∈ field.byGraph := by
  have hmem := List.mem_of_getElem? hs
  have hnamed : Subgraph.namedInputFields t.name s =
      d.fields.map fun field => (field.name, field.type) := by
    simp [Subgraph.namedInputFields, Subgraph.partsOf, hd]
  have hpart : (g.name, g.type) ∈ Subgraph.namedInputFields t.name s :=
    hnamed ▸ List.mem_map_of_mem hg
  have hunique : ((Subgraph.namedInputFields t.name s).map Prod.fst).Nodup := by
    rw [hnamed, List.map_map]
    exact ((h.hasProperNames s hmem).parts d (Subgraph.mem_of_definition? hd)).fields
  obtain ⟨field, hfield, hname, htypes⟩ := (MergedSchema.mem_inputFields_iff h.hasProperNames
    h.merged ht hkind).mpr ⟨⟨s, hmem, _, hpart, rfl⟩, rfl⟩
  exact ⟨field, hfield, hname, htypes ▸ SubgraphSet.mem_defining_of_mem hs hunique hpart⟩

/-- The emitted input type has the fields that all subgraphs have which define the type. -/
theorem mem_names_inputFields_iff {names : GraphNames} {fields : List Input}
    (hbody : (emitType names t).body = .inputObject fields) {name : String} :
    name ∈ fields.map Input.name ↔ set.AllHave t.name name := by
  have hkind : t.kind = .inputObject := exists_inputObject_emitType_iff.mp ⟨fields, hbody⟩
  have hkept : name ∈ fields.map Input.name ↔
      ∃ field ∈ t.inputFields, field.byGraph.length = t.byGraph.length ∧ field.name = name := by
    unfold emitType emitBody at hbody
    unfold MergedType.inputFields
    unfold MergedType.kind at hkind
    cases hmerged : t.body with
    | inputObject merged =>
      rw [hmerged] at hbody
      obtain rfl := Body.inputObject.inj hbody
      simp [emitInput, and_assoc]
    | object | interface | union | enum | scalar =>
      rw [hmerged] at hkind
      cases hkind
  rw [hkept]
  constructor
  · rintro ⟨field, hfield, hlength, rfl⟩
    exact (MergedSchema.length_byGraph_eq_iff h.hasProperNames h.merged ht hkind hfield).mp hlength
  · -- some subgraph defines the type, so a field that all have is merged
    intro hall
    obtain ⟨s, hs, d, -, hd, -⟩ := h.exists_definition ht
    obtain ⟨id, hid⟩ := List.mem_iff_getElem?.mp hs
    obtain ⟨g, hg, rfl⟩ := hall s hs d hd
    obtain ⟨field, hfield, hname, -⟩ := h.exists_inputField_of_mem ht hkind hid hd hg
    refine ⟨field, hfield, ?_, hname⟩
    rw [MergedSchema.length_byGraph_eq_iff h.hasProperNames h.merged ht hkind hfield, hname]
    exact hall

/-- A field that a subgraph requires is one that all subgraphs have which define the type. -/
theorem allHave_of_isRequired (hkind : t.kind = .inputObject) {s : Subgraph}
    (hs : s ∈ set.subgraphs) {d : TypeDef} (hd : s.definition? t.name = some d) {g : Field}
    (hg : g ∈ d.fields) (hrequired : g.type.wrapping.isRequired = true) :
    set.AllHave t.name g.name := by
  obtain ⟨id, hid⟩ := List.mem_iff_getElem?.mp hs
  obtain ⟨field, hfield, hname, htype⟩ := h.exists_inputField_of_mem ht hkind hid hd hg
  have hhas := Validation.has_of_isRequired h.valid ht hfield htype hrequired
  intro s' hs' d' hd'
  obtain ⟨id', hid'⟩ := List.mem_iff_getElem?.mp hs'
  have hids := hhas id' ((MergedSchema.mem_ids_byGraph_iff h.hasProperNames h.merged ht).mpr
    ⟨s', hid', d', hd'⟩)
  obtain ⟨-, htypes⟩ := (MergedSchema.mem_inputFields_iff h.hasProperNames h.merged ht hkind).mp
    ⟨field, hfield, hname, rfl⟩
  rw [ByGraph.has_eq_true_iff, htypes, SubgraphSet.mem_ids_defining] at hids
  obtain ⟨s'', hid'', hpart⟩ := hids
  obtain rfl : s' = s'' := Option.some.inj (hid'.symm.trans hid'')
  simpa [Subgraph.namedInputFields, Subgraph.partsOf, hd'] using hpart

end SubgraphSet.MergesTo

/-! ## Emitted input types -/

namespace Supergraph

/-- **An input type keeps exactly the fields that its definitions have in common, and among them
every required one.** What the supergraph lets clients send is known to all subgraphs that define the
type, nothing is lost that all of them know, and no field is lost that some subgraph needs to be
sent. -/
theorem input_fields_are_the_common_ones {set : SubgraphSet} (hset : set.Ingested)
    {options : CompositionOptions} {composed : ComposedSupergraph}
    (h : (set.compose options).supergraph = some composed) {d : TypeDefinition}
    (hd : d ∈ composed.model.types) {fields : List Input} (hbody : d.body = .inputObject fields)
    {s : Subgraph} (hs : s ∈ set.subgraphs) {definition : TypeDef}
    (hdefinition : s.definition? d.name = some definition) :
    (∀ f ∈ fields, ∃ g ∈ definition.fields, g.name = f.name) ∧
      (∀ name, set.AllHave d.name name → ∃ f ∈ fields, f.name = name) ∧
      ∀ g ∈ definition.fields, g.type.wrapping.isRequired = true →
        ∃ f ∈ fields, f.name = g.name := by
  obtain ⟨m, hm, rfl⟩ := hset.exists_mergesTo h
  obtain ⟨t, ht, rfl⟩ := List.mem_map.mp hd
  have hkind : t.kind = .inputObject := exists_inputObject_emitType_iff.mp ⟨fields, hbody⟩
  have hcommon : ∀ name, set.AllHave t.name name → ∃ f ∈ fields, f.name = name :=
    fun _ hall => List.mem_map.mp ((hm.mem_names_inputFields_iff ht hbody).mpr hall)
  refine ⟨?_, hcommon, ?_⟩
  · intro f hf
    have hall := (hm.mem_names_inputFields_iff ht hbody).mp (List.mem_map_of_mem hf)
    exact hall s hs definition hdefinition
  · intro g hg hrequired
    exact hcommon _ (hm.allHave_of_isRequired ht hkind hs hdefinition hg hrequired)

end Supergraph

/-- A schema with a required and an optional field in an input type. -/
def SchemaSource.strictFilter : SchemaSource :=
  ⟨"type Query\x7bx(i:I):Int\x7dinput I\x7ba:Int! b:Int\x7d", "a", none⟩

/-- A schema that has only the required field in common with it. -/
def SchemaSource.looseFilter : SchemaSource :=
  ⟨"input I\x7bc:Int a:Int\x7d", "b", none⟩

theorem SchemaSource.composes_filters :
    ((SubgraphSet.ofSources [strictFilter, looseFilter]).toOption.any fun set =>
      (MergedSchema.ofSubgraphs set).toOption.any fun m =>
        !(set.compose { runSatisfiability := false }).diagnostics.anyFatal &&
          (((Supergraph.emit set m).types.any fun d => d.name == "I" && d.body matches .inputObject _) &&
          ((set.subgraphs.any fun s => (s.definition? "I").any fun d =>
            d.fields.any fun g => g.name == "a" && g.type.wrapping.isRequired) &&
          set.subgraphs.any fun s => (s.definition? "I").any fun d =>
            !d.fields.any fun g => g.name == "b"))) = true := by
  rw [SubgraphSet.ofSources_eq_foldlM_insertSource]
  decide +kernel

namespace Supergraph

/-- The required field is kept, and the optional one, which the other schema lacks, is not. -/
theorem input_fields_are_the_common_ones_of_filters :
    ∃ set composed, SubgraphSet.ofSources [.strictFilter, .looseFilter] = .ok set ∧ set.Ingested ∧
      (set.compose { runSatisfiability := false }).supergraph = some composed ∧
      ∃ d ∈ composed.model.types, d.name = "I" ∧ ∃ fields, d.body = .inputObject fields ∧
        (∃ f ∈ fields, f.name = "a") ∧ ∀ f ∈ fields, f.name ≠ "b" := by
  obtain ⟨set, hset, hmerges⟩ := exists_ok_of_any SchemaSource.composes_filters
  obtain ⟨m, hm, hcomposes⟩ := exists_ok_of_any hmerges
  rw [Bool.and_eq_true, Bool.not_eq_true'] at hcomposes
  obtain ⟨hvalid, hcomposes⟩ := hcomposes
  simp only [List.any_eq_true, Option.any_eq_true, Bool.and_eq_true, Bool.not_eq_true',
    beq_iff_eq, List.any_eq_false] at hcomposes
  obtain ⟨⟨d, hd, hname, hinput⟩, ⟨s, hs, strict, hstrict, g, hg, hgname, hrequired⟩, s', hs',
    loose, hloose, hlacks⟩ := hcomposes
  have hingested := SubgraphSet.ingested_ofSources hset
  have hcomposed := SubgraphSet.supergraph_compose hm hvalid
  split at hinput
  · rename_i fields hbody
    refine ⟨set, _, hset, hingested, hcomposed, d, hd, hname, fields, hbody, ?_, ?_⟩
    · obtain ⟨-, -, hkept⟩ :=
        input_fields_are_the_common_ones hingested hcomposed hd hbody hs (hname ▸ hstrict)
      exact hgname ▸ hkept g hg hrequired
    · obtain ⟨hknown, -, -⟩ :=
        input_fields_are_the_common_ones hingested hcomposed hd hbody hs' (hname ▸ hloose)
      intro f hf hfname
      obtain ⟨g', hg', hsame⟩ := hknown f hf
      exact hlacks g' hg' (hsame.trans hfname)
  · cases hinput

end Supergraph

end Federation
