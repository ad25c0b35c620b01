import Federation.Proofs.Ingestion.Sources
import Federation.Proofs.Merge.EnumValues
import Federation.Proofs.Supergraph.JoinDirectives
import Federation.Proofs.Supergraph.PublicText
import Federation.Proofs.Validation.Rules

/-!
# Enum types that clients see

Clients may only send values that every subgraph takes, and have to expect every value that some
subgraph returns. So an enum type that arguments and input fields use shows values that are defined
everywhere, one that output fields use shows all values, and one that is used both ways has the same
values everywhere.
-/

namespace Federation

/-! ## Hidden values -/

namespace Supergraph

theorem isHidden_append (directives more : List Directive) :
    isHidden (directives ++ more) = (isHidden directives || isHidden more) :=
  List.any_append

theorem isHidden_directiveIf_inaccessible (holds : Bool) :
    isHidden (directiveIf holds .inaccessible) = holds := by
  cases holds <;> rfl

/-- No directive of another name hides an element. -/
theorem isHidden_eq_false {directives : List Directive}
    (h : ∀ d ∈ directives, d.name ≠ "inaccessible") : isHidden directives = false :=
  List.any_eq_false.mpr fun d hd hhides => h d hd (beq_iff_eq.mp hhides)

/-- The directives for metadata hide an element exactly if it is inaccessible. -/
theorem isHidden_metadataDirectives (m : Metadata) :
    isHidden (metadataDirectives m) = m.isInaccessible := by
  have hif : ∀ {holds : Bool} {d : Directive}, d.name ≠ "inaccessible" →
      isHidden (directiveIf holds d) = false := by
    intro holds d hd
    refine isHidden_eq_false fun d' hd' => ?_
    unfold directiveIf at hd'
    split at hd'
    · rwa [List.mem_singleton.mp hd']
    · cases hd'
  have hmap : ∀ {α : Type} {items : List α} {directive : α → Directive},
      (∀ a, (directive a).name ≠ "inaccessible") → isHidden (items.map directive) = false := by
    intro α items directive hname
    refine isHidden_eq_false fun d hd => ?_
    obtain ⟨a, -, rfl⟩ := List.mem_map.mp hd
    exact hname a
  unfold metadataDirectives tagDirectives
  simp only [isHidden_append, isHidden_directiveIf_inaccessible]
  rw [hmap, hif, hif, hif, hmap, hmap]
  · simp
  all_goals simp [deprecatedDirective]

/-- An enum value is hidden in the supergraph exactly if it is hidden from clients. -/
theorem isHidden_emitEnumValue (names : GraphNames) (t : MergedType) (v : MergedEnumValue) :
    isHidden (emitEnumValue names t v).directives = t.isHiddenValue v := by
  have hjoins : isHidden (v.subgraphs.map fun id =>
      ({ name := "join__enumValue", arguments := [graphArgument names id] } : Directive)) = false := by
    refine isHidden_eq_false fun d hd => ?_
    obtain ⟨id, -, rfl⟩ := List.mem_map.mp hd
    simp
  unfold emitEnumValue
  dsimp only
  rw [isHidden_append, isHidden_append, hjoins, isHidden_metadataDirectives,
    isHidden_directiveIf_inaccessible, MergedType.isHiddenValue]
  cases v.metadata.isInaccessible <;> simp

/-- An enum type that clients see is a merged enum type, and shows its values that are not hidden. -/
theorem exists_of_mem_visible_enum {set : SubgraphSet} {m : MergedSchema} {e : TypeDefinition}
    (he : e ∈ (emit set m).visible.types) {shown : List EnumValue} (hbody : e.body = .enum shown) :
    ∃ t ∈ m.types, t.name = e.name ∧ ∃ values, t.body = .enum values ∧
      ∀ name, name ∈ shown.map EnumValue.name ↔
        ∃ v ∈ values, v.name = name ∧ t.isHiddenValue v = false := by
  obtain ⟨d, hd, -, rfl⟩ := Model.mem_types_visible.mp he
  obtain ⟨t, ht, rfl⟩ := List.mem_map.mp hd
  refine ⟨t, ht, rfl, ?_⟩
  change (emitBody set.enumValueOf t).restrict .accessible _ = .enum shown at hbody
  unfold emitBody at hbody
  split at hbody
  case h_4 values hvalues =>
    refine ⟨values, hvalues, fun name => ?_⟩
    rw [← Body.enum.inj hbody]
    simp only [List.mem_map, List.mem_filter, Choice.accessible, Bool.not_eq_true']
    constructor
    · rintro ⟨-, ⟨⟨v, hv, rfl⟩, hshown⟩, rfl⟩
      rw [isHidden_emitEnumValue] at hshown
      exact ⟨v, hv, rfl, hshown⟩
    · rintro ⟨v, hv, rfl, hshown⟩
      rw [← isHidden_emitEnumValue set.enumValueOf] at hshown
      exact ⟨_, ⟨⟨v, hv, rfl⟩, hshown⟩, rfl⟩
  all_goals cases hbody

end Supergraph

/-! ## Safe enum types -/

namespace SubgraphSet

/-- Some subgraph that defines a type has an argument or input field of it. -/
def UsesAsInput (set : SubgraphSet) (typeName : String) : Prop :=
  ∃ s ∈ set.subgraphs, s.defines typeName = true ∧ s.UsesAsInput typeName

/-- Some subgraph that defines a type has an output field of it. -/
def UsesAsOutput (set : SubgraphSet) (typeName : String) : Prop :=
  ∃ s ∈ set.subgraphs, s.defines typeName = true ∧ s.UsesAsOutput typeName

/-- All subgraphs that define a type define a value in it. -/
def DefinesEverywhere (set : SubgraphSet) (typeName value : String) : Prop :=
  ∀ s ∈ set.subgraphs, s.defines typeName = true → s.DefinesValue typeName value

/-- The values that are shown of an enum type are safe for all subgraphs and for clients. -/
structure ShowsSafely (set : SubgraphSet) (typeName : String) (shown : List String) : Prop where
  sound : ∀ value ∈ shown, (∃ s ∈ set.subgraphs, s.DefinesValue typeName value) ∧
    ∀ s ∈ set.subgraphs, ¬ s.HidesValue typeName value
  input : set.UsesAsInput typeName → ∀ value ∈ shown, set.DefinesEverywhere typeName value
  output : set.UsesAsOutput typeName → ∀ value,
    (∃ s ∈ set.subgraphs, s.DefinesValue typeName value) →
      (∀ s ∈ set.subgraphs, ¬ s.HidesValue typeName value) → value ∈ shown
  both : set.UsesAsInput typeName → set.UsesAsOutput typeName → ∀ value,
    (∃ s ∈ set.subgraphs, s.DefinesValue typeName value) → set.DefinesEverywhere typeName value

end SubgraphSet

section

variable {set : SubgraphSet} {m : MergedSchema} {t : MergedType} {values : List MergedEnumValue}

/-- A merged enum type has a value that is not hidden from clients exactly if some subgraph defines
the value and none hides it, and all its subgraphs define it if they only use the type as input. -/
theorem MergedSchema.exists_shown_value_iff (hset : set.Ingested) (hm : ofSubgraphs set = .ok m)
    (ht : t ∈ m.types) (hvalues : t.body = .enum values) (value : String) :
    (∃ v ∈ values, v.name = value ∧ t.isHiddenValue v = false) ↔
      (∃ s ∈ set.subgraphs, s.DefinesValue t.name value) ∧
        (∀ s ∈ set.subgraphs, ¬ s.HidesValue t.name value) ∧
        (set.UsesAsInput t.name → ¬ set.UsesAsOutput t.name →
          set.DefinesEverywhere t.name value) := by
  have hproper := hset.hasProperNames
  have haccessible : ∀ v ∈ values, v.metadata.isInaccessible = false ↔
      ∀ s ∈ set.subgraphs, ¬ s.HidesValue t.name v.name := by
    intro v hv
    rw [← Bool.not_eq_true, isInaccessible_enumValue_iff hproper hm ht hvalues hv]
    simp
  have hintersected : ∀ v ∈ values,
      (t.enumStrategy = .intersection → t.isDefinedEverywhere v = true) ↔
        (set.UsesAsInput t.name → ¬ set.UsesAsOutput t.name →
          set.DefinesEverywhere t.name v.name) := by
    intro v hv
    rw [MergedType.enumStrategy_eq_intersection_iff, and_imp, isUsedAsInput_iff hset hm ht,
      ← Bool.not_eq_true, isUsedAsOutput_iff hset hm ht,
      isDefinedEverywhere_iff hproper hm ht hvalues hv]
    rfl
  rw [← mem_names_enumValues_iff hproper hm ht hvalues, List.mem_map]
  constructor
  · rintro ⟨v, hv, rfl, hshown⟩
    obtain ⟨hvisible, hkept⟩ := MergedType.isHiddenValue_eq_false_iff.mp hshown
    exact ⟨⟨v, hv, rfl⟩, (haccessible v hv).mp hvisible, (hintersected v hv).mp hkept⟩
  · rintro ⟨⟨v, hv, rfl⟩, hvisible, hkept⟩
    refine ⟨v, hv, rfl, MergedType.isHiddenValue_eq_false_iff.mpr ⟨?_, ?_⟩⟩
    · exact (haccessible v hv).mpr hvisible
    · exact (hintersected v hv).mpr hkept

/-- If nothing fatal was found, the subgraphs of an enum type that they use both as input and as
output define the same values. -/
theorem Validation.definesEverywhere_of_usesBoth (hset : set.Ingested)
    (hm : MergedSchema.ofSubgraphs set = .ok m)
    (hvalid : (validate { set := set, merged := m }).anyFatal = false) (ht : t ∈ m.types)
    (hvalues : t.body = .enum values) (hinput : set.UsesAsInput t.name)
    (houtput : set.UsesAsOutput t.name) {value : String}
    (hdefined : ∃ s ∈ set.subgraphs, s.DefinesValue t.name value) :
    set.DefinesEverywhere t.name value := by
  have hproper := hset.hasProperNames
  rw [← MergedSchema.mem_names_enumValues_iff hproper hm ht hvalues, List.mem_map] at hdefined
  obtain ⟨v, hv, rfl⟩ := hdefined
  have hin : t.isUsedAsInput = true := (MergedSchema.isUsedAsInput_iff hset hm ht).mpr hinput
  have hout : t.isUsedAsOutput = true := (MergedSchema.isUsedAsOutput_iff hset hm ht).mpr houtput
  have hstrategy := MergedType.enumStrategy_eq_consistency_iff.mpr (hin.trans hout.symm)
  exact (MergedSchema.isDefinedEverywhere_iff hproper hm ht hvalues hv).mp
    (isDefinedEverywhere_of_consistency hvalid ht hvalues hstrategy hv)

end

/-- A schema with an enum type that an argument uses. -/
def SchemaSource.shades : SchemaSource :=
  ⟨"type Query\x7bx(s:S):ID\x7denum S\x7bR G\x7d", "a", none⟩

/-- A schema with more values in the enum type. -/
def SchemaSource.moreShades : SchemaSource :=
  ⟨"type Query\x7by:ID\x7denum S\x7bR B\x7d", "b", none⟩

/-- The names of the values of an enum type. -/
def Supergraph.Body.valueNames : Supergraph.Body → List String
  | .enum values => values.map Supergraph.EnumValue.name
  | _ => []

/-- Only an enum type has values. -/
theorem Supergraph.Body.exists_of_valueNames {body : Supergraph.Body} {first : String}
    {others : List String} (h : body.valueNames = first :: others) :
    ∃ values, body = .enum values ∧ values.map Supergraph.EnumValue.name = first :: others := by
  cases body with
  | enum values => exact ⟨values, rfl, h⟩
  | object | interface | union | scalar | inputObject => cases h

theorem SchemaSource.composes_shades :
    ((SubgraphSet.ofSources [shades, moreShades]).toOption.any fun set =>
      (MergedSchema.ofSubgraphs set).toOption.any fun m =>
        !(set.compose { runSatisfiability := false }).diagnostics.anyFatal &&
          (Supergraph.emit set m).visible.types.any fun e =>
            e.name == "S" && e.body.valueNames == ["R"]) = true := by decide +kernel

end Federation
