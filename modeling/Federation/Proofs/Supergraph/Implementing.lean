import Federation.Proofs.Supergraph.Alone
import Federation.Proofs.Supergraph.Arguments
import Federation.Proofs.Supergraph.DefaultValues

/-!
# Fields of interfaces in the API schema

A type that implements an interface should show what the interface shows, as far as it has it. There
are two reasons for which a field does not show: it is inaccessible, or its type is hidden. A rule
excludes the first one for fields of interfaces. The second one is left, because the implementing
field may have a narrower type than the field of the interface, and the narrower type may be hidden
while the wider one is not.
-/

namespace Federation

/-! ## Implementations of merged interfaces -/

namespace MergedSchema

variable {set : SubgraphSet} {m : MergedSchema}

/-- An interface knows the merged types that are declared to implement it. -/
theorem mem_implementations (h : ofSubgraphs set = .ok m) {i t : MergedType} (hi : i ∈ m.types)
    (hkind : i.kind = .interface) (ht : t ∈ m.types) (himplements : i.name ∈ t.interfaces) :
    t.name ∈ i.implementations := by
  rw [implementations_of_ofSubgraphs h hi hkind, implementersOf]
  refine List.mem_map_of_mem (List.mem_filter.mpr ⟨ht, ?_⟩)
  exact List.contains_iff_mem.mpr himplements

/-- The fields of a merged type have different names, so each is found by its name. -/
theorem field?_of_mem_fields (h : ofSubgraphs set = .ok m) {t : MergedType} (ht : t ∈ m.types)
    {field : MergedField} (hfield : field ∈ t.fields) : t.field? field.name = some field :=
  find?_key_eq_some (copiesTo_of_ofSubgraphs h ht).nodup_names hfield

/-- **A field that an accessible interface shares with an accessible implementation is accessible**
there if it is accessible in the interface, and nothing fatal was found. -/
theorem isInaccessible_of_implements (h : ofSubgraphs set = .ok m)
    (hvalid : (Validation.validate { set := set, merged := m }).anyFatal = false)
    {i t : MergedType} (hi : i ∈ m.types) (hkind : i.kind = .interface) (ht : t ∈ m.types)
    (himplements : i.name ∈ t.interfaces) (hshown : i.metadata.isInaccessible = false)
    (hvisible : t.metadata.isInaccessible = false) {wide narrow : MergedField}
    (hwide : wide ∈ i.fields) (hopen : wide.metadata.isInaccessible = false)
    (hnarrow : narrow ∈ t.fields) (hname : narrow.name = wide.name) :
    narrow.metadata.isInaccessible = false := by
  have hrule : Validation.implementedByInaccessible ∈ Validation.rules := by simp [Validation.rules]
  have hnone := Validation.anyFatal_onField hvalid hrule hi hwide
  have hfound := (hasUniqueNames_of_ofSubgraphs h).type?_eq_some ht
  have hfield := field?_of_mem_fields h ht hnarrow
  rw [hname] at hfield
  unfold Validation.implementedByInaccessible at hnone
  dsimp only at hnone
  rw [if_neg (by simp [hkind, hshown, hopen])] at hnone
  cases hhidden : narrow.metadata.isInaccessible with
  | false => rfl
  | true =>
    -- the field would make an error
    have herror := fun d hd => List.any_eq_false.mp hnone d
      (List.mem_filterMap.mpr ⟨t.name, mem_implementations h hi hkind ht himplements, hd⟩)
    simp only [hfound, Option.bind_eq_bind, Option.bind_some, hfield, hvisible, hhidden] at herror
    exact absurd (Diagnostic.isFatal_error _ _) (herror _ rfl)

end MergedSchema

/-! ## Shown fields -/

namespace Supergraph

/-- The names of the fields of an object or interface. -/
def Body.fieldNames (body : Body) : List String :=
  body.fields.map Field.name

/-- The type is an interface. -/
def Body.isInterface : Body → Bool
  | .interface _ _ => true
  | _ => false

/-- Of the fields of an interface, a type has all that it was declared with. -/
def Body.Covers (shown whole interface : Body) : Prop :=
  ∀ name ∈ interface.fieldNames, name ∈ whole.fieldNames → name ∈ shown.fieldNames

theorem Body.isInterface_restrict (c : Choice) (hidden : List String) (body : Body) :
    (body.restrict c hidden).isInterface = body.isInterface := by
  cases body <;> rfl

/-- The fields of a name that a type shows are accessible, and their types are not hidden. -/
theorem Body.mem_fieldNames_restrict {hidden : List String} {body : Body} {name : String} :
    name ∈ (body.restrict .accessible hidden).fieldNames ↔
      ∃ g ∈ body.fields, g.name = name ∧ isHidden g.directives = false ∧
        TypeRef.nameOfText g.type ∉ hidden := by
  rw [fieldNames, fields_restrict, List.mem_map]
  constructor
  · rintro ⟨f, hf, rfl⟩
    obtain ⟨g, hg, ⟨hchosen, htype⟩, rfl⟩ := mem_stayingFields.mp hf
    exact ⟨g, hg, rfl, (Bool.not_eq_true' _).mp hchosen, htype⟩
  · rintro ⟨g, hg, rfl, haccessible, htype⟩
    exact ⟨_, mem_stayingFields.mpr ⟨g, hg, ⟨(Bool.not_eq_true' _).mpr haccessible, htype⟩, rfl⟩, rfl⟩

/-- If the fields of a type have different names, a field is shown exactly if it is accessible and its
type is not hidden. -/
theorem Body.name_mem_fieldNames_restrict {hidden : List String} {body : Body}
    (hunique : body.fieldNames.Nodup) {g : Field} (hg : g ∈ body.fields) :
    g.name ∈ (body.restrict .accessible hidden).fieldNames ↔
      isHidden g.directives = false ∧ TypeRef.nameOfText g.type ∉ hidden := by
  rw [mem_fieldNames_restrict]
  constructor
  · rintro ⟨g', hg', hname, hshown⟩
    obtain rfl := List.inj_on_of_nodup_map hunique hg' hg hname
    exact hshown
  · exact fun hshown => ⟨g, hg, rfl, hshown⟩

/-- The fields of an emitted type have different names. -/
theorem nodup_fieldNames_emit {set : SubgraphSet} {m : MergedSchema}
    (h : MergedSchema.ofSubgraphs set = .ok m) {t : MergedType} (ht : t ∈ m.types) :
    (emitType set.enumValueOf t).body.fieldNames.Nodup := by
  rw [Body.fieldNames, fields_emitType, List.map_map]
  exact (MergedSchema.copiesTo_of_ofSubgraphs h ht).nodup_names

/-- Interfaces are emitted as interfaces. -/
theorem kind_eq_interface_of_emitType {names : GraphNames} {t : MergedType}
    (h : (emitType names t).body.isInterface = true) : t.kind = .interface := by
  unfold emitType emitBody at h
  unfold MergedType.kind
  cases hbody : t.body with
  | interface => rfl
  | object | union | enum | scalar | inputObject =>
    rw [hbody] at h
    cases h

/-- A field that an implementation shares with the shown part of an interface is not inaccessible. -/
theorem isHidden_of_implements {set : SubgraphSet} {m : MergedSchema} (h : set.MergesTo m)
    {d i : TypeDefinition} (hd : d ∈ (emit set m).types)
    (hvisible : d.name ∉ (emit set m).hiddenTypes) (hi : i ∈ (emit set m).visible.types)
    (hinterface : i.body.isInterface = true) (himplements : i.name ∈ d.body.interfaces) {g : Field}
    (hg : g ∈ d.body.fields) (hshared : g.name ∈ i.body.fieldNames) :
    isHidden g.directives = false := by
  obtain ⟨whole, hwhole, hshown, rfl⟩ := Model.mem_types_visible.mp hi
  obtain ⟨f, hf, hname, haccessible, -⟩ := Body.mem_fieldNames_restrict.mp hshared
  have haccess := Model.isHidden_of_notMem_hiddenTypes hd hvisible
  have hshows := Model.isHidden_of_notMem_hiddenTypes hwhole hshown
  obtain ⟨t, ht, rfl⟩ := List.mem_map.mp hd
  obtain ⟨u, hu, rfl⟩ := List.mem_map.mp hwhole
  obtain ⟨narrow, hnarrow, rfl⟩ := exists_of_mem_fields_emitType hg
  obtain ⟨wide, hwide, rfl⟩ := exists_of_mem_fields_emitType hf
  rw [isHidden_emitField] at haccessible ⊢
  rw [isHidden_emitType] at haccess hshows
  rw [interfaces_emitType] at himplements
  exact MergedSchema.isInaccessible_of_implements h.merged h.valid hu
    (kind_eq_interface_of_emitType ((Body.isInterface_restrict _ _ _).symm.trans hinterface)) ht
    himplements hshows haccess hwide haccessible hnarrow hname.symm

/-- The shown fields of an interface are covered by the shown part of a type that implements it exactly
if those that it shares have types that are shown. -/
theorem covers_iff {set : SubgraphSet} {m : MergedSchema} (h : set.MergesTo m)
    {d i : TypeDefinition} (hd : d ∈ (emit set m).types)
    (hvisible : d.name ∉ (emit set m).hiddenTypes) (hi : i ∈ (emit set m).visible.types)
    (hinterface : i.body.isInterface = true) (himplements : i.name ∈ d.body.interfaces) :
    (d.restrict .accessible (emit set m).hiddenTypes).body.Covers d.body i.body ↔
      ∀ g ∈ d.body.fields, g.name ∈ i.body.fieldNames →
        TypeRef.nameOfText g.type ∉ (emit set m).hiddenTypes := by
  have hunique : d.body.fieldNames.Nodup := by
    obtain ⟨t, ht, rfl⟩ := List.mem_map.mp hd
    exact nodup_fieldNames_emit h.merged ht
  constructor
  · intro hcovers g hg hshared
    have hshown := hcovers g.name hshared (List.mem_map_of_mem hg)
    exact ((Body.name_mem_fieldNames_restrict hunique hg).mp hshown).2
  · intro hall name hshared hname
    obtain ⟨g, hg, rfl⟩ := List.mem_map.mp hname
    refine (Body.name_mem_fieldNames_restrict hunique hg).mpr ⟨?_, hall g hg hshared⟩
    exact isHidden_of_implements h hd hvisible hi hinterface himplements hg hshared

/-- **A type shows the fields of its interfaces as far as their types are shown.** The API schema is
the text of the visible types. Of the fields that a visible interface shows, a visible type that
implements it shows those that it has, except those with a hidden type: none of them is inaccessible
itself, so all of them are shown exactly if no type of theirs is hidden. This is so for fields with
the type that the interface gives them, but no rule looks at narrower types. -/
theorem implementations_cover_iff_types_are_shown {set : SubgraphSet} (hset : set.Ingested)
    {options : CompositionOptions} {composed : ComposedSupergraph}
    (h : (set.compose options).supergraph = some composed) :
    composed.publicText = fullText (composed.model.visible.types.map TypeDefinition.bare) ∧
      ∀ d ∈ composed.model.visible.types, ∀ i ∈ composed.model.visible.types,
        i.body.isInterface = true → i.name ∈ d.body.interfaces →
          ∀ whole ∈ composed.model.types, whole.name = d.name →
            (∀ g ∈ whole.body.fields, g.name ∈ i.body.fieldNames →
              isHidden g.directives = false ∧
                ∀ f ∈ i.body.fields, f.name = g.name →
                  TypeRef.nameOfText f.type = TypeRef.nameOfText g.type →
                    g.name ∈ d.body.fieldNames) ∧
            (d.body.Covers whole.body i.body ↔
              ∀ g ∈ whole.body.fields, g.name ∈ i.body.fieldNames →
                TypeRef.nameOfText g.type ∉ composed.model.hiddenTypes) := by
  obtain ⟨m, hmerges, rfl⟩ := hset.exists_mergesTo h
  refine ⟨Model.publicText_eq _, fun d hd i hi hinterface himplements whole hwhole hname => ?_⟩
  obtain ⟨original, horiginal, hvisible, rfl⟩ := Model.mem_types_visible.mp hd
  -- the type before anything was hidden is the only one of its name
  obtain rfl := List.inj_on_of_nodup_map (nodup_names_emit hmerges.merged) hwhole horiginal hname
  have hdeclared : i.name ∈ whole.body.interfaces := by
    rw [TypeDefinition.restrict, Body.interfaces_restrict] at himplements
    exact (mem_shownNames.mp himplements).1
  have haccessible : ∀ g ∈ whole.body.fields, g.name ∈ i.body.fieldNames →
      isHidden g.directives = false := fun g hg hshared =>
    isHidden_of_implements hmerges horiginal hvisible hi hinterface hdeclared hg hshared
  refine ⟨fun g hg hshared => ⟨haccessible g hg hshared, fun f hf _ htype => ?_⟩,
    covers_iff hmerges horiginal hvisible hi hinterface hdeclared⟩
  -- the interface shows its field, so the type of the field is not hidden
  have hshown : TypeRef.nameOfText f.type ∉ (emit set m).hiddenTypes := by
    obtain ⟨e, -, -, rfl⟩ := Model.mem_types_visible.mp hi
    rw [TypeDefinition.restrict, Body.fields_restrict] at hf
    obtain ⟨e, -, ⟨-, hshown⟩, rfl⟩ := mem_stayingFields.mp hf
    exact hshown
  exact Body.mem_fieldNames_restrict.mpr
    ⟨g, hg, rfl, haccessible g hg hshared, htype ▸ hshown⟩

end Supergraph

/-- A schema with an implementing field of a type that is hidden, while the field of the interface has
a type that is not. -/
def SchemaSource.hiddenNarrowing : SchemaSource :=
  ⟨"type Query\x7bi:I\x7dinterface I\x7bf:A\x7dinterface A\x7bx:ID\x7d" ++
      "type O implements I\x7bf:B y:ID\x7dtype B implements A@inaccessible\x7bx:ID\x7d", "a", none⟩

theorem SchemaSource.composes_hiddenNarrowing :
    ((SubgraphSet.ofSources [hiddenNarrowing]).toOption.any fun set =>
      (MergedSchema.ofSubgraphs set).toOption.any fun m =>
        !(set.compose { runSatisfiability := false }).diagnostics.anyFatal &&
          ((((Supergraph.emit set m).visible.types.any fun d => d.name == "O" &&
              (d.body.interfaces.contains "I" && d.body.fieldNames == ["y"])) &&
            (Supergraph.emit set m).visible.types.any fun i => i.name == "I" &&
              (i.body.isInterface && i.body.fieldNames == ["f"])) &&
            (Supergraph.emit set m).types.any fun whole => whole.name == "O" &&
              whole.body.fieldNames == ["f", "y"])) = true := by
  rw [SubgraphSet.ofSources_eq_foldlM_insertSource]
  decide +kernel

/-- The schema composes, and the API schema shows the field in the interface only. -/
theorem SubgraphSet.exists_composed_hiddenNarrowing :
    ∃ set composed, SubgraphSet.ofSources [.hiddenNarrowing] = .ok set ∧ set.Ingested ∧
      (set.compose { runSatisfiability := false }).supergraph = some composed ∧
      ∃ d ∈ composed.model.visible.types, ∃ i ∈ composed.model.visible.types,
        ∃ whole ∈ composed.model.types, i.body.isInterface = true ∧ i.name ∈ d.body.interfaces ∧
          whole.name = d.name ∧ d.body.fieldNames = ["y"] ∧ i.body.fieldNames = ["f"] ∧
          whole.body.fieldNames = ["f", "y"] := by
  obtain ⟨set, hset, hmerges⟩ := exists_ok_of_any SchemaSource.composes_hiddenNarrowing
  obtain ⟨m, hm, hcomposes⟩ := exists_ok_of_any hmerges
  rw [Bool.and_eq_true, Bool.not_eq_true'] at hcomposes
  obtain ⟨hvalid, hcomposes⟩ := hcomposes
  simp only [List.any_eq_true, Bool.and_eq_true, beq_iff_eq, List.contains_iff_mem] at hcomposes
  obtain ⟨⟨⟨d, hd, hname, himplements, hshown⟩, i, hi, hiname, hinterface, hfields⟩,
    whole, hwhole, hwholename, hall⟩ := hcomposes
  exact ⟨set, _, hset, ingested_ofSources hset, supergraph_compose hm hvalid, d, hd, i, hi, whole,
    hwhole, hinterface, hiname ▸ himplements, hwholename.trans hname.symm, hshown, hfields, hall⟩

namespace Supergraph

/-- The implementing field has a hidden type, so the type does not show it. -/
theorem implementations_cover_iff_types_are_shown_of_hiddenNarrowing :
    ∃ set composed, SubgraphSet.ofSources [.hiddenNarrowing] = .ok set ∧ set.Ingested ∧
      (set.compose { runSatisfiability := false }).supergraph = some composed ∧
      ∃ whole ∈ composed.model.types, ∃ g ∈ whole.body.fields, isHidden g.directives = false ∧
        TypeRef.nameOfText g.type ∈ composed.model.hiddenTypes := by
  obtain ⟨set, composed, hset, hingested, hcomposed, d, hd, i, hi, whole, hwhole, hinterface,
    himplements, hname, hshown, hfields, hall⟩ := SubgraphSet.exists_composed_hiddenNarrowing
  obtain ⟨haccessible, hcovers⟩ :=
    (implementations_cover_iff_types_are_shown hingested hcomposed).2 d hd i hi hinterface
      himplements whole hwhole hname
  have huncovered : ¬ d.body.Covers whole.body i.body := by
    intro hcovered
    have hmem := hcovered "f" (by simp [hfields]) (by simp [hall])
    rw [hshown] at hmem
    exact absurd hmem (by decide)
  rw [hcovers] at huncovered
  push Not at huncovered
  obtain ⟨g, hg, hshared, hhidden⟩ := huncovered
  exact ⟨set, composed, hset, hingested, hcomposed, whole, hwhole, g, hg,
    (haccessible g hg hshared).1, hhidden⟩

/-- A type may lack a field of its interface in the API schema although it has it. -/
theorem implementation_lacks_interface_field :
    ¬ ∀ set : SubgraphSet, set.Ingested → ∀ options composed,
      (set.compose options).supergraph = some composed →
        ∀ d ∈ composed.model.visible.types, ∀ i ∈ composed.model.visible.types,
          i.body.isInterface = true → i.name ∈ d.body.interfaces →
            ∀ whole ∈ composed.model.types, whole.name = d.name →
              d.body.Covers whole.body i.body := by
  intro hcovers
  obtain ⟨set, composed, -, hingested, hcomposed, d, hd, i, hi, whole, hwhole, hinterface,
    himplements, hname, hshown, hfields, hall⟩ := SubgraphSet.exists_composed_hiddenNarrowing
  have hmem := hcovers set hingested _ composed hcomposed d hd i hi hinterface himplements whole
    hwhole hname "f" (by simp [hfields]) (by simp [hall])
  rw [hshown] at hmem
  exact absurd hmem (by decide)

end Supergraph

end Federation
