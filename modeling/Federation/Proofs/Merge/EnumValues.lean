import Federation.Proofs.Ingestion.Subgraphs
import Federation.Proofs.Merge.Contents

/-!
# Values of merged enum types

A merged enum type has the values that some subgraph defines, each with the subgraphs that define it.
Its values are merged by how the subgraphs that define the type use it.
-/

namespace Federation

/-! ## Tables of values -/

namespace MergedEnumValue

variable {changes : List (SubgraphId × EnumValue)}

/-- Every value of a table has gone through the changes of its name. -/
theorem eq_ofEntries_of_mem_table {v : MergedEnumValue} (h : v ∈ table changes) :
    v = ofEntries v.name (changes.filter fun c => c.2.name == v.name) := by
  unfold table at h
  obtain ⟨first, rest, hfilter, hv⟩ :=
    exists_of_mem_upsertAll (by exact fun _ => rfl) (by exact fun _ _ => rfl) h
  have hname : first.2.name = v.name := by
    have hmem : first ∈ changes.filter fun c => c.2.name == v.name := hfilter ▸ List.mem_cons_self
    simpa using (List.mem_filter.mp hmem).2
  rw [hfilter, ← hname]
  exact hv

/-- A table has values of the names that come up. -/
theorem mem_names_table {value : String} :
    value ∈ (table changes).map name ↔ ∃ c ∈ changes, c.2.name = value := by
  have hnames : (table changes).map name =
      (changes.map fun c => c.2.name).foldl Attributes.addNew [] := by
    unfold table
    refine map_key_upsertAll ?_ ?_ [] changes
    · exact fun _ => rfl
    · exact fun _ _ => rfl
  rw [hnames, Attributes.mem_foldl_addNew]
  simp

theorem subgraphs_ofEntries (name : String) (entries : List (SubgraphId × EnumValue)) :
    (ofEntries name entries).subgraphs = (entries.map Prod.fst).foldl Attributes.addNew [] := by
  rw [List.foldl_map]
  exact (List.foldl_hom subgraphs fun _ _ => rfl).symm

/-- A value lists the subgraphs that define it. -/
theorem mem_subgraphs_of_mem_table {v : MergedEnumValue} (h : v ∈ table changes)
    {id : SubgraphId} : id ∈ v.subgraphs ↔ ∃ value, (id, value) ∈ changes ∧ value.name = v.name := by
  have hsubgraphs := congrArg subgraphs (eq_ofEntries_of_mem_table h)
  rw [hsubgraphs, subgraphs_ofEntries, Attributes.mem_foldl_addNew]
  simp

/-- A value is inaccessible exactly if some subgraph says so. -/
theorem isInaccessible_of_mem_table {v : MergedEnumValue} (h : v ∈ table changes) :
    v.metadata.isInaccessible = true ↔
      ∃ c ∈ changes, c.2.name = v.name ∧ c.2.attributes.isInaccessible = true := by
  have hmetadata := congrArg metadata (eq_ofEntries_of_mem_table h)
  rw [hmetadata, metadata_ofEntries, Metadata.isInaccessible_absorbAll_iff]
  simp [and_assoc]

end MergedEnumValue

/-! ## Strategies -/

namespace MergedType

theorem enumStrategy_eq_intersection_iff {t : MergedType} :
    t.enumStrategy = .intersection ↔ t.isUsedAsInput = true ∧ t.isUsedAsOutput = false := by
  unfold enumStrategy
  cases t.isUsedAsInput <;> cases t.isUsedAsOutput <;> decide

theorem enumStrategy_eq_consistency_iff {t : MergedType} :
    t.enumStrategy = .consistency ↔ t.isUsedAsInput = t.isUsedAsOutput := by
  unfold enumStrategy
  cases t.isUsedAsInput <;> cases t.isUsedAsOutput <;> decide

/-- A value is shown if it is accessible, and defined everywhere where that is needed. -/
theorem isHiddenValue_eq_false_iff {t : MergedType} {v : MergedEnumValue} :
    t.isHiddenValue v = false ↔ v.metadata.isInaccessible = false ∧
      (t.enumStrategy = .intersection → t.isDefinedEverywhere v = true) := by
  unfold isHiddenValue
  simp

end MergedType

/-! ## What subgraphs say about values -/

namespace Subgraph

theorem defines_iff {s : Subgraph} {name : String} :
    s.defines name = true ↔ ∃ d, s.definition? name = some d := by
  rw [← Option.isSome_iff_exists, definition?, List.find?_isSome, defines, List.any_eq_true]

/-- The subgraph defines a value in the type of a name. -/
def DefinesValue (s : Subgraph) (typeName value : String) : Prop :=
  ∃ d, s.definition? typeName = some d ∧ ∃ v ∈ d.enumValues, v.name = value

/-- The subgraph marks a value in the type of a name as inaccessible. -/
def HidesValue (s : Subgraph) (typeName value : String) : Prop :=
  ∃ d, s.definition? typeName = some d ∧
    ∃ v ∈ d.enumValues, v.name = value ∧ v.attributes.isInaccessible = true

end Subgraph

namespace MergedSchema

variable {set : SubgraphSet} {m : MergedSchema} {t : MergedType}

/-- The values of a merged enum type are the table of what the subgraphs define. -/
theorem enumValues_of_ofSubgraphs (hset : set.HasProperNames) (h : ofSubgraphs set = .ok m)
    (ht : t ∈ m.types) {values : List MergedEnumValue} (hbody : t.body = .enum values) :
    values = MergedEnumValue.table
      (set.parts (Subgraph.partsOf t.name fun _ d => d.enumValues)) := by
  have hfound := (hasUniqueNames_of_ofSubgraphs h).type?_eq_some ht
  obtain ⟨-, hfinishes⟩ := exists_entries_of_type? h hfound
  have hkind : t.kind = .enum := by rw [MergedType.kind, hbody]; rfl
  have hbodies := hfinishes.body
  rw [MergedType.body_ofEntries, hkind, hbody] at hbodies
  have htable : MergedBody.enum values = .enum
      (MergedEnumValue.table ((set.entriesOf t.name).flatMap TypeEntry.enumValues)) := by
    generalize hmade : MergedBody.ofEntries .enum (set.entriesOf t.name) = made at hbodies
    cases hbodies with
    | same => exact hmade.symm
  rw [MergedBody.enum.inj htable]
  congr 1
  exact hset.flatMap_entriesOf t.name fun _ d => d.enumValues

/-- If definitions are marked with what their subgraphs do, some definition of a merged type is marked
exactly if a subgraph that defines the type does it. -/
theorem any_byGraph_iff (hset : set.HasProperNames) (h : ofSubgraphs set = .ok m)
    (ht : t ∈ m.types) {mark : TypeDef → Bool} {Does : Subgraph → String → Prop}
    (hmarks : ∀ s ∈ set.subgraphs, ∀ d ∈ s.definitions, (mark d = true ↔ Does s d.name)) :
    (t.byGraph.any fun entry => mark entry.2) = true ↔
      ∃ s ∈ set.subgraphs, s.defines t.name = true ∧ Does s t.name := by
  rw [List.any_eq_true]
  constructor
  · rintro ⟨⟨id, d⟩, hentry, hmark⟩
    obtain ⟨s, hid, hd⟩ := (mem_byGraph_iff hset h ht).mp hentry
    have hs := List.mem_of_getElem? hid
    refine ⟨s, hs, Subgraph.defines_iff.mpr ⟨d, hd⟩, ?_⟩
    rw [← Subgraph.name_of_definition? hd]
    exact (hmarks s hs d (Subgraph.mem_of_definition? hd)).mp hmark
  · rintro ⟨s, hs, hdefined, hdoes⟩
    obtain ⟨id, hid⟩ := List.mem_iff_getElem?.mp hs
    obtain ⟨d, hd⟩ := Subgraph.defines_iff.mp hdefined
    refine ⟨(id, d), (mem_byGraph_iff hset h ht).mpr ⟨s, hid, hd⟩, ?_⟩
    refine (hmarks s hs d (Subgraph.mem_of_definition? hd)).mpr ?_
    rw [Subgraph.name_of_definition? hd]
    exact hdoes

/-- A merged type is used as input if a subgraph that defines it has an argument or input field of
it. -/
theorem isUsedAsInput_iff (hset : set.Ingested) (h : ofSubgraphs set = .ok m) (ht : t ∈ m.types) :
    t.isUsedAsInput = true ↔
      ∃ s ∈ set.subgraphs, s.defines t.name = true ∧ s.UsesAsInput t.name :=
  any_byGraph_iff hset.hasProperNames h ht fun s hs => (hset.marksUses s hs).input

/-- A merged type is used as output if a subgraph that defines it has an output field of it. -/
theorem isUsedAsOutput_iff (hset : set.Ingested) (h : ofSubgraphs set = .ok m) (ht : t ∈ m.types) :
    t.isUsedAsOutput = true ↔
      ∃ s ∈ set.subgraphs, s.defines t.name = true ∧ s.UsesAsOutput t.name :=
  any_byGraph_iff hset.hasProperNames h ht fun s hs => (hset.marksUses s hs).output

section

variable (hset : set.HasProperNames) (h : ofSubgraphs set = .ok m) (ht : t ∈ m.types)
  {values : List MergedEnumValue} (hbody : t.body = .enum values)

include hset h ht hbody

/-- A merged enum type has the values that some subgraph defines. -/
theorem mem_names_enumValues_iff {value : String} :
    value ∈ values.map MergedEnumValue.name ↔
      ∃ s ∈ set.subgraphs, s.DefinesValue t.name value := by
  rw [enumValues_of_ofSubgraphs hset h ht hbody, MergedEnumValue.mem_names_table]
  exact SubgraphSet.exists_mem_parts_iff fun v : EnumValue => v.name = value

variable {v : MergedEnumValue} (hv : v ∈ values)

include hv

/-- A value of a merged enum type is inaccessible if some subgraph says so. -/
theorem isInaccessible_enumValue_iff :
    v.metadata.isInaccessible = true ↔ ∃ s ∈ set.subgraphs, s.HidesValue t.name v.name := by
  rw [enumValues_of_ofSubgraphs hset h ht hbody] at hv
  rw [MergedEnumValue.isInaccessible_of_mem_table hv]
  exact SubgraphSet.exists_mem_parts_iff fun value : EnumValue =>
    value.name = v.name ∧ value.attributes.isInaccessible = true

/-- A value is defined everywhere if all subgraphs that define its type define it. -/
theorem isDefinedEverywhere_iff :
    t.isDefinedEverywhere v = true ↔
      ∀ s ∈ set.subgraphs, s.defines t.name = true → s.DefinesValue t.name v.name := by
  rw [enumValues_of_ofSubgraphs hset h ht hbody] at hv
  have hdefines : ∀ id s, set.subgraph? id = some s →
      (id ∈ v.subgraphs ↔ s.DefinesValue t.name v.name) := by
    intro id s hs
    rw [MergedEnumValue.mem_subgraphs_of_mem_table hv]
    constructor
    · rintro ⟨value, hvalue, hname⟩
      obtain ⟨s', hs', d, hd, hmem⟩ := SubgraphSet.mem_parts_partsOf.mp hvalue
      obtain rfl := Option.some.inj (hs.symm.trans hs')
      exact ⟨d, hd, value, hmem, hname⟩
    · rintro ⟨d, hd, value, hmem, hname⟩
      exact ⟨value, SubgraphSet.mem_parts_partsOf.mpr ⟨s, hs, d, hd, hmem⟩, hname⟩
  unfold MergedType.isDefinedEverywhere
  rw [List.all_eq_true]
  constructor
  · intro hall s hs hdefined
    obtain ⟨id, hid⟩ := List.mem_iff_getElem?.mp hs
    obtain ⟨d, hd⟩ := Subgraph.defines_iff.mp hdefined
    have hmem := hall (id, d) ((mem_byGraph_iff hset h ht).mpr ⟨s, hid, hd⟩)
    exact (hdefines id s hid).mp (List.contains_iff_mem.mp hmem)
  · rintro hall ⟨id, d⟩ hentry
    obtain ⟨s, hs, hd⟩ := (mem_byGraph_iff hset h ht).mp hentry
    have hdefined := hall s (List.mem_of_getElem? hs) (Subgraph.defines_iff.mpr ⟨d, hd⟩)
    exact List.contains_iff_mem.mpr ((hdefines id s hs).mpr hdefined)

end

end MergedSchema

end Federation
