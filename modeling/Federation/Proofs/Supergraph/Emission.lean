import Mathlib
import Federation.Proofs.Ingestion.Evaluation
import Federation.Proofs.Merge.Consensus
import Federation.Proofs.Merge.Origins
import Federation.Proofs.Supergraph.JoinDirectives

/-!
# What a supergraph tells about its subgraphs

Everything that merged types and fields say about the single subgraphs can be read off the join
directives of the supergraph. The values of the subgraphs in the enumeration tell them apart, a type
is defined once in each of its subgraphs, and its fields are defined in some of them, so that a field
without directives, which is defined in as many subgraphs as its type, is defined in the same ones.
-/

namespace Federation

/-! ## Merged types and their subgraphs -/

/-- A merged type is about different subgraphs of a number of subgraphs, and so are its parts. -/
structure MergedType.IsAbout (count : Nat) (t : MergedType) : Prop where
  ids : ∀ e ∈ t.byGraph, e.1 < count
  unique : t.byGraph.Pairwise fun a b => a.1 ≠ b.1
  fields : ∀ field ∈ t.fields, field.byGraph.ids.Sublist t.byGraph.ids
  fieldTypes : ∀ field ∈ t.fields, ∀ e ∈ field.byGraph, e.2.type.HasPlainName
  members : ∀ m ∈ t.members, ∀ id ∈ m.subgraphs, id < count
  uniqueMembers : (t.members.map MergedMember.name).Nodup
  values : ∀ v ∈ t.enumValues, ∀ id ∈ v.subgraphs, id < count

/-- Items that each have at most one part, of their own label, have their labels in order. -/
theorem map_flatMap_sublist {α β γ : Type} {parts : α → List β} {label : α → γ} {labelOf : β → γ}
    {items : List α}
    (h : ∀ a ∈ items, (parts a).map labelOf = [] ∨ (parts a).map labelOf = [label a]) :
    ((items.flatMap parts).map labelOf).Sublist (items.map label) := by
  induction items with
  | nil => exact .slnil
  | cons a items ih =>
    obtain ⟨ha, hitems⟩ := List.forall_mem_cons.mp h
    rw [List.flatMap_cons, List.map_append, List.map_cons]
    rcases ha with ha | ha
    · rw [ha]
      exact (ih hitems).cons _
    · rw [ha]
      exact (ih hitems).cons_cons _

/-- A field is defined by some of the subgraphs that define its type, in their order. -/
theorem SubgraphSet.HasProperNames.fieldEntriesOf_sublist {set : SubgraphSet}
    (h : set.HasProperNames) (typeName name : String) :
    ((set.fieldEntriesOf typeName name).map Prod.fst).Sublist
      ((set.entriesOf typeName).map TypeEntry.id) := by
  rw [fieldEntriesOf, fieldsOf, List.filter_flatMap]
  refine map_flatMap_sublist fun e he => ?_
  obtain ⟨hs, hd⟩ := mem_typeEntries.mp (mem_entriesOf.mp he).1
  have hunique := ((h e.subgraph (List.mem_of_getElem? hs)).parts e.definition hd).fields
  have hfields : (e.fields.filter fun e => e.2.definition.name == name) =
      (e.definition.fields.filter fun field => field.name == name).map fun field =>
        (e.id, .of e.subgraph e.definition field) := List.filter_map
  rw [hfields, List.map_map]
  by_cases hfound : ∃ field ∈ e.definition.fields, field.name = name
  · obtain ⟨field, hfield, rfl⟩ := hfound
    right
    rw [filter_key_eq_singleton hunique hfield]
    rfl
  · left
    rw [List.map_eq_nil_iff, List.filter_eq_nil_iff]
    intro field hfield heq
    exact hfound ⟨field, hfield, beq_iff_eq.mp heq⟩

namespace MergedType

theorem Finishes.members_eq {t t' : MergedType} (h : t.Finishes t') : t'.members = t.members := by
  have hbody := h.body
  unfold members
  generalize t.body = body at hbody ⊢
  generalize t'.body = body' at hbody ⊢
  cases hbody <;> rfl

theorem Finishes.enumValues_eq {t t' : MergedType} (h : t.Finishes t') :
    t'.enumValues = t.enumValues := by
  have hbody := h.body
  unfold enumValues
  generalize t.body = body at hbody ⊢
  generalize t'.body = body' at hbody ⊢
  cases hbody <;> rfl

/-- The members that entries add up to. -/
theorem members_ofEntries (name : String) (kind : TypeKind) (entries : List TypeEntry) :
    (ofEntries name kind entries).members =
      if kind = .union then MergedMember.table (entries.flatMap TypeEntry.members) else [] := by
  unfold members
  rw [body_ofEntries]
  cases kind <;> rfl

/-- The values that entries add up to. -/
theorem enumValues_ofEntries (name : String) (kind : TypeKind) (entries : List TypeEntry) :
    (ofEntries name kind entries).enumValues =
      if kind = .enum then MergedEnumValue.table (entries.flatMap TypeEntry.enumValues) else [] := by
  unfold enumValues
  rw [body_ofEntries]
  cases kind <;> rfl

end MergedType

/-- What holds of the subgraphs that declare members holds of all subgraphs of the members. -/
theorem MergedMember.forall_mem_table {P : SubgraphId → Prop}
    {changes : List (SubgraphId × String)} (h : ∀ c ∈ changes, P c.1) :
    ∀ m ∈ table changes, ∀ id ∈ m.subgraphs, P id := by
  refine forall_mem_upsertAll (fun _ hm => absurd hm List.not_mem_nil) ?_ ?_
  · exact fun _ _ _ hid => absurd hid List.not_mem_nil
  · intro c hc m hm id hid
    rcases Attributes.mem_addNew.mp hid with hid | rfl
    · exact hm id hid
    · exact h c hc

/-- Members have different names. -/
theorem MergedMember.nodup_table (changes : List (SubgraphId × String)) :
    ((table changes).map MergedMember.name).Nodup := by
  have hempty : (([] : List MergedMember).map MergedMember.name).Nodup := List.nodup_nil
  refine nodup_upsertAll ?_ ?_ hempty changes
  · exact fun _ => rfl
  · exact fun _ _ => rfl

/-- What holds of the subgraphs that define values holds of all subgraphs of the values. -/
theorem MergedEnumValue.forall_mem_table {P : SubgraphId → Prop}
    {changes : List (SubgraphId × EnumValue)} (h : ∀ c ∈ changes, P c.1) :
    ∀ v ∈ table changes, ∀ id ∈ v.subgraphs, P id := by
  refine forall_mem_upsertAll (fun _ hv => absurd hv List.not_mem_nil) ?_ ?_
  · exact fun _ _ _ hid => absurd hid List.not_mem_nil
  · intro c hc v hv id hid
    rcases Attributes.mem_addNew.mp hid with hid | rfl
    · exact hv id hid
    · exact h c hc

namespace MergedSchema

variable {set : SubgraphSet} {m : MergedSchema}

/-- The fields of a merged type are defined by some of its subgraphs. -/
theorem fields_sublist (hset : set.HasProperNames) (h : ofSubgraphs set = .ok m) {name : String}
    {t : MergedType} (ht : m.type? name = some t) {field : MergedField} (hfield : field ∈ t.fields) :
    field.byGraph.ids.Sublist t.byGraph.ids := by
  have hids : t.byGraph.ids = (set.entriesOf name).map TypeEntry.id := by
    rw [byGraph_of_type? hset h ht, ByGraph.ids, List.map_map]
    rfl
  rw [byGraph_of_mem_fields hset h ht hfield, hids]
  exact hset.fieldEntriesOf_sublist name field.name

/-- The types that subgraphs give to a merged field have names without marks. -/
theorem hasPlainName_of_mem_fields (hset : set.HasProperNames) (h : ofSubgraphs set = .ok m)
    {name : String} {t : MergedType} (ht : m.type? name = some t) {field : MergedField}
    (hfield : field ∈ t.fields) : ∀ e ∈ field.byGraph, e.2.type.HasPlainName := by
  rw [byGraph_of_mem_fields hset h ht hfield]
  intro entry hentry
  obtain ⟨e, he, hentry⟩ := List.mem_flatMap.mp (List.mem_of_mem_filter hentry)
  obtain ⟨f, hf, rfl⟩ := List.mem_map.mp hentry
  obtain ⟨hs, hd⟩ := SubgraphSet.mem_typeEntries.mp (SubgraphSet.mem_entriesOf.mp he).1
  exact ((hset e.subgraph (List.mem_of_getElem? hs)).parts e.definition hd).fieldTypes f hf

/-- **Merged types are about the subgraphs of their set.** -/
theorem isAbout_of_ofSubgraphs (hset : set.HasProperNames) (h : ofSubgraphs set = .ok m)
    {t : MergedType} (ht : t ∈ m.types) : t.IsAbout set.subgraphs.length := by
  have htype := (hasUniqueNames_of_ofSubgraphs h).type?_eq_some ht
  have hbyGraph := byGraph_of_type? hset h htype
  obtain ⟨-, hfinishes⟩ := exists_entries_of_type? h htype
  have hid : ∀ e ∈ set.entriesOf t.name, e.id < set.subgraphs.length := by
    intro e he
    obtain ⟨hs, -⟩ := SubgraphSet.mem_typeEntries.mp (SubgraphSet.mem_entriesOf.mp he).1
    exact (List.getElem?_eq_some_iff.mp hs).1
  refine ⟨?_, ?_, fun field => fields_sublist hset h htype, fun field => ?_, ?_, ?_, ?_⟩
  · rw [hbyGraph, List.forall_mem_map]
    exact hid
  · rw [hbyGraph, List.pairwise_map]
    exact hset.pairwise_entriesOf t.name
  · exact hasPlainName_of_mem_fields hset h htype
  · rw [hfinishes.members_eq, MergedType.members_ofEntries]
    split
    · refine MergedMember.forall_mem_table fun c hc => ?_
      obtain ⟨e, he, hc⟩ := List.mem_flatMap.mp hc
      obtain ⟨name, -, rfl⟩ := List.mem_map.mp hc
      exact hid e he
    · exact fun _ hmember => absurd hmember List.not_mem_nil
  · rw [hfinishes.members_eq, MergedType.members_ofEntries]
    split
    · exact MergedMember.nodup_table _
    · exact List.nodup_nil
  · rw [hfinishes.enumValues_eq, MergedType.enumValues_ofEntries]
    split
    · refine MergedEnumValue.forall_mem_table fun c hc => ?_
      obtain ⟨e, he, hc⟩ := List.mem_flatMap.mp hc
      obtain ⟨value, -, rfl⟩ := List.mem_map.mp hc
      exact hid e he
    · exact fun _ hvalue => absurd hvalue List.not_mem_nil

/-- The fields of a name that no subgraph defines are copies, and others are not. -/
theorem byGraph_eq_nil_iff (hset : set.HasProperNames) (h : ofSubgraphs set = .ok m) {t : MergedType}
    (ht : t ∈ m.types) {field : MergedField} (hfield : field ∈ t.fields) :
    field.byGraph = [] ↔
      ∀ e ∈ set.entriesOf t.name, ∀ f ∈ e.definition.fields, f.name ≠ field.name := by
  have htype := (hasUniqueNames_of_ofSubgraphs h).type?_eq_some ht
  rw [byGraph_of_mem_fields hset h htype hfield, SubgraphSet.fieldEntriesOf,
    List.filter_eq_nil_iff, SubgraphSet.fieldsOf]
  constructor
  · intro hnone e he f hf hname
    refine hnone (e.id, FieldInGraph.of e.subgraph e.definition f) ?_ (beq_iff_eq.mpr hname)
    exact List.mem_flatMap.mpr ⟨e, he, List.mem_map.mpr ⟨f, hf, rfl⟩⟩
  · intro hnone entry hentry hname
    obtain ⟨e, he, hentry⟩ := List.mem_flatMap.mp hentry
    obtain ⟨f, hf, rfl⟩ := List.mem_map.mp hentry
    exact hnone e he f hf (beq_iff_eq.mp hname)

end MergedSchema

namespace Supergraph

/-! ## Reading a supergraph -/

/-- The values in the enumeration name the subgraphs. -/
theorem names_emit {set : SubgraphSet} (hset : (set.subgraphs.map Subgraph.enumValue).Nodup)
    {id : SubgraphId} (hid : id < set.subgraphs.length) :
    Names (set.subgraphs.map emitGraph) set.enumValueOf id := by
  have hvalue : set.enumValueOf id = (set.subgraphs[id]).enumValue := by
    rw [SubgraphSet.enumValueOf, SubgraphSet.subgraph?, List.getElem?_eq_getElem hid]
    rfl
  unfold Names
  rw [List.findIdx?_map, List.findIdx?_eq_some_iff_getElem, hvalue]
  refine ⟨hid, beq_self_eq_true _, fun j hj heq => ?_⟩
  have hvalues : (set.subgraphs.get ⟨j, hj.trans hid⟩).enumValue = (set.subgraphs[id]).enumValue :=
    beq_iff_eq.mp heq
  have hplaces := List.pairwise_map.mp hset
  exact List.pairwise_iff_getElem.mp hplaces j id (hj.trans hid) hid hj hvalues

/-- The fields of an object or interface are read as they were merged. -/
theorem map_fieldIn_emitField {graphs : List Graph} {names : GraphNames} {byGraph : ByGraph TypeDef}
    {fields : List MergedField} (hids : ∀ e ∈ byGraph, Names graphs names e.1)
    (hfields : ∀ field ∈ fields, field.byGraph.ids.Sublist byGraph.ids)
    (htypes : ∀ field ∈ fields, ∀ e ∈ field.byGraph, e.2.type.HasPlainName) :
    (fields.map (emitField names byGraph.length)).map
        (fieldIn graphs ((byGraph.map Joined.Definition.of).map Joined.Definition.subgraph)) =
      fields.map Joined.Field.of := by
  rw [List.map_map, List.map_map]
  refine List.map_congr_left fun field hfield => ?_
  have hnames : ∀ e ∈ field.byGraph, Names graphs names e.1 := by
    intro e he
    obtain ⟨e', he', hid⟩ := List.mem_map.mp ((hfields field hfield).mem (List.mem_map_of_mem he))
    rw [← hid]
    exact hids e' he'
  have hlength : byGraph.length = byGraph.ids.length := (List.length_map _).symm
  rw [Function.comp_apply, hlength]
  exact fieldIn_emitField hnames (htypes field hfield) (hfields field hfield)

/-- **A type is read as it was merged.** -/
theorem joined_emitType {graphs : List Graph} {names : GraphNames} {count : Nat} {t : MergedType}
    (ht : t.IsAbout count) (hnames : ∀ id < count, Names graphs names id) :
    (emitType names t).joined graphs = t.joined := by
  obtain ⟨name, metadata, byGraph, body⟩ := t
  have hids : ∀ e ∈ byGraph, Names graphs names e.1 := fun e he => hnames e.1 (ht.ids e he)
  have hplain : ∀ directives : List Directive, joinsIn graphs "join__type" directives = [] →
      (joinsIn graphs "join__type" (byGraph.ids.map (joinPlainType names) ++ directives)).map
        Prod.fst = byGraph.ids := by
    intro directives hdirectives
    rw [joinsIn_append, hdirectives, List.append_nil, joinsIn_joinPlainType hids]
  have hmetadata : joinsIn graphs "join__type" (metadataDirectives metadata) = [] :=
    joinsIn_metadataDirectives _ (by decide)
  unfold TypeDefinition.joined MergedType.joined TypeDefinition.joinedBody TypeDefinition.kind
    emitType joinDirectives emitBody MergedType.kind
  cases body with
  | object interfaces fields | interface interfaces fields implementations =>
    have hsublist : ∀ field ∈ fields, field.byGraph.ids.Sublist byGraph.ids := ht.fields
    have hfields := map_fieldIn_emitField hids hsublist ht.fieldTypes
    dsimp only [Joined.Body.of]
    rw [definitionsIn_eq hids ht.unique, hfields]
    rfl
  | union members =>
    have hmembers : joinsIn graphs "join__type" (members.flatMap (joinMember names)) = [] := by
      refine joinsIn_eq_nil fun d hd => ?_
      obtain ⟨m, -, hd⟩ := List.mem_flatMap.mp hd
      obtain ⟨id, -, rfl⟩ := List.mem_map.mp hd
      exact (by decide : "join__unionMember" ≠ "join__type")
    dsimp only [Joined.Body.of]
    have hall : ∀ m ∈ members, ∀ id ∈ m.subgraphs, Names graphs names id := fun m hm id hid =>
      hnames id (ht.members m hm id hid)
    rw [List.append_assoc, hplain _ (by rw [joinsIn_append, hmembers, hmetadata, List.append_nil]),
      ← List.append_assoc, List.map_map]
    congr 2
    exact List.map_congr_left fun m hm => memberIn_eq hall ht.uniqueMembers hm
  | enum values =>
    dsimp only [Joined.Body.of]
    rw [hplain _ hmetadata, List.map_map]
    congr 2
    exact List.map_congr_left fun v hv =>
      valueIn_emitEnumValue fun id hid => hnames id (ht.values v hv id hid)
  | scalar | inputObject fields =>
    dsimp only [Joined.Body.of]
    rw [hplain _ hmetadata]
    rfl

/-- What the directives of a printed field tell about the merged field that it was made of. -/
structure Tells (set : SubgraphSet) (t : MergedType) (field : MergedField) (printed : Field) :
    Prop where
  name : printed.name = field.name
  /-- Without join directives, all subgraphs of the type say what goes without saying. -/
  silence : (∀ d ∈ printed.directives, d.name ≠ "join__field") →
    field.byGraph.ids = t.byGraph.ids ∧ ∀ e ∈ field.byGraph, IsPlain field e.2
  /-- A bare join directive is there exactly if no subgraph defines the field. -/
  bare : { name := "join__field" } ∈ printed.directives ↔
    ∀ s ∈ set.subgraphs, ∀ d ∈ s.definitions, d.name = t.name →
      ∀ f ∈ d.fields, f.name ≠ field.name

/-- A printed field tells what it was made of. -/
theorem tells_emitField {set : SubgraphSet} (hset : set.HasProperNames) {m : MergedSchema}
    (h : MergedSchema.ofSubgraphs set = .ok m) {t : MergedType} (ht : t ∈ m.types)
    {field : MergedField} (hfield : field ∈ t.fields) :
    Tells set t field (emitField set.enumValueOf t.byGraph.length field) where
  name := rfl
  silence := by
    intro hsilent
    have hnil : joinFields set.enumValueOf field t.byGraph.length = [] :=
      List.eq_nil_iff_forall_not_mem.mpr fun d hd =>
        have hname := name_of_mem_joinFields hd
        hsilent d ((mem_directives_emitField hname).mpr hd) hname
    obtain ⟨-, hlength, hplain⟩ := joinFields_eq_nil_iff.mp hnil
    have hsublist := (MergedSchema.isAbout_of_ofSubgraphs hset h ht).fields field hfield
    refine ⟨hsublist.eq_of_length ?_, hplain⟩
    rw [ByGraph.ids, ByGraph.ids, List.length_map, List.length_map, hlength]
  bare := by
    rw [mem_directives_emitField rfl, bare_mem_joinFields_iff,
      MergedSchema.byGraph_eq_nil_iff hset h ht hfield]
    constructor
    · intro hnone s hs d hd hname
      obtain ⟨id, hid⟩ := List.mem_iff_getElem?.mp hs
      exact hnone ⟨id, s, d⟩ (SubgraphSet.mem_entriesOf.mpr
        ⟨SubgraphSet.mem_typeEntries.mpr ⟨hid, hd⟩, hname⟩)
    · intro hnone e he
      obtain ⟨hmem, hname⟩ := SubgraphSet.mem_entriesOf.mp he
      obtain ⟨hs, hd⟩ := SubgraphSet.mem_typeEntries.mp hmem
      exact hnone e.subgraph (List.mem_of_getElem? hs) e.definition hd hname

/-- **Join directives lose nothing.** What the merged types say about the subgraphs can be read off
the supergraph. A field without join directives is defined in all subgraphs of its type, with the
type that they agree on and without anything remarkable, and a bare join directive stands exactly
where no subgraph defines the field. -/
theorem joined_emit {set : SubgraphSet} (hset : set.Ingested) {m : MergedSchema}
    (h : MergedSchema.ofSubgraphs set = .ok m) :
    (emit set m).joined = m.types.map MergedType.joined ∧
      ∀ t ∈ m.types, ∃ d, (emit set m).type? t.name = some d ∧
        List.Forall₂ (Tells set t) t.fields d.body.fields := by
  refine ⟨?_, fun t ht => ⟨emitType set.enumValueOf t, ?_, ?_⟩⟩
  · unfold Model.joined emit
    rw [List.map_map]
    refine List.map_congr_left fun t ht => ?_
    exact joined_emitType (MergedSchema.isAbout_of_ofSubgraphs hset.hasProperNames h ht) fun _ =>
      names_emit hset.nodup_enumValues
  · have htype := (MergedSchema.hasUniqueNames_of_ofSubgraphs h).type?_eq_some ht
    unfold Model.type? emit
    rw [List.find?_map]
    exact congrArg (Option.map (emitType set.enumValueOf)) htype
  · have hfields : (emitType set.enumValueOf t).body.fields =
        t.fields.map (emitField set.enumValueOf t.byGraph.length) := by
      unfold emitType emitBody Body.fields MergedType.fields
      cases t.body <;> rfl
    rw [hfields, List.forall₂_map_right_iff, List.forall₂_same]
    exact fun field hfield => tells_emitField hset.hasProperNames h ht hfield

end Supergraph

/-- A schema with two fields. -/
def SchemaSource.wide : SchemaSource :=
  ⟨"type Query\x7bx:ID y:ID\x7d", "a", none⟩

/-- A schema with one of the fields, of a stricter type. -/
def SchemaSource.narrow : SchemaSource :=
  ⟨"type Query\x7bx:ID!\x7d", "b", none⟩

theorem SchemaSource.merges_wide_narrow :
    ((SubgraphSet.ofSources [wide, narrow]).toOption.any fun set =>
      (MergedSchema.ofSubgraphs set).toOption.any fun m =>
        m.types.any fun t => t.fields.any fun field =>
          field.name == "y" && field.byGraph.ids == [0]) = true := by
  rw [SubgraphSet.ofSources_eq_foldlM_insertSource]
  decide +kernel

/-- Which of the two schemas has the second field can be read off their supergraph. -/
theorem Supergraph.joined_emit_of_wide_narrow :
    ∃ set m, SubgraphSet.ofSources [.wide, .narrow] = .ok set ∧
      MergedSchema.ofSubgraphs set = .ok m ∧
      (emit set m).joined = m.types.map MergedType.joined ∧
      ∃ t ∈ m.types, ∃ field ∈ t.fields, field.name = "y" ∧ field.byGraph.ids = [0] := by
  have hmerges := SchemaSource.merges_wide_narrow
  cases hset : SubgraphSet.ofSources [.wide, .narrow] with
  | error e =>
    rw [hset] at hmerges
    cases hmerges
  | ok set =>
    rw [hset, Except.toOption, Option.any_some] at hmerges
    cases hm : MergedSchema.ofSubgraphs set with
    | error e =>
      rw [hm] at hmerges
      cases hmerges
    | ok m =>
      rw [hm, Except.toOption, Option.any_some] at hmerges
      simp only [List.any_eq_true, Bool.and_eq_true, beq_iff_eq] at hmerges
      obtain ⟨hjoined, -⟩ := joined_emit (SubgraphSet.ingested_ofSources hset) hm
      exact ⟨set, m, rfl, hm, hjoined, hmerges⟩

end Federation
