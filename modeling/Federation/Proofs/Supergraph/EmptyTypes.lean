import Federation.Proofs.Ingestion.Parts
import Federation.Proofs.Merge.EnumValues
import Federation.Proofs.Supergraph.Declarations
import Federation.Proofs.Supergraph.InputTypes

/-!
# Types without parts

Most kinds of types are merged by collecting what subgraphs declare, so a merged type has a part if
its definitions have one. An input type is merged by keeping what all its subgraphs have in common.
Nothing makes sure that there is such a field, and a type without fields is written with empty
braces.
-/

namespace Federation

open Document (Schema)

/-! ## Documents of subgraphs -/

namespace SubgraphSet

/-- Every type of every subgraph has a part. The query type may have none, because fields that serve
federation itself are left out. -/
def HasParts (set : SubgraphSet) : Prop :=
  ∀ s ∈ set.subgraphs, ∀ d ∈ s.definitions, d.name ≠ RootOperation.query.typeName →
    d.outline.HasParts d.kind

/-- A subgraph in which nothing fatal was found reflects the document of a source, unless the name of
the source was taken. -/
theorem exists_source_of_mem {sources : List SchemaSource} {set : SubgraphSet}
    (hset : ofSources sources = .ok set) {s : Subgraph} (hs : s ∈ set.subgraphs)
    (hquiet : s.diagnostics.anyFatal = false) :
    s.definitions = [] ∨ ∃ source ∈ sources, ∃ schema, Schema.read source.text = .ok schema ∧
      s.Reflects schema.roots schema.typeBlocks := by
  unfold ofSources at hset
  induction sources using List.reverseRecOn generalizing set with
  | nil =>
    obtain rfl := Except.ok.inj hset
    cases hs
  | append_singleton sources source ih =>
    rw [List.foldlM_append] at hset
    cases hbefore : sources.foldlM addSource {} with
    | error e =>
      rw [hbefore] at hset
      cases hset
    | ok before =>
      rw [hbefore] at hset
      have hadd : before.addText source.text source.name source.url = .ok set :=
        (bind_pure _).symm.trans hset
      have hearlier : s ∈ before.subgraphs → s.definitions = [] ∨ ∃ source' ∈ sources ++ [source],
          ∃ schema, Schema.read source'.text = .ok schema ∧
            s.Reflects schema.roots schema.typeBlocks := fun hmem =>
        (ih hbefore hmem).imp_right fun ⟨source', hmem, hread⟩ =>
          ⟨source', List.mem_append_left _ hmem, hread⟩
      rcases addText_cases hadd with ⟨diagnostics, -, hadded⟩ | ⟨schema, hread, -, hadded⟩
      · rw [hadded] at hs
        rcases List.mem_append.mp hs with hs | hs
        · exact hearlier hs
        · obtain rfl := List.mem_singleton.mp hs
          exact .inl rfl
      · rw [hadded] at hs
        rcases List.mem_append.mp hs with hs | hs
        · exact hearlier hs
        · obtain rfl := List.mem_singleton.mp hs
          exact .inr ⟨source, List.mem_append_right _ (List.mem_singleton_self _), schema, hread,
            reflects_build rfl hquiet⟩

/-- If every type of every document has a part, the types of subgraphs have one. -/
theorem hasParts_of_hasMembers {sources : List SchemaSource} {set : SubgraphSet}
    (hset : ofSources sources = .ok set) (hquiet : ∀ s ∈ set.subgraphs, s.diagnostics.anyFatal = false)
    (hmembers : ∀ source ∈ sources, ∀ schema, Schema.read source.text = .ok schema →
      schema.HasMembers) : set.HasParts := by
  intro s hs d hd hname
  rcases exists_source_of_mem hset hs (hquiet s hs) with hnone | ⟨source, hmem, schema, hread, h⟩
  · rw [hnone] at hd
    cases hd
  · refine h.hasParts_of_members (fun block hblock => ?_) hd hname
    obtain ⟨hblock, hcomposed⟩ := List.mem_filter.mp hblock
    obtain ⟨other, hother, hsame, hkind, hmember⟩ := hmembers source hmem schema hread block hblock
    refine ⟨other, List.mem_filter.mpr ⟨hother, ?_⟩, congrArg _ hsame, hmember⟩
    rw [isMachinery_eq_of_kind_eq hsame hkind]
    exact hcomposed

end SubgraphSet

/-! ## Parts of merged types -/

namespace SubgraphSet.MergesTo

open Supergraph

variable {set : SubgraphSet} {m : MergedSchema} (h : set.MergesTo m) {t : MergedType}
  (ht : t ∈ m.types)

include h ht

/-- The type of a name is the only one. -/
theorem eq_of_name_eq {u : MergedType} (hu : u ∈ m.types) (hname : u.name = t.name) : u = t :=
  List.inj_on_of_nodup_map (MergedSchema.hasUniqueNames_of_ofSubgraphs h.merged) hu ht hname

/-- The query type is an object with a field. -/
theorem fields_ne_nil_of_query (hname : t.name = RootOperation.query.typeName) :
    t.kind = .object ∧ t.fields ≠ [] := by
  obtain ⟨u, hu, hquery⟩ := List.any_eq_true.mp (Validation.hasQueries_of_anyFatal h.valid)
  rw [Bool.and_eq_true, Bool.and_eq_true, beq_iff_eq, beq_iff_eq] at hquery
  obtain ⟨⟨hkind, hqueryname⟩, hfields⟩ := hquery
  obtain rfl := h.eq_of_name_eq ht hu (hqueryname.trans hname.symm)
  obtain ⟨field, hfield, -⟩ := List.any_eq_true.mp hfields
  exact ⟨hkind, List.ne_nil_of_mem hfield⟩

theorem name_ne_query (hkind : t.kind ≠ .object) : t.name ≠ RootOperation.query.typeName :=
  fun hname => hkind (h.fields_ne_nil_of_query ht hname).1

/-- Every merged type but the query type has a part in some subgraph. -/
theorem exists_definition_hasParts (hparts : set.HasParts)
    (hname : t.name ≠ RootOperation.query.typeName) : ∃ s ∈ set.subgraphs, ∃ d ∈ s.definitions,
      s.definition? t.name = some d ∧ d.kind = t.kind ∧ d.outline.HasParts t.kind := by
  obtain ⟨s, hs, d, hd, hfound, hkind⟩ := h.exists_definition ht
  have hdname := Subgraph.name_of_definition? hfound
  exact ⟨s, hs, d, hd, hfound, hkind, hkind ▸ hparts s hs d hd (hdname ▸ hname)⟩

/-- A merged object or interface has a field. -/
theorem fields_ne_nil (hparts : set.HasParts) (hkind : t.kind = .object ∨ t.kind = .interface) :
    t.fields ≠ [] := by
  by_cases hname : t.name = RootOperation.query.typeName
  · exact (h.fields_ne_nil_of_query ht hname).2
  · obtain ⟨s, hs, d, hd, hfound, hdkind, hpart⟩ := h.exists_definition_hasParts ht hparts hname
    have hfields : d.outline.fields ≠ [] := by
      rcases hkind with hkind | hkind <;> rwa [hkind] at hpart
    obtain ⟨g, hg⟩ := List.exists_mem_of_ne_nil _ (mt List.map_eq_nil_iff.mpr hfields)
    obtain ⟨u, hu, huname, field, hfield, -⟩ :=
      h.exists_field_of_mem hs hd (hdkind ▸ hkind) hg
    obtain rfl := h.eq_of_name_eq ht hu (huname.trans (Subgraph.name_of_definition? hfound))
    exact List.ne_nil_of_mem hfield

/-- A merged union has the members that a subgraph declares. -/
theorem mem_names_members {members : List MergedMember} (hbody : t.body = .union members)
    {s : Subgraph} (hs : s ∈ set.subgraphs) {d : TypeDef} (hd : s.definition? t.name = some d)
    {member : String} (hmember : member ∈ d.members) :
    member ∈ members.map MergedMember.name := by
  have hcollected := MergedSchema.isCollected_of_ofSubgraphs h.hasProperNames h.merged ht
  rw [hbody] at hcollected
  have hlist : (members.map fun member => (member.name, member.subgraphs)) =
    (set.collected (Subgraph.namedMembers t.name)).map fun c => (c.1, c.2.ids) := hcollected
  have hpart : (member, ()) ∈ Subgraph.namedMembers t.name s :=
    List.mem_flatMap.mpr ⟨d, Option.mem_toList.mpr hd, List.mem_map_of_mem hmember⟩
  have hnames := congrArg (List.map Prod.fst) hlist
  rw [List.map_map, List.map_map] at hnames
  have hmem : member ∈ (set.collected (Subgraph.namedMembers t.name)).map Prod.fst :=
    List.mem_map.mpr ⟨_, SubgraphSet.mem_collected.mpr ⟨⟨s, hs, _, hpart, rfl⟩, rfl⟩, rfl⟩
  exact hnames ▸ hmem

/-- Every merged type that is not an input type is emitted with a part. -/
theorem hasParts_emitType (hparts : set.HasParts) (hinput : t.kind ≠ .inputObject)
    (names : GraphNames) : (emitType names t).body.HasParts := by
  have hfields := h.fields_ne_nil ht hparts
  have hdefined := fun hobject => h.exists_definition_hasParts ht hparts (h.name_ne_query ht hobject)
  show (emitBody names t).HasParts
  unfold emitBody
  unfold MergedType.fields at hfields
  unfold MergedType.kind at hinput hdefined hfields
  cases hbody : t.body with
  | object interfaces fields | interface interfaces fields implementations =>
    rw [hbody] at hfields
    exact mt List.map_eq_nil_iff.mp (hfields (by simp [MergedBody.kind]))
  | union members =>
    rw [hbody] at hdefined
    obtain ⟨s, hs, d, -, hfound, -, hpart⟩ := hdefined (by simp [MergedBody.kind])
    obtain ⟨member, hmember⟩ := List.exists_mem_of_ne_nil _ hpart
    exact List.ne_nil_of_mem (h.mem_names_members ht hbody hs hfound hmember)
  | enum values =>
    rw [hbody] at hdefined
    obtain ⟨s, hs, d, -, hfound, -, hpart⟩ := hdefined (by simp [MergedBody.kind])
    obtain ⟨v, hv⟩ := List.exists_mem_of_ne_nil _ (mt List.map_eq_nil_iff.mpr hpart)
    have hmem := (MergedSchema.mem_names_enumValues_iff h.hasProperNames h.merged ht hbody).mpr
      ⟨s, hs, d, hfound, v, hv, rfl⟩
    exact fun hnil => List.ne_nil_of_mem hmem (List.map_eq_nil_iff.mpr (List.map_eq_nil_iff.mp hnil))
  | scalar => trivial
  | inputObject fields =>
    rw [hbody] at hinput
    exact absurd rfl hinput

/-- An input type is emitted with a field exactly if all subgraphs that define it have a field in
common. -/
theorem hasParts_emitType_iff (hkind : t.kind = .inputObject) (names : GraphNames) :
    (emitType names t).body.HasParts ↔ ∃ name, set.AllHave t.name name := by
  obtain ⟨fields, hbody⟩ := exists_inputObject_emitType_iff.mpr hkind
  have hparts : (emitType names t).body.HasParts ↔ fields ≠ [] := by
    rw [hbody]
    exact Iff.rfl
  rw [hparts, ← List.isEmpty_eq_false_iff, List.isEmpty_eq_false_iff_exists_mem]
  constructor
  · rintro ⟨f, hf⟩
    exact ⟨f.name, (h.mem_names_inputFields_iff ht hbody).mp (List.mem_map_of_mem hf)⟩
  · rintro ⟨name, hall⟩
    obtain ⟨f, hf, -⟩ := List.mem_map.mp ((h.mem_names_inputFields_iff ht hbody).mpr hall)
    exact ⟨f, hf⟩

end SubgraphSet.MergesTo

/-! ## Empty braces -/

namespace Supergraph

/-- Braces are empty only if there is nothing to write between them. -/
theorem braced_eq_braced_nil_iff {after : Bool} {parts : List String}
    (hparts : ∀ part ∈ parts, part.length ≠ 0) :
    braced after parts = braced after [] ↔ parts = [] := by
  constructor
  · intro heq
    have hlength := congrArg String.length heq
    unfold braced at hlength
    simp only [String.length_append, String.length_join, List.map_nil, List.sum_nil] at hlength
    have hsum : (parts.map String.length).sum = 0 := by omega
    cases parts with
    | nil => rfl
    | cons first others =>
      have hfirst := hparts first List.mem_cons_self
      rw [List.map_cons, List.sum_cons] at hsum
      omega
  · rintro rfl
    rfl

/-- A type is written with empty braces exactly if it has no part, unless it is a union, which is
written without braces. -/
theorem Body.text_eq_braced_nil_iff {body : Body} (hunion : body ≠ .union []) (after : Bool) :
    body.text .insiders after = braced after [] ↔ ¬ body.HasParts := by
  cases body with
  | object interfaces fields | interface interfaces fields =>
    have hfilter : fields.filter (fun f => Audience.insiders.shows f.directives f.type) = fields :=
      List.filter_eq_self.mpr fun _ _ => rfl
    rw [text, hfilter, braced_eq_braced_nil_iff, List.map_eq_nil_iff, HasParts, not_not]
    exact List.forall_mem_map.mpr fun f _ => by simp [Field.text]
  | inputObject fields =>
    have hfilter : fields.filter (fun f => Audience.insiders.shows f.directives f.type) = fields :=
      List.filter_eq_self.mpr fun _ _ => rfl
    rw [text, hfilter, braced_eq_braced_nil_iff, List.map_eq_nil_iff, HasParts, not_not]
    exact List.forall_mem_map.mpr fun f _ => by simp [Input.fieldText, indent]
  | enum values =>
    rw [text, Audience.filter_showsValue_insiders, braced_eq_braced_nil_iff, List.map_eq_nil_iff,
      HasParts, not_not]
    exact List.forall_mem_map.mpr fun v _ => by simp [EnumValue.text]
  | union members =>
    have hmembers : members ≠ [] := fun hnil => hunion (congrArg _ hnil)
    refine iff_of_false (fun heq => ?_) (not_not.mpr hmembers)
    -- an equals sign stands where the brace would be
    have hlists := congrArg String.toList heq
    cases after <;> simp [text, braced] at hlists
  | scalar =>
    refine iff_of_false (fun heq => ?_) (not_not.mpr trivial)
    have hlists := congrArg String.toList heq
    cases after <;> simp [text, braced] at hlists

/-- The text of every type is a block of the supergraph schema. -/
theorem Model.text_mem_supergraphBlocks {m : Model} {d : TypeDefinition} (hd : d ∈ m.types) :
    d.text .insiders ∈ m.supergraphBlocks :=
  List.mem_append_right _ (List.mem_map_of_mem hd)

/-- **Merging empties input types only**, and it empties them if their definitions have nothing in
common. If every type of every document has a part, every type of the supergraph that is not an input
type has one, and an input type has one exactly if all subgraphs that define it have a field of the
same name in it. A type without parts is written with empty braces. -/
theorem types_are_emptied_iff_nothing_is_common {sources : List SchemaSource} {set : SubgraphSet}
    (hset : SubgraphSet.ofSources sources = .ok set)
    (hmembers : ∀ source ∈ sources, ∀ schema, Schema.read source.text = .ok schema →
      schema.HasMembers)
    {options : CompositionOptions} {composed : ComposedSupergraph}
    (h : (set.compose options).supergraph = some composed) :
    ∀ d ∈ composed.model.types,
      IsWrittenIn (d.text .insiders) composed.supergraphText ∧
        (∀ after, d.body.text .insiders after = braced after [] ↔ ¬ d.body.HasParts) ∧
        ((∀ fields, d.body ≠ .inputObject fields) → d.body.HasParts) ∧
        ∀ fields, d.body = .inputObject fields →
          (d.body.HasParts ↔ ∃ name, set.AllHave d.name name) := by
  obtain ⟨m, hm, rfl⟩ := (SubgraphSet.ingested_ofSources hset).exists_mergesTo h
  have hparts := SubgraphSet.hasParts_of_hasMembers hset hm.quiet hmembers
  simp only [ComposedSupergraph.of]
  intro d hd
  have hwritten := isWrittenIn_of_mem_supergraphBlocks (Model.text_mem_supergraphBlocks hd)
  obtain ⟨t, ht, rfl⟩ := List.mem_map.mp hd
  have hother : (∀ fields, (emitType set.enumValueOf t).body ≠ .inputObject fields) →
      (emitType set.enumValueOf t).body.HasParts := fun hinput =>
    hm.hasParts_emitType ht hparts
      (fun hkind => not_exists.mpr hinput (exists_inputObject_emitType_iff.mpr hkind)) _
  have hunion : (emitType set.enumValueOf t).body ≠ .union [] := by
    intro hbody
    rw [hbody] at hother
    exact hother (fun fields hfields => by cases hfields) rfl
  exact ⟨hwritten, Body.text_eq_braced_nil_iff hunion, hother, fun fields hbody =>
    hm.hasParts_emitType_iff ht (exists_inputObject_emitType_iff.mp ⟨fields, hbody⟩) _⟩

end Supergraph

/-- A schema with an input type. -/
def SchemaSource.search : SchemaSource :=
  ⟨"type Query\x7bx(i:I):Int\x7dinput I\x7ba:Int\x7d", "a", none⟩

/-- A schema with another field in the input type. -/
def SchemaSource.otherSearch : SchemaSource :=
  ⟨"input I\x7bb:Int\x7d", "b", none⟩

theorem SchemaSource.composes_searches :
    ((SubgraphSet.ofSources [search, otherSearch]).toOption.any fun set =>
      (MergedSchema.ofSubgraphs set).toOption.any fun m =>
        !(set.compose { runSatisfiability := false }).diagnostics.anyFatal &&
          ((Supergraph.emit set m).types.any fun d =>
            match d.body with
            | .inputObject fields => d.name == "I" && fields.isEmpty
            | _ => false)) = true := by decide +kernel

/-- In both schemas every type has a part. -/
theorem SchemaSource.hasMembers_searches : ∀ source ∈ [search, otherSearch], ∀ schema,
    Schema.read source.text = .ok schema → schema.HasMembers := by
  have hall : ∀ source ∈ [search, otherSearch],
      ((Schema.read source.text).toOption.all fun schema => decide schema.HasMembers) = true := by
    decide +kernel
  intro source hsource schema hread
  have hmembers := hall source hsource
  rw [hread] at hmembers
  exact of_decide_eq_true hmembers

/-- The schemas compose to an input type without fields. -/
theorem SubgraphSet.exists_composed_searches :
    ∃ set composed, SubgraphSet.ofSources [.search, .otherSearch] = .ok set ∧
      (set.compose { runSatisfiability := false }).supergraph = some composed ∧
      ∃ d ∈ composed.model.types, d.name = "I" ∧ d.body = .inputObject [] := by
  obtain ⟨set, hset, hmerges⟩ := exists_ok_of_any SchemaSource.composes_searches
  obtain ⟨m, hm, hcomposes⟩ := exists_ok_of_any hmerges
  rw [Bool.and_eq_true, Bool.not_eq_true'] at hcomposes
  obtain ⟨hvalid, hcomposes⟩ := hcomposes
  obtain ⟨d, hd, hempty⟩ := List.any_eq_true.mp hcomposes
  refine ⟨set, _, hset, supergraph_compose hm hvalid, d, hd, ?_⟩
  split at hempty
  · rename_i fields hbody
    rw [Bool.and_eq_true, beq_iff_eq, List.isEmpty_iff] at hempty
    exact ⟨hempty.1, hempty.2 ▸ hbody⟩
  · cases hempty

namespace Supergraph

/-- The definitions have nothing in common, so the merged type is written with empty braces. -/
theorem types_are_emptied_iff_nothing_is_common_of_searches :
    ∃ set composed, SubgraphSet.ofSources [.search, .otherSearch] = .ok set ∧
      (set.compose { runSatisfiability := false }).supergraph = some composed ∧
      (¬ ∃ name, set.AllHave "I" name) ∧ ∃ d ∈ composed.model.types, d.name = "I" ∧
        IsWrittenIn (d.text .insiders) composed.supergraphText ∧
        d.body.text .insiders true = braced true [] := by
  obtain ⟨set, composed, hset, hcomposed, d, hd, hname, hbody⟩ :=
    SubgraphSet.exists_composed_searches
  obtain ⟨hwritten, htext, -, hcommon⟩ := types_are_emptied_iff_nothing_is_common hset
    SchemaSource.hasMembers_searches hcomposed d hd
  have hempty : ¬ d.body.HasParts := by
    rw [hbody]
    exact fun hpart => hpart rfl
  rw [hcommon [] hbody, hname] at hempty
  refine ⟨set, composed, hset, hcomposed, hempty, d, hd, hname, hwritten, (htext true).mpr ?_⟩
  rw [hbody]
  exact fun hpart => hpart rfl

/-- Merging may empty a type although all its definitions have parts. -/
theorem merging_empties_input_type :
    ¬ ∀ sources set, SubgraphSet.ofSources sources = .ok set →
      (∀ source ∈ sources, ∀ schema, Schema.read source.text = .ok schema → schema.HasMembers) →
        ∀ options composed, (set.compose options).supergraph = some composed →
          ∀ d ∈ composed.model.types, d.body.HasParts := by
  intro hparts
  obtain ⟨set, composed, hset, hcomposed, d, hd, -, hbody⟩ := SubgraphSet.exists_composed_searches
  have hpart := hparts _ set hset SchemaSource.hasMembers_searches _ composed hcomposed d hd
  rw [hbody] at hpart
  exact hpart rfl

end Supergraph

end Federation
