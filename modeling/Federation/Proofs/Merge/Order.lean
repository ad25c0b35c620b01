import Mathlib
import Federation.Proofs.Ingestion.Evaluation
import Federation.Proofs.Merge.Consensus

/-!
# Merging in any order

What the subgraphs agree on does not depend on the order in which they were added. In another order
the merged types go through the same definitions, up to the order of fields, in another order; and
consensus is the same in any order.
-/

namespace Federation

/-! ## Alike definitions -/

namespace Subgraph.Alike

variable {s s' : Subgraph}

/-- Types are looked up alike. -/
theorem definition? (h : s.Alike s') (name : String) :
    Option.Rel TypeDef.Alike (s.definition? name) (s'.definition? name) := by
  unfold Subgraph.definition?
  have hpairs := h.definitions
  generalize s.definitions = definitions at hpairs ⊢
  generalize s'.definitions = definitions' at hpairs ⊢
  induction hpairs with
  | nil => exact .none
  | @cons d d' definitions definitions' hfirst _ ih =>
    have hname : d'.name = d.name := by rw [hfirst.rest]
    by_cases heq : d.name = name
    · rw [List.find?_cons_of_pos (by simpa using heq),
        List.find?_cons_of_pos (by simpa [hname] using heq)]
      exact .some hfirst
    · rw [List.find?_cons_of_neg (by simpa using heq),
        List.find?_cons_of_neg (by simpa [hname] using heq)]
      exact ih

end Subgraph.Alike

/-- A field is merged in the same way from alike types of alike subgraphs. -/
theorem FieldInGraph.of_eq_of_alike {s s' : Subgraph} {d d' : TypeDef} (hs : s.Alike s')
    (hd : d.Alike d') (field : Field) : FieldInGraph.of s' d' field = FieldInGraph.of s d field := by
  have hversion : s'.version = s.version := by rw [hs.rest]
  have hleaves : d'.keyLeaves = d.keyLeaves := by rw [hd.rest]; rfl
  have hattributes : d'.attributes = d.attributes := by rw [hd.rest]
  have hkind : d'.kind = d.kind := by rw [hd.rest]
  have htarget : (s'.typeOf? field).map TypeDef.keyLeaves =
      (s.typeOf? field).map TypeDef.keyLeaves := by
    unfold Subgraph.typeOf?
    have htypes := hs.definition? field.type.name
    generalize s.definition? field.type.name = target at htypes ⊢
    generalize s'.definition? field.type.name = target' at htypes ⊢
    cases htypes with
    | none => rfl
    | some htype =>
      rw [Option.map_some, Option.map_some, htype.rest]
      rfl
  unfold FieldInGraph.of Subgraph.isExternal Subgraph.isShareable
  rw [hversion, hleaves, hattributes, hkind, htarget]

/-- Entries of alike types in alike subgraphs, perhaps at other places. -/
structure TypeEntry.Alike (e e' : TypeEntry) : Prop where
  subgraph : e.subgraph.Alike e'.subgraph
  definition : e.definition.Alike e'.definition

namespace TypeEntry.Alike

variable {e e' : TypeEntry}

theorem name_eq (h : e.Alike e') : e'.name = e.name := by
  unfold TypeEntry.name
  rw [h.definition.rest]

theorem kind_eq (h : e.Alike e') : e'.kind = e.kind := by
  unfold TypeEntry.kind
  rw [h.definition.rest]

/-- Alike types have the same fields to be merged. -/
theorem perm_fields (h : e.Alike e') :
    Shuffled Eq (e.fields.map Prod.snd) (e'.fields.map Prod.snd) := by
  refine .of_perm ?_
  unfold TypeEntry.fields
  rw [List.map_map, List.map_map]
  show (e.definition.fields.map (FieldInGraph.of e.subgraph e.definition)).Perm
    (e'.definition.fields.map (FieldInGraph.of e'.subgraph e'.definition))
  rw [funext (FieldInGraph.of_eq_of_alike h.subgraph h.definition)]
  exact h.definition.fields.symm.map _

theorem perm_inputFields (h : e.Alike e') :
    Shuffled Eq (e.inputFields.map Prod.snd) (e'.inputFields.map Prod.snd) := by
  refine .of_perm ?_
  unfold TypeEntry.inputFields
  rw [List.map_map, List.map_map]
  exact h.definition.fields.symm.map _

theorem perm_enumValues (h : e.Alike e') :
    Shuffled Eq (e.enumValues.map Prod.snd) (e'.enumValues.map Prod.snd) := by
  refine .of_perm ?_
  unfold TypeEntry.enumValues
  rw [List.map_map, List.map_map, h.definition.rest]
  exact List.Perm.refl _

end TypeEntry.Alike

/-- Sets of the same subgraphs in any order define the same types, up to their places. -/
theorem SubgraphSet.shuffled_typeEntries {set set' : SubgraphSet}
    (h : Shuffled Subgraph.Alike set.subgraphs set'.subgraphs) :
    Shuffled TypeEntry.Alike set.typeEntries set'.typeEntries := by
  have hsubgraphs : ∀ set : SubgraphSet, set.enumerated.map Prod.snd = set.subgraphs := by
    intro set
    refine List.ext_getElem? fun i => ?_
    simp [enumerated]
  rw [← hsubgraphs set, ← hsubgraphs set'] at h
  refine h.of_map.flatMap fun entry entry' halike => .of_forall₂ ?_
  rw [List.forall₂_map_left_iff, List.forall₂_map_right_iff]
  exact halike.definitions.imp fun _ _ hd => ⟨halike, hd⟩

/-! ## The same consensus -/

/-- The subgraphs agree on the same for a field, its arguments and its list size. -/
structure MergedField.SameConsensus (m m' : MergedField) : Prop where
  metadata : m.metadata.SameConsensus m'.metadata
  arguments : ∀ name, Option.Rel (fun a a' => a.metadata.SameConsensus a'.metadata)
    (m.argument? name) (m'.argument? name)
  listSize : Option.Rel ListSize.SameUpToOrder m.listSize.merged m'.listSize.merged

namespace MergedType

/-- The output field of a name, unless it was copied to the type. -/
def ownField? (t : MergedType) (name : String) : Option MergedField :=
  t.fields.find? fun field => field.name == name && !field.isFromInterfaceObject

/-- The value of a name. -/
def enumValue? (t : MergedType) (name : String) : Option MergedEnumValue :=
  t.enumValues.find? fun value => value.name == name

/-- The input field of a name. -/
def inputField? (t : MergedType) (name : String) : Option MergedInput :=
  t.inputFields.find? fun field => field.name == name

/-- The types are of the same kind, and the subgraphs agree on the same for them and for all their
elements that were not copied. -/
structure SameConsensus (t t' : MergedType) : Prop where
  kind : t.kind = t'.kind
  metadata : t.metadata.SameConsensus t'.metadata
  fields : ∀ name, Option.Rel MergedField.SameConsensus (t.ownField? name) (t'.ownField? name)
  inputFields : ∀ name, Option.Rel (fun m m' => m.metadata.SameConsensus m'.metadata)
    (t.inputField? name) (t'.inputField? name)
  enumValues : ∀ name, Option.Rel (fun m m' => m.metadata.SameConsensus m'.metadata)
    (t.enumValue? name) (t'.enumValue? name)

end MergedType

/-- There are types of the same names, and the subgraphs agree on the same for them. -/
def MergedSchema.SameConsensus (m m' : MergedSchema) : Prop :=
  ∀ name, Option.Rel MergedType.SameConsensus (m.type? name) (m'.type? name)

/-! ## Tables in any order -/

/-- What is made of changes of a name, if there are any. -/
theorem rel_head?_map {α β γ δ : Type} {R : γ → δ → Prop} {f : α → γ} {g : β → δ} {l : List α}
    {l' : List β} (hlength : l.length = l'.length) (hfg : ∀ a b, R (f a) (g b)) :
    Option.Rel R (l.head?.map f) (l'.head?.map g) := by
  cases l with
  | nil =>
    rw [List.eq_nil_of_length_eq_zero hlength.symm]
    exact .none
  | cons a l =>
    cases l' with
    | nil => cases hlength
    | cons b l' => exact .some (hfg a b)

/-- Changes of a name, without the places of their subgraphs. -/
theorem perm_filter_map_snd {α : Type} (nameOf : α → String) (name : String)
    {changes changes' : List (SubgraphId × α)}
    (h : (changes.map Prod.snd).Perm (changes'.map Prod.snd)) :
    ((changes.filter fun c => nameOf c.2 == name).map Prod.snd).Perm
      ((changes'.filter fun c => nameOf c.2 == name).map Prod.snd) := by
  have hswap : ∀ changes : List (SubgraphId × α),
      (changes.filter fun c => nameOf c.2 == name).map Prod.snd =
        (changes.map Prod.snd).filter fun a => nameOf a == name := fun changes => by
    rw [List.filter_map]
    rfl
  rw [hswap, hswap]
  exact h.filter _

/-- The metadata of elements that go through the same statements in any order. -/
theorem Metadata.sameConsensus_map {α : Type} {changes changes' : List (SubgraphId × α)}
    (h : (changes.map Prod.snd).Perm (changes'.map Prod.snd))
    (statement : α → Attributes × Option String) :
    (Metadata.absorbAll {} (changes.map fun c => statement c.2)).SameConsensus
      (Metadata.absorbAll {} (changes'.map fun c => statement c.2)) := by
  have hmap := h.map statement
  rw [List.map_map, List.map_map] at hmap
  exact sameConsensus_absorbAll {} hmap

/-- Arguments or input fields that are added in any order. -/
theorem MergedInput.sameConsensus_table {changes changes' : List (SubgraphId × InputInGraph)}
    (h : (changes.map Prod.snd).Perm (changes'.map Prod.snd)) (name : String) :
    Option.Rel (fun m m' => m.metadata.SameConsensus m'.metadata)
      ((typedTable.table changes).find? fun m => m.name == name)
      ((typedTable.table changes').find? fun m => m.name == name) := by
  have hperm := perm_filter_map_snd InputInGraph.name name h
  rw [find?_table, find?_table]
  refine rel_head?_map (by simpa using hperm.length_eq) fun c c' => ?_
  rw [metadata_ofEntries, metadata_ofEntries]
  exact Metadata.sameConsensus_map hperm fun i => (i.attributes, i.description)

/-- Enum values that are added in any order. -/
theorem MergedEnumValue.sameConsensus_table {changes changes' : List (SubgraphId × EnumValue)}
    (h : (changes.map Prod.snd).Perm (changes'.map Prod.snd)) (name : String) :
    Option.Rel (fun m m' => m.metadata.SameConsensus m'.metadata)
      ((table changes).find? fun m => m.name == name)
      ((table changes').find? fun m => m.name == name) := by
  have hperm := perm_filter_map_snd EnumValue.name name h
  rw [find?_table, find?_table]
  refine rel_head?_map (by simpa using hperm.length_eq) fun c c' => ?_
  rw [metadata_ofEntries, metadata_ofEntries]
  exact Metadata.sameConsensus_map hperm fun v => (v.attributes, v.description)

/-- Output fields that are added in any order, none of them twice by one subgraph. -/
theorem MergedField.sameConsensus_table {changes changes' : List (SubgraphId × FieldInGraph)}
    (h : (changes.map Prod.snd).Perm (changes'.map Prod.snd)) (name : String)
    (hunique : (changes.filter fun c => c.2.definition.name == name).Pairwise
      fun c d => c.1 ≠ d.1)
    (hunique' : (changes'.filter fun c => c.2.definition.name == name).Pairwise
      fun c d => c.1 ≠ d.1) :
    Option.Rel MergedField.SameConsensus ((typedTable.table changes).find? fun m => m.name == name)
      ((typedTable.table changes').find? fun m => m.name == name) := by
  have hperm := perm_filter_map_snd (fun f : FieldInGraph => f.definition.name) name h
  rw [find?_table, find?_table]
  refine rel_head?_map (by simpa using hperm.length_eq) fun c c' => ⟨?_, fun argument => ?_, ?_⟩
  · rw [metadata_ofEntries, metadata_ofEntries]
    exact Metadata.sameConsensus_map hperm
      fun f => (f.definition.attributes, f.definition.description)
  · unfold argument?
    rw [arguments_ofEntries, arguments_ofEntries]
    refine MergedInput.sameConsensus_table ?_ argument
    have harguments : ∀ entries : List (SubgraphId × FieldInGraph),
        (entries.flatMap argumentsIn).map Prod.snd =
          (entries.map Prod.snd).flatMap fun f => f.definition.arguments.map .ofArgument := by
      intro entries
      rw [List.map_flatMap, List.flatMap_map]
      refine List.flatMap_congr fun e _ => ?_
      rw [argumentsIn, List.map_map]
      rfl
    rw [harguments, harguments]
    exact hperm.flatMap_right _
  · refine sameUpToOrder_listSize ?_
    rw [byGraph_ofEntries _ _ hunique, byGraph_ofEntries _ _ hunique']
    exact hperm

/-! ## Types in any order -/

namespace MergedType.Finishes

variable {t t' : MergedType}

/-- The last steps leave the fields that subgraphs define. -/
theorem ownField?_eq (h : t.Finishes t') (name : String) : t'.ownField? name = t.ownField? name := by
  have hbody := h.body
  unfold ownField? fields
  generalize t.body = body at hbody ⊢
  generalize t'.body = body' at hbody ⊢
  cases hbody with
  | same => rfl
  | implementations => rfl
  | copies interfaces fields copied hcopied hnames =>
    have hnone : (copied.find? fun field => field.name == name && !field.isFromInterfaceObject) =
        none := List.find?_eq_none.mpr fun field hfield => by simp [(hcopied field hfield).1]
    show List.find? _ (fields ++ copied) = List.find? _ fields
    rw [List.find?_append, hnone, Option.or_none]

theorem inputField?_eq (h : t.Finishes t') (name : String) :
    t'.inputField? name = t.inputField? name := by
  have hbody := h.body
  unfold inputField? inputFields
  generalize t.body = body at hbody ⊢
  generalize t'.body = body' at hbody ⊢
  cases hbody <;> rfl

theorem enumValue?_eq (h : t.Finishes t') (name : String) :
    t'.enumValue? name = t.enumValue? name := by
  have hbody := h.body
  unfold enumValue? enumValues
  generalize t.body = body at hbody ⊢
  generalize t'.body = body' at hbody ⊢
  cases hbody <;> rfl

/-- The last steps change no consensus. -/
theorem sameConsensus {u u' : MergedType} (h : t.Finishes u) (h' : t'.Finishes u')
    (hsame : t.SameConsensus t') : u.SameConsensus u' where
  kind := by rw [h.kind_eq, h'.kind_eq, hsame.kind]
  metadata := by rw [h.metadata_eq, h'.metadata_eq]; exact hsame.metadata
  fields := fun name => by rw [h.ownField?_eq, h'.ownField?_eq]; exact hsame.fields name
  inputFields := fun name => by
    rw [h.inputField?_eq, h'.inputField?_eq]
    exact hsame.inputFields name
  enumValues := fun name => by
    rw [h.enumValue?_eq, h'.enumValue?_eq]
    exact hsame.enumValues name

end MergedType.Finishes

/-- Tests that agree on a list find the same item in it. -/
theorem find?_congr {α : Type} {p q : α → Bool} {l : List α} (h : ∀ a ∈ l, p a = q a) :
    l.find? p = l.find? q := by
  induction l with
  | nil => rfl
  | cons a l ih =>
    obtain ⟨ha, hl⟩ := List.forall_mem_cons.mp h
    rw [List.find?_cons, List.find?_cons, ha, ih hl]

/-- Types that go through alike entries in any order have the same consensus. -/
theorem MergedType.sameConsensus_ofEntries {set set' : SubgraphSet} (hset : set.HasProperNames)
    (hset' : set'.HasProperNames) {name : String}
    (h : Shuffled TypeEntry.Alike (set.entriesOf name) (set'.entriesOf name)) (kind : TypeKind) :
    (ofEntries name kind (set.entriesOf name)).SameConsensus
      (ofEntries name kind (set'.entriesOf name)) := by
  have hsnd : ∀ {α : Type} {f : TypeEntry → List (SubgraphId × α)},
      (∀ e e' : TypeEntry, e.Alike e' → Shuffled Eq ((f e).map Prod.snd) ((f e').map Prod.snd)) →
      (((set.entriesOf name).flatMap f).map Prod.snd).Perm
        (((set'.entriesOf name).flatMap f).map Prod.snd) := by
    intro α f hf
    rw [List.map_flatMap, List.map_flatMap]
    exact (h.flatMap hf).perm
  refine ⟨?_, ?_, fun field => ?_, fun field => ?_, fun value => ?_⟩
  · rw [kind_ofEntries, kind_ofEntries]
  · rw [metadata_ofEntries, metadata_ofEntries]
    refine Metadata.sameConsensus_absorbAll {} (Shuffled.perm (h.map fun e e' halike => ?_))
    rw [halike.definition.rest]
  · have hfields := MergedField.sameConsensus_table (hsnd fun _ _ => TypeEntry.Alike.perm_fields)
      field (hset.pairwise_fieldEntriesOf name field) (hset'.pairwise_fieldEntriesOf name field)
    have hown : ∀ changes, (MergedField.typedTable.table changes).find? (fun m =>
        m.name == field && !m.isFromInterfaceObject) =
          (MergedField.typedTable.table changes).find? fun m => m.name == field := by
      intro changes
      refine find?_congr fun m hm => ?_
      rw [MergedField.isFromInterfaceObject_of_mem_table hm, Bool.not_false, Bool.and_true]
    unfold ownField? fields
    rw [body_ofEntries, body_ofEntries]
    cases kind with
    | object | interface =>
      dsimp only [MergedBody.ofEntries]
      rw [hown, hown]
      exact hfields
    | union | enum | scalar | inputObject => exact .none
  · have hfields := MergedInput.sameConsensus_table
      (hsnd fun _ _ => TypeEntry.Alike.perm_inputFields) field
    unfold inputField? inputFields
    rw [body_ofEntries, body_ofEntries]
    cases kind with
    | inputObject => exact hfields
    | object | interface | union | enum | scalar => exact .none
  · have hvalues := MergedEnumValue.sameConsensus_table
      (hsnd fun _ _ => TypeEntry.Alike.perm_enumValues) value
    unfold enumValue? enumValues
    rw [body_ofEntries, body_ofEntries]
    cases kind with
    | enum => exact hvalues
    | object | interface | union | scalar | inputObject => exact .none

namespace MergedSchema

/-- Sets of the same subgraphs in any order can both be merged, or neither can. -/
theorem ofSubgraphs_ok_iff_of_shuffled {set set' : SubgraphSet}
    (h : Shuffled Subgraph.Alike set.subgraphs set'.subgraphs) :
    (∃ m, ofSubgraphs set = .ok m) ↔ ∃ m', ofSubgraphs set' = .ok m' := by
  rw [ofSubgraphs_ok_iff, ofSubgraphs_ok_iff]
  refine (SubgraphSet.shuffled_typeEntries h).pairwise_iff (fun hab heq => (hab heq.symm).symm) ?_
  intro e₁ e₂ e₁' e₂' h₁ h₂
  rw [h₁.name_eq, h₂.name_eq, h₁.kind_eq, h₂.kind_eq]

/-- Merged schemas of the same subgraphs in any order have the same consensus. -/
theorem sameConsensus_of_shuffled {set set' : SubgraphSet} (hset : set.HasProperNames)
    (hset' : set'.HasProperNames) (h : Shuffled Subgraph.Alike set.subgraphs set'.subgraphs)
    {m m' : MergedSchema} (hm : ofSubgraphs set = .ok m) (hm' : ofSubgraphs set' = .ok m') :
    m.SameConsensus m' := by
  intro name
  have hentries : Shuffled TypeEntry.Alike (set.entriesOf name) (set'.entriesOf name) :=
    (SubgraphSet.shuffled_typeEntries h).filter fun e e' halike => by rw [halike.name_eq]
  have htype := type?_of_ofSubgraphs hm name
  have htype' := type?_of_ofSubgraphs hm' name
  have hsame := MergedType.sameConsensus_ofEntries hset hset' hentries
  cases hlist : set.entriesOf name with
  | nil =>
    have hlist' : set'.entriesOf name = [] :=
      List.eq_nil_of_length_eq_zero (by rw [← hentries.length_eq, hlist]; rfl)
    rw [hlist] at htype
    rw [hlist'] at htype'
    generalize m.type? name = t at htype ⊢
    generalize m'.type? name = t' at htype' ⊢
    cases htype
    cases htype'
    exact .none
  | cons e rest =>
    cases hlist' : set'.entriesOf name with
    | nil =>
      have hlength := hentries.length_eq
      rw [hlist, hlist'] at hlength
      cases hlength
    | cons e' rest' =>
      have he : e ∈ set.entriesOf name := hlist ▸ List.mem_cons_self
      have he' : e' ∈ set'.entriesOf name := hlist' ▸ List.mem_cons_self
      have hkind : e'.kind = e.kind := by
        obtain ⟨e'', he'', halike⟩ := hentries.exists_of_mem_right he'
        rw [halike.kind_eq]
        exact kind_eq_of_ofSubgraphs hm he'' he
      rw [hlist, MergedType.addEntries_none_cons, (SubgraphSet.mem_entriesOf.mp he).2] at htype
      rw [hlist', MergedType.addEntries_none_cons, (SubgraphSet.mem_entriesOf.mp he').2,
        hkind] at htype'
      have hsame := hsame e.kind
      rw [hlist, hlist'] at hsame
      generalize m.type? name = t at htype ⊢
      generalize m'.type? name = t' at htype' ⊢
      cases htype with
      | some hfinishes =>
        cases htype' with
        | some hfinishes' => exact .some (hfinishes.sameConsensus hfinishes' hsame)

end MergedSchema

/-! ## Sources in any order -/

/-- Schemas of different names that are taken in in another order make alike subgraphs. -/
theorem SubgraphSet.shuffled_of_ofSources {sources sources' : List SchemaSource}
    (h : sources.Perm sources') (hnames : (sources.map SchemaSource.name).Nodup)
    {set set' : SubgraphSet} (hset : ofSources sources = .ok set)
    (hset' : ofSources sources' = .ok set') :
    Shuffled Subgraph.Alike set.subgraphs set'.subgraphs := by
  have hnames' : (sources'.map SchemaSource.name).Nodup := (h.map _).nodup_iff.mp hnames
  have halike : ∀ (source : SchemaSource) s s', source.TurnsInto s → source.TurnsInto s' →
      s.Alike s' := fun _ _ _ => SchemaSource.TurnsInto.alike
  exact Shuffled.of_common halike h (turnsInto_of_ofSources hnames hset)
    (turnsInto_of_ofSources hnames' hset')

/-- **Consensus does not depend on the order of the subgraphs.** Take schemas of different names, and
the same schemas in another order. Both can be taken in, or neither; both can then be merged, or
neither; and the merged schemas have types of the same names and kinds, for which the subgraphs agree
on the same tags, visibility, access requirements and cost, and so they do for their enum values,
input fields, arguments and all fields that were not copied, which also have the same list sizes up
to the order of names. -/
theorem consensus_in_any_order {sources sources' : List SchemaSource} (h : sources.Perm sources')
    (hnames : (sources.map SchemaSource.name).Nodup) :
    ((∃ set, SubgraphSet.ofSources sources = .ok set) ↔
        ∃ set', SubgraphSet.ofSources sources' = .ok set') ∧
      ∀ set set', SubgraphSet.ofSources sources = .ok set →
        SubgraphSet.ofSources sources' = .ok set' →
          ((∃ m, MergedSchema.ofSubgraphs set = .ok m) ↔
              ∃ m', MergedSchema.ofSubgraphs set' = .ok m') ∧
            ∀ m m', MergedSchema.ofSubgraphs set = .ok m → MergedSchema.ofSubgraphs set' = .ok m' →
              m.SameConsensus m' := by
  have hnames' : (sources'.map SchemaSource.name).Nodup := (h.map _).nodup_iff.mp hnames
  refine ⟨?_, fun set set' hset hset' => ?_⟩
  · rw [SubgraphSet.ofSources_ok_iff hnames, SubgraphSet.ofSources_ok_iff hnames']
    simp only [h.mem_iff]
  · have hshuffled := SubgraphSet.shuffled_of_ofSources h hnames hset hset'
    exact ⟨MergedSchema.ofSubgraphs_ok_iff_of_shuffled hshuffled,
      fun m m' => MergedSchema.sameConsensus_of_shuffled
        (SubgraphSet.ingested_ofSources hset).hasProperNames
        (SubgraphSet.ingested_ofSources hset').hasProperNames hshuffled⟩

/-- A schema with one field. -/
def SchemaSource.plain : SchemaSource :=
  ⟨"type Query \x7b x: ID \x7d", "a", none⟩

/-- A schema in which the same field has a tag. -/
def SchemaSource.tagged : SchemaSource :=
  ⟨"type Query \x7b x: ID @tag(name: \"t\") \x7d", "b", none⟩

theorem SchemaSource.merges_plain_tagged :
    ((SubgraphSet.ofSources [plain, tagged]).toOption.any fun set =>
      (MergedSchema.ofSubgraphs set).toOption.isSome) = true := by
  rw [SubgraphSet.ofSources_eq_foldlM_insertSource]
  decide +kernel

/-- The two schemas have the same consensus in both orders. -/
theorem consensus_in_any_order_of_tagged :
    ∃ set set' m m', SubgraphSet.ofSources [.plain, .tagged] = .ok set ∧
      SubgraphSet.ofSources [.tagged, .plain] = .ok set' ∧
      MergedSchema.ofSubgraphs set = .ok m ∧ MergedSchema.ofSubgraphs set' = .ok m' ∧
      m.SameConsensus m' := by
  obtain ⟨hsets, hmerged⟩ := consensus_in_any_order
    (List.Perm.swap SchemaSource.tagged SchemaSource.plain []) (by decide)
  have hok := SchemaSource.merges_plain_tagged
  cases hset : SubgraphSet.ofSources [.plain, .tagged] with
  | error e =>
    rw [hset] at hok
    cases hok
  | ok set =>
    rw [hset] at hok
    change (MergedSchema.ofSubgraphs set).toOption.isSome = true at hok
    cases hm : MergedSchema.ofSubgraphs set with
    | error e =>
      rw [hm] at hok
      cases hok
    | ok m =>
      obtain ⟨set', hset'⟩ := hsets.mp ⟨set, hset⟩
      obtain ⟨hmerges, hsame⟩ := hmerged set set' hset hset'
      obtain ⟨m', hm'⟩ := hmerges.mp ⟨m, hm⟩
      exact ⟨set, set', m, m', rfl, hset', hm, hm', hsame m m' hm hm'⟩

end Federation
