import Federation.Proofs.Ingestion.Reflection
import Federation.Proofs.Merge.NamedTypes
import Federation.Proofs.Supergraph.Arguments
import Federation.Proofs.Supergraph.Parts

/-!
# References in the supergraph

A subgraph that is taken in without fatal diagnostics defines the members of its unions and the
interfaces of its types. No rule looks at the types of fields, arguments and input fields, so the
supergraph refers to whatever the subgraphs mention there, whether or not anything defines it.
-/

namespace Federation

/-! ## Types that subgraphs mention -/

namespace SubgraphSet

/-- All subgraphs that define a type have a field of a name in it. -/
def AllHave (set : SubgraphSet) (typeName fieldName : String) : Prop :=
  ∀ s ∈ set.subgraphs, ∀ d, s.definition? typeName = some d → ∃ g ∈ d.fields, g.name = fieldName

/-- The type is built in, or some subgraph defines it. -/
def Knows (set : SubgraphSet) (name : String) : Prop :=
  isBuiltInScalar name = true ∨ ∃ s ∈ set.subgraphs, s.defines name = true

/-- Some subgraph mentions a type in a place that is kept: as the type of an output field, of an
argument that all subgraphs take that resolve its field, or of an input field that all subgraphs have
that define its type. -/
inductive Mentions (set : SubgraphSet) : String → Prop
  | field {s : Subgraph} {d : TypeDef} {field : Field} (hs : s ∈ set.subgraphs)
      (hd : d ∈ s.definitions) (hkind : d.kind = .object ∨ d.kind = .interface)
      (hfield : field ∈ d.fields) : Mentions set field.type.name
  | argument {s : Subgraph} {d : TypeDef} {field : Field} {a : Argument} (hs : s ∈ set.subgraphs)
      (hd : d ∈ s.definitions) (hkind : d.kind = .object ∨ d.kind = .interface)
      (hfield : field ∈ d.fields) (ha : a ∈ field.arguments)
      (htaken : set.AllTake d.name field.name a.name) : Mentions set a.type.name
  | inputField {s : Subgraph} {d : TypeDef} {field : Field} (hs : s ∈ set.subgraphs)
      (hd : d ∈ s.definitions) (hkind : d.kind = .inputObject) (hfield : field ∈ d.fields)
      (hkept : set.AllHave d.name field.name) : Mentions set field.type.name

/-- Some subgraph mentions a type for an argument of a field that objects add to an interface. The
objects that implement the interface get the field with all arguments. -/
def MentionsInCopies (set : SubgraphSet) (name : String) : Prop :=
  ∃ s ∈ set.subgraphs, ∃ d ∈ s.definitions, ∃ field ∈ d.fields, ∃ a ∈ field.arguments,
    a.type.name = name ∧ ∃ s' ∈ set.subgraphs, ∃ d', s'.definition? d.name = some d' ∧
      d'.isInterfaceObject = true ∧ ∃ g ∈ d'.fields, g.name = field.name

end SubgraphSet

/-! ## Kept input fields -/

/-- A list without repetitions is as long as one that contains it only if it contains that one. -/
theorem length_eq_iff_of_subset {α : Type} [DecidableEq α] {as bs : List α} (ha : as.Nodup)
    (hb : bs.Nodup) (hsub : as ⊆ bs) : as.length = bs.length ↔ bs ⊆ as := by
  constructor
  · intro hlength
    exact ((List.subperm_of_subset ha hsub).perm_of_length_le hlength.ge).symm.subset
  · intro hsub'
    exact le_antisymm (List.subperm_of_subset ha hsub).length_le
      (List.subperm_of_subset hb hsub').length_le

/-- What is collected under a name lists every subgraph once. -/
theorem SubgraphSet.nodup_ids_defining {α : Type} (set : SubgraphSet)
    (namedIn : Subgraph → List (String × α)) (name : String) :
    (set.defining namedIn name).ids.Nodup := by
  refine List.pairwise_map.mpr (List.pairwise_filterMap.mpr ?_)
  refine set.pairwise_enumerated.imp fun hne x hx y hy => ?_
  obtain ⟨_, -, rfl⟩ := Option.map_eq_some_iff.mp hx
  obtain ⟨_, -, rfl⟩ := Option.map_eq_some_iff.mp hy
  exact hne

namespace MergedSchema

variable {set : SubgraphSet} {m : MergedSchema} (hset : set.HasProperNames)
  (h : ofSubgraphs set = .ok m) {t : MergedType} (ht : t ∈ m.types)

include hset h ht

/-- An input type has the fields of a name that subgraphs define, with the subgraphs that do. -/
theorem mem_inputFields_iff (hkind : t.kind = .inputObject) {name : String}
    {types : ByGraph TypeRef} :
    (∃ field ∈ t.inputFields, field.name = name ∧ field.byGraph = types) ↔
      (∃ s ∈ set.subgraphs, ∃ part ∈ Subgraph.namedInputFields t.name s, part.1 = name) ∧
        types = set.defining (Subgraph.namedInputFields t.name) name := by
  have hcollected := isCollected_of_ofSubgraphs hset h ht
  cases hbody : t.body with
  | inputObject fields =>
    have hfields : t.inputFields = fields := by rw [MergedType.inputFields, hbody]
    rw [hbody] at hcollected
    have hlist : (fields.map fun field => (field.name, field.byGraph)) =
      set.collected (Subgraph.namedInputFields t.name) := hcollected
    rw [← SubgraphSet.mem_collected, ← hlist, hfields, List.mem_map]
    simp only [Prod.mk.injEq]
  | object | interface | union | enum | scalar =>
    rw [MergedType.kind, hbody] at hkind
    cases hkind

/-- A merged type has entries of the subgraphs that define it, each once. -/
theorem mem_ids_byGraph_iff {id : SubgraphId} :
    id ∈ t.byGraph.ids ↔
      ∃ s, set.subgraph? id = some s ∧ ∃ d, s.definition? t.name = some d := by
  rw [ByGraph.ids, List.mem_map]
  constructor
  · rintro ⟨⟨i, d⟩, hentry, rfl⟩
    obtain ⟨s, hs, hd⟩ := (mem_byGraph_iff hset h ht).mp hentry
    exact ⟨s, hs, d, hd⟩
  · rintro ⟨s, hs, d, hd⟩
    exact ⟨(id, d), (mem_byGraph_iff hset h ht).mpr ⟨s, hs, hd⟩, rfl⟩

theorem nodup_ids_byGraph : t.byGraph.ids.Nodup := by
  have hfound := (hasUniqueNames_of_ofSubgraphs h).type?_eq_some ht
  rw [byGraph_of_type? hset h hfound, ByGraph.ids, List.map_map]
  exact List.pairwise_map.mpr (hset.pairwise_entriesOf t.name)

/-- The subgraphs of an input field are as many as those of its type exactly if they are the same. -/
theorem length_byGraph_eq_iff (hkind : t.kind = .inputObject) {field : MergedInput}
    (hfield : field ∈ t.inputFields) :
    field.byGraph.length = t.byGraph.length ↔ set.AllHave t.name field.name := by
  have htypes := ((mem_inputFields_iff hset h ht hkind).mp ⟨field, hfield, rfl, rfl⟩).2
  have hmem : ∀ {id}, id ∈ field.byGraph.ids ↔ ∃ s, set.subgraph? id = some s ∧
      ∃ d, s.definition? t.name = some d ∧ ∃ g ∈ d.fields, g.name = field.name := by
    intro id
    rw [htypes, SubgraphSet.mem_ids_defining]
    refine exists_congr fun s => and_congr_right fun _ => ?_
    simp [Subgraph.namedInputFields, Subgraph.partsOf]
  have hunique : field.byGraph.ids.Nodup := htypes ▸ set.nodup_ids_defining _ _
  have hsub : field.byGraph.ids ⊆ t.byGraph.ids := by
    intro id hid
    obtain ⟨s, hs, d, hd, -⟩ := hmem.mp hid
    exact (mem_ids_byGraph_iff hset h ht).mpr ⟨s, hs, d, hd⟩
  have hids := length_eq_iff_of_subset hunique (nodup_ids_byGraph hset h ht) hsub
  rw [ByGraph.ids, ByGraph.ids, List.length_map, List.length_map] at hids
  refine hids.trans ?_
  constructor
  · intro hall s hs d hd
    obtain ⟨id, hid⟩ := List.mem_iff_getElem?.mp hs
    obtain ⟨s', hs', d', hd', hg⟩ :=
      hmem.mp (hall ((mem_ids_byGraph_iff hset h ht).mpr ⟨s, hid, d, hd⟩))
    obtain rfl : s = s' := Option.some.inj (hid.symm.trans hs')
    obtain rfl : d = d' := Option.some.inj (hd.symm.trans hd')
    exact hg
  · intro hall id hid
    obtain ⟨s, hs, d, hd⟩ := (mem_ids_byGraph_iff hset h ht).mp hid
    exact hmem.mpr ⟨s, hs, d, hd, hall s (List.mem_of_getElem? hs) d hd⟩

end MergedSchema

/-! ## References of emitted types -/

namespace Supergraph

/-- The members of a union. -/
def Body.members : Body → List String
  | .union members => members
  | _ => []

/-- The types of a supergraph have the names of the merged types. -/
theorem map_name_emit (set : SubgraphSet) (m : MergedSchema) :
    (emit set m).types.map TypeDefinition.name = m.types.map MergedType.name := by
  show (m.types.map (emitType set.enumValueOf)).map TypeDefinition.name = _
  rw [List.map_map]
  rfl

/-- An emitted type declares the interfaces of the merged type. -/
theorem interfaces_emitType (names : GraphNames) (t : MergedType) :
    (emitType names t).body.interfaces = t.interfaces := by
  unfold emitType emitBody MergedType.interfaces
  cases t.body <;> rfl

/-- An emitted type declares the members of the merged type. -/
theorem members_emitType (names : GraphNames) (t : MergedType) :
    (emitType names t).body.members = t.members.map MergedMember.name := by
  unfold emitType emitBody MergedType.members
  cases t.body <;> rfl

/-- An emitted type refers to its interfaces and members, and to the types of its fields, of arguments
that are taken everywhere, and of input fields that all its subgraphs have. -/
theorem mem_references_emitType {names : GraphNames} {t : MergedType} {name : String} :
    name ∈ (emitType names t).body.references ↔
      name ∈ (emitType names t).body.interfaces ∨ name ∈ (emitType names t).body.members ∨
      (∃ field ∈ t.fields, TypeRef.nameOfText field.type.text = name ∨
        ∃ a ∈ field.arguments, isTakenEverywhere field a = true ∧
          TypeRef.nameOfText a.type.text = name) ∨
      ∃ field ∈ t.inputFields, field.byGraph.length = t.byGraph.length ∧
        TypeRef.nameOfText field.type.text = name := by
  unfold emitType emitBody MergedType.fields MergedType.inputFields
  cases t.body with
  | object interfaces fields | interface interfaces fields =>
    simp [Body.references, Body.interfaces, Body.members, emitField, emitInput, and_assoc,
      @eq_comm _ name]
  | union members => simp [Body.references, Body.interfaces, Body.members]
  | enum | scalar => simp [Body.references, Body.interfaces, Body.members]
  | inputObject fields =>
    simp [Body.references, Body.interfaces, Body.members, emitInput, and_assoc]

end Supergraph

/-! ## References of merged types -/

/-- The subgraphs were taken in and merged, and nothing fatal was found on the way. -/
structure SubgraphSet.MergesTo (set : SubgraphSet) (m : MergedSchema) : Prop where
  ingested : set.Ingested
  quiet : ∀ s ∈ set.subgraphs, s.diagnostics.anyFatal = false
  merged : MergedSchema.ofSubgraphs set = .ok m
  valid : (Validation.validate { set := set, merged := m }).anyFatal = false

/-- A successful composition emits what the subgraphs were merged to. -/
theorem SubgraphSet.Ingested.exists_mergesTo {set : SubgraphSet} (hset : set.Ingested)
    {options : CompositionOptions} {composed : ComposedSupergraph}
    (h : (set.compose options).supergraph = some composed) :
    ∃ m, set.MergesTo m ∧ composed = .of (Supergraph.emit set m) := by
  obtain ⟨m, hm, hvalid, hcomposed⟩ := exists_merged_of_supergraph h
  have hbase := anyFatal_baseDiagnostics (anyFatal_of_supergraph h)
  exact ⟨m, ⟨hset, fun s hs => anyFatal_diagnostics hbase hs, hm, hvalid⟩, hcomposed⟩

/-- Only the name decides whether there are marks in it. -/
theorem TypeRef.HasPlainName.of_name_eq {t u : TypeRef} (h : u.HasPlainName)
    (hname : u.name = t.name) : t.HasPlainName := by
  unfold HasPlainName
  rw [← hname]
  exact h

/-- The name in the text of a type is that of a type of the same name that has no marks in it. -/
theorem TypeRef.nameOfText_text_of_eq {t u : TypeRef} (hplain : u.HasPlainName)
    (hname : u.name = t.name) : nameOfText t.text = u.name := by
  rw [nameOfText_text (hplain.of_name_eq hname), hname]

namespace SubgraphSet.MergesTo

variable {set : SubgraphSet} {m : MergedSchema} (h : set.MergesTo m)

include h

theorem hasProperNames : set.HasProperNames :=
  h.ingested.hasProperNames

/-- The types of fields that subgraphs define have plain names. -/
theorem hasPlainName_of_hasField {typeName : String} {g : Field} (hg : set.HasField typeName g) :
    g.type.HasPlainName ∧ ∀ a ∈ g.arguments, a.type.HasPlainName := by
  obtain ⟨s, hs, d, hd, hmem⟩ := hg
  have hdefined := Subgraph.mem_of_definition? hd
  exact ⟨((h.hasProperNames s hs).parts d hdefined).fieldTypes g hmem,
    (h.ingested.references hs (h.quiet s hs) hdefined).2 g hmem⟩

section

variable {t : MergedType} (ht : t ∈ m.types)

include ht

/-- A definition of a merged type is of its kind. -/
theorem kind_of_definition? {s : Subgraph} (hs : s ∈ set.subgraphs) {d : TypeDef}
    (hd : s.definition? t.name = some d) : d.kind = t.kind := by
  obtain ⟨id, hid⟩ := List.mem_iff_getElem?.mp hs
  exact MergedSchema.kind_of_mem_byGraph h.hasProperNames h.merged ht
    ((MergedSchema.mem_byGraph_iff h.hasProperNames h.merged ht).mpr ⟨s, hid, hd⟩)

/-- The type of a field that subgraphs define is mentioned by them. -/
theorem mentions_of_mem_fields {field : MergedField} (hfield : field ∈ t.fields)
    (hdefined : field.byGraph ≠ []) : set.Mentions (TypeRef.nameOfText field.type.text) := by
  have hagree := Validation.typesDisagree_eq_false h.valid ht hfield
  obtain ⟨⟨g, hg, hname⟩, hall⟩ :=
    MergedSchema.name_of_mem_fields h.hasProperNames h.merged ht hfield hdefined hagree
  rw [TypeRef.nameOfText_text_of_eq (h.hasPlainName_of_hasField hg).1 (hall g hg hname)]
  obtain ⟨s, hs, d, hd, hmem⟩ := hg
  refine .field hs (Subgraph.mem_of_definition? hd) ?_ hmem
  rw [h.kind_of_definition? ht hs hd]
  exact MergedType.kind_of_mem_fields hfield

/-- The type of an argument that is kept is mentioned by subgraphs. -/
theorem mentions_of_mem_arguments {field : MergedField} (hfield : field ∈ t.fields)
    (hdefined : field.byGraph ≠ []) {argument : MergedInput} (hargument : argument ∈ field.arguments)
    (htaken : Supergraph.isTakenEverywhere field argument = true) :
    set.Mentions (TypeRef.nameOfText argument.type.text) := by
  have hagree := Validation.typesDisagree_of_mem_arguments h.valid ht hfield hargument
  obtain ⟨⟨g, hg, hname, a, ha, haname⟩, hall⟩ := MergedSchema.name_of_mem_arguments
    h.hasProperNames h.merged ht hfield hdefined hargument hagree
  rw [TypeRef.nameOfText_text_of_eq ((h.hasPlainName_of_hasField hg).2 a ha)
    (hall g hg hname a ha haname)]
  have hall := (MergedSchema.isTakenEverywhere_iff h.hasProperNames h.merged ht hfield hdefined
    hargument).mp htaken
  obtain ⟨s, hs, d, hd, hmem⟩ := hg
  have hdname := Subgraph.name_of_definition? hd
  refine .argument hs (Subgraph.mem_of_definition? hd) ?_ hmem ha ?_
  · rw [h.kind_of_definition? ht hs hd]
    exact MergedType.kind_of_mem_fields hfield
  · rw [hdname, hname, haname]
    exact hall

/-- The type of an input field that is kept is mentioned by subgraphs. -/
theorem mentions_of_mem_inputFields {field : MergedInput} (hfield : field ∈ t.inputFields)
    (hkept : field.byGraph.length = t.byGraph.length) :
    set.Mentions (TypeRef.nameOfText field.type.text) := by
  have hkind : t.kind = .inputObject := by
    unfold MergedType.inputFields at hfield
    unfold MergedType.kind
    cases hbody : t.body with
    | inputObject => rfl
    | object | interface | union | enum | scalar =>
      rw [hbody] at hfield
      cases hfield
  have hagree := Validation.typesDisagree_of_mem_inputFields h.valid ht hfield
  obtain ⟨⟨g, hg, hname⟩, hall⟩ :=
    MergedSchema.name_of_mem_inputFields h.hasProperNames h.merged ht hfield hagree
  rw [TypeRef.nameOfText_text_of_eq (h.hasPlainName_of_hasField hg).1 (hall g hg hname)]
  obtain ⟨s, hs, d, hd, hmem⟩ := hg
  have hdname := Subgraph.name_of_definition? hd
  refine .inputField hs (Subgraph.mem_of_definition? hd) ?_ hmem ?_
  · rw [h.kind_of_definition? ht hs hd, hkind]
  · rw [hdname, hname]
    exact (MergedSchema.length_byGraph_eq_iff h.hasProperNames h.merged ht hkind hfield).mp hkept

/-- The types of a copied field and its arguments are mentioned by subgraphs, and those of arguments
perhaps only in copies. -/
theorem mentions_of_copied {field : MergedField} (hfield : field ∈ t.fields)
    (hcopied : field.byGraph = []) :
    set.Mentions (TypeRef.nameOfText field.type.text) ∧ ∀ argument ∈ field.arguments,
      set.MentionsInCopies (TypeRef.nameOfText argument.type.text) := by
  have hfound := (MergedSchema.hasUniqueNames_of_ofSubgraphs h.merged).type?_eq_some ht
  have hmark := MergedSchema.isFromInterfaceObject_of_byGraph_eq_nil h.hasProperNames h.merged
    hfound hfield hcopied
  obtain ⟨-, i, hi, -, -, original, ⟨hmem, id, hid, standIn, hstandIn, hobject⟩, rfl⟩ :=
    (MergedSchema.copiesTo_of_ofSubgraphs h.merged ht).copied field hfield hmark
  obtain ⟨⟨j, f⟩, hf, rfl⟩ := List.mem_map.mp hid
  have hdefined : original.byGraph ≠ [] := List.ne_nil_of_mem hf
  have hmentions := h.mentions_of_mem_fields hi hmem hdefined
  refine ⟨hmentions, fun argument hargument => ?_⟩
  have hagree := Validation.typesDisagree_of_mem_arguments h.valid hi hmem hargument
  obtain ⟨⟨g, hg, hname, a, ha, haname⟩, hall⟩ := MergedSchema.name_of_mem_arguments
    h.hasProperNames h.merged hi hmem hdefined hargument hagree
  obtain ⟨s', hs', hd'⟩ :=
    (MergedSchema.mem_byGraph_iff h.hasProperNames h.merged hi).mp hstandIn
  obtain ⟨s'', hs'', d'', hd'', g', hg', hname', -⟩ :=
    (MergedSchema.mem_byGraph_of_mem_fields h.hasProperNames h.merged hi hmem).mp hf
  obtain rfl : s' = s'' := Option.some.inj (hs'.symm.trans hs'')
  obtain rfl : standIn = d'' := Option.some.inj (hd'.symm.trans hd'')
  have htype := TypeRef.nameOfText_text_of_eq ((h.hasPlainName_of_hasField hg).2 a ha)
    (hall g hg hname a ha haname)
  obtain ⟨s, hs, d, hd, hgmem⟩ := hg
  have hdname := Subgraph.name_of_definition? hd
  exact ⟨s, hs, d, Subgraph.mem_of_definition? hd, g, hgmem, a, ha, htype.symm, s',
    List.mem_of_getElem? hs', standIn, hdname ▸ hd', hobject, g', hg', hname'.trans hname.symm⟩

end

/-- A field that a subgraph defines in an object or interface is merged to a field that has the name
of its type. -/
theorem exists_field_of_mem {s : Subgraph} (hs : s ∈ set.subgraphs) {d : TypeDef}
    (hd : d ∈ s.definitions) (hkind : d.kind = .object ∨ d.kind = .interface) {g : Field}
    (hg : g ∈ d.fields) :
    ∃ t ∈ m.types, t.name = d.name ∧ ∃ field ∈ t.fields, field.name = g.name ∧
      field.byGraph ≠ [] ∧ TypeRef.nameOfText field.type.text = g.type.name := by
  obtain ⟨id, hid⟩ := List.mem_iff_getElem?.mp hs
  obtain ⟨t, field, htype, -, hfound, hentry, hname⟩ := MergedSchema.exists_field?_of_mem
    h.hasProperNames h.merged (e := ⟨id, s, d⟩) (SubgraphSet.mem_typeEntries.mpr ⟨hid, hd⟩) hkind hg
  obtain ⟨ht, htname⟩ := MergedSchema.mem_types_of_type?_eq_some htype
  have hfield : field ∈ t.fields := List.mem_of_find?_eq_some hfound
  have hagree := Validation.typesDisagree_eq_false h.valid ht hfield
  have hplain := (h.hasPlainName_of_hasField (h.hasProperNames.hasField hs hd hg)).1
  exact ⟨t, ht, htname, field, hfield, by simpa using List.find?_some hfound,
    List.ne_nil_of_mem hentry, TypeRef.nameOfText_text_of_eq hplain (hname hagree).symm⟩

/-- What subgraphs mention is referred to by the type in which they mention it. -/
theorem exists_references_of_mentions {name : String} (hname : set.Mentions name)
    (names : Supergraph.GraphNames) :
    ∃ t ∈ m.types, name ∈ (Supergraph.emitType names t).body.references := by
  simp only [Supergraph.mem_references_emitType]
  cases hname with
  | field hs hd hkind hg =>
    obtain ⟨t, ht, -, field, hfield, -, -, htype⟩ := h.exists_field_of_mem hs hd hkind hg
    exact ⟨t, ht, .inr (.inr (.inl ⟨field, hfield, .inl htype⟩))⟩
  | @argument s d g a hs hd hkind hg ha htaken =>
    obtain ⟨t, ht, htname, field, hfield, hfieldname, hdefined, -⟩ :=
      h.exists_field_of_mem hs hd hkind hg
    have hhas := h.hasProperNames.hasField hs hd hg
    have hpart : (a.name, a.type) ∈ Subgraph.namedArguments t.name field.name s := by
      have hproper := h.hasProperNames s hs
      have hfound : d.field? g.name = some g := find?_key_eq_some (hproper.parts d hd).fields hg
      rw [htname, hfieldname, Subgraph.namedArguments, Subgraph.partsOf,
        hproper.definition?_eq_some hd]
      simpa [hfound] using ⟨a, ha, rfl, rfl⟩
    obtain ⟨argument, hargument, hargumentname, -⟩ := (MergedSchema.mem_arguments_iff
      h.hasProperNames h.merged ht hfield hdefined).mpr ⟨⟨s, hs, _, hpart, rfl⟩, rfl⟩
    have hagree := Validation.typesDisagree_of_mem_arguments h.valid ht hfield hargument
    have hsame := (MergedSchema.name_of_mem_arguments h.hasProperNames h.merged ht hfield hdefined
      hargument hagree).2 g (htname ▸ hhas) hfieldname.symm a ha hargumentname.symm
    refine ⟨t, ht, .inr (.inr (.inl ⟨field, hfield, .inr ⟨argument, hargument, ?_, ?_⟩⟩))⟩
    · rw [MergedSchema.isTakenEverywhere_iff h.hasProperNames h.merged ht hfield hdefined hargument,
        htname, hfieldname, hargumentname]
      exact htaken
    · exact TypeRef.nameOfText_text_of_eq ((h.hasPlainName_of_hasField hhas).2 a ha) hsame
  | @inputField s d g hs hd hkind hg hkept =>
    have hhas := h.hasProperNames.hasField hs hd hg
    obtain ⟨id, hid⟩ := List.mem_iff_getElem?.mp hs
    obtain ⟨t, htype, htkind, -⟩ := MergedSchema.exists_type?_of_mem h.merged (e := ⟨id, s, d⟩)
      (SubgraphSet.mem_typeEntries.mpr ⟨hid, hd⟩)
    obtain ⟨ht, htname⟩ := MergedSchema.mem_types_of_type?_eq_some htype
    have hinput : t.kind = .inputObject := htkind.trans hkind
    have htname : t.name = d.name := htname
    have hpart : (g.name, g.type) ∈ Subgraph.namedInputFields t.name s := by
      rw [htname, Subgraph.namedInputFields, Subgraph.partsOf,
        (h.hasProperNames s hs).definition?_eq_some hd]
      simpa using ⟨g, hg, rfl, rfl⟩
    obtain ⟨field, hfield, hfieldname, -⟩ := (MergedSchema.mem_inputFields_iff
      h.hasProperNames h.merged ht hinput).mpr ⟨⟨s, hs, _, hpart, rfl⟩, rfl⟩
    have hagree := Validation.typesDisagree_of_mem_inputFields h.valid ht hfield
    have hsame := (MergedSchema.name_of_mem_inputFields h.hasProperNames h.merged ht hfield
      hagree).2 g (htname ▸ hhas) hfieldname.symm
    refine ⟨t, ht, .inr (.inr (.inr ⟨field, hfield, ?_, ?_⟩))⟩
    · rw [MergedSchema.length_byGraph_eq_iff h.hasProperNames h.merged ht hinput hfield, htname,
        hfieldname]
      exact hkept
    · exact TypeRef.nameOfText_text_of_eq (h.hasPlainName_of_hasField hhas).1 hsame

/-- A type is merged exactly if some subgraph defines it. -/
theorem mem_names_iff {name : String} :
    name ∈ m.types.map MergedType.name ↔ ∃ s ∈ set.subgraphs, s.defines name = true := by
  have hcollected := MergedSchema.types_eq_collected h.hasProperNames h.merged
  have hmem : name ∈ m.types.map MergedType.name ↔
      ∃ types, (name, types) ∈ set.collected Subgraph.namedTypes := by
    rw [← hcollected]
    simp
  rw [hmem]
  simp [SubgraphSet.mem_collected, Subgraph.namedTypes, Subgraph.defines_iff_mem_names]

/-- Interfaces and members of merged types are merged types. -/
theorem mem_names_of_declared {t : MergedType} (ht : t ∈ m.types) {other : String}
    (hother : other ∈ t.interfaces ∨ other ∈ t.members.map MergedMember.name) :
    other ∈ m.types.map MergedType.name := by
  have hdeclared : ∃ s ∈ set.subgraphs, ∃ d, s.definition? t.name = some d ∧
      (other ∈ d.members ∨ other ∈ d.interfaces) := by
    rcases hother with hinterface | hmember
    · obtain ⟨-, s, hs, d, hd, hmem⟩ :=
        (MergedSchema.mem_interfaces_iff h.merged ht h.hasProperNames).mp hinterface
      exact ⟨s, hs, d, hd, .inr hmem⟩
    · obtain ⟨member, hmem, rfl⟩ := List.mem_map.mp hmember
      obtain ⟨s, hs, d, hd, hmem⟩ :=
        MergedSchema.exists_of_mem_members h.merged ht h.hasProperNames hmem
      exact ⟨s, hs, d, hd, .inl hmem⟩
  obtain ⟨s, hs, d, hd, hmem⟩ := hdeclared
  exact h.mem_names_iff.mpr ⟨s, hs,
    (h.ingested.references hs (h.quiet s hs) (Subgraph.mem_of_definition? hd)).1 other hmem⟩

/-- A merged type refers to its interfaces and members, and otherwise to what subgraphs mention. -/
theorem mentions_of_mem_references {t : MergedType} (ht : t ∈ m.types)
    {names : Supergraph.GraphNames} {name : String}
    (hname : name ∈ (Supergraph.emitType names t).body.references) :
    name ∈ m.types.map MergedType.name ∨ set.Mentions name ∨ set.MentionsInCopies name := by
  rw [Supergraph.mem_references_emitType, Supergraph.interfaces_emitType,
    Supergraph.members_emitType] at hname
  rcases hname with hinterface | hmember | ⟨field, hfield, hfieldtype⟩ | ⟨field, hfield, hkept, rfl⟩
  · exact .inl (h.mem_names_of_declared ht (.inl hinterface))
  · exact .inl (h.mem_names_of_declared ht (.inr hmember))
  · right
    rcases eq_or_ne field.byGraph [] with hcopied | hdefined
    · obtain ⟨htype, harguments⟩ := h.mentions_of_copied ht hfield hcopied
      rcases hfieldtype with rfl | ⟨a, ha, -, rfl⟩
      · exact .inl htype
      · exact .inr (harguments a ha)
    · rcases hfieldtype with rfl | ⟨a, ha, htaken, rfl⟩
      · exact .inl (h.mentions_of_mem_fields ht hfield hdefined)
      · exact .inl (h.mentions_of_mem_arguments ht hfield hdefined ha htaken)
  · exact .inr (.inl (h.mentions_of_mem_inputFields ht hfield hkept))

end SubgraphSet.MergesTo

/-! ## Self-contained supergraphs -/

namespace Supergraph

/-- Every type that the model refers to is built in or defined in it. -/
def Model.IsSelfContained (m : Model) : Prop :=
  ∀ d ∈ m.types, ∀ name ∈ d.body.references,
    isBuiltInScalar name = true ∨ name ∈ m.types.map TypeDefinition.name

/-- **A supergraph is self-contained if the subgraphs mention only types that they know.** It has the
types that some subgraph defines, and every interface and every member of its types is one of them.
The types of its fields, arguments and input fields are those that the subgraphs mention there, and
nothing has looked at these: each of them has to be known if the supergraph is self-contained, and
this is enough, apart from arguments of fields that objects add to an interface, which the objects
that implement it get even if the interface does not. -/
theorem self_contained_if_mentions_are_known {set : SubgraphSet} (hset : set.Ingested)
    {options : CompositionOptions} {composed : ComposedSupergraph}
    (h : (set.compose options).supergraph = some composed) :
    (∀ name, name ∈ composed.model.types.map TypeDefinition.name ↔
        ∃ s ∈ set.subgraphs, s.defines name = true) ∧
      (∀ d ∈ composed.model.types, ∀ other,
        other ∈ d.body.interfaces ∨ other ∈ d.body.members →
          other ∈ composed.model.types.map TypeDefinition.name) ∧
      (composed.model.IsSelfContained → ∀ name, set.Mentions name → set.Knows name) ∧
      ((∀ name, set.Mentions name ∨ set.MentionsInCopies name → set.Knows name) →
        composed.model.IsSelfContained) := by
  obtain ⟨m, hm, rfl⟩ := hset.exists_mergesTo h
  show (∀ name, name ∈ (emit set m).types.map TypeDefinition.name ↔ _) ∧
    (∀ d ∈ (emit set m).types, ∀ other, _ →
      other ∈ (emit set m).types.map TypeDefinition.name) ∧
    ((emit set m).IsSelfContained → _) ∧ (_ → (emit set m).IsSelfContained)
  unfold Model.IsSelfContained
  rw [map_name_emit]
  refine ⟨fun name => hm.mem_names_iff, ?_, ?_, ?_⟩
  · intro d hd other hother
    obtain ⟨t, ht, rfl⟩ := List.mem_map.mp hd
    rw [interfaces_emitType, members_emitType] at hother
    exact hm.mem_names_of_declared ht hother
  · intro hclosed name hmentions
    obtain ⟨t, ht, hname⟩ := hm.exists_references_of_mentions hmentions set.enumValueOf
    exact (hclosed _ (List.mem_map_of_mem ht) name hname).imp_right hm.mem_names_iff.mp
  · intro hknown d hd name hname
    obtain ⟨t, ht, rfl⟩ := List.mem_map.mp hd
    rcases hm.mentions_of_mem_references ht hname with hdefined | hmentions
    · exact .inr hdefined
    · exact (hknown name hmentions).imp_right hm.mem_names_iff.mpr

end Supergraph

/-- A schema with a field of a type that nothing defines. -/
def SchemaSource.dangling : SchemaSource :=
  ⟨"type Query\x7bx:Foo\x7d", "a", none⟩

theorem SchemaSource.composes_dangling :
    ((SubgraphSet.ofSources [dangling]).toOption.any fun set =>
      (MergedSchema.ofSubgraphs set).toOption.any fun m =>
        !(set.compose { runSatisfiability := false }).diagnostics.anyFatal &&
          (((Supergraph.emit set m).types.any fun d => d.body.references.contains "Foo") &&
            !((Supergraph.emit set m).types.map Supergraph.TypeDefinition.name).contains "Foo" &&
          ((set.subgraphs.any fun s => s.definitions.any fun d => d.kind == .object &&
            d.fields.any fun field => field.type.name == "Foo") &&
            !(set.subgraphs.any fun s => s.defines "Foo")))) = true := by decide +kernel

/-- The schema composes, though it mentions a type that it does not know. -/
theorem SubgraphSet.exists_composed_dangling :
    ∃ set composed, SubgraphSet.ofSources [.dangling] = .ok set ∧ set.Ingested ∧
      (set.compose { runSatisfiability := false }).supergraph = some composed ∧
      (set.Mentions "Foo" ∧ ¬ set.Knows "Foo") ∧
      ∃ d ∈ composed.model.types, "Foo" ∈ d.body.references ∧
        "Foo" ∉ composed.model.types.map Supergraph.TypeDefinition.name := by
  obtain ⟨set, hset, hmerges⟩ := exists_ok_of_any SchemaSource.composes_dangling
  obtain ⟨m, hm, hcomposes⟩ := exists_ok_of_any hmerges
  rw [Bool.and_eq_true, Bool.not_eq_true'] at hcomposes
  obtain ⟨hvalid, hcomposes⟩ := hcomposes
  simp only [List.any_eq_true, Bool.and_eq_true, Bool.not_eq_true', beq_iff_eq,
    List.contains_eq_mem, decide_eq_true_eq, decide_eq_false_iff_not, List.any_eq_false]
    at hcomposes
  obtain ⟨⟨⟨d, hd, hrefers⟩, hundefined⟩, ⟨s, hs, parent, hparent, hkind, field, hfield, htype⟩,
    hunknown⟩ := hcomposes
  refine ⟨set, _, hset, ingested_ofSources hset, supergraph_compose hm hvalid, ⟨?_, ?_⟩, d, hd,
    hrefers, hundefined⟩
  · rw [← htype]
    exact .field hs hparent (.inl hkind) hfield
  · rintro (hbuiltIn | ⟨s, hs, hdefines⟩)
    · exact absurd hbuiltIn (by decide)
    · exact hunknown s hs hdefines

namespace Supergraph

/-- The schema mentions an unknown type, so its supergraph is not self-contained. -/
theorem self_contained_if_mentions_are_known_of_dangling :
    ∃ set composed, SubgraphSet.ofSources [.dangling] = .ok set ∧ set.Ingested ∧
      (set.compose { runSatisfiability := false }).supergraph = some composed ∧
      ¬ composed.model.IsSelfContained := by
  obtain ⟨set, composed, hset, hingested, hcomposed, ⟨hmentions, hunknown⟩, -⟩ :=
    SubgraphSet.exists_composed_dangling
  refine ⟨set, composed, hset, hingested, hcomposed, fun hclosed => hunknown ?_⟩
  exact (self_contained_if_mentions_are_known hingested hcomposed).2.2.1 hclosed "Foo" hmentions

/-- A composition may leave a reference to a type that nothing defines. -/
theorem composition_leaves_undefined_type :
    ¬ ∀ set : SubgraphSet, set.Ingested → ∀ options composed,
      (set.compose options).supergraph = some composed → composed.model.IsSelfContained := by
  intro hclosed
  obtain ⟨set, composed, -, hingested, hcomposed, -, d, hd, hrefers, hundefined⟩ :=
    SubgraphSet.exists_composed_dangling
  rcases hclosed set hingested _ composed hcomposed d hd "Foo" hrefers with hbuiltIn | hdefined
  · exact absurd hbuiltIn (by decide)
  · exact hundefined hdefined

end Supergraph

end Federation
