import Federation.Proofs.Merge.Contents

/-!
# Named types of merged elements

A field, an argument or an input field whose types compose has the named type that it has in every
subgraph. So what a merged type refers to is what some subgraph refers to, and also the members and
interfaces of a merged type are those that subgraphs declare.
-/

namespace Federation

/-! ## Fields of subgraphs -/

/-- Some subgraph defines a field in its type of a name. -/
def SubgraphSet.HasField (set : SubgraphSet) (typeName : String) (field : Field) : Prop :=
  ∃ s ∈ set.subgraphs, ∃ d, s.definition? typeName = some d ∧ field ∈ d.fields

namespace SubgraphSet

variable {set : SubgraphSet}

/-- The definitions that are merged are those that are found by name. -/
theorem HasProperNames.exists_mem_entriesOf_iff (hset : set.HasProperNames) {typeName : String}
    {P : TypeDef → Prop} :
    (∃ e ∈ set.entriesOf typeName, P e.definition) ↔
      ∃ s ∈ set.subgraphs, ∃ d, s.definition? typeName = some d ∧ P d := by
  constructor
  · rintro ⟨e, he, hP⟩
    obtain ⟨hmem, rfl⟩ := mem_entriesOf.mp he
    obtain ⟨hs, hd⟩ := mem_typeEntries.mp hmem
    have hsubgraph := List.mem_of_getElem? hs
    exact ⟨e.subgraph, hsubgraph, e.definition,
      (hset e.subgraph hsubgraph).definition?_eq_some hd, hP⟩
  · rintro ⟨s, hs, d, hd, hP⟩
    obtain ⟨id, hid⟩ := List.mem_iff_getElem?.mp hs
    exact ⟨⟨id, s, d⟩, mem_entriesOf.mpr ⟨mem_typeEntries.mpr
      ⟨hid, Subgraph.mem_of_definition? hd⟩, Subgraph.name_of_definition? hd⟩, hP⟩

theorem HasProperNames.hasField_iff (hset : set.HasProperNames) {typeName : String}
    {field : Field} :
    set.HasField typeName field ↔ ∃ e ∈ set.entriesOf typeName, field ∈ e.definition.fields :=
  (hset.exists_mem_entriesOf_iff (P := fun d => field ∈ d.fields)).symm

/-- A field that a subgraph defines is one that it defines in its type of the name. -/
theorem HasProperNames.hasField (hset : set.HasProperNames) {s : Subgraph} (hs : s ∈ set.subgraphs)
    {d : TypeDef} (hd : d ∈ s.definitions) {field : Field} (hfield : field ∈ d.fields) :
    set.HasField d.name field :=
  ⟨s, hs, d, (hset s hs).definition?_eq_some hd, hfield⟩

end SubgraphSet

/-! ## Merged elements -/

namespace MergedType

theorem Finishes.inputFields_eq {t t' : MergedType} (h : t.Finishes t') :
    t'.inputFields = t.inputFields := by
  have hbody := h.body
  unfold inputFields
  generalize t.body = body at hbody ⊢
  generalize t'.body = body' at hbody ⊢
  cases hbody <;> rfl

/-- The input fields that entries add up to. -/
theorem inputFields_ofEntries (name : String) (kind : TypeKind) (entries : List TypeEntry) :
    (ofEntries name kind entries).inputFields =
      if kind = .inputObject then
        MergedInput.typedTable.table (entries.flatMap TypeEntry.inputFields)
      else [] := by
  unfold inputFields
  rw [body_ofEntries]
  cases kind <;> rfl

/-- The interfaces that entries declare. -/
theorem mem_interfacesOf {entries : List TypeEntry} {other : String} :
    other ∈ TypeEntry.interfacesOf entries ↔ ∃ e ∈ entries, other ∈ e.definition.interfaces := by
  induction entries using List.reverseRecOn with
  | nil => simp [TypeEntry.interfacesOf]
  | append_singleton entries e ih =>
    rw [TypeEntry.interfacesOf, List.foldl_concat, ← TypeEntry.interfacesOf, absorbInterfaces,
      Attributes.mem_foldl_addNew, ih]
    simp [or_and_right, exists_or]

/-- The interfaces that entries add up to. -/
theorem mem_interfaces_ofEntries {name : String} {kind : TypeKind} {entries : List TypeEntry}
    {other : String} :
    other ∈ (ofEntries name kind entries).interfaces ↔
      (kind = .object ∨ kind = .interface) ∧ ∃ e ∈ entries, other ∈ e.definition.interfaces := by
  unfold interfaces
  rw [body_ofEntries, ← mem_interfacesOf]
  cases kind <;> simp [MergedBody.ofEntries]

end MergedType

namespace MergedSchema

variable {set : SubgraphSet} {m : MergedSchema} (hset : set.HasProperNames)
  (h : ofSubgraphs set = .ok m) {t : MergedType} (ht : t ∈ m.types)

include h ht

/-- The interfaces of a merged object or interface are those that subgraphs declare. -/
theorem mem_interfaces_iff (hset : set.HasProperNames) {other : String} :
    other ∈ t.interfaces ↔ (t.kind = .object ∨ t.kind = .interface) ∧
      ∃ s ∈ set.subgraphs, ∃ d, s.definition? t.name = some d ∧ other ∈ d.interfaces := by
  obtain ⟨-, hfinishes⟩ :=
    exists_entries_of_type? h ((hasUniqueNames_of_ofSubgraphs h).type?_eq_some ht)
  rw [hfinishes.interfaces_eq, MergedType.mem_interfaces_ofEntries,
    hset.exists_mem_entriesOf_iff (P := fun d => other ∈ d.interfaces)]

/-- The members of a merged union are declared by subgraphs. -/
theorem exists_of_mem_members (hset : set.HasProperNames) {member : MergedMember}
    (hmember : member ∈ t.members) :
    ∃ s ∈ set.subgraphs, ∃ d, s.definition? t.name = some d ∧ member.name ∈ d.members := by
  have hcollected := isCollected_of_ofSubgraphs hset h ht
  unfold MergedType.members at hmember
  cases hbody : t.body with
  | union members =>
    rw [hbody] at hcollected hmember
    have hlisted : (member.name, member.subgraphs) ∈
        (set.collected (Subgraph.namedMembers t.name)).map fun c => (c.1, c.2.ids) :=
      hcollected ▸ List.mem_map_of_mem hmember
    obtain ⟨c, hc, heq⟩ := List.mem_map.mp hlisted
    obtain ⟨s, hs, part, hpart, hname⟩ := (SubgraphSet.mem_collected.mp hc).1
    obtain ⟨d, hd, hmem⟩ := List.mem_flatMap.mp hpart
    obtain ⟨other, hother, rfl⟩ := List.mem_map.mp hmem
    have hsame : other = member.name := hname.trans (congrArg Prod.fst heq)
    exact ⟨s, hs, d, Option.mem_toList.mp hd, hsame ▸ hother⟩
  | object | interface | enum | scalar | inputObject =>
    rw [hbody] at hmember
    cases hmember

include hset

/-- A field that subgraphs define, and whose types compose, has the named type of all of them. -/
theorem name_of_mem_fields {field : MergedField} (hfield : field ∈ t.fields)
    (hdefined : field.byGraph ≠ []) (hagree : field.typesDisagree = false) :
    (∃ g, set.HasField t.name g ∧ g.name = field.name) ∧
      ∀ g, set.HasField t.name g → g.name = field.name → g.type.name = field.type.name := by
  have hchange : ∀ {g}, set.HasField t.name g ↔ ∃ c ∈ set.fieldsOf t.name, c.2.definition = g := by
    intro g
    simp only [hset.hasField_iff, SubgraphSet.fieldsOf, TypeEntry.fields, List.mem_flatMap,
      List.mem_map]
    constructor
    · rintro ⟨e, he, hg⟩
      exact ⟨_, ⟨e, he, g, hg, rfl⟩, rfl⟩
    · rintro ⟨_, ⟨e, he, g', hg', rfl⟩, rfl⟩
      exact ⟨e, he, hg'⟩
  have hmem := mem_table_of_mem_fields h ((hasUniqueNames_of_ofSubgraphs h).type?_eq_some ht)
    hfield hdefined
  obtain ⟨⟨c, hc, hname⟩, hall⟩ := MergedField.typedTable.name_of_mem_table
    TypeRef.keepsName_composeOutput? hmem hagree
  refine ⟨⟨c.2.definition, hchange.mpr ⟨c, hc, rfl⟩, hname⟩, fun g hg hgname => ?_⟩
  obtain ⟨c, hc, rfl⟩ := hchange.mp hg
  exact hall c hc hgname

/-- An argument that subgraphs define, and whose types compose, has the named type of all of them.
-/
theorem name_of_mem_arguments {field : MergedField} (hfield : field ∈ t.fields)
    (hdefined : field.byGraph ≠ []) {argument : MergedInput} (hargument : argument ∈ field.arguments)
    (hagree : argument.typesDisagree = false) :
    (∃ g, set.HasField t.name g ∧ g.name = field.name ∧ ∃ a ∈ g.arguments, a.name = argument.name) ∧
      ∀ g, set.HasField t.name g → g.name = field.name →
        ∀ a ∈ g.arguments, a.name = argument.name → a.type.name = argument.type.name := by
  have hchange : ∀ {i}, (∃ g, set.HasField t.name g ∧ g.name = field.name ∧
      ∃ a ∈ g.arguments, InputInGraph.ofArgument a = i) ↔
        ∃ c ∈ (set.fieldEntriesOf t.name field.name).flatMap MergedField.argumentsIn, c.2 = i := by
    intro i
    simp only [hset.hasField_iff, SubgraphSet.fieldEntriesOf, SubgraphSet.fieldsOf,
      TypeEntry.fields, MergedField.argumentsIn, List.mem_flatMap, List.mem_filter, List.mem_map,
      beq_iff_eq]
    constructor
    · rintro ⟨g, ⟨e, he, hg⟩, hname, a, ha, rfl⟩
      exact ⟨_, ⟨_, ⟨⟨e, he, g, hg, rfl⟩, hname⟩, a, ha, rfl⟩, rfl⟩
    · rintro ⟨_, ⟨_, ⟨⟨e, he, g, hg, rfl⟩, hname⟩, a, ha, rfl⟩, rfl⟩
      exact ⟨g, ⟨e, he, hg⟩, hname, a, ha, rfl⟩
  have hmem := mem_table_of_mem_fields h ((hasUniqueNames_of_ofSubgraphs h).type?_eq_some ht)
    hfield hdefined
  obtain ⟨first, rest, hentries, hmade⟩ := MergedField.exists_of_mem_table hmem
  rw [← SubgraphSet.fieldEntriesOf] at hentries
  rw [hmade, MergedField.arguments_ofEntries, ← hentries] at hargument
  obtain ⟨⟨c, hc, hname⟩, hall⟩ := MergedInput.typedTable.name_of_mem_table
    TypeRef.keepsName_composeInput? hargument hagree
  constructor
  · obtain ⟨g, hg, hgname, a, ha, heq⟩ := hchange.mpr ⟨c, hc, rfl⟩
    exact ⟨g, hg, hgname, a, ha, (congrArg InputInGraph.name heq).trans hname⟩
  · intro g hg hgname a ha haname
    obtain ⟨c, hc, heq⟩ := hchange.mp ⟨g, hg, hgname, a, ha, rfl⟩
    have hkey : c.2.name = argument.name := (congrArg InputInGraph.name heq).trans haname
    exact (congrArg (fun i => i.type.name) heq.symm).trans (hall c hc hkey)

/-- An input field that subgraphs define, and whose types compose, has the named type of all of
them. -/
theorem name_of_mem_inputFields {field : MergedInput} (hfield : field ∈ t.inputFields)
    (hagree : field.typesDisagree = false) :
    (∃ g, set.HasField t.name g ∧ g.name = field.name) ∧
      ∀ g, set.HasField t.name g → g.name = field.name → g.type.name = field.type.name := by
  have hchange : ∀ {i}, (∃ g, set.HasField t.name g ∧ InputInGraph.ofField g = i) ↔
      ∃ c ∈ (set.entriesOf t.name).flatMap TypeEntry.inputFields, c.2 = i := by
    intro i
    simp only [hset.hasField_iff, TypeEntry.inputFields, List.mem_flatMap, List.mem_map]
    constructor
    · rintro ⟨g, ⟨e, he, hg⟩, rfl⟩
      exact ⟨_, ⟨e, he, g, hg, rfl⟩, rfl⟩
    · rintro ⟨_, ⟨e, he, g, hg, rfl⟩, rfl⟩
      exact ⟨g, ⟨e, he, hg⟩, rfl⟩
  obtain ⟨-, hfinishes⟩ :=
    exists_entries_of_type? h ((hasUniqueNames_of_ofSubgraphs h).type?_eq_some ht)
  rw [hfinishes.inputFields_eq, MergedType.inputFields_ofEntries] at hfield
  split at hfield
  · obtain ⟨⟨c, hc, hname⟩, hall⟩ := MergedInput.typedTable.name_of_mem_table
      TypeRef.keepsName_composeInput? hfield hagree
    constructor
    · obtain ⟨g, hg, heq⟩ := hchange.mpr ⟨c, hc, rfl⟩
      exact ⟨g, hg, (congrArg InputInGraph.name heq).trans hname⟩
    · intro g hg hgname
      obtain ⟨c, hc, heq⟩ := hchange.mp ⟨g, hg, rfl⟩
      have hkey : c.2.name = field.name := (congrArg InputInGraph.name heq).trans hgname
      exact (congrArg (fun i => i.type.name) heq.symm).trans (hall c hc hkey)
  · cases hfield

end MergedSchema

end Federation
