import Federation.Proofs.Merge.Types

/-!
# Elements of merged types

The fields, arguments, input fields, enum values and members of a merged type come about like the
type itself: each of them has gone through what the subgraphs define under its name. If no subgraph
defines a name twice, the entries by subgraph are just the definitions, in their order.
-/

namespace Federation

/-! ## Tables by subgraph -/

namespace ByGraph

variable {α : Type}

theorem has_eq_true_iff {entries : ByGraph α} {id : SubgraphId} :
    entries.has id = true ↔ id ∈ entries.ids := by
  simp [has, ids]

/-- With one entry for each subgraph, every entry is the one that is found. -/
theorem get?_eq_some {entries : ByGraph α} (h : entries.Pairwise fun a b => a.1 ≠ b.1)
    {id : SubgraphId} {value : α} (hmem : (id, value) ∈ entries) :
    entries.get? id = some value := by
  unfold get?
  induction entries with
  | nil => cases hmem
  | cons first others ih =>
    obtain ⟨hfirst, hothers⟩ := List.pairwise_cons.mp h
    rw [List.lookup_cons]
    rcases List.mem_cons.mp hmem with rfl | hmem
    · simp
    · have hne : (id == first.1) = false := by simpa using (hfirst _ hmem).symm
      rw [hne]
      exact ih hothers hmem

/-- An entry of a new subgraph comes last. -/
theorem set_of_notMem {entries : ByGraph α} {id : SubgraphId} (h : id ∉ entries.ids) (value : α) :
    entries.set id value = entries ++ [(id, value)] := by
  unfold set
  rw [if_neg fun hhas => h (has_eq_true_iff.mp hhas)]

/-- Setting the entries of different subgraphs lists them. -/
theorem foldl_set {β : Type} (id : β → SubgraphId) (value : β → α) {items : List β}
    (h : items.Pairwise fun a b => id a ≠ id b) :
    items.foldl (fun entries item => ByGraph.set entries (id item) (value item)) [] =
      items.map fun item => (id item, value item) := by
  induction items using List.reverseRecOn with
  | nil => rfl
  | append_singleton items item ih =>
    obtain ⟨hitems, -, hlast⟩ := List.pairwise_append.mp h
    rw [List.foldl_concat, ih hitems, List.map_append, List.map_singleton]
    refine set_of_notMem (fun hmem => ?_) _
    rw [ids, List.map_map] at hmem
    obtain ⟨other, hother, hid⟩ := List.mem_map.mp hmem
    exact hlast other hother item (List.mem_singleton_self item) hid

end ByGraph

/-- A type's entries by subgraph are the definitions of its name. -/
theorem MergedType.byGraph_ofEntries (name : String) (kind : TypeKind) {entries : List TypeEntry}
    (h : entries.Pairwise fun e e' => e.id ≠ e'.id) :
    (ofEntries name kind entries).byGraph = entries.map fun e => (e.id, e.definition) := by
  rw [← ByGraph.foldl_set TypeEntry.id TypeEntry.definition h]
  clear h
  induction entries using List.reverseRecOn with
  | nil => rfl
  | append_singleton entries e ih =>
    rw [ofEntries, List.foldl_concat, List.foldl_concat, ← ih]
    rfl

/-! ## Input fields and arguments -/

namespace MergedInput

/-- What entries of one name add up to. -/
def ofEntries (name : String) (type : TypeRef) (entries : List (SubgraphId × InputInGraph)) :
    MergedInput :=
  entries.foldl (fun m e => m.absorb e.1 e.2) { name := name, type := type }

theorem metadata_ofEntries (name : String) (type : TypeRef)
    (entries : List (SubgraphId × InputInGraph)) :
    (ofEntries name type entries).metadata =
      Metadata.absorbAll {} (entries.map fun e => (e.2.attributes, e.2.description)) :=
  metadata_foldl _ _ _ _ (fun _ _ => rfl) _ _

/-- The item of a name has gone through the changes of the name. -/
theorem find?_table (changes : List (SubgraphId × InputInGraph)) (name : String) :
    (typedTable.table changes).find? (fun m => m.name == name) =
      (changes.filter fun c => c.2.name == name).head?.map fun first =>
        ofEntries first.2.name first.2.type (changes.filter fun c => c.2.name == name) :=
  find?_upsertAll_empty typedTable.key_fresh typedTable.key_step changes name

end MergedInput

/-! ## Output fields -/

namespace MergedField

/-- What entries of one name add up to. -/
def ofEntries (name : String) (type : TypeRef) (entries : List (SubgraphId × FieldInGraph)) :
    MergedField :=
  entries.foldl (fun m e => m.absorb e.1 e.2) { name := name, type := type }

/-- The arguments of a field, as its subgraph adds them. -/
def argumentsIn (e : SubgraphId × FieldInGraph) : List (SubgraphId × InputInGraph) :=
  e.2.definition.arguments.map fun a => (e.1, .ofArgument a)

theorem name_ofEntries (name : String) (type : TypeRef)
    (entries : List (SubgraphId × FieldInGraph)) : (ofEntries name type entries).name = name := by
  induction entries using List.reverseRecOn with
  | nil => rfl
  | append_singleton entries e ih =>
    rw [ofEntries, List.foldl_concat]
    exact ih

theorem isFromInterfaceObject_ofEntries (name : String) (type : TypeRef)
    (entries : List (SubgraphId × FieldInGraph)) :
    (ofEntries name type entries).isFromInterfaceObject = false := by
  induction entries using List.reverseRecOn with
  | nil => rfl
  | append_singleton entries e ih =>
    rw [ofEntries, List.foldl_concat]
    exact ih

theorem metadata_ofEntries (name : String) (type : TypeRef)
    (entries : List (SubgraphId × FieldInGraph)) :
    (ofEntries name type entries).metadata = Metadata.absorbAll {}
      (entries.map fun e => (e.2.definition.attributes, e.2.definition.description)) :=
  metadata_foldl _ _ _ _ (fun _ _ => rfl) _ _

/-- The arguments make up a table like the fields themselves. -/
theorem arguments_ofEntries (name : String) (type : TypeRef)
    (entries : List (SubgraphId × FieldInGraph)) :
    (ofEntries name type entries).arguments =
      MergedInput.typedTable.table (entries.flatMap argumentsIn) := by
  induction entries using List.reverseRecOn with
  | nil => rfl
  | append_singleton entries e ih =>
    rw [ofEntries, List.foldl_concat, ← ofEntries, List.flatMap_append, List.flatMap_singleton,
      TypedTable.table, upsertAll_append, ← TypedTable.table, ← ih]
    unfold upsertAll argumentsIn
    rw [List.foldl_map]
    rfl

/-- The entries by subgraph are the entries themselves. -/
theorem byGraph_ofEntries (name : String) (type : TypeRef)
    {entries : List (SubgraphId × FieldInGraph)} (h : entries.Pairwise fun e e' => e.1 ≠ e'.1) :
    (ofEntries name type entries).byGraph = entries := by
  have hlist : (ofEntries name type entries).byGraph =
      entries.foldl (fun byGraph e => ByGraph.set byGraph e.1 e.2) [] := by
    clear h
    induction entries using List.reverseRecOn with
    | nil => rfl
    | append_singleton entries e ih =>
      rw [ofEntries, List.foldl_concat, List.foldl_concat, ← ih]
      rfl
  rw [hlist, ByGraph.foldl_set Prod.fst Prod.snd h]
  exact List.map_id entries

/-- The field of a name has gone through the changes of the name. -/
theorem find?_table (changes : List (SubgraphId × FieldInGraph)) (name : String) :
    (typedTable.table changes).find? (fun m => m.name == name) =
      (changes.filter fun c => c.2.definition.name == name).head?.map fun first =>
        ofEntries first.2.definition.name first.2.definition.type
          (changes.filter fun c => c.2.definition.name == name) :=
  find?_upsertAll_empty typedTable.key_fresh typedTable.key_step changes name

/-- Every field of a table has gone through the changes of its name. -/
theorem exists_of_mem_table {changes : List (SubgraphId × FieldInGraph)} {m : MergedField}
    (h : m ∈ typedTable.table changes) :
    ∃ first rest, (changes.filter fun c => c.2.definition.name == m.name) = first :: rest ∧
      m = ofEntries m.name first.2.definition.type (first :: rest) := by
  obtain ⟨first, rest, hfilter, hm⟩ :=
    exists_of_mem_upsertAll typedTable.key_fresh typedTable.key_step h
  refine ⟨first, rest, hfilter, ?_⟩
  have hname : first.2.definition.name = m.name := by
    have hmem : first ∈ changes.filter fun c => c.2.definition.name == m.name :=
      hfilter ▸ List.mem_cons_self
    simpa using (List.mem_filter.mp hmem).2
  rw [← hname]
  exact hm

/-- No field of a table was copied. -/
theorem isFromInterfaceObject_of_mem_table {changes : List (SubgraphId × FieldInGraph)}
    {m : MergedField} (h : m ∈ typedTable.table changes) : m.isFromInterfaceObject = false := by
  obtain ⟨first, rest, -, hm⟩ := exists_of_mem_table h
  rw [hm]
  exact isFromInterfaceObject_ofEntries _ _ _

end MergedField

/-! ## Enum values and members -/

namespace MergedEnumValue

/-- What entries of one name add up to. -/
def ofEntries (name : String) (entries : List (SubgraphId × EnumValue)) : MergedEnumValue :=
  entries.foldl (fun m e =>
    { m with
      metadata := m.metadata.absorb e.2.attributes e.2.description
      subgraphs := Attributes.addNew m.subgraphs e.1 }) { name := name }

theorem metadata_ofEntries (name : String) (entries : List (SubgraphId × EnumValue)) :
    (ofEntries name entries).metadata =
      Metadata.absorbAll {} (entries.map fun e => (e.2.attributes, e.2.description)) :=
  metadata_foldl _ _ _ _ (fun _ _ => rfl) _ _

/-- The value of a name has gone through the changes of the name. -/
theorem find?_table (changes : List (SubgraphId × EnumValue)) (name : String) :
    (table changes).find? (fun m => m.name == name) =
      (changes.filter fun c => c.2.name == name).head?.map fun first =>
        ofEntries first.2.name (changes.filter fun c => c.2.name == name) := by
  unfold table ofEntries
  refine find?_upsertAll_empty ?_ ?_ changes name
  · exact fun _ => rfl
  · exact fun _ _ => rfl

end MergedEnumValue

/-! ## Elements of merged schemas -/

namespace SubgraphSet

/-- The output fields of types of a name, as subgraphs add them. -/
def fieldsOf (set : SubgraphSet) (typeName : String) : List (SubgraphId × FieldInGraph) :=
  (set.entriesOf typeName).flatMap TypeEntry.fields

/-- The output fields of a name. -/
def fieldEntriesOf (set : SubgraphSet) (typeName name : String) :
    List (SubgraphId × FieldInGraph) :=
  (set.fieldsOf typeName).filter fun e => e.2.definition.name == name

/-- No subgraph defines two fields of one name in a type. -/
theorem HasProperNames.pairwise_fieldEntriesOf {set : SubgraphSet} (h : set.HasProperNames)
    (typeName name : String) :
    (set.fieldEntriesOf typeName name).Pairwise fun e e' => e.1 ≠ e'.1 := by
  have hpairs : (set.fieldsOf typeName).Pairwise fun e e' =>
      e.2.definition.name = e'.2.definition.name → e.1 ≠ e'.1 := by
    rw [fieldsOf, List.pairwise_flatMap]
    constructor
    · intro e he
      obtain ⟨hs, hd⟩ := mem_typeEntries.mp (mem_entriesOf.mp he).1
      have hparts := (h e.subgraph (List.mem_of_getElem? hs)).parts e.definition hd
      rw [TypeEntry.fields, List.pairwise_map]
      exact (List.pairwise_map.mp hparts.fields).imp fun hne heq => absurd heq hne
    · refine (h.pairwise_entriesOf typeName).imp fun hne x hx y hy _ => ?_
      obtain ⟨field, -, rfl⟩ := List.mem_map.mp hx
      obtain ⟨field', -, rfl⟩ := List.mem_map.mp hy
      exact hne
  refine (hpairs.filter fun e => e.2.definition.name == name).imp_of_mem fun he he' hne => hne ?_
  rw [beq_iff_eq.mp (List.mem_filter.mp he).2, beq_iff_eq.mp (List.mem_filter.mp he').2]

end SubgraphSet

end Federation
