import Federation.Proofs.Merge.Fields

/-!
# Where merged elements come from

What a merged schema says about the subgraphs is what they define: a merged type has the entries of
its name, each of its own fields has the entries of its name in them, and an interface knows exactly
the types that are declared to implement it.
-/

namespace Federation

/-! ## Types that subgraphs merge -/

namespace MergedType

/-- The output fields of a merged type are those of its table, followed by copies. -/
theorem Finishes.exists_copied {t t' : MergedType} (h : t.Finishes t') :
    ∃ copied, t'.fields = t.fields ++ copied ∧ ∀ field ∈ copied,
      field.isFromInterfaceObject = true ∧ field.byGraph = [] ∧
        field.name ∉ t.fields.map MergedField.name := by
  have hbody := h.body
  unfold fields
  generalize t.body = body at hbody ⊢
  generalize t'.body = body' at hbody ⊢
  cases hbody with
  | same => exact ⟨[], (List.append_nil _).symm, fun _ h => absurd h List.not_mem_nil⟩
  | implementations => exact ⟨[], (List.append_nil _).symm, fun _ h => absurd h List.not_mem_nil⟩
  | copies interfaces fields copied hcopied hnames =>
    exact ⟨copied, rfl, fun field hfield => ⟨(hcopied field hfield).1, (hcopied field hfield).2,
      hnames field hfield⟩⟩

theorem Finishes.interfaces_eq {t t' : MergedType} (h : t.Finishes t') :
    t'.interfaces = t.interfaces := by
  have hbody := h.body
  unfold interfaces
  generalize t.body = body at hbody ⊢
  generalize t'.body = body' at hbody ⊢
  cases hbody <;> rfl

/-- The output fields that entries add up to. -/
theorem fields_ofEntries (name : String) {kind : TypeKind} (entries : List TypeEntry)
    (hkind : kind = .object ∨ kind = .interface) :
    (ofEntries name kind entries).fields =
      MergedField.typedTable.table (entries.flatMap TypeEntry.fields) := by
  unfold fields
  rw [body_ofEntries]
  rcases hkind with rfl | rfl <;> rfl

/-- Types of other kinds have no fields. -/
theorem fields_eq_nil {t : MergedType} (h : ¬ (t.kind = .object ∨ t.kind = .interface)) :
    t.fields = [] := by
  unfold fields
  unfold kind at h
  split
  · rename_i hbody
    exact absurd (.inl (by rw [hbody]; rfl)) h
  · rename_i hbody
    exact absurd (.inr (by rw [hbody]; rfl)) h
  · rfl

/-- A type that is declared to implement something is an object or an interface. -/
theorem kind_of_mem_interfaces {t : MergedType} {name : String} (h : name ∈ t.interfaces) :
    t.kind = .object ∨ t.kind = .interface := by
  unfold interfaces at h
  unfold kind
  split at h
  · rename_i hbody
    exact .inl (by rw [hbody]; rfl)
  · rename_i hbody
    exact .inr (by rw [hbody]; rfl)
  · cases h

/-- A type with output fields is an object or an interface. -/
theorem kind_of_mem_fields {t : MergedType} {field : MergedField} (hfield : field ∈ t.fields) :
    t.kind = .object ∨ t.kind = .interface := by
  by_contra hkind
  rw [fields_eq_nil hkind] at hfield
  cases hfield

end MergedType

/-- A merged field that subgraphs agree on has the name of their types. -/
theorem MergedField.typeName_ofEntries {name : String} {type : TypeRef}
    {entries : List (SubgraphId × FieldInGraph)}
    (h : (ofEntries name type entries).typesDisagree = false) :
    (ofEntries name type entries).type.name = type.name ∧
      ∀ e ∈ entries, e.2.type.name = type.name := by
  have hconsensus := typedTable.consensus_foldl { name := name, type := type } entries
  have hagree : (TypeRef.Consensus.absorbAll TypeRef.composeOutput? { type := type }
      (entries.map fun e => e.2.type)).disagree = false :=
    (congrArg TypeRef.Consensus.disagree hconsensus).symm.trans h
  obtain ⟨htype, hall⟩ := TypeRef.name_absorbAll TypeRef.keepsName_composeOutput? hagree
  exact ⟨(congrArg (fun c => c.type.name) hconsensus).trans htype, List.forall_mem_map.mp hall⟩

namespace MergedSchema

section

variable {set : SubgraphSet} {m : MergedSchema}

/-- A merged type is what the entries of its name add up to. -/
theorem exists_entries_of_type? (h : ofSubgraphs set = .ok m) {name : String} {t : MergedType}
    (ht : m.type? name = some t) :
    (set.entriesOf name ≠ []) ∧
      (MergedType.ofEntries name t.kind (set.entriesOf name)).Finishes t := by
  have htype := type?_of_ofSubgraphs h name
  rw [ht] at htype
  cases hentries : set.entriesOf name with
  | nil =>
    rw [hentries] at htype
    cases htype
  | cons e rest =>
    have he : e.name = name :=
      (SubgraphSet.mem_entriesOf.mp (hentries ▸ List.mem_cons_self)).2
    rw [hentries, MergedType.addEntries_none_cons, he] at htype
    cases htype with
    | some hfinishes =>
      have hkind : t.kind = e.kind := by rw [hfinishes.kind_eq, MergedType.kind_ofEntries]
      exact ⟨List.cons_ne_nil _ _, hkind ▸ hfinishes⟩

/-- Every type that a subgraph defines is merged into the type of its name and kind. -/
theorem exists_type?_of_mem (h : ofSubgraphs set = .ok m) {e : TypeEntry}
    (he : e ∈ set.typeEntries) :
    ∃ t, m.type? e.name = some t ∧ t.kind = e.kind ∧
      (MergedType.ofEntries e.name e.kind (set.entriesOf e.name)).Finishes t := by
  have hmem : e ∈ set.entriesOf e.name := SubgraphSet.mem_entriesOf.mpr ⟨he, rfl⟩
  have htype := type?_of_ofSubgraphs h e.name
  cases hentries : set.entriesOf e.name with
  | nil =>
    rw [hentries] at hmem
    cases hmem
  | cons first rest =>
    have hfirst : first ∈ set.entriesOf e.name := hentries ▸ List.mem_cons_self
    rw [hentries, MergedType.addEntries_none_cons, (SubgraphSet.mem_entriesOf.mp hfirst).2,
      ← hentries] at htype
    generalize m.type? e.name = t? at htype ⊢
    cases htype with
    | some hfinishes =>
      refine ⟨_, rfl, ?_, ?_⟩
      · rw [hfinishes.kind_eq, MergedType.kind_ofEntries]
        exact kind_eq_of_ofSubgraphs h hfirst hmem
      · rw [← hentries, kind_eq_of_ofSubgraphs h hmem hfirst]
        exact hfinishes

/-- A merged type has the definitions of its name, each at the place of its subgraph. -/
theorem byGraph_of_type? (hset : set.HasProperNames) (h : ofSubgraphs set = .ok m) {name : String}
    {t : MergedType} (ht : m.type? name = some t) :
    t.byGraph = (set.entriesOf name).map fun e => (e.id, e.definition) := by
  obtain ⟨-, hfinishes⟩ := exists_entries_of_type? h ht
  rw [hfinishes.byGraph_eq]
  exact MergedType.byGraph_ofEntries name t.kind (hset.pairwise_entriesOf name)

/-- A merged type has the definition that a subgraph makes of it. -/
theorem get?_byGraph_of_type? (hset : set.HasProperNames) (h : ofSubgraphs set = .ok m)
    {e : TypeEntry} (he : e ∈ set.typeEntries) {t : MergedType} (ht : m.type? e.name = some t) :
    t.byGraph.get? e.id = some e.definition := by
  rw [byGraph_of_type? hset h ht]
  refine ByGraph.get?_eq_some ?_ (List.mem_map.mpr ⟨e, ?_, rfl⟩)
  · exact List.pairwise_map.mpr (hset.pairwise_entriesOf e.name)
  · exact SubgraphSet.mem_entriesOf.mpr ⟨he, rfl⟩

/-- The output fields of a merged type are made of the fields of its name, and then come copies. -/
theorem exists_fields_of_type? (h : ofSubgraphs set = .ok m) {name : String} {t : MergedType}
    (ht : m.type? name = some t) (hkind : t.kind = .object ∨ t.kind = .interface) :
    ∃ copied, t.fields = MergedField.typedTable.table (set.fieldsOf name) ++ copied ∧
      ∀ field ∈ copied, field.isFromInterfaceObject = true ∧ field.byGraph = [] ∧
        ∀ e ∈ set.fieldsOf name, e.2.definition.name ≠ field.name := by
  obtain ⟨-, hfinishes⟩ := exists_entries_of_type? h ht
  obtain ⟨copied, hfields, hcopied⟩ := hfinishes.exists_copied
  rw [MergedType.fields_ofEntries name _ hkind] at hfields hcopied
  refine ⟨copied, hfields, fun field hfield => ?_⟩
  obtain ⟨hmark, hbyGraph, hnames⟩ := hcopied field hfield
  refine ⟨hmark, hbyGraph, fun e he hname => hnames ?_⟩
  -- the first entry of that name makes an item of that name
  have hmem : e ∈ (set.fieldsOf name).filter fun e => e.2.definition.name == field.name :=
    List.mem_filter.mpr ⟨he, beq_iff_eq.mpr hname⟩
  have hfound := MergedField.find?_table (set.fieldsOf name) field.name
  cases hlist : (set.fieldsOf name).filter fun e => e.2.definition.name == field.name with
  | nil =>
    rw [hlist] at hmem
    cases hmem
  | cons first rest =>
    rw [hlist, List.head?_cons, Option.map_some] at hfound
    exact List.mem_map.mpr ⟨_, List.mem_of_find?_eq_some hfound,
      by simpa using List.find?_some hfound⟩

/-- The merged field of a name that some subgraph defines. -/
theorem field?_of_type? (h : ofSubgraphs set = .ok m) {name : String} {t : MergedType}
    (ht : m.type? name = some t) (hkind : t.kind = .object ∨ t.kind = .interface) {field : String}
    {first : SubgraphId × FieldInGraph} {rest : List (SubgraphId × FieldInGraph)}
    (hentries : set.fieldEntriesOf name field = first :: rest) :
    t.field? field = some (MergedField.ofEntries field first.2.type (first :: rest)) := by
  obtain ⟨copied, hfields, -⟩ := exists_fields_of_type? h ht hkind
  have hfirst : first.2.definition.name = field := by
    have hmem : first ∈ set.fieldEntriesOf name field := hentries ▸ List.mem_cons_self
    simpa using (List.mem_filter.mp hmem).2
  have hfound := MergedField.find?_table (set.fieldsOf name) field
  rw [← SubgraphSet.fieldEntriesOf, hentries, List.head?_cons, Option.map_some, hfirst] at hfound
  unfold MergedType.field?
  rw [hfields, List.find?_append, hfound]
  rfl

/-- What a merged field says about subgraphs are the fields of its name that they define. -/
theorem byGraph_of_mem_fields (hset : set.HasProperNames) (h : ofSubgraphs set = .ok m)
    {name : String} {t : MergedType} (ht : m.type? name = some t) {field : MergedField}
    (hfield : field ∈ t.fields) : field.byGraph = set.fieldEntriesOf name field.name := by
  by_cases hkind : t.kind = .object ∨ t.kind = .interface
  · obtain ⟨copied, hfields, hcopied⟩ := exists_fields_of_type? h ht hkind
    rw [hfields] at hfield
    rcases List.mem_append.mp hfield with hfield | hfield
    · obtain ⟨first, rest, hentries, hmerged⟩ := MergedField.exists_of_mem_table hfield
      have hunique := hset.pairwise_fieldEntriesOf name field.name
      rw [SubgraphSet.fieldEntriesOf, hentries] at hunique ⊢
      rw [hmerged]
      exact MergedField.byGraph_ofEntries _ _ hunique
    · obtain ⟨-, hbyGraph, hnames⟩ := hcopied field hfield
      rw [hbyGraph, SubgraphSet.fieldEntriesOf, eq_comm, List.filter_eq_nil_iff]
      exact fun e he heq => hnames e he (beq_iff_eq.mp heq)
  · rw [MergedType.fields_eq_nil hkind] at hfield
    cases hfield

/-- A field that some subgraph defines is no copy. -/
theorem mem_table_of_mem_fields (h : ofSubgraphs set = .ok m) {name : String} {t : MergedType}
    (ht : m.type? name = some t) {field : MergedField} (hfield : field ∈ t.fields)
    (hdefined : field.byGraph ≠ []) : field ∈ MergedField.typedTable.table (set.fieldsOf name) := by
  obtain ⟨copied, hfields, hcopied⟩ :=
    exists_fields_of_type? h ht (MergedType.kind_of_mem_fields hfield)
  rw [hfields] at hfield
  exact (List.mem_append.mp hfield).resolve_right fun hmem => hdefined (hcopied field hmem).2.1

/-- A field that no subgraph defines is a copy. -/
theorem isFromInterfaceObject_of_byGraph_eq_nil (hset : set.HasProperNames)
    (h : ofSubgraphs set = .ok m) {name : String} {t : MergedType} (ht : m.type? name = some t)
    {field : MergedField} (hfield : field ∈ t.fields) (hundefined : field.byGraph = []) :
    field.isFromInterfaceObject = true := by
  obtain ⟨copied, hfields, hcopied⟩ :=
    exists_fields_of_type? h ht (MergedType.kind_of_mem_fields hfield)
  rw [hfields] at hfield
  rcases List.mem_append.mp hfield with hown | hcopy
  · -- a field of the table has an entry for the subgraph that made it
    obtain ⟨first, rest, hentries, hmade⟩ := MergedField.exists_of_mem_table hown
    have hunique := hset.pairwise_fieldEntriesOf name field.name
    rw [SubgraphSet.fieldEntriesOf, hentries] at hunique
    rw [hmade, MergedField.byGraph_ofEntries _ _ hunique] at hundefined
    cases hundefined
  · exact (hcopied field hcopy).1

/-- A field that some subgraph defines is the one of its name. -/
theorem field?_of_mem (h : ofSubgraphs set = .ok m) {name : String} {t : MergedType}
    (ht : m.type? name = some t) {field : MergedField} (hfield : field ∈ t.fields)
    (hdefined : field.byGraph ≠ []) : m.field? name field.name = some field := by
  obtain ⟨copied, hfields, -⟩ :=
    exists_fields_of_type? h ht (MergedType.kind_of_mem_fields hfield)
  have hnil : (([] : List MergedField).map MergedField.name).Nodup := List.nodup_nil
  have hunique : ((MergedField.typedTable.table (set.fieldsOf name)).map MergedField.name).Nodup :=
    nodup_upsertAll MergedField.typedTable.key_fresh MergedField.typedTable.key_step hnil _
  have hfound : (MergedField.typedTable.table (set.fieldsOf name)).find? _ = some field :=
    find?_key_eq_some hunique (mem_table_of_mem_fields h ht hfield hdefined)
  unfold field?
  rw [ht, Option.bind_some, MergedType.field?, hfields, List.find?_append, hfound]
  rfl

/-- A field that a subgraph defines in an object or interface is merged into the field of its name,
which has an entry for it. -/
theorem exists_field?_of_mem (hset : set.HasProperNames) (h : ofSubgraphs set = .ok m)
    {e : TypeEntry} (he : e ∈ set.typeEntries) (hkind : e.kind = .object ∨ e.kind = .interface)
    {field : Field} (hfield : field ∈ e.definition.fields) :
    ∃ t merged, m.type? e.name = some t ∧ t.kind = e.kind ∧ t.field? field.name = some merged ∧
      (e.id, FieldInGraph.of e.subgraph e.definition field) ∈ merged.byGraph ∧
      (merged.typesDisagree = false → merged.type.name = field.type.name) := by
  obtain ⟨t, ht, htkind, -⟩ := exists_type?_of_mem h he
  have hmem : (e.id, FieldInGraph.of e.subgraph e.definition field) ∈
      set.fieldEntriesOf e.name field.name := by
    refine List.mem_filter.mpr ⟨List.mem_flatMap.mpr ⟨e, ?_, ?_⟩, beq_iff_eq.mpr rfl⟩
    · exact SubgraphSet.mem_entriesOf.mpr ⟨he, rfl⟩
    · exact List.mem_map.mpr ⟨field, hfield, rfl⟩
  have hunique := hset.pairwise_fieldEntriesOf e.name field.name
  cases hentries : set.fieldEntriesOf e.name field.name with
  | nil =>
    rw [hentries] at hmem
    cases hmem
  | cons first rest =>
    rw [hentries] at hmem hunique
    refine ⟨t, _, ht, htkind, field?_of_type? h ht (htkind ▸ hkind) hentries, ?_, fun hagree => ?_⟩
    · rw [MergedField.byGraph_ofEntries _ _ hunique]
      exact hmem
    · obtain ⟨htype, hall⟩ := MergedField.typeName_ofEntries hagree
      rw [htype]
      exact (hall _ hmem).symm

end

/-! ## Implementations -/

/-- Types that the last steps lead to have the same names and interfaces. -/
theorem implementersOf_eq {types types' : List MergedType}
    (h : List.Forall₂ MergedType.Finishes types types') (name : String) :
    implementersOf ⟨types'⟩ name = implementersOf ⟨types⟩ name := by
  unfold implementersOf
  induction h with
  | nil => rfl
  | @cons t t' types types' hfirst _ ih =>
    dsimp only at ih ⊢
    rw [List.filter_cons, List.filter_cons, hfirst.interfaces_eq]
    split
    · rw [List.map_cons, List.map_cons, ih, hfirst.name_eq]
    · exact ih

/-- Copying fields leaves interfaces as they are. -/
theorem mem_of_mem_copyField {m : MergedSchema} {copy : String × MergedField} {t : MergedType}
    (ht : t ∈ (m.copyField copy).types) (hkind : t.kind = .interface) : t ∈ m.types := by
  obtain ⟨u, hu, heq⟩ := List.mem_map.mp ht
  split at heq
  · rename_i hbody
    split at heq
    · rw [← heq] at hkind
      cases hkind
    · exact heq ▸ hu
  · exact heq ▸ hu

theorem mem_of_mem_foldl_copyField {copies : List (String × MergedField)} {m : MergedSchema}
    {t : MergedType} (ht : t ∈ (copies.foldl copyField m).types) (hkind : t.kind = .interface) :
    t ∈ m.types := by
  induction copies generalizing m with
  | nil => exact ht
  | cons copy copies ih => exact mem_of_mem_copyField (ih ht) hkind

/-- **A merged interface knows its implementations**, which are the types that are declared to
implement it. -/
theorem implementations_of_ofSubgraphs {set : SubgraphSet} {m : MergedSchema}
    (h : ofSubgraphs set = .ok m) {t : MergedType} (ht : t ∈ m.types) (hkind : t.kind = .interface) :
    t.implementations = m.implementersOf t.name := by
  unfold ofSubgraphs at h
  cases hmerged : set.enumerated.foldlM (addSubgraph set.nameOf) ({} : MergedSchema) with
  | error e =>
    rw [hmerged] at h
    cases h
  | ok merged =>
    rw [hmerged] at h
    obtain rfl := Except.ok.inj h
    have hknown : ∀ t ∈ merged.withImplementations.types, t.kind = .interface →
        t.implementations = merged.implementersOf t.name := by
      intro t ht hkind
      obtain ⟨u, -, rfl⟩ := List.mem_map.mp ht
      split
      · rfl
      · rename_i hbody
        split at hkind
        · rename_i hbody'
          exact absurd hbody' (hbody _ _ _)
        · unfold MergedType.kind at hkind
          cases hu : u.body with
          | interface => exact absurd hu (hbody _ _ _)
          | object | union | enum | scalar | inputObject =>
            rw [hu] at hkind
            cases hkind
    rw [hknown t (mem_of_mem_foldl_copyField ht hkind) hkind]
    exact (implementersOf_eq merged.finishes_finish t.name).symm

end MergedSchema

end Federation
