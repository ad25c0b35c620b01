import Federation.Proofs.Ingestion.Evaluation
import Federation.Proofs.Merge.Collected
import Federation.Proofs.Merge.Copies

/-!
# Contents of merged schemas

A merged schema contains what the subgraphs define: nothing is lost, made up or listed twice. Its
types, and the fields, arguments, values and members in them, are the definitions of the subgraphs
collected by name. Only objects may have fields that no subgraph defines in them, which are copies of
fields that objects add to the interfaces they stand in for.
-/

namespace Federation

/-! ## What a subgraph defines -/

namespace Subgraph

/-- The types by name. -/
def namedTypes (s : Subgraph) : List (String × TypeDef) :=
  s.definitions.map fun d => (d.name, d)

/-- The output fields of a type by name, as they are merged. -/
def namedFields (typeName : String) : Subgraph → List (String × FieldInGraph) :=
  partsOf typeName fun s d => d.fields.map fun field => (field.name, .of s d field)

/-- The arguments of a field by name, with their types. -/
def namedArguments (typeName fieldName : String) : Subgraph → List (String × TypeRef) :=
  partsOf typeName fun _ d => (d.field? fieldName).toList.flatMap fun field =>
    field.arguments.map fun a => (a.name, a.type)

/-- The fields of an input type by name, with their types. -/
def namedInputFields (typeName : String) : Subgraph → List (String × TypeRef) :=
  partsOf typeName fun _ d => d.fields.map fun field => (field.name, field.type)

/-- The values of an enum type by name. -/
def namedValues (typeName : String) : Subgraph → List (String × Unit) :=
  partsOf typeName fun _ d => d.enumValues.map fun value => (value.name, ())

/-- The members of a union by name. -/
def namedMembers (typeName : String) : Subgraph → List (String × Unit) :=
  partsOf typeName fun _ d => d.members.map fun member => (member, ())

end Subgraph

namespace SubgraphSet

variable {set : SubgraphSet}

/-- The fields of a name, with the subgraphs that define them. -/
theorem HasProperNames.fieldEntriesOf_eq_parts (hset : set.HasProperNames)
    (typeName name : String) :
    set.fieldEntriesOf typeName name = set.parts (Subgraph.partsOf typeName fun s d =>
      (d.field? name).toList.map fun field => .of s d field) := by
  unfold fieldEntriesOf fieldsOf
  have hfields := hset.flatMap_entriesOf typeName fun s d => d.fields.map (FieldInGraph.of s d)
  have hadded : ∀ e : TypeEntry, e.fields =
      (e.definition.fields.map (FieldInGraph.of e.subgraph e.definition)).map fun f => (e.id, f) :=
    fun e => by
      rw [List.map_map]
      rfl
  rw [funext hadded, hfields]
  refine (set.filter_parts _ fun f : FieldInGraph => f.definition.name == name).trans ?_
  refine parts_congr fun s hs => ?_
  unfold Subgraph.partsOf
  rw [List.filter_flatMap]
  refine List.flatMap_congr fun d hd => ?_
  have hparts := (hset s hs).parts d (Subgraph.mem_of_definition? (Option.mem_toList.mp hd))
  show (d.fields.map (FieldInGraph.of s d)).filter _ = (d.field? name).toList.map _
  rw [List.filter_map]
  exact congrArg _ (filter_key_eq_toList hparts.fields name)

end SubgraphSet

/-! ## Collected types -/

/-- Fields are what the subgraphs define in the type of a name, and so are their arguments. -/
structure SubgraphSet.CollectsFields (set : SubgraphSet) (typeName : String)
    (fields : List MergedField) : Prop where
  byGraph : (fields.map fun field => (field.name, field.byGraph)) =
    set.collected (Subgraph.namedFields typeName)
  arguments : ∀ field ∈ fields, (field.arguments.map fun a => (a.name, a.byGraph)) =
    set.collected (Subgraph.namedArguments typeName field.name)

/-- A type consists of what the subgraphs define in the type of a name, apart from copied fields. -/
def MergedBody.IsCollected (set : SubgraphSet) (typeName : String) : MergedBody → Prop
  | .object _ fields =>
    set.CollectsFields typeName (fields.filter fun field => !field.isFromInterfaceObject)
  | .interface _ fields _ => set.CollectsFields typeName fields
  | .union members => (members.map fun member => (member.name, member.subgraphs)) =
      (set.collected (Subgraph.namedMembers typeName)).map fun c => (c.1, c.2.ids)
  | .enum values => (values.map fun value => (value.name, value.subgraphs)) =
      (set.collected (Subgraph.namedValues typeName)).map fun c => (c.1, c.2.ids)
  | .scalar => True
  | .inputObject fields => (fields.map fun field => (field.name, field.byGraph)) =
      set.collected (Subgraph.namedInputFields typeName)

/-- Tables that only list subgraphs are collections without parts. -/
theorem SubgraphSet.table_eq_collected_ids {α γ : Type} {key : α → String} (set : SubgraphSet)
    (nameOf : γ → String) (subgraphs : α → List SubgraphId) {fresh : SubgraphId × γ → α}
    {step : SubgraphId × γ → α → α} (hfresh : ∀ c, key (fresh c) = nameOf c.2)
    (hstep : ∀ c a, key (step c a) = key a) (hempty : ∀ c, subgraphs (fresh c) = [])
    (hadd : ∀ c a, subgraphs (step c a) = Attributes.addNew (subgraphs a) c.1)
    (partsIn : Subgraph → List γ) :
    (upsertAll key (fun c => nameOf c.2) fresh step [] (set.parts partsIn)).map
        (fun a => (key a, subgraphs a)) =
      (set.collected fun s => (partsIn s).map fun c => (nameOf c, ())).map
        fun c => (c.1, c.2.ids) := by
  have hset : ∀ (ids : List SubgraphId) (id : SubgraphId),
      (Attributes.addNew ids id).map (fun id => (id, ())) =
        ByGraph.set (ids.map fun id => (id, ())) id () := by
    intro ids id
    unfold Attributes.addNew
    split
    · rename_i hmem
      have hsame : ids.map ((fun entry => if entry.1 == id then (id, ()) else entry) ∘
          fun id => (id, ())) = ids.map fun id => (id, ()) := by
        refine List.map_congr_left fun other _ => ?_
        show (if other == id then (id, ()) else (other, ())) = (other, ())
        split
        · rename_i heq
          rw [beq_iff_eq.mp heq]
        · rfl
      rw [ByGraph.set, if_pos, List.map_map, hsame]
      exact ByGraph.has_eq_true_iff.mpr (by simpa [ByGraph.ids] using hmem)
    · rename_i hnew
      rw [ByGraph.set_of_notMem, List.map_append, List.map_singleton]
      simpa [ByGraph.ids] using hnew
  rw [← set.table_eq_collected nameOf (fun _ => ()) (fun a => (subgraphs a).map fun id => (id, ()))
    hfresh hstep (fun c => by rw [hempty, List.map_nil]) (fun c a => by rw [hadd, hset]) partsIn,
    List.map_map]
  refine List.map_congr_left fun a _ => ?_
  rw [Function.comp_apply, ByGraph.ids, List.map_map]
  exact congrArg _ (List.map_id _).symm

/-! ### Tables of merged types -/

section

variable {set : SubgraphSet} (hset : set.HasProperNames) (typeName : String)

include hset

/-- The arguments of a field that goes through the fields of its name. -/
theorem MergedField.arguments_ofEntries_eq_collected (name : String) (type : TypeRef) :
    ((ofEntries name type (set.fieldEntriesOf typeName name)).arguments.map fun a =>
        (a.name, a.byGraph)) = set.collected (Subgraph.namedArguments typeName name) := by
  have hadded : ∀ e : SubgraphId × FieldInGraph, argumentsIn e =
      (e.2.definition.arguments.map InputInGraph.ofArgument).map fun a => (e.1, a) := fun e => by
    rw [List.map_map]
    rfl
  rw [arguments_ofEntries, funext hadded, hset.fieldEntriesOf_eq_parts]
  have hparts := set.flatMap_parts
    (Subgraph.partsOf typeName fun s d => (d.field? name).toList.map fun field => .of s d field)
    fun f : FieldInGraph => f.definition.arguments.map InputInGraph.ofArgument
  rw [hparts]
  refine (set.table_eq_collected InputInGraph.name InputInGraph.type MergedInput.byGraph
    MergedInput.typedTable.key_fresh MergedInput.typedTable.key_step (fun _ => rfl)
    (fun _ _ => rfl) _).trans ?_
  congr 1
  funext s
  unfold Subgraph.namedArguments Subgraph.partsOf
  rw [List.flatMap_assoc, List.map_flatMap]
  refine List.flatMap_congr fun d _ => ?_
  rw [List.flatMap_map, List.map_flatMap]
  refine List.flatMap_congr fun field _ => ?_
  rw [List.map_map]
  rfl

/-- The fields of a type that goes through the types of its name. -/
theorem SubgraphSet.collectsFields_table :
    set.CollectsFields typeName
      (MergedField.typedTable.table ((set.entriesOf typeName).flatMap TypeEntry.fields)) := by
  have hadded : ∀ e : TypeEntry, e.fields =
      (e.definition.fields.map (FieldInGraph.of e.subgraph e.definition)).map fun f => (e.id, f) :=
    fun e => by
      rw [List.map_map]
      rfl
  constructor
  · have hfields := hset.flatMap_entriesOf typeName fun s d => d.fields.map (FieldInGraph.of s d)
    rw [funext hadded, hfields]
    refine (set.table_eq_collected (fun f : FieldInGraph => f.definition.name) (fun f => f)
      MergedField.byGraph MergedField.typedTable.key_fresh MergedField.typedTable.key_step (fun _ => rfl)
      (fun _ _ => rfl) _).trans ?_
    congr 1
    funext s
    unfold Subgraph.namedFields Subgraph.partsOf
    rw [List.map_flatMap]
    refine List.flatMap_congr fun d _ => ?_
    rw [List.map_map]
    rfl
  · intro field hfield
    obtain ⟨first, rest, hentries, hmerged⟩ := MergedField.exists_of_mem_table hfield
    rw [← SubgraphSet.fieldsOf, ← SubgraphSet.fieldEntriesOf] at hentries
    rw [← hentries] at hmerged
    rw [hmerged, MergedField.name_ofEntries]
    exact MergedField.arguments_ofEntries_eq_collected hset typeName _ _

/-- A type that goes through the types of its name is collected. -/
theorem MergedBody.isCollected_ofEntries (kind : TypeKind) :
    (MergedBody.ofEntries kind (set.entriesOf typeName)).IsCollected set typeName := by
  cases kind with
  | object =>
    show set.CollectsFields typeName (List.filter _ _)
    rw [List.filter_eq_self.mpr fun field hfield => ?_]
    · exact SubgraphSet.collectsFields_table hset typeName
    · rw [MergedField.isFromInterfaceObject_of_mem_table hfield]
      rfl
  | interface => exact SubgraphSet.collectsFields_table hset typeName
  | union =>
    show (MergedMember.table ((set.entriesOf typeName).flatMap TypeEntry.members)).map _ = _
    unfold TypeEntry.members
    have hmembers := hset.flatMap_entriesOf typeName fun _ d => d.members
    rw [hmembers]
    refine (set.table_eq_collected_ids (fun name : String => name) MergedMember.subgraphs ?_ ?_ ?_ ?_
      _).trans ?_
    · exact fun _ => rfl
    · exact fun _ _ => rfl
    · exact fun _ => rfl
    · exact fun _ _ => rfl
    · congr 2
      funext s
      unfold Subgraph.namedMembers Subgraph.partsOf
      rw [List.map_flatMap]
  | enum =>
    show (MergedEnumValue.table ((set.entriesOf typeName).flatMap TypeEntry.enumValues)).map _ = _
    unfold TypeEntry.enumValues
    have hvalues := hset.flatMap_entriesOf typeName fun _ d => d.enumValues
    rw [hvalues]
    refine (set.table_eq_collected_ids EnumValue.name MergedEnumValue.subgraphs ?_ ?_ ?_ ?_
      _).trans ?_
    · exact fun _ => rfl
    · exact fun _ _ => rfl
    · exact fun _ => rfl
    · exact fun _ _ => rfl
    · congr 2
      funext s
      unfold Subgraph.namedValues Subgraph.partsOf
      rw [List.map_flatMap]
  | scalar => trivial
  | inputObject =>
    have hadded : ∀ e : TypeEntry, e.inputFields =
        (e.definition.fields.map InputInGraph.ofField).map fun f => (e.id, f) := fun e => by
      rw [List.map_map]
      rfl
    show (MergedInput.typedTable.table
      ((set.entriesOf typeName).flatMap TypeEntry.inputFields)).map _ = _
    have hfields := hset.flatMap_entriesOf typeName fun _ d => d.fields.map InputInGraph.ofField
    rw [funext hadded, hfields]
    refine (set.table_eq_collected InputInGraph.name InputInGraph.type MergedInput.byGraph
      MergedInput.typedTable.key_fresh MergedInput.typedTable.key_step (fun _ => rfl)
      (fun _ _ => rfl) _).trans ?_
    congr 1
    funext s
    unfold Subgraph.namedInputFields Subgraph.partsOf
    rw [List.map_flatMap]
    refine List.flatMap_congr fun d _ => ?_
    rw [List.map_map]
    rfl

end

/-- The last steps leave what is collected. -/
theorem MergedBody.Finishes.isCollected {set : SubgraphSet} {typeName : String}
    {body body' : MergedBody} (h : body.Finishes body') (hbody : body.IsCollected set typeName) :
    body'.IsCollected set typeName := by
  cases h with
  | same => exact hbody
  | implementations => exact hbody
  | copies interfaces fields copied hcopied hnames =>
    have hnone : (copied.filter fun field => !field.isFromInterfaceObject) = [] :=
      List.filter_eq_nil_iff.mpr fun field hfield => by simp [(hcopied field hfield).1]
    show set.CollectsFields typeName (List.filter _ (fields ++ copied))
    rw [List.filter_append, hnone, List.append_nil]
    exact hbody

/-! ## Collected schemas -/

namespace MergedSchema

/-- Adding a type adds its name, unless it is there. -/
theorem names_of_addEntry {nameOf : SubgraphId → String} {m m' : MergedSchema} {e : TypeEntry}
    (h : addEntry nameOf m e = .ok m') : m'.names = Attributes.addNew m.names e.name := by
  unfold Attributes.addNew
  rcases names_of_addType h with hsame | ⟨hnew, hadded⟩
  · have hfound := type?_of_addEntry h e.name
    rw [if_pos rfl] at hfound
    obtain ⟨hmem, hname⟩ := mem_types_of_type?_eq_some hfound
    have hthere : e.name ∈ m.names := by
      rw [← hsame, ← hname]
      exact List.mem_map_of_mem hmem
    rw [if_pos (List.contains_iff_mem.mpr hthere), hsame]
  · have hnot : ¬ m.names.contains e.name = true := fun h => hnew (List.contains_iff_mem.mp h)
    rw [if_neg hnot]
    exact hadded

/-- The names of types are those of the types that have been added, in their order. -/
theorem names_of_foldlM_addEntry {nameOf : SubgraphId → String} {entries : List TypeEntry}
    {m m' : MergedSchema} (h : entries.foldlM (addEntry nameOf) m = .ok m') :
    m'.names = (entries.map TypeEntry.name).foldl Attributes.addNew m.names := by
  induction entries generalizing m with
  | nil =>
    obtain rfl := Except.ok.inj h
    rfl
  | cons e entries ih =>
    rw [List.foldlM_cons] at h
    cases hadd : addEntry nameOf m e with
    | error _ =>
      rw [hadd] at h
      cases h
    | ok next =>
      rw [hadd] at h
      rw [ih h, names_of_addEntry hadd, List.map_cons, List.foldl_cons]

variable {set : SubgraphSet} {m : MergedSchema}

/-- The types are what the subgraphs define, collected by name. -/
theorem types_eq_collected (hset : set.HasProperNames) (h : ofSubgraphs set = .ok m) :
    (m.types.map fun t => (t.name, t.byGraph)) = set.collected Subgraph.namedTypes := by
  have hnames : m.names = Attributes.distinct
      ((set.parts Subgraph.namedTypes).map fun part => part.2.1) := by
    obtain ⟨merged, hmerged, hfinish⟩ := exists_merged_of_ofSubgraphs h
    have hlisted : set.typeEntries.map TypeEntry.name =
        (set.parts Subgraph.namedTypes).map fun part => part.2.1 := by
      unfold SubgraphSet.typeEntries SubgraphSet.parts Subgraph.namedTypes
      rw [List.map_flatMap, List.map_flatMap]
      refine List.flatMap_congr fun entry _ => ?_
      rw [List.map_map, List.map_map, List.map_map]
      rfl
    rw [hfinish, names_finish, names_of_foldlM_addEntry hmerged, hlisted]
    rfl
  have hentries : ∀ t ∈ m.types, t.byGraph = set.defining Subgraph.namedTypes t.name := by
    intro t ht
    have hfound := (hasUniqueNames_of_ofSubgraphs h).type?_eq_some ht
    have hparts := hset.flatMap_entriesOf t.name fun _ d => [d]
    rw [byGraph_of_type? hset h hfound, List.map_eq_flatMap]
    refine hparts.trans ?_
    unfold SubgraphSet.parts SubgraphSet.defining Subgraph.partsOf Subgraph.namedTypes
    rw [List.filterMap_eq_flatMap_toList]
    refine List.flatMap_congr fun entry hentry => ?_
    have hs := hset entry.2 (List.mem_of_getElem? (SubgraphSet.mem_enumerated.mp hentry))
    have hone : entry.2.definitions.filter ((fun part => part.1 == t.name) ∘
        fun d => (d.name, d)) = (entry.2.definition? t.name).toList := hs.filter_definitions t.name
    rw [List.filter_map, List.getLast?_map, hone]
    cases entry.2.definition? t.name with
    | none => rfl
    | some d => rfl
  rw [SubgraphSet.collected, ← hnames, names, List.map_map]
  exact List.map_congr_left fun t ht => congrArg _ (hentries t ht)

/-- Merging fails exactly if subgraphs define a type as different kinds. -/
theorem ofSubgraphs_error_iff (set : SubgraphSet) :
    (∃ e, ofSubgraphs set = .error e) ↔
      ∃ s ∈ set.subgraphs, ∃ s' ∈ set.subgraphs, ∃ d ∈ s.definitions, ∃ d' ∈ s'.definitions,
        d.name = d'.name ∧ d.kind ≠ d'.kind := by
  constructor
  · rintro ⟨error, herror⟩
    by_contra hnone
    have hpairs : set.typeEntries.Pairwise fun e e' => e.name = e'.name → e.kind = e'.kind := by
      refine List.pairwise_of_forall_mem_list fun e he e' he' hname => ?_
      obtain ⟨hs, hd⟩ := SubgraphSet.mem_typeEntries.mp he
      obtain ⟨hs', hd'⟩ := SubgraphSet.mem_typeEntries.mp he'
      by_contra hkind
      exact hnone ⟨e.subgraph, List.mem_of_getElem? hs, e'.subgraph, List.mem_of_getElem? hs',
        e.definition, hd, e'.definition, hd', hname, hkind⟩
    obtain ⟨m, hm⟩ := ofSubgraphs_ok_iff.mpr hpairs
    rw [hm] at herror
    cases herror
  · rintro ⟨s, hs, s', hs', d, hd, d', hd', hname, hkind⟩
    cases hm : ofSubgraphs set with
    | error error => exact ⟨error, rfl⟩
    | ok m =>
      obtain ⟨id, hid⟩ := List.mem_iff_getElem?.mp hs
      obtain ⟨id', hid'⟩ := List.mem_iff_getElem?.mp hs'
      have he : (⟨id, s, d⟩ : TypeEntry) ∈ set.entriesOf d.name :=
        SubgraphSet.mem_entriesOf.mpr ⟨SubgraphSet.mem_typeEntries.mpr ⟨hid, hd⟩, rfl⟩
      have he' : (⟨id', s', d'⟩ : TypeEntry) ∈ set.entriesOf d.name :=
        SubgraphSet.mem_entriesOf.mpr ⟨SubgraphSet.mem_typeEntries.mpr ⟨hid', hd'⟩, hname.symm⟩
      exact absurd (kind_eq_of_ofSubgraphs hm he he') hkind

/-- A merged type has the definitions of its name. -/
theorem mem_byGraph_iff (hset : set.HasProperNames) (h : ofSubgraphs set = .ok m)
    {t : MergedType} (ht : t ∈ m.types) {id : SubgraphId} {d : TypeDef} :
    (id, d) ∈ t.byGraph ↔ ∃ s, set.subgraph? id = some s ∧ s.definition? t.name = some d := by
  have hfound := (hasUniqueNames_of_ofSubgraphs h).type?_eq_some ht
  have hparts := hset.flatMap_entriesOf t.name fun _ d => [d]
  rw [byGraph_of_type? hset h hfound, List.map_eq_flatMap]
  refine (iff_of_eq (congrArg _ hparts)).trans (SubgraphSet.mem_parts_partsOf.trans ?_)
  simp

/-- What a merged field says about a subgraph is what it defines. -/
theorem mem_byGraph_of_mem_fields (hset : set.HasProperNames) (h : ofSubgraphs set = .ok m)
    {t : MergedType} (ht : t ∈ m.types) {field : MergedField} (hfield : field ∈ t.fields)
    {id : SubgraphId} {f : FieldInGraph} :
    (id, f) ∈ field.byGraph ↔ ∃ s, set.subgraph? id = some s ∧
      ∃ d, s.definition? t.name = some d ∧ ∃ g ∈ d.fields, g.name = field.name ∧ f = .of s d g := by
  have hfound := (hasUniqueNames_of_ofSubgraphs h).type?_eq_some ht
  rw [byGraph_of_mem_fields hset h hfound hfield, hset.fieldEntriesOf_eq_parts,
    SubgraphSet.mem_parts_partsOf]
  refine exists_congr fun s => and_congr_right fun hs => exists_congr fun d =>
    and_congr_right fun hd => ?_
  have hparts := (hset s (List.mem_of_getElem? hs)).parts d (Subgraph.mem_of_definition? hd)
  rw [TypeDef.field?, ← filter_key_eq_toList hparts.fields, List.mem_map]
  constructor
  · rintro ⟨g, hg, rfl⟩
    obtain ⟨hmem, hname⟩ := List.mem_filter.mp hg
    exact ⟨g, hmem, beq_iff_eq.mp hname, rfl⟩
  · rintro ⟨g, hmem, hname, rfl⟩
    exact ⟨g, List.mem_filter.mpr ⟨hmem, beq_iff_eq.mpr hname⟩, rfl⟩

/-- Types are merged only with types of the same kind. -/
theorem kind_of_mem_byGraph (hset : set.HasProperNames) (h : ofSubgraphs set = .ok m)
    {t : MergedType} (ht : t ∈ m.types) {entry : SubgraphId × TypeDef} (hentry : entry ∈ t.byGraph) :
    entry.2.kind = t.kind := by
  have hfound := (hasUniqueNames_of_ofSubgraphs h).type?_eq_some ht
  rw [byGraph_of_type? hset h hfound] at hentry
  obtain ⟨e, he, rfl⟩ := List.mem_map.mp hentry
  obtain ⟨hmem, hname⟩ := SubgraphSet.mem_entriesOf.mp he
  obtain ⟨t', ht', hkind, -⟩ := exists_type?_of_mem h hmem
  rw [hname, hfound] at ht'
  rw [Option.some.inj ht']
  exact hkind.symm

/-- The types of a merged schema are collected. -/
theorem isCollected_of_ofSubgraphs (hset : set.HasProperNames) (h : ofSubgraphs set = .ok m)
    {t : MergedType} (ht : t ∈ m.types) : t.body.IsCollected set t.name := by
  have hfound := (hasUniqueNames_of_ofSubgraphs h).type?_eq_some ht
  obtain ⟨-, hfinishes⟩ := exists_entries_of_type? h hfound
  refine hfinishes.body.isCollected ?_
  rw [MergedType.body_ofEntries]
  exact MergedBody.isCollected_ofEntries hset t.name t.kind

/-- The arguments of a field that subgraphs define are what they define, collected by name. -/
theorem arguments_eq_collected (hset : set.HasProperNames) (h : ofSubgraphs set = .ok m)
    {t : MergedType} (ht : t ∈ m.types) {field : MergedField} (hfield : field ∈ t.fields)
    (hdefined : field.byGraph ≠ []) :
    (field.arguments.map fun a => (a.name, a.byGraph)) =
      set.collected (Subgraph.namedArguments t.name field.name) := by
  have hcollected := isCollected_of_ofSubgraphs hset h ht
  have hcopies := copiesTo_of_ofSubgraphs h ht
  unfold MergedBody.IsCollected at hcollected
  unfold MergedType.fields at hfield
  cases hbody : t.body with
  | object interfaces fields =>
    rw [hbody] at hcollected hfield
    refine hcollected.arguments field (List.mem_filter.mpr ⟨hfield, ?_⟩)
    -- a copy would have no entries
    cases hcopied : field.isFromInterfaceObject with
    | false => rfl
    | true =>
      have hmem : field ∈ t.fields := by
        rw [MergedType.fields, hbody]
        exact hfield
      obtain ⟨-, i, -, -, -, original, -, heq⟩ := hcopies.copied field hmem hcopied
      exact absurd (by rw [heq]; rfl) hdefined
  | interface interfaces fields implementations =>
    rw [hbody] at hcollected hfield
    exact hcollected.arguments field hfield
  | union | enum | scalar | inputObject =>
    rw [hbody] at hfield
    cases hfield

/-- **Merging loses nothing, makes up nothing and lists nothing twice.** It fails exactly if subgraphs
define a type as different kinds. Otherwise the types are those that the subgraphs define, in the
order of their first definitions, each with the subgraphs that define it; and so are the members,
values and fields of each type, and the arguments of fields. Besides these there are only copies of
fields that objects add to an interface, in the objects that implement it. -/
theorem merging_collects_definitions {set : SubgraphSet} (hset : set.Ingested) :
    ((∃ e, ofSubgraphs set = .error e) ↔
        ∃ s ∈ set.subgraphs, ∃ s' ∈ set.subgraphs, ∃ d ∈ s.definitions, ∃ d' ∈ s'.definitions,
          d.name = d'.name ∧ d.kind ≠ d'.kind) ∧
      ∀ m, ofSubgraphs set = .ok m →
        (m.types.map fun t => (t.name, t.byGraph)) = set.collected Subgraph.namedTypes ∧
          ∀ t ∈ m.types, (∀ entry ∈ t.byGraph, entry.2.kind = t.kind) ∧
            t.body.IsCollected set t.name ∧ m.CopiesTo t := by
  have hproper := hset.hasProperNames
  refine ⟨ofSubgraphs_error_iff set, fun m hm => ⟨types_eq_collected hproper hm, fun t ht => ?_⟩⟩
  exact ⟨fun entry => kind_of_mem_byGraph hproper hm ht, isCollected_of_ofSubgraphs hproper hm ht,
    copiesTo_of_ofSubgraphs hm ht⟩

end MergedSchema

/-- A schema with an interface and an object that implements it. -/
def SchemaSource.library : SchemaSource :=
  ⟨"type Query\x7bm:M\x7dinterface M@key(fields:\"i\")\x7bi:ID\x7d" ++
      "type B implements M@key(fields:\"i\")\x7bi:ID\x7d",
    "a", none⟩

/-- A schema in which objects stand in for the interface and add a field to it. -/
def SchemaSource.reviews : SchemaSource :=
  ⟨"type M@interfaceObject@key(fields:\"i\")\x7bi:ID r(n:Int):ID\x7d", "b", none⟩

theorem SchemaSource.merges_library_reviews :
    ((SubgraphSet.ofSources [library, reviews]).toOption.any fun set =>
      ((set.collected Subgraph.namedTypes).map (fun c => (c.1, c.2.ids)) ==
          [("Query", [0]), ("M", [0, 1]), ("B", [0])]) &&
        (MergedSchema.ofSubgraphs set).toOption.any fun m =>
          m.types.any fun t => t.name == "B" && t.fields.any fun field =>
            field.name == "r" && field.isFromInterfaceObject) = true := by
  rw [SubgraphSet.ofSources_eq_foldlM_insertSource]
  decide +kernel

/-- The interface is merged with the objects that stand in for it, and their field is copied. -/
theorem MergedSchema.merging_collects_definitions_of_reviews :
    ∃ set m, SubgraphSet.ofSources [.library, .reviews] = .ok set ∧ set.Ingested ∧
      ofSubgraphs set = .ok m ∧
      (m.types.map fun t => (t.name, t.byGraph.ids)) =
        [("Query", [0]), ("M", [0, 1]), ("B", [0])] ∧
      ∃ t ∈ m.types, ∃ field ∈ t.fields, t.name = "B" ∧ field.name = "r" ∧
        ∃ i ∈ m.types, ∃ original, i.IsAddedByObjects original ∧ field = copyOf original := by
  obtain ⟨set, hset, hmerges⟩ := exists_ok_of_any SchemaSource.merges_library_reviews
  rw [Bool.and_eq_true, beq_iff_eq] at hmerges
  obtain ⟨htypes, hmerged⟩ := hmerges
  obtain ⟨m, hm, hcopies⟩ := exists_ok_of_any hmerged
  simp only [List.any_eq_true, Bool.and_eq_true, beq_iff_eq] at hcopies
  obtain ⟨t, ht, hname, field, hfield, hfieldname, hcopied⟩ := hcopies
  have hingested := SubgraphSet.ingested_ofSources hset
  obtain ⟨hcollected, hparts⟩ := (merging_collects_definitions hingested).2 m hm
  refine ⟨set, m, hset, hingested, hm, ?_, t, ht, field, hfield, hname, hfieldname, ?_⟩
  · rw [← htypes, ← hcollected, List.map_map]
    rfl
  · obtain ⟨-, i, hi, -, -, original, horiginal, heq⟩ :=
      (hparts t ht).2.2.copied field hfield hcopied
    exact ⟨i, hi, original, horiginal, heq⟩

end Federation
