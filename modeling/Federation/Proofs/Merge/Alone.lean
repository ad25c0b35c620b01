import Federation.Proofs.Ingestion.Outlines
import Federation.Proofs.Merge.Consensus
import Federation.Proofs.Merge.Copies

/-!
# Merging one subgraph

A subgraph that is merged alone agrees with itself, so a merged type consists of what its only
definition declares: every field, argument, value and member makes an item of its own, of the type
that it is declared with. Nothing is copied to a type, unless objects stand in for interfaces.
-/

namespace Federation

/-! ## Elements of one subgraph -/

/-- The argument or input field that one subgraph makes. -/
def MergedInput.alone (i : InputInGraph) : MergedInput :=
  absorb { name := i.name, type := i.type } 0 i

/-- The output field that one subgraph makes. -/
def MergedField.alone (f : FieldInGraph) : MergedField :=
  absorb { name := f.definition.name, type := f.definition.type } 0 f

/-- The value of an enum type that one subgraph makes. -/
def MergedEnumValue.alone (v : EnumValue) : MergedEnumValue where
  name := v.name
  metadata := Metadata.absorb {} v.attributes v.description
  subgraphs := [0]

/-- The member of a union that one subgraph makes. -/
def MergedMember.alone (name : String) : MergedMember where
  name
  subgraphs := [0]

/-- What a type of one subgraph consists of. An interface has the implementations that it is told. -/
def MergedBody.alone (s : Subgraph) (d : TypeDef) (implementations : List String) : MergedBody :=
  match d.kind with
  | .object => .object d.interfaces (d.fields.map fun field => .alone (.of s d field))
  | .interface =>
    .interface d.interfaces (d.fields.map fun field => .alone (.of s d field)) implementations
  | .union => .union (d.members.map .alone)
  | .enum => .enum (d.enumValues.map .alone)
  | .scalar => .scalar
  | .inputObject => .inputObject (d.fields.map fun field => .alone (.ofField field))

@[simp] theorem MergedInput.name_alone (i : InputInGraph) : (alone i).name = i.name := rfl

@[simp] theorem MergedInput.byGraph_alone (i : InputInGraph) :
    (alone i).byGraph = [(0, i.type)] := rfl

/-- A type composed with itself stays as it is. -/
@[simp] theorem MergedInput.type_alone (i : InputInGraph) : (alone i).type = i.type := by
  simp [alone, absorb, TypeRef.composeInput?]

@[simp] theorem MergedInput.isInaccessible_alone (i : InputInGraph) :
    (alone i).metadata.isInaccessible = i.attributes.isInaccessible :=
  Bool.false_or _

@[simp] theorem MergedField.name_alone (f : FieldInGraph) :
    (alone f).name = f.definition.name := rfl

@[simp] theorem MergedField.byGraph_alone (f : FieldInGraph) : (alone f).byGraph = [(0, f)] := rfl

@[simp] theorem MergedField.type_alone (f : FieldInGraph) :
    (alone f).type = f.definition.type := by
  simp [alone, absorb, TypeRef.composeOutput?]

@[simp] theorem MergedField.isInaccessible_alone (f : FieldInGraph) :
    (alone f).metadata.isInaccessible = f.definition.attributes.isInaccessible :=
  Bool.false_or _

/-- Arguments of different names make one item each. -/
theorem MergedField.arguments_alone {f : FieldInGraph}
    (h : (f.definition.arguments.map Argument.name).Nodup) :
    (alone f).arguments = f.definition.arguments.map fun a => .alone (.ofArgument a) := by
  show upsertAll MergedInput.name Argument.name (fun a => { name := a.name, type := a.type })
    (fun a m => m.absorb 0 (.ofArgument a)) [] f.definition.arguments = _
  exact upsertAll_empty_of_nodup (by intro; rfl) h

/-! ## Types of one subgraph -/

/-- The merged type is what a definition makes of it, if there is no other. -/
structure MergedType.IsAlone (s : Subgraph) (d : TypeDef) (t : MergedType) : Prop where
  name : t.name = d.name
  metadata : t.metadata = Metadata.absorb {} d.attributes d.description
  byGraph : t.byGraph = [(0, d)]
  body : t.body = .alone s d t.implementations

/-- The merged type is of the same kind. -/
theorem MergedType.IsAlone.kind {s : Subgraph} {d : TypeDef} {t : MergedType} (h : t.IsAlone s d) :
    t.kind = d.kind := by
  rw [MergedType.kind, h.body]
  unfold MergedBody.alone
  cases d.kind <;> rfl

/-- The output fields are those of the definition. -/
theorem MergedType.IsAlone.fields {s : Subgraph} {d : TypeDef} {t : MergedType} (h : t.IsAlone s d)
    (hkind : d.kind = .object ∨ d.kind = .interface) :
    t.fields = d.fields.map fun field => .alone (.of s d field) := by
  rw [MergedType.fields, h.body, MergedBody.alone]
  rcases hkind with hkind | hkind <;> rw [hkind]

/-- Changes of different names make one item each. -/
theorem TypedTable.table_of_nodup {α β : Type} {composeIn? : TypeRef → TypeRef → Option TypeRef}
    (m : TypedTable α β composeIn?) {changes : List β} (h : (changes.map m.keyOf).Nodup) :
    m.table changes = changes.map fun b => m.step b (m.fresh b) :=
  upsertAll_empty_of_nodup (fun b => (m.key_step b _).trans (m.key_fresh b)) h

/-- One definition makes one item of each of its parts. -/
theorem MergedBody.ofEntries_singleton {d : TypeDef} (hd : d.HasProperNames) (s : Subgraph) :
    MergedBody.ofEntries d.kind [⟨0, s, d⟩] = .alone s d [] := by
  have hinterfaces : TypeEntry.interfacesOf [⟨0, s, d⟩] = d.interfaces :=
    Attributes.distinct_of_nodup hd.interfaces
  have hfields : MergedField.typedTable.table (TypeEntry.fields ⟨0, s, d⟩) =
      d.fields.map fun field => .alone (.of s d field) := by
    rw [TypedTable.table_of_nodup, TypeEntry.fields, List.map_map]
    · rfl
    · rw [TypeEntry.fields, List.map_map]
      exact hd.fields
  have hinputs : MergedInput.typedTable.table (TypeEntry.inputFields ⟨0, s, d⟩) =
      d.fields.map fun field => .alone (.ofField field) := by
    rw [TypedTable.table_of_nodup, TypeEntry.inputFields, List.map_map]
    · rfl
    · rw [TypeEntry.inputFields, List.map_map]
      exact hd.fields
  have hmembers : MergedMember.table (TypeEntry.members ⟨0, s, d⟩) = d.members.map .alone := by
    have hnames : ((d.members.map fun name => ((0 : SubgraphId), name)).map Prod.snd).Nodup := by
      rw [List.map_map]
      exact (List.map_id d.members).symm ▸ hd.members
    refine Eq.trans (upsertAll_empty_of_nodup (by intro; rfl) hnames) ?_
    rw [TypeEntry.members, List.map_map]
    rfl
  have hvalues : MergedEnumValue.table (TypeEntry.enumValues ⟨0, s, d⟩) =
      d.enumValues.map .alone := by
    have hnames : ((d.enumValues.map fun v => ((0 : SubgraphId), v)).map fun c => c.2.name).Nodup := by
      rw [List.map_map]
      exact hd.enumValues
    refine Eq.trans (upsertAll_empty_of_nodup (by intro; rfl) hnames) ?_
    rw [TypeEntry.enumValues, List.map_map]
    rfl
  unfold MergedBody.ofEntries MergedBody.alone
  cases d.kind with
  | object | interface => simp [hinterfaces, hfields]
  | union => simp [hmembers]
  | enum => simp [hvalues]
  | scalar => rfl
  | inputObject => simp [hinputs]

/-! ## Schemas of one subgraph -/

/-- The subgraph is the only one of a set. Nothing in it is left to others, and the arguments of its
fields have different names. -/
structure SubgraphSet.HasOnly (set : SubgraphSet) (s : Subgraph) : Prop where
  subgraphs : set.subgraphs = [s]
  names : s.HasProperNames
  standalone : s.IsStandalone
  arguments : ∀ d ∈ s.definitions, ∀ field ∈ d.fields, (field.arguments.map Argument.name).Nodup

namespace SubgraphSet.HasOnly

variable {set : SubgraphSet} {s : Subgraph} {m : MergedSchema} (h : set.HasOnly s)

include h

theorem hasProperNames : set.HasProperNames := by
  intro s' hs'
  rw [h.subgraphs, List.mem_singleton] at hs'
  exact hs' ▸ h.names

theorem enumerated_eq : set.enumerated = [(0, s)] := by
  rw [enumerated, h.subgraphs]
  rfl

/-- The only type of a name is the one that the subgraph defines. -/
theorem entriesOf_eq {d : TypeDef} (hd : d ∈ s.definitions) :
    set.entriesOf d.name = [⟨0, s, d⟩] := by
  rw [entriesOf, typeEntries, h.enumerated_eq, List.flatMap_singleton, List.filter_map]
  exact congrArg _ (filter_key_eq_singleton h.names.types hd)

/-- Only the subgraph defines types. -/
theorem mem_typeEntries_iff {e : TypeEntry} :
    e ∈ set.typeEntries ↔ ∃ d ∈ s.definitions, e = ⟨0, s, d⟩ := by
  rw [typeEntries, h.enumerated_eq, List.flatMap_singleton, List.mem_map]
  exact exists_congr fun d => and_congr_right fun _ => eq_comm

variable (hm : MergedSchema.ofSubgraphs set = .ok m)

include hm

/-- Every merged type is made of the only definition of its name. -/
theorem exists_definition {t : MergedType} (ht : t ∈ m.types) :
    ∃ d ∈ s.definitions, t.name = d.name ∧ t.byGraph = [(0, d)] ∧
      (MergedType.ofEntries d.name d.kind [⟨0, s, d⟩]).Finishes t := by
  have htype := (MergedSchema.hasUniqueNames_of_ofSubgraphs hm).type?_eq_some ht
  obtain ⟨hne, -⟩ := MergedSchema.exists_entries_of_type? hm htype
  obtain ⟨e, he⟩ := List.exists_mem_of_ne_nil _ hne
  obtain ⟨hmem, hname⟩ := mem_entriesOf.mp he
  obtain ⟨d, hd, rfl⟩ := h.mem_typeEntries_iff.mp hmem
  have hname : d.name = t.name := hname
  obtain ⟨t', ht', -, hfinishes⟩ := MergedSchema.exists_type?_of_mem hm hmem
  have hsame : m.type? d.name = some t := hname ▸ htype
  obtain rfl : t = t' := Option.some.inj (hsame.symm.trans ht')
  have hbyGraph := MergedSchema.byGraph_of_type? h.hasProperNames hm hsame
  rw [h.entriesOf_eq hd] at hbyGraph
  have hfinishes : (MergedType.ofEntries d.name d.kind (set.entriesOf d.name)).Finishes t :=
    hfinishes
  rw [h.entriesOf_eq hd] at hfinishes
  exact ⟨d, hd, hname.symm, hbyGraph, hfinishes⟩

/-- Nothing is copied, because no objects stand in for interfaces. -/
theorem isFromInterfaceObject_eq_false {t : MergedType} (ht : t ∈ m.types) {field : MergedField}
    (hfield : field ∈ t.fields) : field.isFromInterfaceObject = false := by
  by_contra hcopied
  rw [Bool.not_eq_false] at hcopied
  obtain ⟨-, i, hi, -, -, original, ⟨-, id, -, d, hmem, hobject⟩, -⟩ :=
    (MergedSchema.copiesTo_of_ofSubgraphs hm ht).copied field hfield hcopied
  obtain ⟨d', hd', -, hbyGraph, -⟩ := h.exists_definition hm hi
  rw [hbyGraph, List.mem_singleton, Prod.mk.injEq] at hmem
  rw [hmem.2, TypeDef.isInterfaceObject, (h.standalone d' hd').attributes.isInterfaceObject,
    Bool.and_false] at hobject
  cases hobject

/-- **A subgraph that is merged alone comes out as it went in.** -/
theorem exists_isAlone {t : MergedType} (ht : t ∈ m.types) :
    ∃ d ∈ s.definitions, t.IsAlone s d := by
  obtain ⟨d, hd, hname, hbyGraph, hfinishes⟩ := h.exists_definition hm ht
  have hcopied : ∀ field ∈ t.fields, field.isFromInterfaceObject = false :=
    fun _ => h.isFromInterfaceObject_eq_false hm ht
  have hbody := hfinishes.body
  rw [MergedType.body_ofEntries, MergedBody.ofEntries_singleton (h.names.parts d hd)] at hbody
  refine ⟨d, hd, hname, ?_, hbyGraph, ?_⟩
  · rw [hfinishes.metadata_eq, MergedType.metadata_ofEntries]
    rfl
  · unfold MergedType.fields at hcopied
    unfold MergedType.implementations
    generalize t.body = body at hbody hcopied
    unfold MergedBody.alone at hbody ⊢
    cases hkind : d.kind with
    | object =>
      rw [hkind] at hbody
      cases hbody with
      | same => rfl
      | copies _ _ copied hfrom =>
        obtain rfl : copied = [] := by
          refine List.eq_nil_iff_forall_not_mem.mpr fun field hfield => ?_
          have hfalse := hcopied field (List.mem_append_right _ hfield)
          rw [(hfrom field hfield).1] at hfalse
          cases hfalse
        rw [List.append_nil]
    | interface =>
      rw [hkind] at hbody
      cases hbody with
      | same => rfl
      | implementations => rfl
    | union | enum | scalar | inputObject =>
      rw [hkind] at hbody
      cases hbody
      rfl

/-- Every definition is merged. -/
theorem exists_merged {d : TypeDef} (hd : d ∈ s.definitions) : ∃ t ∈ m.types, t.IsAlone s d := by
  obtain ⟨t, ht, -⟩ :=
    MergedSchema.exists_type?_of_mem hm (h.mem_typeEntries_iff.mpr ⟨d, hd, rfl⟩)
  obtain ⟨hmem, hname⟩ := MergedSchema.mem_types_of_type?_eq_some ht
  obtain ⟨d', hd', halone⟩ := h.exists_isAlone hm hmem
  have hsame : d' = d := List.inj_on_of_nodup_map h.names.types hd' hd
    (halone.name.symm.trans hname)
  exact ⟨t, hmem, hsame ▸ halone⟩

end SubgraphSet.HasOnly

end Federation
