import Federation.Proofs.Ingestion.Parts
import Federation.Proofs.Merge.Alone
import Federation.Proofs.Supergraph.EnumTypes
import Federation.Proofs.Supergraph.Visible

/-!
# Supergraphs of one subgraph

The supergraph of a subgraph that is merged alone lists what the subgraph declares: every argument is
taken everywhere, every input field and every value is defined everywhere, and nothing is
inaccessible. So all of it is visible, as long as every type has a part.
-/

namespace Federation

/-! ## Outlines of types -/

/-- The word that a schema writes for a kind of type. -/
def TypeKind.keyword : TypeKind → String
  | .object => "type"
  | .interface => "interface"
  | .union => "union"
  | .inputObject => "input"
  | .scalar => "scalar"
  | .enum => "enum"

namespace Supergraph

/-- The signature of an argument or input field. -/
def Input.signature (i : Input) : Signature String where
  name := i.name
  type := i.type

/-- The signature of an output field. -/
def Field.signature (f : Field) : Signature String where
  name := f.name
  type := f.type
  arguments := f.arguments.map fun i => (i.name, i.type)

/-- The outline of a type of the supergraph. -/
def Body.outline : Body → Outline String
  | .object interfaces fields | .interface interfaces fields =>
    { interfaces, fields := fields.map Field.signature }
  | .union members => { members }
  | .enum values => { values := values.map EnumValue.name }
  | .scalar => {}
  | .inputObject fields => { fields := fields.map Input.signature }

/-! ## Hidden elements -/

theorem isHidden_emitInput (m : MergedInput) :
    isHidden (emitInput m).directives = m.metadata.isInaccessible :=
  isHidden_metadataDirectives m.metadata

/-- A field is hidden in the supergraph exactly if it is inaccessible. -/
theorem isHidden_emitField (names : GraphNames) (count : Nat) (field : MergedField) :
    isHidden (emitField names count field).directives = field.metadata.isInaccessible := by
  have hjoins : isHidden (joinFields names field count) = false := by
    refine isHidden_eq_false fun d hd => ?_
    rw [name_of_mem_joinFields hd]
    decide
  have hsizes : isHidden (field.listSize.merged.toList.map listSizeDirective) = false := by
    refine isHidden_eq_false fun d hd => ?_
    obtain ⟨l, -, rfl⟩ := List.mem_map.mp hd
    simp [listSizeDirective]
  unfold emitField
  dsimp only
  rw [isHidden_append, isHidden_append, hjoins, hsizes, isHidden_metadataDirectives,
    Bool.false_or, Bool.or_false]

/-- The directives that tell where a type is defined do not hide it. -/
theorem isHidden_joinDirectives (names : GraphNames) (t : MergedType) :
    isHidden (joinDirectives names t) = false := by
  have hobject : ∀ d ∈ t.byGraph.flatMap (fun e => joinTypes names e.1 e.2) ++
      t.byGraph.flatMap (fun e => joinImplements names e.1 e.2), d.name ≠ "inaccessible" := by
    intro d hd
    rcases List.mem_append.mp hd with hd | hd
    · obtain ⟨e, -, hd⟩ := List.mem_flatMap.mp hd
      obtain ⟨key, rfl⟩ := mem_joinTypes hd
      simp [joinType]
    · obtain ⟨e, -, hd⟩ := List.mem_flatMap.mp hd
      obtain ⟨interface, -, rfl⟩ := List.mem_map.mp hd
      simp
  have hplain : ∀ d ∈ t.byGraph.ids.map (joinPlainType names), d.name ≠ "inaccessible" :=
    List.forall_mem_map.mpr fun _ _ => by simp [joinPlainType]
  have hmembers : ∀ members : List MergedMember, ∀ d ∈ members.flatMap (joinMember names),
      d.name ≠ "inaccessible" := by
    intro members d hd
    obtain ⟨member, -, hd⟩ := List.mem_flatMap.mp hd
    obtain ⟨id, -, rfl⟩ := List.mem_map.mp hd
    simp
  unfold joinDirectives
  split
  · exact isHidden_eq_false hobject
  · exact isHidden_eq_false hobject
  · rw [isHidden_append, isHidden_eq_false hplain, isHidden_eq_false (hmembers _), Bool.false_or]
  · exact isHidden_eq_false hplain
  · exact isHidden_eq_false hplain
  · exact isHidden_eq_false hplain

/-- A type is hidden in the supergraph exactly if it is inaccessible. -/
theorem isHidden_emitType (names : GraphNames) (t : MergedType) :
    isHidden (emitType names t).directives = t.metadata.isInaccessible := by
  unfold emitType
  dsimp only
  rw [isHidden_append, isHidden_joinDirectives, isHidden_metadataDirectives, Bool.false_or]

/-! ## Emitted parts -/

/-- The only subgraph takes its arguments. -/
theorem isTakenEverywhere_alone (f : FieldInGraph) (i : InputInGraph) :
    isTakenEverywhere (.alone f) (.alone i) = true := by
  unfold isTakenEverywhere MergedField.resolving
  rw [List.all_eq_true]
  intro id hid
  obtain ⟨e, he, rfl⟩ := List.mem_map.mp hid
  have he := List.mem_of_mem_filter he
  rw [MergedField.byGraph_alone, List.mem_singleton] at he
  rw [he]
  rfl

/-- A field of one subgraph is emitted with all its arguments. -/
theorem arguments_emitField_alone {f : FieldInGraph} (names : GraphNames) (count : Nat)
    (h : (f.definition.arguments.map Argument.name).Nodup) :
    (emitField names count (.alone f)).arguments =
      f.definition.arguments.map fun a => emitInput (.alone (.ofArgument a)) := by
  unfold emitField
  dsimp only
  rw [MergedField.arguments_alone h, List.filter_eq_self.mpr, List.map_map]
  · rfl
  · exact List.forall_mem_map.mpr fun a _ => isTakenEverywhere_alone f _

/-- A field of one subgraph is emitted with its signature. -/
theorem signature_emitField_alone {f : FieldInGraph} (names : GraphNames) (count : Nat)
    (h : (f.definition.arguments.map Argument.name).Nodup) :
    (emitField names count (.alone f)).signature = f.definition.signature.map TypeRef.text := by
  unfold Field.signature
  rw [arguments_emitField_alone names count h]
  simp [emitField, emitInput, Federation.Field.signature, Signature.map, InputInGraph.ofArgument]

/-- A value of one subgraph is hidden only if it is marked so. -/
theorem isHiddenValue_alone {s : Subgraph} {d : TypeDef} {t : MergedType} (h : t.IsAlone s d)
    (v : Federation.EnumValue) : t.isHiddenValue (.alone v) = v.attributes.isInaccessible := by
  have hdefined : t.isDefinedEverywhere (.alone v) = true := by
    rw [MergedType.isDefinedEverywhere, h.byGraph]
    rfl
  rw [MergedType.isHiddenValue, hdefined, Bool.not_true, Bool.and_false, Bool.or_false]
  exact Bool.false_or _

/-! ## Emitted types -/

/-- What is emitted for a type of one subgraph. -/
def Body.alone (names : GraphNames) (s : Subgraph) (d : TypeDef) (t : MergedType) : Body :=
  match d.kind with
  | .object =>
    .object d.interfaces (d.fields.map fun field => emitField names 1 (.alone (.of s d field)))
  | .interface =>
    .interface d.interfaces (d.fields.map fun field => emitField names 1 (.alone (.of s d field)))
  | .union => .union d.members
  | .enum => .enum (d.enumValues.map fun v => emitEnumValue names t (.alone v))
  | .scalar => .scalar
  | .inputObject => .inputObject (d.fields.map fun field => emitInput (.alone (.ofField field)))

section

variable {s : Subgraph} {d : TypeDef} {t : MergedType} (h : t.IsAlone s d) (names : GraphNames)

include h

/-- All parts of a type of one subgraph are emitted. -/
theorem emitBody_alone : emitBody names t = .alone names s d t := by
  have hinputs : (d.fields.map fun field => MergedInput.alone (.ofField field)).filter
      (fun f => f.byGraph.length == t.byGraph.length) =
        d.fields.map fun field => .alone (.ofField field) := by
    rw [h.byGraph]
    exact List.filter_eq_self.mpr (List.forall_mem_map.mpr fun _ _ => rfl)
  unfold emitBody Body.alone
  rw [h.body]
  unfold MergedBody.alone
  cases d.kind with
  | object | interface => simp [h.byGraph, Function.comp_def]
  | union => simp [Function.comp_def, MergedMember.alone]
  | enum => simp [Function.comp_def]
  | scalar => rfl
  | inputObject => simp [hinputs, Function.comp_def]

/-- A type is emitted as a type of its kind. -/
theorem keyword_emitType_alone : (emitType names t).body.keyword = d.kind.keyword := by
  show (emitBody names t).keyword = _
  rw [emitBody_alone h, Body.alone]
  cases d.kind <;> rfl

/-- A type with parts is emitted with parts. -/
theorem hasParts_emitType_alone (hparts : d.outline.HasParts d.kind) :
    (emitType names t).body.HasParts := by
  show (emitBody names t).HasParts
  rw [emitBody_alone h, Body.alone]
  cases hkind : d.kind with
  | object | interface | inputObject | enum =>
    rw [hkind] at hparts
    exact mt List.map_eq_nil_iff.mp (mt List.map_eq_nil_iff.mpr hparts)
  | union =>
    rw [hkind] at hparts
    exact hparts
  | scalar => trivial

/-- Nothing of a type is hidden that is not marked as inaccessible. -/
theorem isHidden_of_mem_elements_alone (hd : d.IsStandalone)
    (harguments : ∀ field ∈ d.fields, (field.arguments.map Argument.name).Nodup) :
    ∀ directives ∈ (emitType names t).elements, isHidden directives = false := by
  have hfield : ∀ field ∈ d.fields, ∀ directives ∈
      (emitField names 1 (.alone (.of s d field))).directives ::
        (emitField names 1 (.alone (.of s d field))).arguments.map Input.directives,
      isHidden directives = false := by
    intro field hfield
    rw [List.forall_mem_cons, isHidden_emitField, MergedField.isInaccessible_alone,
      arguments_emitField_alone names 1 (harguments field hfield), List.forall_mem_map,
      List.forall_mem_map]
    refine ⟨(hd.fields field hfield).1.isInaccessible, fun a ha => ?_⟩
    rw [isHidden_emitInput, MergedInput.isInaccessible_alone]
    exact ((hd.fields field hfield).2 a ha).isInaccessible
  refine List.forall_mem_cons.mpr ⟨?_, ?_⟩
  · rw [isHidden_emitType, h.metadata]
    exact (Bool.false_or _).trans hd.attributes.isInaccessible
  · show ∀ directives ∈ (emitBody names t).elements, _
    rw [emitBody_alone h, Body.alone]
    cases d.kind with
    | object | interface =>
      refine List.forall_mem_flatMap.mpr (List.forall_mem_map.mpr hfield)
    | union | scalar => exact fun _ hmem => absurd hmem List.not_mem_nil
    | enum =>
      refine List.forall_mem_map.mpr (List.forall_mem_map.mpr fun v hv => ?_)
      rw [isHidden_emitEnumValue, isHiddenValue_alone h]
      exact (hd.enumValues v hv).isInaccessible
    | inputObject =>
      refine List.forall_mem_map.mpr (List.forall_mem_map.mpr fun field hmem => ?_)
      rw [isHidden_emitInput, MergedInput.isInaccessible_alone]
      exact (hd.fields field hmem).1.isInaccessible

/-- A type is emitted with what it declares. -/
theorem outline_emitType_alone (hfits : d.outline.Fits d.kind)
    (harguments : ∀ field ∈ d.fields, (field.arguments.map Argument.name).Nodup) :
    (emitType names t).body.outline = d.outline.map TypeRef.text := by
  have hoffields : d.kind ≠ .object → d.kind ≠ .interface → d.kind ≠ .inputObject → d.fields = [] :=
    fun hobject hinterface hinput => List.map_eq_nil_iff.mp (hfits.fields hobject hinterface hinput)
  have hofvalues : d.kind ≠ .enum → d.enumValues = [] :=
    fun henum => List.map_eq_nil_iff.mp (hfits.values henum)
  have hmembers : d.kind ≠ .union → d.members = [] := hfits.members
  have hinterfaces : d.kind ≠ .object → d.kind ≠ .interface → d.interfaces = [] := hfits.interfaces
  have hfields : (d.fields.map fun field => emitField names 1 (.alone (.of s d field))).map
      Field.signature = d.fields.map fun field => field.signature.map TypeRef.text := by
    rw [List.map_map]
    exact List.map_congr_left fun field hfield =>
      signature_emitField_alone names 1 (harguments field hfield)
  have hvalues : (d.enumValues.map fun v => emitEnumValue names t (.alone v)).map EnumValue.name =
      d.enumValues.map Federation.EnumValue.name := List.map_map
  have hinputs (hinput : d.kind = .inputObject) :
      (d.fields.map fun field => emitInput (.alone (.ofField field))).map Input.signature =
        d.fields.map fun field => field.signature.map TypeRef.text := by
    rw [List.map_map]
    refine List.map_congr_left fun field hfield => ?_
    -- input fields take no arguments
    have hnone : field.arguments = [] :=
      List.map_eq_nil_iff.mp (hfits.arguments hinput field.signature (List.mem_map_of_mem hfield))
    simp [Input.signature, emitInput, Federation.Field.signature, Signature.map, hnone,
      InputInGraph.ofField]
  show (emitBody names t).outline = _
  rw [emitBody_alone h, Body.alone, Outline.map, TypeDef.outline, List.map_map]
  cases hkind : d.kind with
  | object | interface =>
    rw [hofvalues (by simp [hkind]), hmembers (by simp [hkind]), Body.outline, hfields]
    rfl
  | union => rw [hoffields, hofvalues, hinterfaces] <;> simp [Body.outline, hkind]
  | enum => rw [hoffields, hmembers, hinterfaces] <;> simp [Body.outline, hkind, hvalues]
  | scalar => rw [hoffields, hofvalues, hmembers, hinterfaces] <;> simp [Body.outline, hkind]
  | inputObject =>
    rw [hofvalues (by simp [hkind]), hmembers (by simp [hkind]),
      hinterfaces (by simp [hkind]) (by simp [hkind]), Body.outline, hinputs hkind]
    rfl

end

/-! ## Emitted schemas -/

section

variable {set : SubgraphSet} {s : Subgraph} {m : MergedSchema} (h : set.HasOnly s)
  (hm : MergedSchema.ofSubgraphs set = .ok m)

include h hm

/-- The types of the supergraph are those of the only subgraph. -/
theorem perm_names_emit_alone :
    ((emit set m).types.map TypeDefinition.name).Perm (s.definitions.map TypeDef.name) := by
  have hnames : (emit set m).types.map TypeDefinition.name = m.types.map MergedType.name := by
    show (m.types.map _).map _ = _
    rw [List.map_map]
    rfl
  rw [hnames]
  refine (List.perm_ext_iff_of_nodup (MergedSchema.hasUniqueNames_of_ofSubgraphs hm)
    h.names.types).mpr fun name => ?_
  constructor
  · intro hname
    obtain ⟨t, ht, rfl⟩ := List.mem_map.mp hname
    obtain ⟨d, hd, halone⟩ := h.exists_isAlone hm ht
    exact List.mem_map.mpr ⟨d, hd, halone.name.symm⟩
  · intro hname
    obtain ⟨d, hd, rfl⟩ := List.mem_map.mp hname
    obtain ⟨t, ht, halone⟩ := h.exists_merged hm hd
    exact List.mem_map.mpr ⟨t, ht, halone.name⟩

/-- All types of one subgraph are visible, if they have parts. -/
theorem types_visible_alone (hparts : ∀ d ∈ s.definitions, d.outline.HasParts d.kind) :
    (emit set m).visible.types = (emit set m).types := by
  refine Model.types_visible_eq fun e he => ?_
  obtain ⟨t, ht, rfl⟩ := List.mem_map.mp he
  obtain ⟨d, hd, halone⟩ := h.exists_isAlone hm ht
  exact ⟨isHidden_of_mem_elements_alone halone _ (h.standalone d hd) (h.arguments d hd),
    hasParts_emitType_alone halone _ (hparts d hd)⟩

/-- Every type of the supergraph is a type of the only subgraph, of its kind and with its parts. -/
theorem exists_of_mem_emit_alone (hfits : ∀ d ∈ s.definitions, d.outline.Fits d.kind)
    {e : TypeDefinition} (he : e ∈ (emit set m).types) :
    ∃ d ∈ s.definitions, e.name = d.name ∧ e.body.keyword = d.kind.keyword ∧
      e.body.outline = d.outline.map TypeRef.text := by
  obtain ⟨t, ht, rfl⟩ := List.mem_map.mp he
  obtain ⟨d, hd, halone⟩ := h.exists_isAlone hm ht
  exact ⟨d, hd, halone.name, keyword_emitType_alone halone _,
    outline_emitType_alone halone _ (hfits d hd) (h.arguments d hd)⟩

end

end Supergraph

end Federation
