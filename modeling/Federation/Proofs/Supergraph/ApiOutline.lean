import Federation.Proofs.Ingestion.Evaluation
import Federation.Proofs.Satisfiability.ApiGraph
import Federation.Proofs.Supergraph.Alone
import Federation.Proofs.Supergraph.Arguments
import Federation.Proofs.Supergraph.PublicText
import Federation.Proofs.Supergraph.References

/-!
# The API as a graph and as a text

The satisfiability check walks a graph of the types and fields that are accessible. The API schema
shows the types and fields that are not hidden, and types are also hidden because nothing of them
is visible. So the graph has what the API schema shows, and perhaps more: types that are emptied,
and fields that lead to them.
-/

namespace Federation

/-! ## Outlines -/

/-- The field that a step leads to, with its type. -/
def ApiMove.field? : ApiMove → Option (String × String)
  | .field name typeName => some (name, typeName)
  | .narrow _ => none

/-- The types of the API by name, with the fields that a query can take and the types of these. -/
def ApiGraph.outline (g : ApiGraph) : List (String × List (String × String)) :=
  g.types.map fun t => (t.name, t.moves.filterMap ApiMove.field?)

namespace Supergraph

/-- Fields or members can be selected from the type. -/
def Body.isComposite : Body → Bool
  | .object _ _ | .interface _ _ | .union _ => true
  | .enum _ | .scalar | .inputObject _ => false

/-- The objects, interfaces and unions of a supergraph by name, with their fields and the types of
these. -/
def Model.fieldOutline (m : Model) : List (String × List (String × String)) :=
  (m.types.filter fun d => d.body.isComposite).map fun d =>
    (d.name, d.body.fields.map fun f => (f.name, TypeRef.nameOfText f.type))

theorem Body.isComposite_restrict (c : Choice) (hidden : List String) (body : Body) :
    (body.restrict c hidden).isComposite = body.isComposite := by
  cases body <;> rfl

/-- What is visible of a supergraph has the types that are not hidden, with the fields that stay. -/
theorem Model.fieldOutline_visible (m : Model) : m.visible.fieldOutline =
    (m.types.filter fun d => d.body.isComposite && !m.hiddenTypes.contains d.name).map fun d =>
      (d.name, (stayingFields .accessible m.hiddenTypes d.body.fields).map fun f =>
        (f.name, TypeRef.nameOfText f.type)) := by
  have hcomposite : ∀ d : TypeDefinition,
      (d.restrict .accessible m.hiddenTypes).body.isComposite = d.body.isComposite :=
    fun d => d.body.isComposite_restrict _ _
  rw [fieldOutline, visible, List.filter_map, List.filter_filter, List.map_map]
  simp only [Function.comp_def, hcomposite]
  refine List.map_congr_left fun d _ => ?_
  rw [TypeDefinition.restrict, Body.fields_restrict]

theorem isComposite_emitType (names : GraphNames) (t : MergedType) :
    (emitType names t).body.isComposite = t.kind.isComposite := by
  unfold emitType emitBody MergedType.kind
  cases t.body <;> rfl

/-- A type of the emitted model is inaccessible exactly if clients cannot see the merged type. -/
theorem mem_inaccessibleTypes_emit {set : SubgraphSet} {m : MergedSchema}
    (h : m.HasUniqueNames) {name : String} :
    name ∈ (emit set m).inaccessibleTypes ↔ m.isAccessible name = false := by
  rw [Model.mem_inaccessibleTypes, MergedSchema.isAccessible, Bool.not_eq_false',
    Option.any_eq_true]
  constructor
  · rintro ⟨d, hd, hhidden, rfl⟩
    obtain ⟨t, ht, rfl⟩ := List.mem_map.mp hd
    rw [isHidden_emitType] at hhidden
    exact ⟨t, h.type?_eq_some ht, hhidden⟩
  · rintro ⟨t, ht, hhidden⟩
    obtain ⟨hmem, hname⟩ := MergedSchema.mem_types_of_type?_eq_some ht
    refine ⟨_, List.mem_map_of_mem hmem, ?_, hname⟩
    rw [isHidden_emitType]
    exact hhidden

end Supergraph

namespace MergedSchema

variable (m : MergedSchema)

/-- Clients can select from the type. -/
def isSelectable (t : MergedType) : Bool :=
  t.kind.isComposite && !t.metadata.isInaccessible

/-- Clients can see the field and its type. -/
def isOffered (field : MergedField) : Bool :=
  !field.metadata.isInaccessible && m.isAccessible field.type.name

/-- The fields of a type of the API are those that clients can see. -/
theorem outline_apiGraph : m.apiGraph.outline = (m.types.filter isSelectable).map fun t =>
    (t.name, (t.fields.filter m.isOffered).map fun field => (field.name, field.type.name)) := by
  have hnarrowings : ∀ t, (m.apiNarrowings t).filterMap ApiMove.field? = [] := fun t =>
    List.filterMap_eq_nil_iff.mpr (List.forall_mem_map.mpr fun _ _ => rfl)
  have hfield : ∀ field, (m.apiField? field).bind ApiMove.field? =
      if m.isOffered field then some (field.name, field.type.name) else none := by
    intro field
    unfold apiField? isOffered
    cases field.metadata.isInaccessible <;> cases m.isAccessible field.type.name <;> rfl
  rw [ApiGraph.outline, apiGraph, List.map_map]
  refine List.map_congr_left fun t _ => ?_
  show (t.name, (t.fields.filterMap m.apiField? ++ m.apiNarrowings t).filterMap _) = _
  rw [List.filterMap_append, hnarrowings, List.append_nil, List.filterMap_filterMap]
  simp only [hfield]
  rw [← List.filterMap_eq_map, List.filterMap_filter]
  rfl

end MergedSchema

/-! ## The outline of the API schema -/

namespace SubgraphSet.MergesTo

open Supergraph

variable {set : SubgraphSet} {m : MergedSchema} (h : set.MergesTo m)

include h

/-- The type of a merged field is written with its name. -/
theorem nameOfText_type {t : MergedType} (ht : t ∈ m.types) {field : MergedField}
    (hfield : field ∈ t.fields) : TypeRef.nameOfText field.type.text = field.type.name := by
  have hdefined : ∀ t ∈ m.types, ∀ field ∈ t.fields, field.byGraph ≠ [] →
      TypeRef.nameOfText field.type.text = field.type.name := by
    intro t ht field hfield hne
    have hagree := Validation.typesDisagree_eq_false h.valid ht hfield
    obtain ⟨⟨g, hg, hname⟩, hall⟩ :=
      MergedSchema.name_of_mem_fields h.hasProperNames h.merged ht hfield hne hagree
    have htype := hall g hg hname
    rw [TypeRef.nameOfText_text_of_eq (h.hasPlainName_of_hasField hg).1 htype, htype]
  rcases eq_or_ne field.byGraph [] with hcopied | hne
  · -- the original of a copy is defined in an interface, and has the same type
    have hfound := (MergedSchema.hasUniqueNames_of_ofSubgraphs h.merged).type?_eq_some ht
    have hmark := MergedSchema.isFromInterfaceObject_of_byGraph_eq_nil h.hasProperNames h.merged
      hfound hfield hcopied
    obtain ⟨-, i, hi, -, -, original, ⟨hmem, id, hid, -⟩, rfl⟩ :=
      (MergedSchema.copiesTo_of_ofSubgraphs h.merged ht).copied field hfield hmark
    obtain ⟨entry, hentry, -⟩ := List.mem_map.mp hid
    exact hdefined i hi original hmem (List.ne_nil_of_mem hentry)
  · exact hdefined t ht field hfield hne

/-- The API schema has the types that are not hidden, with the accessible fields that lead to such
types. -/
theorem fieldOutline_visible : (emit set m).visible.fieldOutline =
    (m.types.filter fun t =>
      t.kind.isComposite && !(emit set m).hiddenTypes.contains t.name).map fun t =>
        (t.name, (t.fields.filter fun field => !field.metadata.isInaccessible &&
          !(emit set m).hiddenTypes.contains field.type.name).map fun field =>
            (field.name, field.type.name)) := by
  have hfields : ∀ t ∈ m.types, (stayingFields .accessible (emit set m).hiddenTypes
        (emitType set.enumValueOf t).body.fields).map
          (fun f => (f.name, TypeRef.nameOfText f.type)) =
        (t.fields.filter fun field => !field.metadata.isInaccessible &&
          !(emit set m).hiddenTypes.contains field.type.name).map fun field =>
            (field.name, field.type.name) := by
    intro t ht
    have hstays : ∀ field ∈ t.fields,
        stays Choice.accessible.part (emit set m).hiddenTypes
            (emitField set.enumValueOf t.byGraph.length field).directives
            (emitField set.enumValueOf t.byGraph.length field).type =
          (!field.metadata.isInaccessible &&
            !(emit set m).hiddenTypes.contains field.type.name) := by
      intro field hfield
      rw [stays_accessible, isHiddenReference, isHidden_emitField, Bool.not_or]
      exact congrArg (_ && !(emit set m).hiddenTypes.contains ·) (h.nameOfText_type ht hfield)
    rw [fields_emitType, stayingFields, List.map_map, List.filter_map, List.map_map]
    simp only [Function.comp_def]
    rw [List.filter_congr hstays]
    refine List.map_congr_left fun field hfield => ?_
    exact congrArg (Prod.mk _) (h.nameOfText_type ht (List.mem_of_mem_filter hfield))
  rw [Model.fieldOutline_visible]
  show ((m.types.map (emitType set.enumValueOf)).filter _).map _ = _
  rw [List.filter_map, List.map_map]
  simp only [Function.comp_def, isComposite_emitType]
  exact List.map_congr_left fun t ht => congrArg (Prod.mk _) (hfields t (List.mem_of_mem_filter ht))

/-- An object or interface is emptied if none of its fields is accessible and leads to a type that is
not hidden. -/
theorem isEmptied_iff_of_fields {t : MergedType} (ht : t ∈ m.types)
    (hkind : t.kind = .object ∨ t.kind = .interface) {hidden : List String} :
    (emitType set.enumValueOf t).body.isEmptied hidden = true ↔
      ∀ field ∈ t.fields, field.metadata.isInaccessible = true ∨ field.type.name ∈ hidden := by
  have hbody : (emitType set.enumValueOf t).body.isEmptied hidden =
      (emitType set.enumValueOf t).body.fields.all fun f =>
        isHiddenReference hidden f.directives f.type := by
    unfold emitType emitBody
    unfold MergedType.kind at hkind
    cases hbody : t.body with
    | object | interface => rfl
    | union | enum | scalar | inputObject => simp [hbody, MergedBody.kind] at hkind
  rw [hbody, fields_emitType, List.all_map, List.all_eq_true]
  refine forall₂_congr fun field hfield => ?_
  rw [Function.comp_apply, isHiddenReference, isHidden_emitField, Bool.or_eq_true,
    List.contains_iff_mem]
  show _ ∨ TypeRef.nameOfText field.type.text ∈ hidden ↔ _
  rw [h.nameOfText_type ht hfield]

omit h in
/-- A union is emptied if all its members are hidden. -/
theorem isEmptied_iff_of_members {t : MergedType} (hkind : t.kind = .union)
    {hidden : List String} :
    (emitType set.enumValueOf t).body.isEmptied hidden = true ↔
      ∀ member ∈ t.members, member.name ∈ hidden := by
  unfold emitType emitBody MergedType.members
  unfold MergedType.kind at hkind
  cases hbody : t.body with
  | union members => simp [Body.isEmptied]
  | object | interface | enum | scalar | inputObject => simp [hbody, MergedBody.kind] at hkind

end SubgraphSet.MergesTo

/-! ## What hiding takes away -/

namespace MergedSchema

/-- The type is hidden, and clients could not select from it anyway. -/
def HidesLeaf (m : MergedSchema) (hidden : List String) (name : String) : Prop :=
  name ∈ hidden ∧ m.isComposite name = false

/-- Every object and interface of the API has a field that clients can see, every union has a member
that they can see, and none of these leads to a leaf that is hidden. -/
structure LosesNothing (m : MergedSchema) (hidden : List String) : Prop where
  fields : ∀ t ∈ m.types, isSelectable t = true → t.kind ≠ .union →
    ∃ field ∈ t.fields, m.isOffered field = true
  members : ∀ t ∈ m.types, isSelectable t = true → t.kind = .union →
    ∃ member ∈ t.members, m.isAccessible member.name = true ∧ ¬ m.HidesLeaf hidden member.name
  leaves : ∀ t ∈ m.types, isSelectable t = true → ∀ field ∈ t.fields, m.isOffered field = true →
    ¬ m.HidesLeaf hidden field.type.name

theorem isOffered_iff {m : MergedSchema} {field : MergedField} :
    m.isOffered field = true ↔
      field.metadata.isInaccessible = false ∧ m.isAccessible field.type.name = true := by
  rw [isOffered, Bool.and_eq_true, Bool.not_eq_true']

/-- Clients select from objects, interfaces and unions. -/
theorem kind_of_isSelectable {t : MergedType} (h : isSelectable t = true)
    (hunion : t.kind ≠ .union) : t.kind = .object ∨ t.kind = .interface := by
  obtain ⟨hkind, -⟩ := Bool.and_eq_true_iff.mp h
  cases hkindof : t.kind with
  | object => exact .inl rfl
  | interface => exact .inr rfl
  | union => exact absurd hkindof hunion
  | enum | scalar | inputObject =>
    rw [hkindof] at hkind
    cases hkind

theorem isSelectable_iff {m : MergedSchema} (h : m.HasUniqueNames) {t : MergedType}
    (ht : t ∈ m.types) :
    isSelectable t = true ↔ m.isComposite t.name = true ∧ m.isAccessible t.name = true := by
  rw [isSelectable, Bool.and_eq_true, isComposite, isAccessible, h.type?_eq_some ht]
  rfl

end MergedSchema

namespace SubgraphSet.MergesTo

open Supergraph MergedSchema

variable {set : SubgraphSet} {m : MergedSchema} (h : set.MergesTo m)

include h

/-- A type that is not hidden is accessible. -/
theorem isAccessible_of_notMem {name : String} (hname : name ∉ (emit set m).hiddenTypes) :
    m.isAccessible name = true := by
  by_contra haccess
  have hunique := hasUniqueNames_of_ofSubgraphs h.merged
  have hmem : name ∈ (emit set m).inaccessibleTypes :=
    (mem_inaccessibleTypes_emit hunique).mpr (Bool.not_eq_true _ ▸ haccess)
  exact hname ((emit set m).isClosed_hiddenTypes.inaccessible hmem)

/-- If nothing is lost, the only types that are hidden are inaccessible or leaves. -/
theorem isClosed_of_losesNothing (hkeeps : m.LosesNothing (emit set m).hiddenTypes) :
    (emit set m).IsClosed ((emit set m).hiddenTypes.filter fun name =>
      !m.isAccessible name || !m.isComposite name) := by
  have hunique := hasUniqueNames_of_ofSubgraphs h.merged
  have hclosed := (emit set m).isClosed_hiddenTypes
  -- what is both accessible and in the closed types is a leaf
  have hleaf : ∀ name, m.isAccessible name = true →
      name ∈ (emit set m).hiddenTypes.filter (fun name =>
        !m.isAccessible name || !m.isComposite name) →
      m.HidesLeaf (emit set m).hiddenTypes name := by
    intro name haccess hname
    obtain ⟨hmem, hcond⟩ := List.mem_filter.mp hname
    rw [haccess, Bool.not_true, Bool.false_or, Bool.not_eq_true'] at hcond
    exact ⟨hmem, hcond⟩
  constructor
  · intro name hname
    refine List.mem_filter.mpr ⟨hclosed.inaccessible hname, ?_⟩
    rw [(mem_inaccessibleTypes_emit hunique).mp hname]
    rfl
  · intro d hd hempty
    have hhidden := hclosed.emptied d hd (Body.isEmptied_mono (List.filter_subset_self _) hempty)
    refine List.mem_filter.mpr ⟨hhidden, ?_⟩
    by_contra hcond
    obtain ⟨t, ht, rfl⟩ := List.mem_map.mp hd
    rw [Bool.not_eq_true, Bool.or_eq_false_iff, Bool.not_eq_false', Bool.not_eq_false'] at hcond
    have hselectable : isSelectable t = true :=
      (isSelectable_iff hunique ht).mpr ⟨hcond.2, hcond.1⟩
    by_cases hunion : t.kind = .union
    · obtain ⟨member, hmember, haccess, hkept⟩ := hkeeps.members t ht hselectable hunion
      exact hkept (hleaf _ haccess ((isEmptied_iff_of_members hunion).mp hempty member hmember))
    · obtain ⟨field, hfield, hoffered⟩ := hkeeps.fields t ht hselectable hunion
      have hkept := hkeeps.leaves t ht hselectable field hfield hoffered
      obtain ⟨hopen, haccess⟩ := isOffered_iff.mp hoffered
      rcases (h.isEmptied_iff_of_fields ht (kind_of_isSelectable hselectable hunion)).mp hempty
        field hfield with hmarked | hmem
      · rw [hopen] at hmarked
        cases hmarked
      · exact hkept (hleaf _ haccess hmem)

/-- If nothing is lost, clients see the types that they can select from. -/
theorem notMem_of_losesNothing (hkeeps : m.LosesNothing (emit set m).hiddenTypes) {t : MergedType}
    (ht : t ∈ m.types) (hselectable : isSelectable t = true) :
    t.name ∉ (emit set m).hiddenTypes := by
  intro hhidden
  obtain ⟨hcomposite, haccess⟩ :=
    (isSelectable_iff (hasUniqueNames_of_ofSubgraphs h.merged) ht).mp hselectable
  have hclosed := (h.isClosed_of_losesNothing hkeeps).hiddenTypes_subset hhidden
  obtain ⟨-, hcond⟩ := List.mem_filter.mp hclosed
  rw [haccess, hcomposite] at hcond
  cases hcond

/-- If nothing is lost, the types of the API and those of the API schema are the same. -/
theorem isSelectable_eq (hkeeps : m.LosesNothing (emit set m).hiddenTypes) {t : MergedType}
    (ht : t ∈ m.types) : isSelectable t =
      (t.kind.isComposite && !(emit set m).hiddenTypes.contains t.name) := by
  rw [Bool.eq_iff_iff, Bool.and_eq_true, Bool.not_eq_true', List.contains_eq_mem,
    decide_eq_false_iff_not]
  constructor
  · intro hselectable
    refine ⟨?_, h.notMem_of_losesNothing hkeeps ht hselectable⟩
    exact (Bool.and_eq_true_iff.mp hselectable).1
  · rintro ⟨hcomposite, hshown⟩
    have haccess := h.isAccessible_of_notMem hshown
    rw [isAccessible, (hasUniqueNames_of_ofSubgraphs h.merged).type?_eq_some ht] at haccess
    exact Bool.and_eq_true_iff.mpr ⟨hcomposite, haccess⟩

/-- If nothing is lost, the fields of a type of the API are those that the API schema shows. -/
theorem isOffered_eq (hkeeps : m.LosesNothing (emit set m).hiddenTypes) {t : MergedType}
    (ht : t ∈ m.types) (hselectable : isSelectable t = true) {field : MergedField}
    (hfield : field ∈ t.fields) : m.isOffered field =
      (!field.metadata.isInaccessible && !(emit set m).hiddenTypes.contains field.type.name) := by
  rw [Bool.eq_iff_iff, Bool.and_eq_true, Bool.not_eq_true', Bool.not_eq_true',
    List.contains_eq_mem, decide_eq_false_iff_not, isOffered_iff]
  refine and_congr_right fun hopen => ⟨fun haccess hhidden => ?_, h.isAccessible_of_notMem⟩
  have hleaf := hkeeps.leaves t ht hselectable field hfield (isOffered_iff.mpr ⟨hopen, haccess⟩)
  -- the type is not a leaf that is hidden, so clients can select from it
  cases hcomposite : m.isComposite field.type.name with
  | false => exact hleaf ⟨hhidden, hcomposite⟩
  | true =>
    obtain ⟨u, hu, huname, hkind, hvisible⟩ :=
      mem_names_apiGraph.mp (mem_names_of_isComposite hcomposite haccess)
    refine h.notMem_of_losesNothing hkeeps hu ?_ (huname ▸ hhidden)
    rw [isSelectable, hkind, hvisible]
    rfl

/-- If the outlines are the same, a type of the API is not hidden, and the types of its fields are
not. -/
theorem notMem_of_outline_eq (heq : m.apiGraph.outline = (emit set m).visible.fieldOutline)
    {t : MergedType} (ht : t ∈ m.types) (hselectable : isSelectable t = true) :
    t.name ∉ (emit set m).hiddenTypes ∧ ∀ field ∈ t.fields, m.isOffered field = true →
      field.type.name ∉ (emit set m).hiddenTypes := by
  rw [outline_apiGraph, h.fieldOutline_visible] at heq
  have hmem := List.mem_map_of_mem (f := fun t : MergedType => (t.name,
    (t.fields.filter m.isOffered).map fun field => (field.name, field.type.name)))
    (List.mem_filter.mpr ⟨ht, hselectable⟩)
  rw [heq] at hmem
  obtain ⟨u, hu, hsame⟩ := List.mem_map.mp hmem
  obtain ⟨humem, hcond⟩ := List.mem_filter.mp hu
  obtain ⟨hname, hfields⟩ := Prod.mk.inj hsame
  obtain rfl : u = t :=
    List.inj_on_of_nodup_map (hasUniqueNames_of_ofSubgraphs h.merged) humem ht hname
  simp only [Bool.and_eq_true, Bool.not_eq_true', List.contains_eq_mem,
    decide_eq_false_iff_not] at hcond
  refine ⟨hcond.2, fun field hfield hoffered => ?_⟩
  have hlisted : (field.name, field.type.name) ∈ (u.fields.filter m.isOffered).map fun field =>
      (field.name, field.type.name) :=
    List.mem_map.mpr ⟨field, List.mem_filter.mpr ⟨hfield, hoffered⟩, rfl⟩
  rw [← hfields] at hlisted
  obtain ⟨other, hother, hpair⟩ := List.mem_map.mp hlisted
  obtain ⟨-, hshown⟩ := List.mem_filter.mp hother
  simp only [Bool.and_eq_true, Bool.not_eq_true', List.contains_eq_mem,
    decide_eq_false_iff_not] at hshown
  exact (Prod.mk.inj hpair).2 ▸ hshown.2

/-- **The API that is checked has the outline of the API schema exactly if hiding takes nothing away
from it.** -/
theorem outline_eq_iff : m.apiGraph.outline = (emit set m).visible.fieldOutline ↔
    m.LosesNothing (emit set m).hiddenTypes := by
  constructor
  · intro heq
    have hclosed := (emit set m).isClosed_hiddenTypes
    refine ⟨fun t ht hselectable hunion => ?_, fun t ht hselectable hunion => ?_,
      fun t ht hselectable field hfield hoffered hleaf =>
        (h.notMem_of_outline_eq heq ht hselectable).2 field hfield hoffered hleaf.1⟩
    · -- the type is not emptied, so it has a field that is shown
      have hshown := mt (hclosed.emptied _ (List.mem_map_of_mem ht))
        (h.notMem_of_outline_eq heq ht hselectable).1
      rw [h.isEmptied_iff_of_fields ht (kind_of_isSelectable hselectable hunion)] at hshown
      push Not at hshown
      obtain ⟨field, hfield, hopen, htype⟩ := hshown
      exact ⟨field, hfield, isOffered_iff.mpr
        ⟨Bool.not_eq_true _ ▸ hopen, h.isAccessible_of_notMem htype⟩⟩
    · have hshown := mt (hclosed.emptied _ (List.mem_map_of_mem ht))
        (h.notMem_of_outline_eq heq ht hselectable).1
      rw [isEmptied_iff_of_members hunion] at hshown
      push Not at hshown
      obtain ⟨member, hmember, hname⟩ := hshown
      exact ⟨member, hmember, h.isAccessible_of_notMem hname, fun hleaf => hname hleaf.1⟩
  · intro hkeeps
    rw [outline_apiGraph, h.fieldOutline_visible,
      List.filter_congr fun t ht => h.isSelectable_eq hkeeps ht]
    refine List.map_congr_left fun t ht => ?_
    obtain ⟨hmem, hcond⟩ := List.mem_filter.mp ht
    rw [← h.isSelectable_eq hkeeps hmem] at hcond
    rw [List.filter_congr fun field hfield => h.isOffered_eq hkeeps hmem hcond hfield]

end SubgraphSet.MergesTo

namespace Supergraph

/-- **The API schema shows what queries can take as far as nothing is emptied.** The API schema is the
text of the visible types. If validation finds nothing fatal, its objects, interfaces and unions and
their fields are those that are checked for satisfiability, exactly if every object and interface
that clients can see has a field that they can see with its type, every union has a member that they
can see, and no such field or member is of a type from which nothing can be selected and of which
nothing is visible. No rule sees to any of it. -/
theorem api_schema_shows_graph_iff {set : SubgraphSet} (hset : set.Ingested) {m : MergedSchema}
    (hm : MergedSchema.ofSubgraphs set = .ok m)
    (hvalid : set.baseDiagnostics.1.anyFatal = false) :
    (emit set m).publicText = fullText ((emit set m).visible.types.map TypeDefinition.bare) ∧
      (m.apiGraph.outline = (emit set m).visible.fieldOutline ↔
        m.LosesNothing (emit set m).hiddenTypes) := by
  obtain ⟨m', hm', hpassed⟩ := SubgraphSet.exists_merged_of_baseDiagnostics hvalid
  obtain rfl : m = m' := Except.ok.inj (hm.symm.trans hm')
  have hmerges : set.MergesTo m :=
    ⟨hset, fun s hs => SubgraphSet.anyFatal_diagnostics hvalid hs, hm, hpassed⟩
  exact ⟨Model.publicText_eq _, hmerges.outline_eq_iff⟩

end Supergraph

/-- A schema with a type of which nothing is visible, although it is not marked. -/
def SchemaSource.emptiedType : SchemaSource :=
  ⟨"type Query\x7bx:ID t:T\x7dtype T\x7ba:ID@inaccessible\x7d", "a", none⟩

theorem SchemaSource.merges_emptiedType :
    ((SubgraphSet.ofSources [emptiedType]).toOption.any fun set =>
      (MergedSchema.ofSubgraphs set).toOption.any fun m =>
        !set.baseDiagnostics.1.anyFatal &&
          (m.apiGraph.outline == [("Query", [("x", "ID"), ("t", "T")]), ("T", [])] &&
            (Supergraph.emit set m).visible.fieldOutline == [("Query", [("x", "ID")])])) = true := by
  rw [SubgraphSet.ofSources_eq_foldlM_insertSource]
  decide +kernel

/-- The schema passes validation, and the API schema leaves out a type that queries can take. -/
theorem SubgraphSet.exists_merged_emptiedType :
    ∃ set m, SubgraphSet.ofSources [.emptiedType] = .ok set ∧ set.Ingested ∧
      MergedSchema.ofSubgraphs set = .ok m ∧ set.baseDiagnostics.1.anyFatal = false ∧
      m.apiGraph.outline = [("Query", [("x", "ID"), ("t", "T")]), ("T", [])] ∧
      (Supergraph.emit set m).visible.fieldOutline = [("Query", [("x", "ID")])] := by
  obtain ⟨set, hset, hmerges⟩ := exists_ok_of_any SchemaSource.merges_emptiedType
  obtain ⟨m, hm, hcond⟩ := exists_ok_of_any hmerges
  simp only [Bool.and_eq_true, Bool.not_eq_true', beq_iff_eq] at hcond
  exact ⟨set, m, hset, ingested_ofSources hset, hm, hcond⟩

namespace Supergraph

/-- Hiding takes something away, because a type that is not marked has nothing to show. -/
theorem api_schema_shows_graph_iff_of_emptiedType :
    ∃ set m, SubgraphSet.ofSources [.emptiedType] = .ok set ∧ set.Ingested ∧
      MergedSchema.ofSubgraphs set = .ok m ∧ set.baseDiagnostics.1.anyFatal = false ∧
      ¬ m.LosesNothing (emit set m).hiddenTypes := by
  obtain ⟨set, m, hset, hingested, hm, hvalid, hgraph, hshown⟩ :=
    SubgraphSet.exists_merged_emptiedType
  refine ⟨set, m, hset, hingested, hm, hvalid, fun hkeeps => ?_⟩
  have heq := (api_schema_shows_graph_iff hingested hm hvalid).2.mpr hkeeps
  rw [hgraph, hshown] at heq
  exact absurd heq (by decide)

/-- Queries may take fields that the API schema does not show. -/
theorem graph_has_more_than_api_schema :
    ¬ ∀ set : SubgraphSet, set.Ingested → ∀ m, MergedSchema.ofSubgraphs set = .ok m →
      set.baseDiagnostics.1.anyFatal = false →
        m.apiGraph.outline = (emit set m).visible.fieldOutline := by
  intro hsame
  obtain ⟨set, m, -, hingested, hm, hvalid, hgraph, hshown⟩ :=
    SubgraphSet.exists_merged_emptiedType
  have heq := hsame set hingested m hm hvalid
  rw [hgraph, hshown] at heq
  exact absurd heq (by decide)

end Supergraph

end Federation
