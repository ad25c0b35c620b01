import Federation.Proofs.Document.Names
import Federation.Proofs.Supergraph.References

/-!
# Types as the supergraph holds them

The supergraph refers to types by their texts only. Nothing is lost by that: a text is read back as
the type that it was written for, no other type has the text, and the name in the text is the name
of the type. So whether an element is hidden together with its type is told from the right type.
-/

namespace Federation

/-! ## Types that are held -/

namespace TypeRef

/-- A type that can be held stays so when it goes by the usual name of a root type. -/
theorem IsHeld.canonicalName {t : TypeRef} (h : t.IsHeld) (roots : RootTypes) :
    IsHeld { t with name := roots.canonicalName t.name } := by
  refine ⟨?_, h.levels⟩
  dsimp only
  unfold RootTypes.canonicalName
  split
  · rename_i root _
    cases root <;> decide
  · exact h.name

/-- Taking in a type passes the limit exactly if it has too many list levels. -/
theorem isBeyondLimit_mentionType (t : TypeRef) (p : Progress) :
    ((Ingestion.mentionType t).run p).2.isBeyondLimit =
      (p.isBeyondLimit || decide (maxListLevels < t.wrapping.lists.length)) := by
  unfold Ingestion.mentionType
  split
  · rename_i hmany
    rw [decide_eq_true hmany, Bool.or_true]
    rfl
  · rename_i hfew
    rw [decide_eq_false hfew, Bool.or_false]
    rfl

/-- The types that can be held are those that are read from documents and can be taken in. -/
theorem isHeld_iff {t : TypeRef} :
    t.IsHeld ↔ (∃ document, Document.ReadsType document t) ∧
      ∀ p, ((Ingestion.mentionType t).run p).2.isBeyondLimit = p.isBeyondLimit := by
  simp only [isBeyondLimit_mentionType]
  constructor
  · intro h
    refine ⟨⟨t.text, Document.readsType_text h⟩, fun p => ?_⟩
    rw [decide_eq_false (Nat.not_lt.mpr h.levels), Bool.or_false]
  · rintro ⟨⟨document, hread⟩, htaken⟩
    have hfew := htaken { names := {}, subgraph := { name := "", enumValue := "", url := none } }
    exact ⟨hread.isName, Nat.not_lt.mp (of_decide_eq_false hfew)⟩

/-- Types without marks in their names have different texts. -/
theorem HasPlainName.eq_of_text {t u : TypeRef} (ht : t.HasPlainName) (hu : u.HasPlainName)
    (h : t.text = u.text) : t = u := by
  rw [← ofText_text ht, h, ofText_text hu]

end TypeRef

/-! ## What texts tell -/

namespace Supergraph

/-- A text tells a type: it is the text of this type only, the name in it is the name of the type,
and what refers to it is hidden exactly if it is marked so or the type is hidden. -/
structure TellsType (text : String) (t : TypeRef) : Prop where
  text_eq : text = t.text
  only : ∀ u : TypeRef, u.HasPlainName → u.text = text → u = t
  name : TypeRef.nameOfText text = t.name
  hidden : ∀ hidden directives, isHiddenReference hidden directives text =
    (isHidden directives || hidden.contains t.name)

/-- The texts of the types of fields and arguments. -/
def Body.typeTexts : Body → List String
  | .object _ fields | .interface _ fields =>
    fields.flatMap fun field => field.type :: field.arguments.map Input.type
  | .inputObject fields => fields.map Input.type
  | .union _ | .enum _ | .scalar => []

end Supergraph

/-- The text of a type without marks in its name tells the type. -/
theorem TypeRef.HasPlainName.tellsType {t : TypeRef} (h : t.HasPlainName) :
    Supergraph.TellsType t.text t where
  text_eq := rfl
  only _ hu heq := hu.eq_of_text h heq
  name := nameOfText_text h
  hidden hidden directives := by rw [Supergraph.isHiddenReference, nameOfText_text h]

/-- The types of the fields and arguments of a merged type. -/
def MergedType.typeRefs (t : MergedType) : List TypeRef :=
  (t.fields.flatMap fun field => field.type :: field.arguments.map MergedInput.type) ++
    t.inputFields.map MergedInput.type

theorem MergedType.mem_typeRefs {t : MergedType} {r : TypeRef} :
    r ∈ t.typeRefs ↔
      (∃ field ∈ t.fields, field.type = r ∨ ∃ a ∈ field.arguments, a.type = r) ∨
        ∃ field ∈ t.inputFields, field.type = r := by
  simp [typeRefs, @eq_comm _ r]

/-- An emitted type holds texts of the types of the merged type. -/
theorem Supergraph.exists_of_mem_typeTexts {names : GraphNames} {t : MergedType} {text : String}
    (h : text ∈ (emitType names t).body.typeTexts) : ∃ r ∈ t.typeRefs, text = r.text := by
  simp only [MergedType.mem_typeRefs]
  unfold emitType emitBody at h
  unfold MergedType.fields MergedType.inputFields
  cases hbody : t.body with
  | object interfaces fields | interface interfaces fields =>
    simp only [hbody, Body.typeTexts, List.mem_flatMap, List.mem_map, List.mem_cons] at h
    obtain ⟨_, ⟨field, hfield, rfl⟩, rfl | ⟨_, hinput, rfl⟩⟩ := h
    · exact ⟨field.type, .inl ⟨field, hfield, .inl rfl⟩, rfl⟩
    · obtain ⟨a, ha, rfl⟩ := List.mem_map.mp hinput
      exact ⟨a.type, .inl ⟨field, hfield, .inr ⟨a, List.mem_of_mem_filter ha, rfl⟩⟩, rfl⟩
  | inputObject fields =>
    simp only [hbody, Body.typeTexts, List.mem_map] at h
    obtain ⟨_, ⟨field, hfield, rfl⟩, rfl⟩ := h
    exact ⟨field.type, .inr ⟨field, List.mem_of_mem_filter hfield, rfl⟩, rfl⟩
  | union | enum | scalar =>
    rw [hbody] at h
    cases h

namespace SubgraphSet.MergesTo

variable {set : SubgraphSet} {m : MergedSchema} (h : set.MergesTo m) {t : MergedType}
  (ht : t ∈ m.types)

include h ht

/-- The types of merged fields and their arguments have names without marks. -/
theorem hasPlainName_of_mem_fields {field : MergedField} (hfield : field ∈ t.fields)
    (hdefined : field.byGraph ≠ []) :
    field.type.HasPlainName ∧ ∀ a ∈ field.arguments, a.type.HasPlainName := by
  constructor
  · have hagree := Validation.typesDisagree_eq_false h.valid ht hfield
    obtain ⟨⟨g, hg, hname⟩, hall⟩ :=
      MergedSchema.name_of_mem_fields h.hasProperNames h.merged ht hfield hdefined hagree
    exact (h.hasPlainName_of_hasField hg).1.of_name_eq (hall g hg hname)
  · intro argument hargument
    have hagree := Validation.typesDisagree_of_mem_arguments h.valid ht hfield hargument
    obtain ⟨⟨g, hg, hname, a, ha, haname⟩, hall⟩ := MergedSchema.name_of_mem_arguments
      h.hasProperNames h.merged ht hfield hdefined hargument hagree
    exact ((h.hasPlainName_of_hasField hg).2 a ha).of_name_eq (hall g hg hname a ha haname)

/-- Fields may be copies of fields of an interface. -/
theorem hasPlainName_of_mem_typeRefs {r : TypeRef} (hr : r ∈ t.typeRefs) : r.HasPlainName := by
  rcases MergedType.mem_typeRefs.mp hr with ⟨field, hfield, hr⟩ | ⟨field, hfield, rfl⟩
  · have hplain : field.type.HasPlainName ∧ ∀ a ∈ field.arguments, a.type.HasPlainName := by
      rcases eq_or_ne field.byGraph [] with hcopied | hdefined
      · have hfound := (MergedSchema.hasUniqueNames_of_ofSubgraphs h.merged).type?_eq_some ht
        have hmark := MergedSchema.isFromInterfaceObject_of_byGraph_eq_nil h.hasProperNames h.merged
          hfound hfield hcopied
        obtain ⟨-, i, hi, -, -, original, ⟨hmem, id, hid, -⟩, rfl⟩ :=
          (MergedSchema.copiesTo_of_ofSubgraphs h.merged ht).copied field hfield hmark
        obtain ⟨e, he, -⟩ := List.mem_map.mp hid
        have horiginal := h.hasPlainName_of_mem_fields hi hmem (List.ne_nil_of_mem he)
        exact horiginal
      · exact h.hasPlainName_of_mem_fields ht hfield hdefined
    rcases hr with rfl | ⟨a, ha, rfl⟩
    · exact hplain.1
    · exact hplain.2 a ha
  · have hagree := Validation.typesDisagree_of_mem_inputFields h.valid ht hfield
    obtain ⟨⟨g, hg, hname⟩, hall⟩ :=
      MergedSchema.name_of_mem_inputFields h.hasProperNames h.merged ht hfield hagree
    exact (h.hasPlainName_of_hasField hg).1.of_name_eq (hall g hg hname)

end SubgraphSet.MergesTo

namespace Supergraph

open Document in
/-- **Types survive as texts.** The types that can be held are those that are read from documents
and are within the limit; they stay so under the usual names of root types. The marks in the text of
a type are its wrappers, and its wrappers give back its wrapping. The text of a type that can be held
is read back as the type, alone and wherever no further mark comes behind it; no other such type has
it; and it tells the name of the type and whether the type is hidden. So does every text in a
composed supergraph that stands for the type of a field or argument. -/
theorem types_survive_as_texts :
    (∀ t : TypeRef, t.IsHeld ↔ (∃ document, ReadsType document t) ∧
      ∀ p, ((Ingestion.mentionType t).run p).2.isBeyondLimit = p.isBeyondLimit) ∧
    (∀ t : TypeRef, t.text.toList = List.replicate t.wrapping.lists.length '[' ++
      (t.name.toList ++ t.wrapping.wrappers.reverse.map Wrapper.mark)) ∧
    (∀ ws w, Wrapping.ofWrappers? ws = some w ↔ ws = w.wrappers) ∧
    (∀ t : TypeRef, t.IsHeld →
      (∀ roots : RootTypes, TypeRef.IsHeld { t with name := roots.canonicalName t.name }) ∧
      (∀ mayFollow, Reader.run (readType mayFollow) t.text = .ok t) ∧
      (∀ mayFollow more, Token.Breaks more.toList → EndsType (Token.scan more) →
        StateT.run (readType mayFollow) (Token.scan (t.text ++ more)) =
          .ok (t, Token.scan more)) ∧
      (∀ u : TypeRef, u.IsHeld → t.text = u.text → t = u) ∧ TellsType t.text t) ∧
    ∀ set : SubgraphSet, set.Ingested → ∀ options composed,
      (set.compose options).supergraph = some composed →
      ∀ m, MergedSchema.ofSubgraphs set = .ok m → ∀ d ∈ composed.model.types,
        ∃ t ∈ m.types, t.name = d.name ∧
          ∀ text ∈ d.body.typeTexts, ∃ r ∈ t.typeRefs, TellsType text r := by
  refine ⟨fun t => TypeRef.isHeld_iff, fun t => ?_, fun ws w => Wrapping.ofWrappers?_eq_some_iff,
    fun t ht => ⟨ht.canonicalName, read_typeText ht, fun mayFollow more hbreaks hmore =>
      run_readType_text ht hbreaks hmore mayFollow, fun u hu heq =>
        ht.hasPlainName.eq_of_text hu.hasPlainName heq, ht.hasPlainName.tellsType⟩, ?_⟩
  · rw [Wrapping.wrappers, List.reverse_reverse]
    exact t.toList_text
  · intro set hset options composed hcomposed m hm d hd
    obtain ⟨m', hmerges, rfl⟩ := hset.exists_mergesTo hcomposed
    obtain rfl := Except.ok.inj (hmerges.merged.symm.trans hm)
    obtain ⟨t, ht, rfl⟩ := List.mem_map.mp hd
    refine ⟨t, ht, rfl, fun text htext => ?_⟩
    obtain ⟨r, hr, rfl⟩ := exists_of_mem_typeTexts htext
    exact ⟨r, hr, (hmerges.hasPlainName_of_mem_typeRefs ht hr).tellsType⟩

end Supergraph

/-- A list of lists that may not be null, of users that may not be null. -/
def TypeRef.userTable : TypeRef :=
  ⟨"User", ⟨true, [false, true]⟩⟩

/-- A schema with such a list. -/
def SchemaSource.userTables : SchemaSource :=
  ⟨"type Query\x7bt:[[User!]]!\x7dtype User\x7bid:ID\x7d", "a", none⟩

theorem SchemaSource.composes_userTables :
    ((SubgraphSet.ofSources [userTables]).toOption.any fun set =>
      (MergedSchema.ofSubgraphs set).toOption.any fun m =>
        !(set.compose { runSatisfiability := false }).diagnostics.anyFatal &&
          (Supergraph.emit set m).types.any fun d => d.body.typeTexts.contains "[[User!]]!") =
      true := by decide +kernel

open Document in
/-- The text of the list is read back, in front of a default value as well, it is not that of the
list with the marks the other way round, and in the composed supergraph it tells the list. -/
theorem Supergraph.types_survive_as_texts_of_userTables :
    Reader.run (readType mayFollowType) "[[User!]]!" = .ok .userTable ∧
      StateT.run (readType mayFollowType) (Token.scan ("[[User!]]!" ++ " = 1")) =
        .ok (.userTable, Token.scan " = 1") ∧
      "[[User!]]!" ≠ TypeRef.text ⟨"User", ⟨true, [true, false]⟩⟩ ∧
      ∃ set m composed, SubgraphSet.ofSources [.userTables] = .ok set ∧ set.Ingested ∧
        MergedSchema.ofSubgraphs set = .ok m ∧
        (set.compose { runSatisfiability := false }).supergraph = some composed ∧
        ∃ t ∈ m.types, .userTable ∈ t.typeRefs ∧ TellsType "[[User!]]!" .userTable := by
  obtain ⟨-, -, -, htypes, hcomposition⟩ := types_survive_as_texts
  have hheld : TypeRef.userTable.IsHeld := ⟨by decide, by decide⟩
  have htext : TypeRef.userTable.text = "[[User!]]!" := by decide
  obtain ⟨-, hread, hbehind, honly, -⟩ := htypes .userTable hheld
  rw [htext] at hread hbehind honly
  refine ⟨hread _, hbehind _ " = 1" ⟨by decide, by decide, by decide⟩ ⟨by decide, by decide⟩,
    fun heq => absurd (honly _ ⟨by decide, by decide⟩ heq) (by decide), ?_⟩
  obtain ⟨set, hset, hmerges⟩ := exists_ok_of_any SchemaSource.composes_userTables
  obtain ⟨m, hm, hcomposes⟩ := exists_ok_of_any hmerges
  simp only [Bool.and_eq_true, Bool.not_eq_true', List.any_eq_true, List.contains_iff_mem]
    at hcomposes
  obtain ⟨hvalid, d, hd, hmem⟩ := hcomposes
  have hingested := SubgraphSet.ingested_ofSources hset
  have hcomposed := SubgraphSet.supergraph_compose hm hvalid
  obtain ⟨t, ht, -, htold⟩ := hcomposition set hingested _ _ hcomposed m hm d hd
  obtain ⟨r, hr, htells⟩ := htold _ hmem
  obtain rfl := htells.only .userTable hheld.hasPlainName htext
  exact ⟨set, m, _, hset, hingested, hm, hcomposed, t, ht, hr, htells⟩

end Federation
