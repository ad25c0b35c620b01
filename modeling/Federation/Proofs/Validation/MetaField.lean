import Federation.Ingestion.Usage
import Federation.Proofs.Validation.Rewriting
import Federation.QueryGraph.Keys

/-!
# The meta field in field sets

Every object knows its type, so `__typename` may be selected anywhere, also in field sets. The rules
and the uses of fields overlook it, but the query graph takes it for a field that nobody has.
-/

namespace Federation

/-! ## Selections without the meta field -/

namespace Selection

mutual

/-- A selection without `__typename`. Nothing is left of `__typename` itself. -/
def withoutTypename : Selection → List Selection
  | .field name arguments selections =>
    if name = "__typename" then [] else [.field name arguments (withoutTypenames selections)]
  | .inlineFragment condition selections => [.inlineFragment condition (withoutTypenames selections)]

/-- Selections without `__typename`, at any depth. -/
def withoutTypenames : List Selection → List Selection
  | [] => []
  | first :: others => withoutTypename first ++ withoutTypenames others

end

end Selection

open Selection

/-! ## What is wrong with selections -/

namespace Validation

theorem problemIn?_singleton (s : Subgraph) (d : TypeDef) (selection : Selection) :
    problemIn? s d [selection] = problemOf? s d selection := by
  rw [problemIn?, problemIn?]
  cases problemOf? s d selection <;> rfl

theorem problemIn?_append (s : Subgraph) (d : TypeDef) (selections selections' : List Selection) :
    problemIn? s d (selections ++ selections') =
      (problemIn? s d selections).or (problemIn? s d selections') := by
  induction selections with
  | nil => simp [problemIn?]
  | cons first others ih =>
    rw [List.cons_append, problemIn?, problemIn?, ih]
    cases problemOf? s d first <;> rfl

mutual

theorem problemIn?_withoutTypename (s : Subgraph) (d : TypeDef) (selection : Selection) :
    problemIn? s d selection.withoutTypename = problemOf? s d selection := by
  cases selection with
  | field name arguments selections =>
    by_cases hname : name = "__typename"
    · rw [withoutTypename, problemOf?, if_pos hname, if_pos hname, problemIn?]
    · rw [withoutTypename, if_neg hname, problemIn?_singleton, problemOf?, problemOf?]
      simp only [problemIn?_withoutTypenames]
  | inlineFragment condition selections =>
    rw [withoutTypename, problemIn?_singleton, problemOf?, problemOf?]
    simp only [problemIn?_withoutTypenames]

/-- The rules on field sets overlook the meta field. -/
theorem problemIn?_withoutTypenames (s : Subgraph) (d : TypeDef) (selections : List Selection) :
    problemIn? s d (withoutTypenames selections) = problemIn? s d selections := by
  cases selections with
  | nil => rfl
  | cons first others =>
    rw [withoutTypenames, problemIn?_append, problemIn?_withoutTypename,
      problemIn?_withoutTypenames, problemIn?]
    cases problemOf? s d first <;> rfl

end

mutual

theorem problemOf?_mapFieldSets (f : String → FieldSetRewriting) (s : Subgraph)
    (g : FieldSetRewriting) (d : TypeDef) (selection : Selection) :
    problemOf? (s.mapFieldSets f) (d.mapFieldSets g) selection = problemOf? s d selection := by
  cases selection with
  | field name arguments selections =>
    rw [problemOf?, problemOf?, TypeDef.field?_mapFieldSets]
    cases d.field? name with
    | none => rfl
    | some field =>
      simp only [Option.map_some, Subgraph.typeOf?_mapFieldSets]
      cases s.typeOf? field with
      | none => rfl
      | some target => simp only [Option.map_some, problemIn?_mapFieldSets]
  | inlineFragment condition selections =>
    rw [problemOf?, problemOf?, Subgraph.definition?_mapFieldSets]
    cases s.definition? condition with
    | none => rfl
    | some target => simp only [Option.map_some, problemIn?_mapFieldSets]

theorem problemIn?_mapFieldSets (f : String → FieldSetRewriting) (s : Subgraph)
    (g : FieldSetRewriting) (d : TypeDef) (selections : List Selection) :
    problemIn? (s.mapFieldSets f) (d.mapFieldSets g) selections = problemIn? s d selections := by
  cases selections with
  | nil => rfl
  | cons first others =>
    rw [problemIn?, problemIn?, problemOf?_mapFieldSets, problemIn?_mapFieldSets]

end

/-- The fields that a field set selects at the top do not depend on the meta field. -/
theorem topFields_withoutTypenames {d : TypeDef} (hd : d.field? "__typename" = none)
    (selections : List Selection) :
    topFields d (withoutTypenames selections) = topFields d selections := by
  have happend : ∀ selections selections' : List Selection,
      topFields d (selections ++ selections') = topFields d selections ++ topFields d selections' :=
    fun _ _ => List.filterMap_append
  induction selections with
  | nil => rfl
  | cons first others ih =>
    rw [withoutTypenames, happend, ih, ← List.singleton_append, happend]
    congr 1
    cases first with
    | field name arguments selections =>
      by_cases hname : name = "__typename"
      · simp [withoutTypename, topFields, fieldName?, hname, hd]
      · rw [withoutTypename, if_neg hname]
        rfl
    | inlineFragment condition selections => rfl

theorem topFields_mapFieldSets (g : FieldSetRewriting) (d : TypeDef) (selections : List Selection) :
    topFields (d.mapFieldSets g) selections =
      (topFields d selections).map fun field => field.mapRequires (g (some field.name)) := by
  rw [topFields, topFields, List.map_filterMap]
  refine congrArg (List.filterMap · selections) (funext fun selection => ?_)
  cases selection.fieldName? with
  | none => rfl
  | some name => exact d.field?_mapFieldSets g name

/-! ## Access to selections -/

theorem uncoveredIn?_singleton (c : Context) (provided : AccessRequirements) (typeName : String)
    (selection : Selection) :
    uncoveredIn? c provided typeName [selection] = uncovered? c provided typeName selection := by
  rw [uncoveredIn?, uncoveredIn?]
  cases uncovered? c provided typeName selection <;> rfl

theorem uncoveredIn?_append (c : Context) (provided : AccessRequirements) (typeName : String)
    (selections selections' : List Selection) :
    uncoveredIn? c provided typeName (selections ++ selections') =
      (uncoveredIn? c provided typeName selections).or
        (uncoveredIn? c provided typeName selections') := by
  induction selections with
  | nil => simp [uncoveredIn?]
  | cons first others ih =>
    rw [List.cons_append, uncoveredIn?, uncoveredIn?, ih]
    cases uncovered? c provided typeName first <;> rfl

mutual

theorem uncoveredIn?_withoutTypename (c : Context) (provided : AccessRequirements)
    (typeName : String) (selection : Selection) :
    uncoveredIn? c provided typeName selection.withoutTypename =
      uncovered? c provided typeName selection := by
  cases selection with
  | field name arguments selections =>
    by_cases hname : name = "__typename"
    · rw [withoutTypename, uncovered?, if_pos hname, if_pos hname, uncoveredIn?]
    · rw [withoutTypename, if_neg hname, uncoveredIn?_singleton, uncovered?, uncovered?]
      simp only [uncoveredIn?_withoutTypenames]
  | inlineFragment condition selections =>
    rw [withoutTypename, uncoveredIn?_singleton, uncovered?, uncovered?]
    simp only [uncoveredIn?_withoutTypenames]

/-- The access to what a field requires does not depend on the meta field. -/
theorem uncoveredIn?_withoutTypenames (c : Context) (provided : AccessRequirements)
    (typeName : String) (selections : List Selection) :
    uncoveredIn? c provided typeName (withoutTypenames selections) =
      uncoveredIn? c provided typeName selections := by
  cases selections with
  | nil => rfl
  | cons first others =>
    rw [withoutTypenames, uncoveredIn?_append, uncoveredIn?_withoutTypename,
      uncoveredIn?_withoutTypenames, uncoveredIn?]
    cases uncovered? c provided typeName first <;> rfl

end

mutual

theorem uncovered?_mapFieldSets (f : SubgraphId → String → FieldSetRewriting) (c : Context)
    (provided : AccessRequirements) (typeName : String) (selection : Selection) :
    uncovered? (c.mapFieldSets f) provided typeName selection =
      uncovered? c provided typeName selection := by
  cases selection with
  | field name arguments selections =>
    rw [uncovered?, uncovered?, merged_mapFieldSets, MergedSchema.field?_mapFieldSets]
    cases c.merged.field? typeName name with
    | none => rfl
    | some field =>
      simp only [Option.map_some, requiredAccess_mapFieldSets, MergedField.type_mapFieldSets,
        uncoveredIn?_mapFieldSets]
  | inlineFragment condition selections =>
    rw [uncovered?, uncovered?, merged_mapFieldSets, MergedSchema.type?_mapFieldSets]
    simp only [Option.all_map, uncoveredIn?_mapFieldSets]
    rfl

theorem uncoveredIn?_mapFieldSets (f : SubgraphId → String → FieldSetRewriting) (c : Context)
    (provided : AccessRequirements) (typeName : String) (selections : List Selection) :
    uncoveredIn? (c.mapFieldSets f) provided typeName selections =
      uncoveredIn? c provided typeName selections := by
  cases selections with
  | nil => rfl
  | cons first others =>
    rw [uncoveredIn?, uncoveredIn?, uncovered?_mapFieldSets, uncoveredIn?_mapFieldSets]

end

end Validation

/-! ## Uses of fields -/

namespace Subgraph

/-- No type has a field of the reserved name `__typename`. -/
def HasNoMetaField (s : Subgraph) : Prop :=
  ∀ d ∈ s.definitions, d.field? "__typename" = none

theorem fieldsUsedByAll_append (s : Subgraph) (usage : FieldUsage) (d : TypeDef)
    (selections selections' : List Selection) :
    s.fieldsUsedByAll usage d (selections ++ selections') =
      s.fieldsUsedByAll usage d selections ++ s.fieldsUsedByAll usage d selections' := by
  induction selections with
  | nil => rfl
  | cons first others ih =>
    rw [List.cons_append, fieldsUsedByAll, fieldsUsedByAll, ih, List.append_assoc]

theorem fieldsUsedByAll_singleton (s : Subgraph) (usage : FieldUsage) (d : TypeDef)
    (selection : Selection) :
    s.fieldsUsedByAll usage d [selection] = s.fieldsUsedBy usage d selection := by
  rw [fieldsUsedByAll, fieldsUsedByAll, List.append_nil]

mutual

theorem fieldsUsedByAll_withoutTypename {s : Subgraph} (hs : s.HasNoMetaField) (usage : FieldUsage)
    {d : TypeDef} (hd : d.field? "__typename" = none) (selection : Selection) :
    s.fieldsUsedByAll usage d selection.withoutTypename = s.fieldsUsedBy usage d selection := by
  cases selection with
  | field name arguments selections =>
    by_cases hname : name = "__typename"
    · rw [withoutTypename, if_pos hname, fieldsUsedByAll, fieldsUsedBy, hname, hd]
    · rw [withoutTypename, if_neg hname, fieldsUsedByAll_singleton, fieldsUsedBy, fieldsUsedBy]
      cases d.field? name with
      | none => rfl
      | some field =>
        cases htarget : s.typeOf? field with
        | none => simp only [htarget]
        | some target =>
          have hmem := hs target (mem_of_definition? htarget)
          simp only [htarget, fieldsUsedByAll_withoutTypenames hs usage hmem]
  | inlineFragment condition selections =>
    rw [withoutTypename, fieldsUsedByAll_singleton, fieldsUsedBy, fieldsUsedBy]
    cases htarget : s.definition? condition with
    | none => rfl
    | some target =>
      have hmem := hs target (mem_of_definition? htarget)
      simp only [fieldsUsedByAll_withoutTypenames hs usage hmem]

/-- The uses of fields in field sets do not depend on the meta field. -/
theorem fieldsUsedByAll_withoutTypenames {s : Subgraph} (hs : s.HasNoMetaField)
    (usage : FieldUsage) {d : TypeDef} (hd : d.field? "__typename" = none)
    (selections : List Selection) :
    s.fieldsUsedByAll usage d (withoutTypenames selections) =
      s.fieldsUsedByAll usage d selections := by
  cases selections with
  | nil => rfl
  | cons first others =>
    rw [withoutTypenames, fieldsUsedByAll_append, fieldsUsedByAll_withoutTypename hs usage hd,
      fieldsUsedByAll_withoutTypenames hs usage hd, fieldsUsedByAll]

end

mutual

theorem fieldsUsedBy_mapFieldSets (f : String → FieldSetRewriting) (s : Subgraph)
    (usage : FieldUsage) (g : FieldSetRewriting) (d : TypeDef) (selection : Selection) :
    (s.mapFieldSets f).fieldsUsedBy usage (d.mapFieldSets g) selection =
      s.fieldsUsedBy usage d selection := by
  cases selection with
  | field name arguments selections =>
    rw [fieldsUsedBy, fieldsUsedBy, TypeDef.field?_mapFieldSets]
    cases d.field? name with
    | none => rfl
    | some field =>
      simp only [Option.map_some, typeOf?_mapFieldSets]
      cases s.typeOf? field with
      | none => rfl
      | some target => simp only [Option.map_some, fieldsUsedByAll_mapFieldSets,
          TypeDef.name_mapFieldSets]
  | inlineFragment condition selections =>
    rw [fieldsUsedBy, fieldsUsedBy, definition?_mapFieldSets]
    cases s.definition? condition with
    | none => rfl
    | some target => simp only [Option.map_some, fieldsUsedByAll_mapFieldSets]

theorem fieldsUsedByAll_mapFieldSets (f : String → FieldSetRewriting) (s : Subgraph)
    (usage : FieldUsage) (g : FieldSetRewriting) (d : TypeDef) (selections : List Selection) :
    (s.mapFieldSets f).fieldsUsedByAll usage (d.mapFieldSets g) selections =
      s.fieldsUsedByAll usage d selections := by
  cases selections with
  | nil => rfl
  | cons first others =>
    rw [fieldsUsedByAll, fieldsUsedByAll, fieldsUsedBy_mapFieldSets, fieldsUsedByAll_mapFieldSets]

end

/-! ## Keys that can be filled in -/

mutual

theorem withoutTypename_of_canProvideOne {s : Subgraph} (hs : s.HasNoMetaField) {d : TypeDef}
    (hd : d.field? "__typename" = none) {selection : Selection}
    (h : s.canProvideOne d selection = true) : selection.withoutTypename = [selection] := by
  cases selection with
  | field name arguments selections =>
    rw [canProvideOne, Option.any_eq_true] at h
    obtain ⟨field, hfield, h⟩ := h
    have hname : name ≠ "__typename" := by
      rintro rfl
      rw [hd] at hfield
      cases hfield
    rw [withoutTypename, if_neg hname]
    rw [Bool.and_eq_true, Bool.or_eq_true, List.isEmpty_iff, Option.any_eq_true] at h
    rcases h.2 with rfl | ⟨target, htarget, h⟩
    · rfl
    · have hmem := hs target (mem_of_definition? htarget)
      rw [withoutTypenames_of_canProvide hs hmem h]
  | inlineFragment condition selections =>
    rw [withoutTypename]
    rw [canProvideOne] at h
    split at h
    · rw [withoutTypenames_of_canProvide hs hd h]
    · obtain ⟨target, htarget, h⟩ := Option.any_eq_true _ _ |>.mp h
      have hmem := hs target (mem_of_definition? htarget)
      rw [withoutTypenames_of_canProvide hs hmem h]

/-- What can be fetched without leaving a subgraph does not contain the meta field, at any depth. -/
theorem withoutTypenames_of_canProvide {s : Subgraph} (hs : s.HasNoMetaField) {d : TypeDef}
    (hd : d.field? "__typename" = none) {selections : List Selection}
    (h : s.canProvide d selections = true) : withoutTypenames selections = selections := by
  cases selections with
  | nil => rfl
  | cons first others =>
    rw [canProvide, Bool.and_eq_true] at h
    rw [withoutTypenames, withoutTypename_of_canProvideOne hs hd h.1,
      withoutTypenames_of_canProvide hs hd h.2, List.singleton_append]

end

end Subgraph

/-! ## Rewritings that leave all but the meta field alone -/

/-- Field sets are rewritten, but only by adding or dropping `__typename`. -/
def FieldSetRewriting.TouchesOnlyMetaField (f : SubgraphId → String → FieldSetRewriting) : Prop :=
  ∀ id typeName field selections,
    withoutTypenames (f id typeName field selections) = withoutTypenames selections

namespace Validation

/-- What rules need of a rewriting to find the same: it touches the meta field only, which no type
declares, and a key of an implementation has the text of a key of its interface exactly if it had
before. -/
structure Context.Admits (c : Context) (f : SubgraphId → String → FieldSetRewriting) : Prop where
  touches : FieldSetRewriting.TouchesOnlyMetaField f
  named : ∀ t ∈ c.merged.types, ∀ e ∈ t.byGraph, e.2.name = t.name
  reserved : ∀ t ∈ c.merged.types, ∀ e ∈ t.byGraph, e.2.field? "__typename" = none
  matchesKeys : ∀ t ∈ c.merged.types, ∀ e ∈ t.byGraph, ∀ key ∈ e.2.keys,
    ∀ implementer ∈ (c.subgraph e.1).implementers e.2.name, ∀ other ∈ implementer.keys,
      (f e.1 implementer.name none other.selections).text =
          (f e.1 e.2.name none key.selections).text ↔
        other.text = key.text

variable {f : SubgraphId → String → FieldSetRewriting} {c : Context}

theorem problemIn?_rewritten (hf : FieldSetRewriting.TouchesOnlyMetaField f) (s : Subgraph)
    (d : TypeDef) (g : String → FieldSetRewriting) (h : FieldSetRewriting) (id : SubgraphId)
    (typeName : String) (field : Option String) (selections : SelectionSet) :
    problemIn? (s.mapFieldSets g) (d.mapFieldSets h) (f id typeName field selections) =
      problemIn? s d selections := by
  rw [problemIn?_mapFieldSets, ← problemIn?_withoutTypenames, hf, problemIn?_withoutTypenames]

theorem topFields_rewritten (hf : FieldSetRewriting.TouchesOnlyMetaField f) {d : TypeDef}
    (hd : d.field? "__typename" = none) (h : FieldSetRewriting) (id : SubgraphId)
    (typeName : String) (field : Option String) (selections : SelectionSet) :
    topFields (d.mapFieldSets h) (f id typeName field selections) =
      (topFields d selections).map fun field => field.mapRequires (h (some field.name)) := by
  rw [topFields_mapFieldSets, ← topFields_withoutTypenames hd, hf, topFields_withoutTypenames hd]

theorem overlooks_accessOnRequires (hf : FieldSetRewriting.TouchesOnlyMetaField f) :
    accessOnRequires.Overlooks f where
  onType _ _ := rfl
  onField c t field := by
    have hstated : ∀ id g x, statedAccess (t.mapFieldSets f) id (FieldInGraph.mapFieldSets g x) =
        statedAccess t id x := fun id g x => by
      rw [statedAccess, statedAccess, MergedType.byGraph_mapFieldSets, ByGraph.get?_mapEntries,
        Option.map_map]
      rfl
    unfold accessOnRequires
    simp only [MergedType.kind_mapFieldSets, MergedField.byGraph_mapFieldSets,
      ByGraph.filterMap_mapEntries, hstated, uncoveredIn?_mapFieldSets, nameOf_mapFieldSets,
      MergedType.name_mapFieldSets, FieldInGraph.definition_mapFieldSets,
      Field.requires_mapRequires]
    refine congrArg (ite _ []) ?_
    refine congrArg (List.filterMap · field.byGraph) (funext fun e => ?_)
    cases e.2.definition.attributes.requires with
    | none => rfl
    | some selections =>
      simp only [Option.map_some, Option.bind_eq_bind, Option.bind_some]
      rw [← uncoveredIn?_withoutTypenames, hf, uncoveredIn?_withoutTypenames]
      rfl
  onInputField _ _ _ := rfl

theorem outline_missingKeys (s : Subgraph) (d : TypeDef) (g : String → FieldSetRewriting)
    (h : ∀ key ∈ d.keys, ∀ implementer ∈ s.implementers d.name, ∀ other ∈ implementer.keys,
      (g implementer.name none other.selections).text = (g d.name none key.selections).text ↔
        other.text = key.text) :
    (missingKeys (s.mapFieldSets g) (d.mapFieldSets (g d.name))).outline =
      (missingKeys s d).outline := by
  unfold missingKeys
  rw [TypeDef.resolvableKeys_mapFieldSets, List.flatMap_map]
  refine Diagnostics.outline_flatMap_congr fun key hkey => ?_
  rw [Diagnostics.outline_map_error, Diagnostics.outline_map_error, TypeDef.name_mapFieldSets,
    Subgraph.implementers_mapFieldSets, List.filter_map, List.length_map]
  refine congrArg (fun found => List.replicate (List.length found) _) ?_
  refine List.filter_congr fun implementer himplementer => ?_
  simp only [Function.comp, TypeDef.mapFieldSets, List.any_map]
  refine congrArg not ?_
  rw [Bool.eq_iff_iff, List.any_eq_true, List.any_eq_true]
  refine exists_congr fun other => and_congr_right fun hother => ?_
  rw [Function.comp, beq_iff_eq, beq_iff_eq]
  exact h key (List.mem_of_mem_filter hkey) implementer himplementer other hother

theorem keepsOutline_interfaceKeyNotOnImplementation (h : c.Admits f) :
    interfaceKeyNotOnImplementation.KeepsOutline f c where
  onType t ht := by
    unfold interfaceKeyNotOnImplementation
    simp only [MergedType.kind_mapFieldSets, MergedType.byGraph_mapFieldSets,
      ByGraph.flatMap_mapEntries, subgraph_mapFieldSets]
    split
    · rfl
    · refine Diagnostics.outline_flatMap_congr fun e he => ?_
      have hkeys := outline_missingKeys (c.subgraph e.1) e.2 (f e.1) (h.matchesKeys t ht e he)
      rw [h.named t ht e he] at hkeys
      rw [TypeDef.isInterfaceObject_mapFieldSets]
      split
      · rfl
      · exact hkeys
  onField _ _ _ _ := rfl
  onInputField _ _ _ := rfl

/-- An error that needs a key, and depends on it by its message only. -/
theorem outline_guarded {p q : Prop} [Decidable p] [Decidable q] (key? : Option Key)
    (code : ErrorCode) (message : Key → String) :
    Option.map Diagnostic.outline (do
      guard p
      let key ← key?
      guard q
      return .error code (message key)) =
      if p ∧ key?.isSome ∧ q then some (.error, code) else none := by
  cases key? with
  | none =>
    unfold guard
    by_cases hp : p <;> simp [hp]
  | some key =>
    unfold guard
    by_cases hp : p <;> by_cases hq : q <;>
      simp [hp, hq, Diagnostic.outline, Diagnostic.error]

theorem missingImplementations_mapFieldSets (f : SubgraphId → String → FieldSetRewriting)
    (c : Context) (t : MergedType) :
    (missingImplementations (c.mapFieldSets f) (t.mapFieldSets f)).outline =
      (missingImplementations c t).outline := by
  have hundefined : ∀ id, undefinedImplementations (c.mapFieldSets f) (t.mapFieldSets f)
      ((c.mapFieldSets f).subgraph id) = undefinedImplementations c t (c.subgraph id) := fun id => by
    simp only [undefinedImplementations, MergedType.implementations_mapFieldSets,
      merged_mapFieldSets, MergedSchema.object?_mapFieldSets, Option.isSome_map,
      subgraph_mapFieldSets, Subgraph.defines_mapFieldSets]
  unfold missingImplementations
  rw [MergedType.byGraph_mapFieldSets, ByGraph.filterMap_mapEntries]
  refine Diagnostics.outline_filterMap_congr fun e _ => ?_
  refine (outline_guarded _ _ _).trans (Eq.trans ?_ (outline_guarded _ _ _).symm)
  rw [hundefined, TypeDef.resolvableKeys_mapFieldSets, List.head?_map, Option.isSome_map]
  rfl

theorem keepsOutline_interfaceObjectUsage (f : SubgraphId → String → FieldSetRewriting)
    (c : Context) : interfaceObjectUsage.KeepsOutline f c where
  onType t _ := by
    have hkeyless : keylessInterfaceObjects (c.mapFieldSets f) (t.mapFieldSets f) =
        keylessInterfaceObjects c t := by
      simp only [keylessInterfaceObjects, MergedType.byGraph_mapFieldSets,
        ByGraph.filterMap_mapEntries, TypeDef.keys_mapFieldSets, List.isEmpty_map,
        nameOf_mapFieldSets]
      rfl
    have honly : onlyInterfaceObjects (c.mapFieldSets f) (t.mapFieldSets f) =
        onlyInterfaceObjects c t := by
      simp only [onlyInterfaceObjects, MergedType.interfaceObjectSubgraphs_mapFieldSets,
        MergedType.byGraph_mapFieldSets, ByGraph.all_mapEntries,
        TypeDef.isInterfaceObject_mapFieldSets, MergedType.name_mapFieldSets, phrase_mapFieldSets]
    unfold interfaceObjectUsage
    simp only [MergedType.kind_mapFieldSets]
    split
    · rfl
    · rw [hkeyless, honly, Diagnostics.outline_append, missingImplementations_mapFieldSets,
        ← Diagnostics.outline_append]
  onField _ _ _ _ := rfl
  onInputField _ _ _ := rfl

/-! ## Field sets -/

theorem outline_keyProblems (hf : FieldSetRewriting.TouchesOnlyMetaField f) (s : Subgraph)
    {d : TypeDef} (hd : d.field? "__typename" = none) (g : String → FieldSetRewriting)
    (id : SubgraphId) (key : Key) :
    (keyProblems (s.mapFieldSets g) (d.mapFieldSets (f id d.name))
      (key.mapSelections (f id d.name none))).outline = (keyProblems s d key).outline := by
  have hproblem := problemIn?_rewritten hf s d g (f id d.name) id d.name none key.selections
  have hfields := topFields_rewritten hf hd (f id d.name) id d.name none key.selections
  unfold keyProblems
  rw [Diagnostics.outline_append, Diagnostics.outline_append, Diagnostics.outline_map_error,
    Diagnostics.outline_map_error]
  simp only [Key.mapSelections, hproblem, hfields, List.filter_map, List.length_map]
  congr 1
  cases problemIn? s d key.selections <;> rfl

theorem outline_requiresProblems (hf : FieldSetRewriting.TouchesOnlyMetaField f) (s : Subgraph)
    {d : TypeDef} (hd : d.field? "__typename" = none) (g : String → FieldSetRewriting)
    (id : SubgraphId) (field : Field) (selections : SelectionSet) :
    (requiresProblems (s.mapFieldSets g) (d.mapFieldSets (f id d.name))
      (field.mapRequires (f id d.name (some field.name)))
      (f id d.name (some field.name) selections)).outline =
      (requiresProblems s d field selections).outline := by
  have hproblem := problemIn?_rewritten hf s d g (f id d.name) id d.name (some field.name) selections
  have hfields := topFields_rewritten hf hd (f id d.name) id d.name (some field.name) selections
  unfold requiresProblems
  simp only [hproblem, hfields]
  cases problemIn? s d selections with
  | some problem => rfl
  | none =>
    simp only [Diagnostics.outline_map_error, List.filter_map, List.length_map]
    rfl

theorem providesProblemsOn_mapFieldSets (g : String → FieldSetRewriting) (s : Subgraph)
    (h : FieldSetRewriting) (coordinate : String) (target : TypeDef) (selections : SelectionSet) :
    providesProblemsOn (s.mapFieldSets g) coordinate (target.mapFieldSets h) selections =
      providesProblemsOn s coordinate target selections := by
  unfold providesProblemsOn
  rw [problemIn?_mapFieldSets, topFields_mapFieldSets, List.filter_map, List.map_map]
  rfl

theorem providesProblems_mapFieldSets (g : String → FieldSetRewriting) (s : Subgraph)
    (h : FieldSetRewriting) (d : TypeDef) (k : SelectionSet → SelectionSet) (field : Field)
    (selections : SelectionSet) :
    providesProblems (s.mapFieldSets g) (d.mapFieldSets h) (field.mapRequires k) selections =
      providesProblems s d field selections := by
  unfold providesProblems
  rw [Subgraph.typeOf?_mapFieldSets, Option.filter_map]
  simp only [Function.comp_def, TypeDef.kind_mapFieldSets]
  cases (s.typeOf? field).filter fun target => target.kind.isComposite with
  | none => rfl
  | some target =>
    exact providesProblemsOn_mapFieldSets g s (g target.name) _ target selections

theorem outline_fieldSetProblems (hf : FieldSetRewriting.TouchesOnlyMetaField f) (s : Subgraph)
    {d : TypeDef} (hd : d.field? "__typename" = none) (g : String → FieldSetRewriting)
    (id : SubgraphId) (field : Field) :
    (fieldSetProblems (s.mapFieldSets g) (d.mapFieldSets (f id d.name))
      (field.mapRequires (f id d.name (some field.name)))).outline =
      (fieldSetProblems s d field).outline := by
  unfold fieldSetProblems
  simp only [Diagnostics.outline_append, Field.requires_mapRequires, Field.provides_mapRequires,
    providesProblems_mapFieldSets]
  congr 1
  cases field.attributes.requires with
  | none => rfl
  | some selections => exact outline_requiresProblems hf s hd g id field selections

theorem keepsOutline_fieldSetSelections (h : c.Admits f) :
    fieldSetSelections.KeepsOutline f c where
  onType t ht := by
    have hkeys : ∀ e ∈ t.byGraph,
        Diagnostics.outline ((e.2.mapFieldSets (f e.1 t.name)).keys.flatMap
          (keyProblems ((c.mapFieldSets f).subgraph e.1) (e.2.mapFieldSets (f e.1 t.name)))) =
        Diagnostics.outline (e.2.keys.flatMap (keyProblems (c.subgraph e.1) e.2)) := fun e he => by
      rw [← h.named t ht e he, TypeDef.keys_mapFieldSets, List.flatMap_map, subgraph_mapFieldSets]
      exact Diagnostics.outline_flatMap_congr fun key _ =>
        outline_keyProblems h.touches _ (h.reserved t ht e he) (f e.1) e.1 key
    unfold fieldSetSelections
    simp only [MergedType.kind_mapFieldSets, MergedType.byGraph_mapFieldSets,
      ByGraph.flatMap_mapEntries]
    cases t.kind with
    | object => exact Diagnostics.outline_flatMap_congr hkeys
    | interface => exact Diagnostics.outline_flatMap_congr hkeys
    | _ => rfl
  onField t ht field _ := by
    unfold fieldSetSelections
    simp only [MergedField.byGraph_mapFieldSets, ByGraph.flatMap_mapEntries,
      MergedType.byGraph_mapFieldSets, ByGraph.get?_mapEntries, subgraph_mapFieldSets,
      FieldInGraph.definition_mapFieldSets]
    refine Diagnostics.outline_flatMap_congr fun e _ => ?_
    cases hd : t.byGraph.get? e.1 with
    | none => rfl
    | some d =>
      have hmem : (e.1, d) ∈ t.byGraph := ByGraph.mem_of_get?_eq_some hd
      have hproblems := outline_fieldSetProblems h.touches (c.subgraph e.1)
        (h.reserved t ht _ hmem) (f e.1) e.1 e.2.definition
      rw [h.named t ht _ hmem] at hproblems
      exact hproblems
  onInputField _ _ _ := rfl

/-- All rules find the same in field sets that are rewritten in an admissible way. -/
theorem Context.Admits.outline_validate (h : c.Admits f) :
    (validate (c.mapFieldSets f)).outline = (validate c).outline := by
  refine outline_validate_mapFieldSets fun rule hrule => ?_
  simp only [rules, List.mem_cons, List.not_mem_nil, or_false] at hrule
  rcases hrule with rfl | rfl | rfl | rfl | rfl | rfl | rfl | rfl | rfl | rfl | rfl | rfl | rfl |
    rfl | rfl
  · exact (overlooks_externalMissingOnBase f).keepsOutline c
  · exact (overlooks_externalUnused f).keepsOutline c
  · exact (overlooks_invalidFieldSharing f).keepsOutline c
  · exact (overlooks_overrideRules f).keepsOutline c
  · exact (overlooks_accessOnRequires h.touches).keepsOutline c
  · exact (overlooks_accessOnInterface f).keepsOutline c
  · exact (overlooks_listSizeRules f).keepsOutline c
  · exact (overlooks_costOnInterfaceField f).keepsOutline c
  · exact keepsOutline_interfaceKeyNotOnImplementation h
  · exact keepsOutline_interfaceObjectUsage f c
  · exact (overlooks_fieldTypes f).keepsOutline c
  · exact (overlooks_implementedByInaccessible f).keepsOutline c
  · exact keepsOutline_fieldSetSelections h
  · exact (overlooks_enumValues f).keepsOutline c
  · exact (overlooks_requiredInputFields f).keepsOutline c

end Validation

end Federation
