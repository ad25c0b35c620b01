import Mathlib.Logic.Relation
import Federation.Proofs.Ingestion.Matching
import Federation.Proofs.Merge.Types
import Federation.Proofs.Shuffled
import Federation.Proofs.Subgraph.FieldSets

/-!
# Keys in another order

The selections of a key may be written in any order, at the top and inside each other. A key that is
written in another order selects as many leaf fields and uses the same fields. The subgraph it stands
in may have mentioned names in another order, and so list the fields of its types in another order.
-/

namespace Federation

/-! ## Selections in another order -/

namespace SelectionSet

/-- Selections change places, at the top or inside one of them. -/
inductive Permutes : SelectionSet → SelectionSet → Prop
  | top {a b : SelectionSet} (h : List.Perm a b) : Permutes a b
  | field {a b : SelectionSet} (h : Permutes a b) (before : SelectionSet) (name : String)
      (arguments : List (String × Value)) (after : SelectionSet) :
      Permutes (before ++ .field name arguments a :: after)
        (before ++ .field name arguments b :: after)
  | fragment {a b : SelectionSet} (h : Permutes a b) (before : SelectionSet) (condition : String)
      (after : SelectionSet) :
      Permutes (before ++ .inlineFragment condition a :: after)
        (before ++ .inlineFragment condition b :: after)

/-- Selections change places any number of times. -/
def Reorders : SelectionSet → SelectionSet → Prop :=
  Relation.ReflTransGen Permutes

theorem Permutes.symm {a b : SelectionSet} (h : a.Permutes b) : b.Permutes a := by
  induction h with
  | top h => exact .top h.symm
  | field _ before name arguments after ih => exact .field ih before name arguments after
  | fragment _ before condition after ih => exact .fragment ih before condition after

theorem Permutes.isEmpty_eq {a b : SelectionSet} (h : a.Permutes b) : a.isEmpty = b.isEmpty := by
  cases h with
  | top h => exact h.isEmpty_eq
  | field _ before | fragment _ before => cases before <;> rfl

namespace Reorders

variable {a b c : SelectionSet}

theorem refl (a : SelectionSet) : a.Reorders a :=
  Relation.ReflTransGen.refl

theorem trans (hab : a.Reorders b) (hbc : b.Reorders c) : a.Reorders c :=
  Relation.ReflTransGen.trans hab hbc

theorem symm (h : a.Reorders b) : b.Reorders a := by
  induction h with
  | refl => exact refl a
  | tail _ hstep ih => exact Relation.ReflTransGen.head hstep.symm ih

/-- What one change of places leaves as it is, all of them leave as it is. -/
theorem eq_of_step {α : Type} {f : SelectionSet → α}
    (hstep : ∀ a b : SelectionSet, a.Permutes b → f a = f b) (h : a.Reorders b) : f a = f b := by
  induction h with
  | refl => rfl
  | tail _ hlast ih => exact ih.trans (hstep _ _ hlast)

/-- What one change of places leaves as it is up to order, all of them leave as it is up to order. -/
theorem perm_of_step {α : Type} {f : SelectionSet → List α}
    (hstep : ∀ a b : SelectionSet, a.Permutes b → (f a).Perm (f b)) (h : a.Reorders b) :
    (f a).Perm (f b) := by
  induction h with
  | refl => exact .refl _
  | tail _ hlast ih => exact ih.trans (hstep _ _ hlast)

end Reorders

/-! ### Leaf fields -/

theorem leafCounts_append (a b : List Selection) :
    Selection.leafCounts (a ++ b) = Selection.leafCounts a + Selection.leafCounts b := by
  induction a with
  | nil => exact (Nat.zero_add _).symm
  | cons first others ih =>
    rw [List.cons_append, Selection.leafCounts, Selection.leafCounts, ih, Nat.add_assoc]

theorem leafCounts_eq_of_perm {a b : List Selection} (h : a.Perm b) :
    Selection.leafCounts a = Selection.leafCounts b := by
  induction h with
  | nil => rfl
  | cons first _ ih => rw [Selection.leafCounts, Selection.leafCounts, ih]
  | swap first second others =>
    simp only [Selection.leafCounts]
    omega
  | trans _ _ ih₁ ih₂ => exact ih₁.trans ih₂

theorem leafCount_field (name : String) (arguments : List (String × Value))
    (selections : SelectionSet) : (Selection.field name arguments selections).leafCount =
      if selections.isEmpty then 1 else selections.leafCount := by
  cases selections <;> rfl

/-- The number of leaf fields does not depend on the order. -/
theorem Permutes.leafCount_eq {a b : SelectionSet} (h : a.Permutes b) :
    a.leafCount = b.leafCount := by
  induction h with
  | top h => exact leafCounts_eq_of_perm h
  | field h before name arguments after ih =>
    unfold leafCount
    simp only [leafCounts_append, Selection.leafCounts, leafCount_field, h.isEmpty_eq, ih]
  | @fragment a b h before condition after ih =>
    have hinside : (Selection.inlineFragment condition a).leafCount =
        (Selection.inlineFragment condition b).leafCount := ih
    unfold leafCount
    simp only [leafCounts_append, Selection.leafCounts, hinside]

theorem Reorders.leafCount_eq {a b : SelectionSet} (h : a.Reorders b) :
    a.leafCount = b.leafCount :=
  h.eq_of_step fun _ _ hstep => hstep.leafCount_eq

/-! ### Used fields -/

/-- Selections use what each of them uses. -/
theorem fieldsUsedByAll_eq_flatMap (s : Subgraph) (usage : FieldUsage) (d : TypeDef)
    (selections : List Selection) :
    s.fieldsUsedByAll usage d selections = selections.flatMap (s.fieldsUsedBy usage d) := by
  induction selections with
  | nil => rfl
  | cons first others ih => rw [Subgraph.fieldsUsedByAll, ih, List.flatMap_cons]

/-- The fields that selections use do not depend on their order. -/
theorem Permutes.perm_fieldsUsedByAll {a b : SelectionSet} (h : a.Permutes b) (s : Subgraph)
    (usage : FieldUsage) (d : TypeDef) :
    (s.fieldsUsedByAll usage d a).Perm (s.fieldsUsedByAll usage d b) := by
  -- the selections inside are made on another type
  induction h generalizing d with
  | top h =>
    rw [fieldsUsedByAll_eq_flatMap, fieldsUsedByAll_eq_flatMap]
    exact h.flatMap_right _
  | @field a b _ before name arguments after ih =>
    have hinside : (s.fieldsUsedBy usage d (.field name arguments a)).Perm
        (s.fieldsUsedBy usage d (.field name arguments b)) := by
      rw [Subgraph.fieldsUsedBy, Subgraph.fieldsUsedBy]
      cases d.field? name with
      | none => exact .refl _
      | some field =>
        dsimp only
        cases s.typeOf? field with
        | none => exact .refl _
        | some target => exact (ih target).cons _
    rw [fieldsUsedByAll_eq_flatMap, fieldsUsedByAll_eq_flatMap]
    simp only [List.flatMap_append, List.flatMap_cons]
    exact (hinside.append_right _).append_left _
  | @fragment a b _ before condition after ih =>
    have hinside : (s.fieldsUsedBy usage d (.inlineFragment condition a)).Perm
        (s.fieldsUsedBy usage d (.inlineFragment condition b)) := by
      rw [Subgraph.fieldsUsedBy, Subgraph.fieldsUsedBy]
      cases s.definition? condition with
      | none => exact .refl _
      | some target => exact ih target
    rw [fieldsUsedByAll_eq_flatMap, fieldsUsedByAll_eq_flatMap]
    simp only [List.flatMap_append, List.flatMap_cons]
    exact (hinside.append_right _).append_left _

theorem Reorders.perm_fieldsUsedByAll {a b : SelectionSet} (h : a.Reorders b) (s : Subgraph)
    (usage : FieldUsage) (d : TypeDef) :
    (s.fieldsUsedByAll usage d a).Perm (s.fieldsUsedByAll usage d b) :=
  h.perm_of_step fun _ _ hstep => hstep.perm_fieldsUsedByAll s usage d

end SelectionSet

/-! ## Keys in another order -/

/-- The key with its selections in another order. -/
structure Key.Reorders (k k' : Key) : Prop where
  selections : k.selections.Reorders k'.selections
  isResolvable : k'.isResolvable = k.isResolvable

theorem Key.Reorders.symm {k k' : Key} (h : k.Reorders k') : k'.Reorders k :=
  ⟨h.selections.symm, h.isResolvable.symm⟩

/-- The type with its keys, and perhaps its fields, in another order. -/
structure TypeDef.ReordersKeys (d d' : TypeDef) : Prop where
  rest : d' = { d with keys := d'.keys, fields := d'.fields }
  keys : List.Forall₂ Key.Reorders d.keys d'.keys
  fields : d.fields.Perm d'.fields

/-- The subgraph with the keys of its types in another order. -/
structure Subgraph.ReordersKeys (s s' : Subgraph) : Prop where
  rest : s' = { s with definitions := s'.definitions, diagnostics := s'.diagnostics }
  definitions : List.Forall₂ TypeDef.ReordersKeys s.definitions s'.definitions

/-- The subgraphs with the keys of their types in another order. -/
def SubgraphSet.ReordersKeys (set set' : SubgraphSet) : Prop :=
  List.Forall₂ Subgraph.ReordersKeys set.subgraphs set'.subgraphs

/-! ### Types -/

namespace TypeDef.ReordersKeys

variable {d d' : TypeDef} (h : d.ReordersKeys d')

include h

theorem symm : d'.ReordersKeys d := by
  refine ⟨?_, ?_, h.fields.symm⟩
  · rw [h.rest]
  · exact h.keys.flip.imp fun _ _ hkey => hkey.symm

theorem name_eq : d'.name = d.name := by
  rw [h.rest]

theorem kind_eq : d'.kind = d.kind := by
  rw [h.rest]

theorem attributes_eq : d'.attributes = d.attributes := by
  rw [h.rest]

theorem interfaces_eq : d'.interfaces = d.interfaces := by
  rw [h.rest]

theorem isInterfaceObject_eq : d'.isInterfaceObject = d.isInterfaceObject := by
  rw [isInterfaceObject, isInterfaceObject, h.kind_eq, h.attributes_eq]

/-- The resolvable keys in another order. -/
theorem resolvableKeys : List.Forall₂ Key.Reorders d.resolvableKeys d'.resolvableKeys := by
  refine List.rel_filter (fun k k' hkey => ?_) h.keys
  show k.isResolvable = true ↔ k'.isResolvable = true
  rw [hkey.isResolvable]

/-- A field is found in both types, if the fields have different names. -/
theorem field?_eq (hd : (d.fields.map Field.name).Nodup) (name : String) :
    d'.field? name = d.field? name := by
  have hd' : (d'.fields.map Field.name).Nodup := (h.fields.map _).nodup_iff.mp hd
  cases hfound : d.field? name with
  | none =>
    refine List.find?_eq_none.mpr fun field hfield => ?_
    exact List.find?_eq_none.mp hfound field (h.fields.mem_iff.mpr hfield)
  | some field =>
    obtain rfl := TypeDef.name_of_field? hfound
    exact find?_key_eq_some hd' (h.fields.mem_iff.mp (List.mem_of_find?_eq_some hfound))

theorem hasProperNames (hd : d.HasProperNames) : d'.HasProperNames := by
  rw [h.rest]
  exact ⟨(h.fields.map _).nodup_iff.mp hd.fields, hd.enumValues, hd.members, hd.interfaces,
    fun field hfield => hd.fieldTypes field (h.fields.mem_iff.mpr hfield)⟩

end TypeDef.ReordersKeys

/-! ### Subgraphs -/

namespace Subgraph.ReordersKeys

variable {s s' : Subgraph} (h : s.ReordersKeys s')

include h

theorem symm : s'.ReordersKeys s := by
  refine ⟨?_, ?_⟩
  · rw [h.rest]
  · exact h.definitions.flip.imp fun _ _ hd => hd.symm

theorem name_eq : s'.name = s.name := by
  rw [h.rest]

theorem version_eq : s'.version = s.version := by
  rw [h.rest]

/-- The types that pass a test of what is not in another order. -/
theorem filter_definitions {p : TypeDef → Bool}
    (hp : ∀ d d' : TypeDef, d.ReordersKeys d' → p d = p d') :
    List.Forall₂ TypeDef.ReordersKeys (s.definitions.filter p) (s'.definitions.filter p) := by
  refine List.rel_filter (fun d d' hd => ?_) h.definitions
  show p d = true ↔ p d' = true
  rw [hp d d' hd]

/-- A type that is found by a name is found in another order. -/
theorem exists_definition? {name : String} {d : TypeDef} (hd : s.definition? name = some d) :
    ∃ d', s'.definition? name = some d' ∧ d.ReordersKeys d' := by
  have hnamed := h.filter_definitions (p := fun d => d.name == name) fun d d' hd => by rw [hd.name_eq]
  rw [definition?, ← List.head?_filter] at hd ⊢
  generalize s.definitions.filter _ = named at hnamed hd
  generalize s'.definitions.filter _ = named' at hnamed ⊢
  cases hnamed with
  | nil => cases hd
  | @cons first first' _ _ hfirst _ =>
    obtain rfl := Option.some.inj hd
    exact ⟨first', rfl, hfirst⟩

/-- A name is found in both subgraphs or in none. -/
theorem definition?_cases (name : String) :
    (s.definition? name = none ∧ s'.definition? name = none) ∨
      ∃ d d', s.definition? name = some d ∧ s'.definition? name = some d' ∧ d.ReordersKeys d' := by
  cases hd : s.definition? name with
  | some d =>
    obtain ⟨d', hd', hreorders⟩ := h.exists_definition? hd
    exact .inr ⟨d, d', rfl, hd', hreorders⟩
  | none =>
    cases hd' : s'.definition? name with
    | none => exact .inl ⟨rfl, rfl⟩
    | some d' =>
      obtain ⟨d, hfound, -⟩ := h.symm.exists_definition? hd'
      rw [hd] at hfound
      cases hfound

theorem typeOf?_cases (field : Field) :
    (s.typeOf? field = none ∧ s'.typeOf? field = none) ∨
      ∃ d d', s.typeOf? field = some d ∧ s'.typeOf? field = some d' ∧ d.ReordersKeys d' :=
  h.definition?_cases field.type.name

theorem hasProperNames (hs : s.HasProperNames) : s'.HasProperNames := by
  refine ⟨?_, fun d' hd' => ?_⟩
  · have hnames : s.definitions.map TypeDef.name = s'.definitions.map TypeDef.name := by
      rw [← List.forall₂_eq_eq_eq]
      exact List.rel_map (fun _ _ hd => hd.name_eq.symm) h.definitions
    rw [← hnames]
    exact hs.types
  · obtain ⟨d, hd, hreorders⟩ := exists_of_forall₂_right h.definitions hd'
    exact hreorders.hasProperNames (hs.parts d hd)

theorem implementers (name : String) :
    List.Forall₂ TypeDef.ReordersKeys (s.implementers name) (s'.implementers name) :=
  h.filter_definitions fun _ _ hd => by rw [hd.interfaces_eq]

theorem isExternal_eq {d d' : TypeDef} (hd : d.ReordersKeys d') (field : Field) :
    s'.isExternal d' field = s.isExternal d field := by
  rw [isExternal, isExternal, hd.attributes_eq, h.version_eq]

end Subgraph.ReordersKeys

/-! ### Used fields -/

namespace Subgraph

variable {s s' : Subgraph}

mutual

/-- A selection uses the same fields where keys are in another order. -/
theorem ReordersKeys.fieldsUsedBy_eq (h : s.ReordersKeys s') (hs : s.HasProperNames)
    (usage : FieldUsage) {d d' : TypeDef} (hd : d.ReordersKeys d') (hnames : d.HasProperNames)
    (selection : Selection) :
    s'.fieldsUsedBy usage d' selection = s.fieldsUsedBy usage d selection := by
  cases selection with
  | field name arguments selections =>
    unfold fieldsUsedBy
    rw [hd.field?_eq hnames.fields]
    cases d.field? name with
    | none => rfl
    | some field =>
      dsimp only
      rw [hd.name_eq]
      rcases h.typeOf?_cases field with ⟨hnone, hnone'⟩ | ⟨target, target', ht, ht', htarget⟩
      · rw [hnone, hnone']
      · rw [ht, ht']
        exact congrArg _ (h.fieldsUsedByAll_eq hs usage htarget
          (hs.parts target (mem_of_definition? ht)) selections)
  | inlineFragment condition selections =>
    unfold fieldsUsedBy
    rcases h.definition?_cases condition with ⟨hnone, hnone'⟩ | ⟨target, target', ht, ht', htarget⟩
    · rw [hnone, hnone']
    · rw [ht, ht']
      exact h.fieldsUsedByAll_eq hs usage htarget (hs.parts target (mem_of_definition? ht)) selections

/-- Selections use the same fields where keys are in another order. -/
theorem ReordersKeys.fieldsUsedByAll_eq (h : s.ReordersKeys s') (hs : s.HasProperNames)
    (usage : FieldUsage) {d d' : TypeDef} (hd : d.ReordersKeys d') (hnames : d.HasProperNames)
    (selections : List Selection) :
    s'.fieldsUsedByAll usage d' selections = s.fieldsUsedByAll usage d selections := by
  cases selections with
  | nil => rfl
  | cons first others =>
    unfold fieldsUsedByAll
    rw [h.fieldsUsedBy_eq hs usage hd hnames first, h.fieldsUsedByAll_eq hs usage hd hnames others]

end

namespace ReordersKeys

variable (h : s.ReordersKeys s') (hs : s.HasProperNames)

include h hs

/-- The directives of a field use the same fields. -/
theorem fieldsUsedByField_eq {d d' : TypeDef} (hd : d.ReordersKeys d') (hnames : d.HasProperNames)
    (field : Field) : s'.fieldsUsedByField d' field = s.fieldsUsedByField d field := by
  unfold fieldsUsedByField
  simp only [h.fieldsUsedByAll_eq hs _ hd hnames]
  refine congrArg _ ?_
  cases field.attributes.provides with
  | none => rfl
  | some selections =>
    rcases h.typeOf?_cases field with ⟨hnone, hnone'⟩ | ⟨target, target', ht, ht', htarget⟩
    · rw [hnone, hnone']
    · rw [ht, ht']
      exact h.fieldsUsedByAll_eq hs _ htarget (hs.parts target (mem_of_definition? ht)) selections

/-- A type uses the same fields, perhaps in another order. -/
theorem perm_fieldsUsedByType {d d' : TypeDef} (hd : d.ReordersKeys d') (hnames : d.HasProperNames) :
    (s.fieldsUsedByType d).Perm (s'.fieldsUsedByType d') := by
  have hkeys : (d.keys.flatMap fun key => s.fieldsUsedByAll { inKey := true } d key.selections).Perm
      (d'.keys.flatMap fun key => s'.fieldsUsedByAll { inKey := true } d' key.selections) := by
    simp only [h.fieldsUsedByAll_eq hs _ hd hnames]
    have hkeys := hd.keys
    generalize d.keys = keys at hkeys ⊢
    generalize d'.keys = keys' at hkeys ⊢
    induction hkeys with
    | nil => exact .refl _
    | cons hkey _ ih => exact (hkey.selections.perm_fieldsUsedByAll s _ d).append ih
  refine hkeys.append ?_
  rw [funext (h.fieldsUsedByField_eq hs hd hnames)]
  exact hd.fields.flatMap_right _

/-- The subgraph uses the same fields, perhaps in another order. -/
theorem perm_usedFields : s.usedFields.Perm s'.usedFields := by
  have hparts := hs.parts
  have hdefinitions := h.definitions
  unfold usedFields
  generalize s.definitions = definitions at hdefinitions hparts ⊢
  generalize s'.definitions = definitions' at hdefinitions ⊢
  induction hdefinitions with
  | nil => exact .refl _
  | cons hd _ ih =>
    rw [List.flatMap_cons, List.flatMap_cons]
    rw [List.forall_mem_cons] at hparts
    exact (h.perm_fieldsUsedByType hs hd hparts.1).append (ih hparts.2)

/-- **Every field is used alike**, in keys and otherwise. -/
theorem usageIn_usedFields_eq : usageIn s'.usedFields = usageIn s.usedFields := by
  funext typeName fieldName
  exact (usageIn_perm (h.perm_usedFields hs) typeName fieldName).symm

end ReordersKeys

end Subgraph

/-! ### Sets of subgraphs -/

namespace SubgraphSet.ReordersKeys

variable {set set' : SubgraphSet} (h : set.ReordersKeys set')

include h

theorem symm : set'.ReordersKeys set :=
  h.flip.imp fun _ _ hs => hs.symm

theorem hasProperNames (hset : set.HasProperNames) : set'.HasProperNames := by
  intro s' hs'
  obtain ⟨s, hs, hreorders⟩ := exists_of_forall₂_right h hs'
  exact hreorders.hasProperNames (hset s hs)

/-- The subgraph at a place has its keys in another order. -/
theorem exists_subgraph? {id : SubgraphId} {s : Subgraph} (hs : set.subgraph? id = some s) :
    ∃ s', set'.subgraph? id = some s' ∧ s.ReordersKeys s' := by
  obtain ⟨hlt, rfl⟩ := List.getElem?_eq_some_iff.mp hs
  have hlt' : id < set'.subgraphs.length := by
    rw [← List.Forall₂.length_eq h]
    exact hlt
  exact ⟨set'.subgraphs[id], List.getElem?_eq_getElem hlt', List.Forall₂.get h hlt hlt'⟩

/-- A type of a subgraph has its keys in another order. -/
theorem exists_definition? {s : Subgraph} (hs : s ∈ set.subgraphs) {name : String} {d : TypeDef}
    (hd : s.definition? name = some d) :
    ∃ s' ∈ set'.subgraphs, s.ReordersKeys s' ∧
      ∃ d', s'.definition? name = some d' ∧ d.ReordersKeys d' := by
  obtain ⟨s', hs', hreorders⟩ := exists_of_forall₂_left h hs
  exact ⟨s', hs', hreorders, hreorders.exists_definition? hd⟩

end SubgraphSet.ReordersKeys

/-! ### Rewritten keys -/

/-- Keys are put in another order if they are rewritten so, and nothing else is. -/
theorem SubgraphSet.reordersKeys_mapFieldSets {f : SubgraphId → String → FieldSetRewriting}
    (hkeys : ∀ id typeName selections, SelectionSet.Reorders selections
      (f id typeName none selections))
    (hfields : ∀ id typeName field selections, f id typeName (some field) selections = selections)
    (set : SubgraphSet) : set.ReordersKeys (set.mapFieldSets f) := by
  have htype : ∀ id (d : TypeDef), d.ReordersKeys (d.mapFieldSets (f id d.name)) := by
    intro id d
    have hsame : (d.fields.map fun field => field.mapRequires (f id d.name (some field.name))) =
        d.fields := by
      refine (List.map_congr_left fun field _ => ?_).trans (List.map_id d.fields)
      rw [funext (hfields id d.name field.name)]
      exact field.mapRequires_id
    refine ⟨rfl, ?_, ?_⟩
    · rw [TypeDef.keys_mapFieldSets, List.forall₂_map_right_iff]
      exact List.forall₂_same.mpr fun key _ => ⟨hkeys id d.name key.selections, rfl⟩
    · rw [TypeDef.mapFieldSets, hsame]
  refine List.forall₂_iff_get.mpr ⟨by simp [mapFieldSets], fun i hi hi' => ?_⟩
  simp only [mapFieldSets, List.get_eq_getElem, List.getElem_mapIdx]
  refine ⟨rfl, ?_⟩
  rw [Subgraph.mapFieldSets, List.forall₂_map_right_iff]
  exact List.forall₂_same.mpr fun d _ => htype i d

end Federation
