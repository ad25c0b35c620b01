import Federation.Proofs.Merge.FieldSets
import Federation.Proofs.Merge.Origins
import Federation.Proofs.Subgraph.KeyOrder
import Federation.Proofs.Validation.EntityInterfaces
import Federation.Proofs.Validation.FieldSets

/-!
# Validation of keys in another order

Three rules look at keys. Two of them follow what keys select, or count keys, and find the same if the
selections of keys change places. The third compares keys by their texts, in which the order shows: a
key of an interface that an implementation has in another order only is found missing.
-/

namespace Federation

namespace Validation

/-! ## Selections in another order -/

/-- Whether something is wrong with selections does not depend on their order. -/
theorem problemIn?_iff_of_permutes {a b : SelectionSet} (h : a.Permutes b) (s : Subgraph)
    (d : TypeDef) : problemIn? s d a = none ↔ problemIn? s d b = none := by
  -- the selections inside are made on another type
  induction h generalizing d with
  | top h =>
    rw [problemIn?_eq_none_iff, problemIn?_eq_none_iff]
    exact forall_congr' fun _ => by rw [h.mem_iff]
  | @field a b _ before name arguments after ih =>
    have hinside : problemOf? s d (.field name arguments a) = none ↔
        problemOf? s d (.field name arguments b) = none := by
      rw [problemOf?, problemOf?]
      split
      · rfl
      · cases d.field? name with
        | none => rfl
        | some field =>
          dsimp only
          cases s.typeOf? field with
          | none => rfl
          | some target => exact ih target
    simp only [problemIn?_eq_none_iff, List.forall_mem_append, List.forall_mem_cons, hinside]
  | @fragment a b _ before condition after ih =>
    have hinside : problemOf? s d (.inlineFragment condition a) = none ↔
        problemOf? s d (.inlineFragment condition b) = none := by
      rw [problemOf?, problemOf?]
      cases s.definition? condition with
      | none => rfl
      | some target => exact ih target
    simp only [problemIn?_eq_none_iff, List.forall_mem_append, List.forall_mem_cons, hinside]

/-- Selections in another order select the same fields at the top. -/
theorem perm_topFields_of_permutes {a b : SelectionSet} (h : a.Permutes b) (d : TypeDef) :
    (topFields d a).Perm (topFields d b) := by
  cases h with
  | top h => exact h.filterMap _
  | field _ before | fragment _ before =>
    unfold topFields
    rw [List.filterMap_append, List.filterMap_append]
    exact .refl _

theorem keyProblems_eq_nil_iff {s : Subgraph} {d : TypeDef} {key : Key} :
    keyProblems s d key = [] ↔ problemIn? s d key.selections = none ∧
      ∀ field ∈ topFields d key.selections, field.arguments = [] := by
  unfold keyProblems
  rw [List.append_eq_nil_iff, List.map_eq_nil_iff, List.filter_eq_nil_iff]
  cases problemIn? s d key.selections <;> simp

/-- Whether something is wrong with a key does not depend on the order of its selections. -/
theorem keyProblems_iff_of_reorders {key key' : Key} (h : key.Reorders key') (s : Subgraph)
    (d : TypeDef) : keyProblems s d key = [] ↔ keyProblems s d key' = [] := by
  have hproblem : (problemIn? s d key.selections = none) = (problemIn? s d key'.selections = none) :=
    h.selections.eq_of_step fun _ _ hstep => propext (problemIn?_iff_of_permutes hstep s d)
  have hfields : (topFields d key.selections).Perm (topFields d key'.selections) :=
    h.selections.perm_of_step fun _ _ hstep => perm_topFields_of_permutes hstep d
  rw [keyProblems_eq_nil_iff, keyProblems_eq_nil_iff, hproblem]
  exact and_congr_right fun _ => forall_congr' fun _ => by rw [hfields.mem_iff]

/-! ## Other keys in another order -/

section

variable {s s' : Subgraph}

mutual

/-- The problem of a selection does not depend on the order of keys. -/
theorem problemOf?_of_reordersKeys (h : s.ReordersKeys s') (hs : s.HasProperNames) {d d' : TypeDef}
    (hd : d.ReordersKeys d') (hnames : d.HasProperNames) (selection : Selection) :
    problemOf? s' d' selection = problemOf? s d selection := by
  cases selection with
  | field name arguments selections =>
    unfold problemOf?
    rw [hd.field?_eq hnames.fields, hd.name_eq]
    cases d.field? name with
    | none => rfl
    | some field =>
      dsimp only
      rcases h.typeOf?_cases field with ⟨hnone, hnone'⟩ | ⟨target, target', ht, ht', htarget⟩
      · rw [hnone, hnone']
      · rw [ht, ht']
        exact congrArg _ (problemIn?_of_reordersKeys h hs htarget
          (hs.parts target (Subgraph.mem_of_definition? ht)) selections)
  | inlineFragment condition selections =>
    unfold problemOf?
    rcases h.definition?_cases condition with ⟨hnone, hnone'⟩ | ⟨target, target', ht, ht', htarget⟩
    · rw [hnone, hnone']
    · rw [ht, ht']
      exact problemIn?_of_reordersKeys h hs htarget
        (hs.parts target (Subgraph.mem_of_definition? ht)) selections

/-- The first problem of some selections does not depend on the order of keys. -/
theorem problemIn?_of_reordersKeys (h : s.ReordersKeys s') (hs : s.HasProperNames) {d d' : TypeDef}
    (hd : d.ReordersKeys d') (hnames : d.HasProperNames) (selections : List Selection) :
    problemIn? s' d' selections = problemIn? s d selections := by
  cases selections with
  | nil => rfl
  | cons first others =>
    unfold problemIn?
    rw [problemOf?_of_reordersKeys h hs hd hnames first,
      problemIn?_of_reordersKeys h hs hd hnames others]

end

theorem topFields_of_reordersKeys {d d' : TypeDef} (hd : d.ReordersKeys d')
    (hnames : d.HasProperNames) (selections : SelectionSet) :
    topFields d' selections = topFields d selections := by
  unfold topFields
  rw [funext (hd.field?_eq hnames.fields)]

variable (h : s.ReordersKeys s') (hs : s.HasProperNames) {d d' : TypeDef} (hd : d.ReordersKeys d')
  (hnames : d.HasProperNames)

include h hs hd hnames

/-- Something is wrong with a key exactly if something is wrong with it in another order. -/
theorem keyProblems_iff_of_reordersKeys {key key' : Key} (hkey : key.Reorders key') :
    keyProblems s d key = [] ↔ keyProblems s' d' key' = [] := by
  rw [keyProblems_iff_of_reorders hkey, keyProblems_eq_nil_iff, keyProblems_eq_nil_iff,
    problemIn?_of_reordersKeys h hs hd hnames, topFields_of_reordersKeys hd hnames]

omit hs hnames in
theorem isResolvedHere_of_reordersKeys : isResolvedHere s' d' = isResolvedHere s d := by
  funext field
  rw [isResolvedHere, isResolvedHere, h.isExternal_eq hd]

theorem requiresProblems_of_reordersKeys (field : Field) (selections : SelectionSet) :
    requiresProblems s' d' field selections = requiresProblems s d field selections := by
  unfold requiresProblems TypeDef.coordinate
  rw [problemIn?_of_reordersKeys h hs hd hnames, topFields_of_reordersKeys hd hnames,
    isResolvedHere_of_reordersKeys h hd, h.name_eq, hd.name_eq]

theorem providesProblemsOn_of_reordersKeys (coordinate : String) (selections : SelectionSet) :
    providesProblemsOn s' coordinate d' selections = providesProblemsOn s coordinate d selections := by
  unfold providesProblemsOn TypeDef.coordinate
  rw [problemIn?_of_reordersKeys h hs hd hnames, topFields_of_reordersKeys hd hnames,
    isResolvedHere_of_reordersKeys h hd, h.name_eq, h.version_eq, hd.name_eq, hd.kind_eq]

omit hnames in
theorem providesProblems_of_reordersKeys (field : Field) (selections : SelectionSet) :
    providesProblems s' d' field selections = providesProblems s d field selections := by
  unfold providesProblems TypeDef.coordinate
  rw [h.name_eq, hd.name_eq]
  rcases h.typeOf?_cases field with ⟨hnone, hnone'⟩ | ⟨target, target', ht, ht', htarget⟩
  · rw [hnone, hnone']
    rfl
  · rw [ht, ht', Option.filter_some, Option.filter_some, htarget.kind_eq]
    cases target.kind.isComposite with
    | false => rfl
    | true =>
      exact providesProblemsOn_of_reordersKeys h hs htarget
        (hs.parts target (Subgraph.mem_of_definition? ht)) _ selections

/-- What is wrong with the field sets of a field does not depend on the order of keys. -/
theorem fieldSetProblems_of_reordersKeys (field : Field) :
    fieldSetProblems s' d' field = fieldSetProblems s d field := by
  unfold fieldSetProblems
  rw [funext (requiresProblems_of_reordersKeys h hs hd hnames field),
    funext (providesProblems_of_reordersKeys h hs hd field)]

end

/-! ## What rules report -/

/-- A rule finds something in the type of a name or in its fields. -/
def Rule.ReportsOn (rule : Rule) (c : Context) (name : String) : Prop :=
  ∃ t ∈ c.merged.types, t.name = name ∧ checkType [rule] c t ≠ []

theorem checkType_singleton_ne_nil_iff {rule : Rule} {c : Context} {t : MergedType} :
    checkType [rule] c t ≠ [] ↔ rule.onType c t ≠ [] ∨
      (∃ field ∈ t.fields, rule.onField c t field ≠ []) ∨
        ∃ field ∈ inputFieldsOf t, rule.onInputField c t field ≠ [] := by
  simp only [checkType, List.flatMap_cons, List.flatMap_nil, List.append_nil, ne_eq,
    List.append_eq_nil_iff, List.flatMap_eq_nil_iff, not_and_or, not_forall, exists_prop, or_assoc]

theorem keylessInterfaceObjects_ne_nil_iff {c : Context} {t : MergedType} :
    keylessInterfaceObjects c t ≠ [] ↔
      ∃ entry ∈ t.byGraph, entry.2.isInterfaceObject = true ∧ entry.2.keys = [] := by
  simp [keylessInterfaceObjects, List.filterMap_eq_nil_iff]

theorem onlyInterfaceObjects_ne_nil_iff {c : Context} {t : MergedType} :
    onlyInterfaceObjects c t ≠ [] ↔ ∃ entry ∈ t.byGraph, entry.2.isInterfaceObject = true ∧
      ∀ other ∈ t.byGraph, other.2.isInterfaceObject = true := by
  unfold onlyInterfaceObjects MergedType.interfaceObjectSubgraphs
  dsimp only
  rw [ite_ne_right_iff, Bool.and_eq_true, Bool.not_eq_true', List.isEmpty_eq_false_iff_exists_mem,
    List.all_eq_true]
  constructor
  · rintro ⟨⟨⟨_, hid⟩, hall⟩, -⟩
    obtain ⟨entry, hentry, -⟩ := List.mem_map.mp hid
    obtain ⟨hmem, hstandIn⟩ := List.mem_filter.mp hentry
    exact ⟨entry, hmem, hstandIn, hall⟩
  · rintro ⟨entry, hentry, hstandIn, hall⟩
    have hmem : entry ∈ t.byGraph.filter fun entry => entry.2.isInterfaceObject :=
      List.mem_filter.mpr ⟨hentry, hstandIn⟩
    exact ⟨⟨⟨entry.1, List.mem_map_of_mem hmem⟩, hall⟩, List.cons_ne_nil _ _⟩

end Validation

/-- In some subgraph, something is wrong with the field sets of an object or interface. -/
def SubgraphSet.HasInvalidFieldSets (set : SubgraphSet) (name : String) : Prop :=
  ∃ s ∈ set.subgraphs, ∃ d, s.definition? name = some d ∧
    (d.kind = .object ∨ d.kind = .interface) ∧
      ((∃ key ∈ d.keys, Validation.keyProblems s d key ≠ []) ∨
        ∃ field ∈ d.fields, Validation.fieldSetProblems s d field ≠ [])

/-- Objects stand in for an interface without a key, or no subgraph has the interface itself. -/
def SubgraphSet.MisusesInterfaceObjects (set : SubgraphSet) (name : String) : Prop :=
  ∃ s ∈ set.subgraphs, ∃ d, s.definition? name = some d ∧ d.isInterfaceObject = true ∧
    (d.keys = [] ∨ ∀ s' ∈ set.subgraphs, ∀ d', s'.definition? name = some d' →
      d'.isInterfaceObject = true)

namespace Validation

section

variable {set : SubgraphSet} {m : MergedSchema} (hset : set.HasProperNames)
  (h : MergedSchema.ofSubgraphs set = .ok m)

include hset h

/-- What is found in a type is found on account of its definitions, if it is found for its name. -/
theorem reportsOn_iff {rule : Rule} {P : String → Prop}
    (hdefined : ∀ name, P name → ∃ s ∈ set.subgraphs, ∃ d, s.definition? name = some d)
    (hfound : ∀ t ∈ m.types, checkType [rule] { set := set, merged := m } t ≠ [] ↔ P t.name)
    (name : String) : rule.ReportsOn { set := set, merged := m } name ↔ P name := by
  constructor
  · rintro ⟨t, ht, rfl, hreport⟩
    exact (hfound t ht).mp hreport
  · intro hname
    obtain ⟨s, hs, d, hd⟩ := hdefined name hname
    obtain ⟨t, ht, rfl, -⟩ := MergedSchema.exists_entry_of_definition? hset h hs hd
    exact ⟨t, ht, rfl, (hfound t ht).mpr hname⟩

/-- An interface is reported if an implementation lacks one of its keys. -/
theorem reportsOn_interfaceKeyNotOnImplementation_iff (name : String) :
    interfaceKeyNotOnImplementation.ReportsOn { set := set, merged := m } name ↔
      set.LacksKey name := by
  refine reportsOn_iff hset h (fun name => ?_) (fun t ht => ?_) name
  · rintro ⟨s, hs, d, hd, -⟩
    exact ⟨s, hs, d, hd.defined⟩
  · rw [checkType_singleton_ne_nil_iff, interfaceKeyNotOnImplementation_ne_nil_iff hset h ht]
    simp [interfaceKeyNotOnImplementation]

/-- Objects are found to be misused exactly where they are. -/
theorem misusesInterfaceObjects_iff {t : MergedType} (ht : t ∈ m.types) :
    keylessInterfaceObjects { set := set, merged := m } t ≠ [] ∨
        onlyInterfaceObjects { set := set, merged := m } t ≠ [] ↔
      set.MisusesInterfaceObjects t.name := by
  have hall : (∀ other ∈ t.byGraph, other.2.isInterfaceObject = true) ↔
      ∀ s ∈ set.subgraphs, ∀ d, s.definition? t.name = some d → d.isInterfaceObject = true := by
    have hsome := MergedSchema.exists_entry_iff hset h ht
      (p := fun _ d => d.isInterfaceObject ≠ true)
    rw [← not_iff_not]
    simpa only [not_forall, exists_prop] using hsome
  have hentries := MergedSchema.exists_entry_iff hset h ht (p := fun _ d =>
    d.isInterfaceObject = true ∧ (d.keys = [] ∨ ∀ s ∈ set.subgraphs, ∀ d',
      s.definition? t.name = some d' → d'.isInterfaceObject = true))
  rw [SubgraphSet.MisusesInterfaceObjects, ← hentries, keylessInterfaceObjects_ne_nil_iff,
    onlyInterfaceObjects_ne_nil_iff, hall, ← exists_or]
  simp only [← and_or_left]

/-- A type is reported if objects are misused for it, or an implementation of it is missing. -/
theorem reportsOn_interfaceObjectUsage_iff (name : String) :
    interfaceObjectUsage.ReportsOn { set := set, merged := m } name ↔
      set.MisusesInterfaceObjects name ∨ set.LacksImplementation name := by
  refine reportsOn_iff hset h (P := fun name => set.MisusesInterfaceObjects name ∨
    set.LacksImplementation name) (fun name => ?_) (fun t ht => ?_) name
  · rintro (⟨s, hs, d, hd, -⟩ | ⟨s, hs, d, hd, -⟩)
    · exact ⟨s, hs, d, hd⟩
    · exact ⟨s, hs, d, hd.defined⟩
  · have honly : checkType [interfaceObjectUsage] { set := set, merged := m } t ≠ [] ↔
        interfaceObjectUsage.onType { set := set, merged := m } t ≠ [] := by
      rw [checkType_singleton_ne_nil_iff]
      simp [interfaceObjectUsage]
    -- other types are not looked at, and nothing of the kind can be wrong with them
    have hinterface : set.MisusesInterfaceObjects t.name ∨ set.LacksImplementation t.name →
        t.kind = .interface := by
      rintro (⟨s, hs, d, hd, hstandIn, -⟩ | ⟨s, hs, d, hd, -⟩)
      · rw [← MergedSchema.kind_of_definition? hset h ht hs hd]
        exact TypeDef.kind_of_isInterfaceObject hstandIn
      · exact (MergedSchema.kind_of_definition? hset h ht hs hd.defined).symm.trans hd.kind
    rw [honly]
    unfold interfaceObjectUsage
    by_cases hkind : t.kind = .interface
    · rw [← misusesInterfaceObjects_iff hset h ht, ← missingImplementations_ne_nil_iff hset h ht hkind]
      simp only [hkind, ne_eq, not_true_eq_false, if_false, List.append_eq_nil_iff, not_and_or]
    · simpa [hkind] using fun hfound => hkind (hinterface hfound)

/-- What merged fields say about subgraphs are the fields of the definitions. -/
theorem exists_field_entry_iff {t : MergedType} (ht : t ∈ m.types)
    {p : Subgraph → TypeDef → Field → Prop} :
    (∃ field ∈ t.fields, ∃ entry ∈ field.byGraph, ∃ d, t.byGraph.get? entry.1 = some d ∧
        p ((set.subgraph? entry.1).getD default) d entry.2.definition) ↔
      ∃ s ∈ set.subgraphs, ∃ d, s.definition? t.name = some d ∧
        (d.kind = .object ∨ d.kind = .interface) ∧ ∃ field ∈ d.fields, p s d field := by
  constructor
  · rintro ⟨field, hfield, ⟨id, f⟩, hentry, d, hget, hp⟩
    obtain ⟨s, hs, d', hd', g, hg, -, rfl⟩ :=
      (MergedSchema.mem_byGraph_of_mem_fields hset h ht hfield).mp hentry
    have hdefinition := ByGraph.mem_of_get?_eq_some hget
    obtain ⟨s', hs', hd⟩ := (MergedSchema.mem_byGraph_iff hset h ht).mp hdefinition
    obtain rfl : s = s' := Option.some.inj (hs.symm.trans hs')
    obtain rfl : d' = d := Option.some.inj (hd'.symm.trans hd)
    dsimp only at hp
    rw [hs, Option.getD_some] at hp
    refine ⟨s, List.mem_of_getElem? hs, d', hd', ?_, g, hg, hp⟩
    rw [MergedSchema.kind_of_mem_byGraph hset h ht hdefinition]
    exact MergedType.kind_of_mem_fields hfield
  · rintro ⟨s, hs, d, hd, hkind, g, hg, hp⟩
    obtain ⟨id, hid⟩ := List.mem_iff_getElem?.mp hs
    have hfound : set.subgraph? id = some s := hid
    have he : (⟨id, s, d⟩ : TypeEntry) ∈ set.typeEntries :=
      SubgraphSet.mem_typeEntries.mpr ⟨hfound, Subgraph.mem_of_definition? hd⟩
    have htype : m.type? d.name = some t := by
      rw [Subgraph.name_of_definition? hd]
      exact (MergedSchema.hasUniqueNames_of_ofSubgraphs h).type?_eq_some ht
    obtain ⟨t', merged, ht', -, hmerged, hentry, -⟩ :=
      MergedSchema.exists_field?_of_mem hset h he hkind hg
    obtain rfl : t = t' := Option.some.inj (htype.symm.trans ht')
    refine ⟨merged, List.mem_of_find?_eq_some hmerged, _, hentry, d,
      MergedSchema.get?_byGraph_of_type? hset h he htype, ?_⟩
    dsimp only
    rw [hfound]
    exact hp

/-- Something is found in a type itself if something is wrong with a key of it. -/
theorem fieldSetSelections_onType_ne_nil_iff {t : MergedType} (ht : t ∈ m.types) :
    fieldSetSelections.onType { set := set, merged := m } t ≠ [] ↔
      ∃ s ∈ set.subgraphs, ∃ d, s.definition? t.name = some d ∧
        (d.kind = .object ∨ d.kind = .interface) ∧ ∃ key ∈ d.keys, keyProblems s d key ≠ [] := by
  rw [← MergedSchema.exists_entry_iff hset h ht (p := fun s d =>
    (d.kind = .object ∨ d.kind = .interface) ∧ ∃ key ∈ d.keys, keyProblems s d key ≠ [])]
  have hkinds : ∀ entry ∈ t.byGraph, entry.2.kind = t.kind := fun entry hentry =>
    MergedSchema.kind_of_mem_byGraph hset h ht hentry
  by_cases hkind : t.kind = .object ∨ t.kind = .interface
  · have hlisted : fieldSetSelections.onType { set := set, merged := m } t =
        t.byGraph.flatMap fun entry => entry.2.keys.flatMap
          (keyProblems ((set.subgraph? entry.1).getD default) entry.2) := by
      unfold fieldSetSelections
      dsimp only
      rcases hkind with hkind | hkind <;> rw [hkind] <;> rfl
    rw [hlisted]
    simp only [ne_eq, List.flatMap_eq_nil_iff, not_forall, exists_prop]
    refine exists_congr fun entry => and_congr_right fun hentry => (and_iff_right ?_).symm
    rw [hkinds entry hentry]
    exact hkind
  · have hnone : fieldSetSelections.onType { set := set, merged := m } t = [] := by
      unfold fieldSetSelections
      dsimp only
      split
      · exact absurd (.inl ‹_›) hkind
      · exact absurd (.inr ‹_›) hkind
      · rfl
    refine iff_of_false (not_not.mpr hnone) ?_
    rintro ⟨entry, hentry, hekind, -⟩
    exact hkind (hkinds entry hentry ▸ hekind)

/-- Something is found in the fields of a type if something is wrong with a field set of them. -/
theorem fieldSetSelections_onField_ne_nil_iff {t : MergedType} (ht : t ∈ m.types) :
    (∃ field ∈ t.fields, fieldSetSelections.onField { set := set, merged := m } t field ≠ []) ↔
      ∃ s ∈ set.subgraphs, ∃ d, s.definition? t.name = some d ∧
        (d.kind = .object ∨ d.kind = .interface) ∧
          ∃ field ∈ d.fields, fieldSetProblems s d field ≠ [] := by
  rw [← exists_field_entry_iff hset h ht (p := fun s d field => fieldSetProblems s d field ≠ [])]
  unfold fieldSetSelections
  simp only [ne_eq, List.flatMap_eq_nil_iff, not_forall, exists_prop, Context.subgraph]
  refine exists_congr fun field => and_congr_right fun _ => exists_congr fun entry =>
    and_congr_right fun _ => ?_
  cases t.byGraph.get? entry.1 <;> simp

/-- A type is reported if something is wrong with its field sets or those of its fields. -/
theorem reportsOn_fieldSetSelections_iff (name : String) :
    fieldSetSelections.ReportsOn { set := set, merged := m } name ↔
      set.HasInvalidFieldSets name := by
  refine reportsOn_iff hset h (fun name => ?_) (fun t ht => ?_) name
  · rintro ⟨s, hs, d, hd, -⟩
    exact ⟨s, hs, d, hd⟩
  · have hinputs : ¬ ∃ field ∈ inputFieldsOf t,
        fieldSetSelections.onInputField { set := set, merged := m } t field ≠ [] :=
      fun ⟨_, _, hfound⟩ => hfound rfl
    rw [checkType_singleton_ne_nil_iff, or_iff_left hinputs,
      fieldSetSelections_onType_ne_nil_iff hset h ht, fieldSetSelections_onField_ne_nil_iff hset h ht,
      SubgraphSet.HasInvalidFieldSets]
    simp only [and_or_left, exists_or]

end

end Validation

/-! ## Reports on keys in another order -/

/-- The keys have the same text, once both are put in some order. -/
def Key.AgreesUpToOrder (k k' : Key) : Prop :=
  ∃ a b, k.selections.Reorders a ∧ k'.selections.Reorders b ∧
    SelectionSet.text a = SelectionSet.text b

namespace Key

variable {k k' l l' : Key}

theorem agreesUpToOrder_of_text_eq (h : k.text = k'.text) : k.AgreesUpToOrder k' :=
  ⟨k.selections, k'.selections, .refl _, .refl _, h⟩

theorem AgreesUpToOrder.of_reorders (h : k.AgreesUpToOrder k') (hk : k.Reorders l)
    (hk' : k'.Reorders l') : l.AgreesUpToOrder l' := by
  obtain ⟨a, b, ha, hb, htext⟩ := h
  exact ⟨a, b, hk.selections.symm.trans ha, hk'.selections.symm.trans hb, htext⟩

end Key

namespace SubgraphSet

/-- In some subgraph, a type that implements an interface has a resolvable key of it in no order. -/
def LacksKeyInAnyOrder (set : SubgraphSet) (interface : String) : Prop :=
  ∃ s ∈ set.subgraphs, ∃ d, s.HasInterface interface d ∧ ∃ key ∈ d.resolvableKeys,
    ∃ o ∈ s.implementers interface, ∀ other ∈ o.keys, ¬ other.AgreesUpToOrder key

/-- Types that implement an interface write down its resolvable keys in the same order, if they have
them. -/
def WritesKeysAlike (set : SubgraphSet) (interface : String) : Prop :=
  ∀ s ∈ set.subgraphs, ∀ d, s.HasInterface interface d → ∀ key ∈ d.resolvableKeys,
    ∀ o ∈ s.implementers interface, (∃ other ∈ o.keys, other.AgreesUpToOrder key) →
      ∃ other ∈ o.keys, other.text = key.text

/-- A key is missing if it is there in no order, or in another order only. -/
theorem lacksKey_iff {set : SubgraphSet} {interface : String} :
    set.LacksKey interface ↔
      set.LacksKeyInAnyOrder interface ∨ ¬ set.WritesKeysAlike interface := by
  constructor
  · rintro ⟨s, hs, d, hd, key, hkey, o, ho, hlacks⟩
    by_cases hagrees : ∃ other ∈ o.keys, other.AgreesUpToOrder key
    · -- the key is there, but reads differently
      refine .inr fun halike => ?_
      obtain ⟨other, hother, htext⟩ := halike s hs d hd key hkey o ho hagrees
      exact hlacks other hother htext
    · exact .inl ⟨s, hs, d, hd, key, hkey, o, ho, fun other hother hother' =>
        hagrees ⟨other, hother, hother'⟩⟩
  · rintro (⟨s, hs, d, hd, key, hkey, o, ho, hlacks⟩ | halike)
    · exact ⟨s, hs, d, hd, key, hkey, o, ho, fun other hother htext =>
        hlacks other hother (Key.agreesUpToOrder_of_text_eq htext)⟩
    · by_contra hlacks
      refine halike fun s hs d hd key hkey o ho _ => ?_
      by_contra hmissing
      exact hlacks ⟨s, hs, d, hd, key, hkey, o, ho, fun other hother htext =>
        hmissing ⟨other, hother, htext⟩⟩

namespace ReordersKeys

variable {set set' : SubgraphSet} (h : set.ReordersKeys set') {name : String}

include h

/-- An interface of a subgraph has its keys in another order. -/
theorem exists_hasInterface {s : Subgraph} (hs : s ∈ set.subgraphs) {d : TypeDef}
    (hd : s.HasInterface name d) : ∃ s' ∈ set'.subgraphs, s.ReordersKeys s' ∧
      ∃ d', s'.HasInterface name d' ∧ d.ReordersKeys d' := by
  obtain ⟨s', hs', hreorders, d', hd', htype⟩ := h.exists_definition? hs hd.defined
  exact ⟨s', hs', hreorders, d', ⟨hd', htype.kind_eq.trans hd.kind,
    htype.isInterfaceObject_eq.trans hd.isInterfaceObject⟩, htype⟩

theorem hasImplementation {interface : String} (hname : set.HasImplementation interface name) :
    set'.HasImplementation interface name := by
  obtain ⟨s, hs, d, hd, hobject, hinterface⟩ := hname
  obtain ⟨s', hs', -, d', hd', htype⟩ := h.exists_definition? hs hd
  exact ⟨s', hs', d', hd', htype.kind_eq.trans hobject, htype.interfaces_eq ▸ hinterface⟩

theorem lacksKeyInAnyOrder (hlacks : set.LacksKeyInAnyOrder name) :
    set'.LacksKeyInAnyOrder name := by
  obtain ⟨s, hs, d, hd, key, hkey, o, ho, hother⟩ := hlacks
  obtain ⟨s', hs', hreorders, d', hd', htype⟩ := h.exists_hasInterface hs hd
  obtain ⟨key', hkey', hsame⟩ := exists_of_forall₂_left htype.resolvableKeys hkey
  obtain ⟨o', ho', himplementer⟩ := exists_of_forall₂_left (hreorders.implementers name) ho
  refine ⟨s', hs', d', hd', key', hkey', o', ho', fun other' hother' hagrees => ?_⟩
  obtain ⟨other, hmem, hsame'⟩ := exists_of_forall₂_right himplementer.keys hother'
  exact hother other hmem (hagrees.of_reorders hsame'.symm hsame.symm)

theorem lacksImplementation (hlacks : set.LacksImplementation name) :
    set'.LacksImplementation name := by
  obtain ⟨s, hs, d, hd, hkeys, implementation, himplementation, hnone⟩ := hlacks
  obtain ⟨s', hs', hreorders, d', hd', htype⟩ := h.exists_hasInterface hs hd
  refine ⟨s', hs', d', hd', fun hnil => hkeys ?_, implementation,
    h.hasImplementation himplementation, ?_⟩
  · exact List.forall₂_nil_right_iff.mp (hnil ▸ htype.resolvableKeys)
  · rcases hreorders.definition?_cases implementation with ⟨-, hnone'⟩ | ⟨o, -, ho, -⟩
    · exact hnone'
    · rw [hnone] at ho
      cases ho

theorem misusesInterfaceObjects (hmisuses : set.MisusesInterfaceObjects name) :
    set'.MisusesInterfaceObjects name := by
  obtain ⟨s, hs, d, hd, hstandIn, hwhy⟩ := hmisuses
  obtain ⟨s', hs', -, d', hd', htype⟩ := h.exists_definition? hs hd
  refine ⟨s', hs', d', hd', htype.isInterfaceObject_eq.trans hstandIn, hwhy.imp ?_ ?_⟩
  · exact fun hnil => List.forall₂_nil_left_iff.mp (hnil ▸ htype.keys)
  · intro hall t' ht' e' he'
    obtain ⟨t, ht, -, e, he, hother⟩ := h.symm.exists_definition? ht' he'
    exact hother.isInterfaceObject_eq.symm.trans (hall t ht e he)

theorem hasInvalidFieldSets (hset : set.HasProperNames) (hinvalid : set.HasInvalidFieldSets name) :
    set'.HasInvalidFieldSets name := by
  obtain ⟨s, hs, d, hd, hkind, hwhy⟩ := hinvalid
  obtain ⟨s', hs', hreorders, d', hd', htype⟩ := h.exists_definition? hs hd
  have hproper := hset s hs
  have hnames := hproper.parts d (Subgraph.mem_of_definition? hd)
  refine ⟨s', hs', d', hd', htype.kind_eq ▸ hkind, hwhy.imp ?_ ?_⟩
  · rintro ⟨key, hkey, hproblem⟩
    obtain ⟨key', hkey', hsame⟩ := exists_of_forall₂_left htype.keys hkey
    exact ⟨key', hkey', fun hnil => hproblem
      ((Validation.keyProblems_iff_of_reordersKeys hreorders hproper htype hnames hsame).mpr hnil)⟩
  · rintro ⟨field, hfield, hproblem⟩
    refine ⟨field, htype.fields.mem_iff.mp hfield, ?_⟩
    rw [Validation.fieldSetProblems_of_reordersKeys hreorders hproper htype hnames]
    exact hproblem

end ReordersKeys

end SubgraphSet

namespace Validation

variable {set set' : SubgraphSet} {m m' : MergedSchema} (h : set.ReordersKeys set')
  (hset : set.HasProperNames) (hm : MergedSchema.ofSubgraphs set = .ok m)
  (hm' : MergedSchema.ofSubgraphs set' = .ok m')

include h hset hm hm'

/-- The field sets of a type are reported or not, in whatever order its keys are. -/
theorem reportsOn_fieldSetSelections_iff_of_reordersKeys (name : String) :
    fieldSetSelections.ReportsOn { set := set, merged := m } name ↔
      fieldSetSelections.ReportsOn { set := set', merged := m' } name := by
  have hset' := h.hasProperNames hset
  rw [reportsOn_fieldSetSelections_iff hset hm, reportsOn_fieldSetSelections_iff hset' hm']
  exact ⟨h.hasInvalidFieldSets hset, h.symm.hasInvalidFieldSets hset'⟩

/-- The use of objects for an interface is reported or not, in whatever order keys are. -/
theorem reportsOn_interfaceObjectUsage_iff_of_reordersKeys (name : String) :
    interfaceObjectUsage.ReportsOn { set := set, merged := m } name ↔
      interfaceObjectUsage.ReportsOn { set := set', merged := m' } name := by
  rw [reportsOn_interfaceObjectUsage_iff hset hm,
    reportsOn_interfaceObjectUsage_iff (h.hasProperNames hset) hm']
  exact or_congr ⟨h.misusesInterfaceObjects, h.symm.misusesInterfaceObjects⟩
    ⟨h.lacksImplementation, h.symm.lacksImplementation⟩

/-- The keys of an interface are reported or not, in whatever order keys are, exactly if an
implementation lacks one of them in any order, or keys are written alike in both orders or in none. -/
theorem reportsOn_interfaceKeyNotOnImplementation_iff_iff (name : String) :
    (interfaceKeyNotOnImplementation.ReportsOn { set := set, merged := m } name ↔
        interfaceKeyNotOnImplementation.ReportsOn { set := set', merged := m' } name) ↔
      set.LacksKeyInAnyOrder name ∨ (set.WritesKeysAlike name ↔ set'.WritesKeysAlike name) := by
  have hlacks : set.LacksKeyInAnyOrder name ↔ set'.LacksKeyInAnyOrder name :=
    ⟨h.lacksKeyInAnyOrder, h.symm.lacksKeyInAnyOrder⟩
  rw [reportsOn_interfaceKeyNotOnImplementation_iff hset hm,
    reportsOn_interfaceKeyNotOnImplementation_iff (h.hasProperNames hset) hm',
    SubgraphSet.lacksKey_iff, SubgraphSet.lacksKey_iff, ← hlacks]
  by_cases hany : set.LacksKeyInAnyOrder name
  · simp [hany]
  · simp [hany, not_iff_not]

end Validation

end Federation
