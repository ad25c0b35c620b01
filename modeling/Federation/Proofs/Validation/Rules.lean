import Federation.Composition

/-!
# Compositions without fatal diagnostics

If a composition finds nothing fatal, its subgraphs were merged, and no rule has found anything fatal
in any type or field.
-/

namespace Federation

namespace Diagnostics

/-- Nothing is fatal in a part of diagnostics without anything fatal. -/
theorem anyFatal_eq_false_of_subset {part all : Diagnostics} (hsub : part ⊆ all)
    (h : all.anyFatal = false) : part.anyFatal = false :=
  List.any_eq_false.mpr fun d hd => List.any_eq_false.mp h d (hsub hd)

theorem anyFatal_promoteAll {ds : Diagnostics} (h : ds.promoteAll.anyFatal = false) :
    ds.anyFatal = false := by
  have hnil : ds = [] := by
    cases ds with
    | nil => rfl
    | cons d ds => cases h
  rw [hnil]
  rfl

end Diagnostics

namespace SubgraphSet

variable {set : SubgraphSet} {options : CompositionOptions}

/-- If nothing fatal was found in the end, nothing fatal was found before. -/
theorem anyFatal_baseDiagnostics (h : (set.compose options).diagnostics.anyFatal = false) :
    set.baseDiagnostics.1.anyFatal = false := by
  have hall : (set.allDiagnostics options).1.anyFatal = false := h
  have hjoined : (set.baseDiagnostics.1 ++ (set.baseDiagnostics.2.map
      (set.satisfiabilityDiagnostics options set.baseDiagnostics.1)).getD []).anyFatal = false := by
    unfold allDiagnostics at hall
    dsimp only at hall
    split at hall
    · exact Diagnostics.anyFatal_promoteAll hall
    · exact hall
  exact Diagnostics.anyFatal_eq_false_of_subset (List.subset_append_left _ _) hjoined

/-- What was found while a subgraph was taken in is among what was found before satisfiability. -/
theorem anyFatal_diagnostics (h : set.baseDiagnostics.1.anyFatal = false) {s : Subgraph}
    (hs : s ∈ set.subgraphs) : s.diagnostics.anyFatal = false := by
  have hset : set.diagnostics ⊆ set.baseDiagnostics.1 := by
    unfold baseDiagnostics
    split
    · exact List.subset_append_left _ _
    · exact List.subset_append_left _ _
  exact Diagnostics.anyFatal_eq_false_of_subset
    (fun d hd => hset (List.mem_flatMap.mpr ⟨s, hs, hd⟩)) h

/-- What has been merged without fatal diagnostics has passed validation. -/
theorem exists_merged_of_baseDiagnostics (h : set.baseDiagnostics.1.anyFatal = false) :
    ∃ m, MergedSchema.ofSubgraphs set = .ok m ∧
      (Validation.validate { set := set, merged := m }).anyFatal = false := by
  unfold baseDiagnostics at h
  cases hm : MergedSchema.ofSubgraphs set with
  | error e =>
    rw [hm] at h
    have herror : Diagnostic.error .typeKindMismatch e.message ∈
        set.diagnostics ++ [Diagnostic.error .typeKindMismatch e.message] :=
      List.mem_append_right _ (List.mem_singleton_self _)
    exact absurd (Diagnostic.isFatal_error _ _) (List.any_eq_false.mp h _ herror)
  | ok m =>
    rw [hm] at h
    exact ⟨m, rfl,
      Diagnostics.anyFatal_eq_false_of_subset (List.subset_append_right _ _) h⟩

/-- What a composition without fatal diagnostics has merged has passed validation. -/
theorem exists_merged_of_compose (h : (set.compose options).diagnostics.anyFatal = false) :
    ∃ m, MergedSchema.ofSubgraphs set = .ok m ∧
      (Validation.validate { set := set, merged := m }).anyFatal = false :=
  exists_merged_of_baseDiagnostics (anyFatal_baseDiagnostics h)

/-- What has been merged is kept. -/
theorem merged_baseDiagnostics {m : MergedSchema} (hm : MergedSchema.ofSubgraphs set = .ok m) :
    set.baseDiagnostics.2 = some m := by
  unfold baseDiagnostics
  rw [hm]

/-- A composition without fatal diagnostics emits what it has merged. -/
theorem supergraph_compose {m : MergedSchema} (hm : MergedSchema.ofSubgraphs set = .ok m)
    (h : (set.compose options).diagnostics.anyFatal = false) :
    (set.compose options).supergraph = some (.of (Supergraph.emit set m)) := by
  have hmerged : (set.allDiagnostics options).2 = some m := merged_baseDiagnostics hm
  show (if (set.compose options).diagnostics.anyFatal then none
    else (set.allDiagnostics options).2.map fun m => ComposedSupergraph.of (Supergraph.emit set m)) = _
  rw [h, hmerged]
  rfl

/-- If the check for satisfiability finds nothing, nothing is found that was not found before. -/
theorem diagnostics_compose {m : MergedSchema} (hm : MergedSchema.ofSubgraphs set = .ok m)
    (hcheck : Satisfiability.check set m = []) :
    (set.compose options).diagnostics =
      if options.warningsAreFatal then set.baseDiagnostics.1.promoteAll
      else set.baseDiagnostics.1 := by
  have hnone : set.satisfiabilityDiagnostics options set.baseDiagnostics.1 m = [] := by
    rw [satisfiabilityDiagnostics, hcheck, ite_self]
  show (set.allDiagnostics options).1 = _
  unfold allDiagnostics
  dsimp only
  rw [merged_baseDiagnostics hm, Option.map_some, hnone, Option.getD_some, List.append_nil]

/-- A supergraph is emitted only if nothing fatal was found. -/
theorem anyFatal_of_supergraph {composed : ComposedSupergraph}
    (h : (set.compose options).supergraph = some composed) :
    (set.compose options).diagnostics.anyFatal = false := by
  cases hfatal : (set.compose options).diagnostics.anyFatal with
  | true =>
    have hnone : (set.compose options).supergraph = none := if_pos hfatal
    rw [hnone] at h
    cases h
  | false => rfl

/-- A supergraph is emitted from what has been merged and has passed validation. -/
theorem exists_merged_of_supergraph {composed : ComposedSupergraph}
    (h : (set.compose options).supergraph = some composed) :
    ∃ m, MergedSchema.ofSubgraphs set = .ok m ∧
      (Validation.validate { set := set, merged := m }).anyFatal = false ∧
      composed = .of (Supergraph.emit set m) := by
  have hfatal := anyFatal_of_supergraph h
  obtain ⟨m, hm, hvalid⟩ := exists_merged_of_compose hfatal
  rw [supergraph_compose hm hfatal] at h
  exact ⟨m, hm, hvalid, (Option.some.inj h).symm⟩

end SubgraphSet

namespace Validation

/-- No rule has found anything fatal in a type. -/
theorem anyFatal_onType {c : Context} (h : (validate c).anyFatal = false) {rule : Rule}
    (hrule : rule ∈ rules) {t : MergedType} (ht : t ∈ c.merged.types) :
    (rule.onType c t).anyFatal = false := by
  refine Diagnostics.anyFatal_eq_false_of_subset (fun d hd => ?_) h
  refine List.mem_append_left _ (List.mem_flatMap.mpr ⟨t, ht, ?_⟩)
  refine List.mem_append_left _ (List.mem_append_left _ ?_)
  exact List.mem_flatMap.mpr ⟨rule, hrule, hd⟩

/-- No rule has found anything fatal in a field. -/
theorem anyFatal_onField {c : Context} (h : (validate c).anyFatal = false) {rule : Rule}
    (hrule : rule ∈ rules) {t : MergedType} (ht : t ∈ c.merged.types) {field : MergedField}
    (hfield : field ∈ t.fields) : (rule.onField c t field).anyFatal = false := by
  refine Diagnostics.anyFatal_eq_false_of_subset (fun d hd => ?_) h
  refine List.mem_append_left _ (List.mem_flatMap.mpr ⟨t, ht, ?_⟩)
  refine List.mem_append_left _ (List.mem_append_right _ ?_)
  exact List.mem_flatMap.mpr ⟨field, hfield, List.mem_flatMap.mpr ⟨rule, hrule, hd⟩⟩

/-- No rule has found anything fatal in an input field. -/
theorem anyFatal_onInputField {c : Context} (h : (validate c).anyFatal = false) {rule : Rule}
    (hrule : rule ∈ rules) {t : MergedType} (ht : t ∈ c.merged.types) {field : MergedInput}
    (hfield : field ∈ inputFieldsOf t) : (rule.onInputField c t field).anyFatal = false := by
  refine Diagnostics.anyFatal_eq_false_of_subset (fun d hd => ?_) h
  refine List.mem_append_left _ (List.mem_flatMap.mpr ⟨t, ht, ?_⟩)
  refine List.mem_append_right _ ?_
  exact List.mem_flatMap.mpr ⟨field, hfield, List.mem_flatMap.mpr ⟨rule, hrule, hd⟩⟩

/-- Without anything fatal there are queries. -/
theorem hasQueries_of_anyFatal {c : Context} (h : (validate c).anyFatal = false) :
    hasQueries c.merged = true := by
  have hproblems := Diagnostics.anyFatal_eq_false_of_subset (List.subset_append_right _ _) h
  unfold queryProblems at hproblems
  split at hproblems
  · assumption
  · cases hproblems

/-- Nothing is fatal in errors only if there are none. -/
theorem eq_nil_of_anyFatal_map_error {α : Type} {items : List α} {code : α → ErrorCode}
    {message : α → String}
    (h : Diagnostics.anyFatal (items.map fun a => .error (code a) (message a)) = false) :
    items = [] := by
  cases items with
  | nil => rfl
  | cons a items => cases h

/-- Subgraphs agree on the type of a field in which nothing fatal was found. -/
theorem typesDisagree_eq_false {c : Context} (h : (validate c).anyFatal = false) {t : MergedType}
    (ht : t ∈ c.merged.types) {field : MergedField} (hfield : field ∈ t.fields) :
    field.typesDisagree = false := by
  have hrule : fieldTypes ∈ rules := by simp [rules]
  have hnone := anyFatal_onField h hrule ht hfield
  cases hdisagree : field.typesDisagree with
  | false => rfl
  | true =>
    unfold fieldTypes at hnone
    dsimp only at hnone
    rw [if_pos hdisagree] at hnone
    cases hnone

/-- Subgraphs agree on the types of the arguments of a field in which nothing fatal was found. -/
theorem typesDisagree_of_mem_arguments {c : Context} (h : (validate c).anyFatal = false)
    {t : MergedType} (ht : t ∈ c.merged.types) {field : MergedField} (hfield : field ∈ t.fields)
    {a : MergedInput} (ha : a ∈ field.arguments) : a.typesDisagree = false := by
  have hrule : fieldTypes ∈ rules := by simp [rules]
  have hnone := anyFatal_onField h hrule ht hfield
  have harguments := Diagnostics.anyFatal_eq_false_of_subset (List.subset_append_right _ _) hnone
  simpa using List.filter_eq_nil_iff.mp (eq_nil_of_anyFatal_map_error harguments) a ha

/-- Subgraphs agree on the type of an input field in which nothing fatal was found. -/
theorem typesDisagree_of_mem_inputFields {c : Context} (h : (validate c).anyFatal = false)
    {t : MergedType} (ht : t ∈ c.merged.types) {field : MergedInput}
    (hfield : field ∈ inputFieldsOf t) : field.typesDisagree = false := by
  have hrule : fieldTypes ∈ rules := by simp [rules]
  have hnone := anyFatal_onInputField h hrule ht hfield
  cases hdisagree : field.typesDisagree with
  | false => rfl
  | true =>
    unfold fieldTypes at hnone
    dsimp only at hnone
    rw [if_pos hdisagree] at hnone
    cases hnone

/-- An enum type that is used both ways, or not at all, has the same values everywhere, if nothing
fatal was found in it. -/
theorem isDefinedEverywhere_of_consistency {c : Context} (h : (validate c).anyFatal = false)
    {t : MergedType} (ht : t ∈ c.merged.types) {values : List MergedEnumValue}
    (hbody : t.body = .enum values) (hstrategy : t.enumStrategy = .consistency)
    {v : MergedEnumValue} (hv : v ∈ values) : t.isDefinedEverywhere v = true := by
  have hrule : enumValues ∈ rules := by simp [rules]
  have hnone := anyFatal_onType h hrule ht
  unfold enumValues at hnone
  dsimp only at hnone
  rw [hbody] at hnone
  dsimp only at hnone
  rw [if_neg fun hne => hne hstrategy] at hnone
  have hall := List.filter_eq_nil_iff.mp (eq_nil_of_anyFatal_map_error hnone) v hv
  simpa using hall

end Validation

end Federation
