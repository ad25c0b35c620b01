import Federation.Proofs.Merge.Origins
import Federation.Proofs.Validation.Rules

/-!
# Field sets of valid compositions

If validation finds nothing fatal, the keys of objects and interfaces and the `@requires` and
`@provides` of their fields select what exists in their subgraphs.
-/

namespace Federation.Validation

/-- Nothing is wrong with selections exactly if nothing is wrong with any of them. -/
theorem problemIn?_eq_none_iff {s : Subgraph} {d : TypeDef} {selections : List Selection} :
    problemIn? s d selections = none ↔
      ∀ selection ∈ selections, problemOf? s d selection = none := by
  induction selections with
  | nil => simp [problemIn?]
  | cons first others ih =>
    rw [problemIn?, List.forall_mem_cons, ← ih]
    cases problemOf? s d first <;> simp

/-! ## Keys -/

section

variable {c : Context} (hset : c.set.HasProperNames)
  (hmerged : MergedSchema.ofSubgraphs c.set = .ok c.merged)
  (hvalid : (validate c).anyFatal = false) {id : SubgraphId} {s : Subgraph}
  (hs : c.set.subgraph? id = some s) {d : TypeDef} (hd : d ∈ s.definitions)
  (hkind : d.kind = .object ∨ d.kind = .interface) {key : Key} (hkey : key ∈ d.keys)

include hset hmerged hvalid hs hd hkind hkey

/-- All keys have been looked at. -/
theorem anyFatal_keyProblems : (keyProblems s d key).anyFatal = false := by
  have he : (⟨id, s, d⟩ : TypeEntry) ∈ c.set.typeEntries :=
    SubgraphSet.mem_typeEntries.mpr ⟨hs, hd⟩
  obtain ⟨t, ht, htkind, -⟩ := MergedSchema.exists_type?_of_mem hmerged he
  have htkind : t.kind = .object ∨ t.kind = .interface := by
    rw [htkind]
    exact hkind
  have hentry : (id, d) ∈ t.byGraph := by
    rw [MergedSchema.byGraph_of_type? hset hmerged ht]
    exact List.mem_map.mpr ⟨⟨id, s, d⟩, SubgraphSet.mem_entriesOf.mpr ⟨he, rfl⟩, rfl⟩
  have hsubgraph : c.subgraph id = s := by
    rw [Context.subgraph, hs]
    rfl
  have hnone := anyFatal_onType hvalid (show fieldSetSelections ∈ rules by simp [rules])
    (MergedSchema.mem_types_of_type?_eq_some ht).1
  refine Diagnostics.anyFatal_eq_false_of_subset (fun x hx => ?_) hnone
  have hlisted : x ∈ t.byGraph.flatMap fun e => e.2.keys.flatMap (keyProblems (c.subgraph e.1) e.2) :=
    List.mem_flatMap.mpr ⟨_, hentry, List.mem_flatMap.mpr ⟨key, hkey, hsubgraph ▸ hx⟩⟩
  unfold fieldSetSelections
  dsimp only
  rcases htkind with htkind | htkind <;> rw [htkind] <;> exact hlisted

/-- What a key selects exists. -/
theorem problemIn?_key : problemIn? s d key.selections = none := by
  have hproblems := anyFatal_keyProblems hset hmerged hvalid hs hd hkind hkey
  cases hproblem : problemIn? s d key.selections with
  | none => rfl
  | some problem =>
    unfold keyProblems at hproblems
    rw [hproblem] at hproblems
    cases hproblems

/-- What a key selects at the top takes no arguments. -/
theorem arguments_of_mem_topFields {field : Field} (hfield : field ∈ topFields d key.selections) :
    field.arguments = [] := by
  have hproblems := anyFatal_keyProblems hset hmerged hvalid hs hd hkind hkey
  by_contra hne
  have hreported : field ∈ (topFields d key.selections).filter fun field =>
      !field.arguments.isEmpty := List.mem_filter.mpr ⟨hfield, by simpa using hne⟩
  have hfatal : (keyProblems s d key).anyFatal = true :=
    List.any_eq_true.mpr ⟨_, List.mem_append_right _ (List.mem_map_of_mem hreported), rfl⟩
  rw [hproblems] at hfatal
  cases hfatal

end

/-! ## Required and provided fields -/

section

variable {c : Context} (hset : c.set.HasProperNames)
  (hmerged : MergedSchema.ofSubgraphs c.set = .ok c.merged)
  (hvalid : (validate c).anyFatal = false) {id : SubgraphId} {s : Subgraph}
  (hs : c.set.subgraph? id = some s) {d : TypeDef} (hd : d ∈ s.definitions)
  (hkind : d.kind = .object ∨ d.kind = .interface) {field : Field} (hfield : field ∈ d.fields)

include hset hmerged hvalid hs hd hkind hfield

/-- The field sets of all fields have been looked at. -/
theorem anyFatal_fieldSetProblems : (fieldSetProblems s d field).anyFatal = false := by
  have he : (⟨id, s, d⟩ : TypeEntry) ∈ c.set.typeEntries :=
    SubgraphSet.mem_typeEntries.mpr ⟨hs, hd⟩
  obtain ⟨t, merged, ht, -, hm, hentry, -⟩ :=
    MergedSchema.exists_field?_of_mem hset hmerged he hkind hfield
  have hget : t.byGraph.get? id = some d :=
    MergedSchema.get?_byGraph_of_type? hset hmerged he ht
  have hsubgraph : c.subgraph id = s := by
    rw [Context.subgraph, hs]
    rfl
  have hnone := anyFatal_onField hvalid (show fieldSetSelections ∈ rules by simp [rules])
    (MergedSchema.mem_types_of_type?_eq_some ht).1 (List.mem_of_find?_eq_some hm)
  refine Diagnostics.anyFatal_eq_false_of_subset (fun x hx => ?_) hnone
  refine List.mem_flatMap.mpr ⟨_, hentry, ?_⟩
  dsimp only
  rw [hget, hsubgraph]
  exact hx

/-- What a field requires exists. -/
theorem problemIn?_requires {selections : SelectionSet}
    (hrequires : field.attributes.requires = some selections) :
    problemIn? s d selections = none := by
  have hproblems : (requiresProblems s d field selections).anyFatal = false := by
    refine Diagnostics.anyFatal_eq_false_of_subset (fun x hx => ?_)
      (anyFatal_fieldSetProblems hset hmerged hvalid hs hd hkind hfield)
    rw [fieldSetProblems, hrequires]
    exact List.mem_append_left _ hx
  cases hproblem : problemIn? s d selections with
  | none => rfl
  | some problem =>
    unfold requiresProblems at hproblems
    dsimp only at hproblems
    rw [hproblem] at hproblems
    cases hproblems

/-- Nothing is wrong with what a field provides. -/
theorem anyFatal_providesProblems {selections : SelectionSet}
    (hprovides : field.attributes.provides = some selections) :
    (providesProblems s d field selections).anyFatal = false := by
  refine Diagnostics.anyFatal_eq_false_of_subset (fun x hx => ?_)
    (anyFatal_fieldSetProblems hset hmerged hvalid hs hd hkind hfield)
  rw [fieldSetProblems, hprovides]
  exact List.mem_append_right _ hx

/-- A field that provides something has a type with something to select from. -/
theorem exists_composite_of_provides {selections : SelectionSet}
    (hprovides : field.attributes.provides = some selections) :
    ∃ target, s.typeOf? field = some target ∧ target.kind.isComposite = true := by
  have hproblems := anyFatal_providesProblems hset hmerged hvalid hs hd hkind hfield hprovides
  cases htarget : (s.typeOf? field).filter fun target => target.kind.isComposite with
  | none =>
    unfold providesProblems at hproblems
    dsimp only at hproblems
    rw [htarget] at hproblems
    cases hproblems
  | some target => exact ⟨target, Option.filter_eq_some_iff.mp htarget⟩

/-- What a field provides exists. -/
theorem problemIn?_provides {selections : SelectionSet}
    (hprovides : field.attributes.provides = some selections) {target : TypeDef}
    (htarget : s.typeOf? field = some target) : problemIn? s target selections = none := by
  have hproblems := anyFatal_providesProblems hset hmerged hvalid hs hd hkind hfield hprovides
  unfold providesProblems at hproblems
  rw [htarget, Option.filter_some] at hproblems
  dsimp only at hproblems
  cases hcomposite : target.kind.isComposite with
  | false =>
    rw [hcomposite] at hproblems
    cases hproblems
  | true =>
    rw [hcomposite] at hproblems
    cases hproblem : problemIn? s target selections with
    | none => rfl
    | some problem =>
      change (providesProblemsOn s _ target selections).anyFatal = false at hproblems
      unfold providesProblemsOn at hproblems
      rw [hproblem] at hproblems
      cases hproblems

end

end Federation.Validation
