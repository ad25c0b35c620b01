import Federation.Proofs.Validation.Rules

/-!
# What options change

What is found about a set of subgraphs does not depend on the options. They decide whether it is
looked for fields that cannot be resolved, and whether warnings count as errors; and so they decide
whether a supergraph is emitted, but not which.
-/

namespace Federation

/-! ## Promoted diagnostics -/

/-- What a diagnostic says, whether it is an error or a warning. -/
def Diagnostic.content (d : Diagnostic) : ErrorCode × String :=
  (d.code, d.message)

namespace Diagnostics

/-- Promoted diagnostics say the same. -/
theorem content_promoteAll (ds : Diagnostics) :
    ds.promoteAll.map Diagnostic.content = ds.map Diagnostic.content := by
  rw [promoteAll, List.map_map]
  rfl

/-- Promoted diagnostics are errors. -/
theorem severity_of_mem_promoteAll {ds : Diagnostics} {d : Diagnostic} (hd : d ∈ ds.promoteAll) :
    d.severity = .error := by
  obtain ⟨found, -, rfl⟩ := List.mem_map.mp hd
  rfl

end Diagnostics

/-! ## Phases of a composition -/

namespace SubgraphSet

variable (set : SubgraphSet) (options : CompositionOptions)

/-- What cannot be resolved, if this is to be checked. -/
def unresolved : Diagnostics :=
  (set.baseDiagnostics.2.map (set.satisfiabilityDiagnostics options set.baseDiagnostics.1)).getD []

/-- What is found is returned, and promoted at most. -/
theorem diagnostics_compose_eq : (set.compose options).diagnostics =
    if options.warningsAreFatal then
      Diagnostics.promoteAll (set.baseDiagnostics.1 ++ set.unresolved options)
    else set.baseDiagnostics.1 ++ set.unresolved options :=
  rfl

/-- The same cannot be resolved whenever this is checked. -/
theorem unresolved_eq : set.unresolved options =
    if options.runSatisfiability = true ∧ set.baseDiagnostics.1.anyFatal = false then
      set.unresolved {}
    else [] := by
  unfold unresolved
  cases set.baseDiagnostics.2 with
  | none => exact (ite_self _).symm
  | some m =>
    simp only [Option.map_some, Option.getD_some, satisfiabilityDiagnostics, Bool.and_eq_true,
      Bool.not_eq_true', true_and]
    cases set.baseDiagnostics.1.anyFatal <;> simp

variable {set options}

/-- Each field that cannot be resolved is an error. -/
theorem mem_unresolved {d : Diagnostic} (hd : d ∈ set.unresolved options) :
    d.severity = .error ∧ d.code = .satisfiabilityError := by
  unfold unresolved at hd
  cases hmerged : set.baseDiagnostics.2 with
  | none =>
    rw [hmerged] at hd
    cases hd
  | some m =>
    rw [hmerged, Option.map_some, Option.getD_some, satisfiabilityDiagnostics] at hd
    split at hd
    · obtain ⟨message, -, rfl⟩ := List.mem_map.mp hd
      exact ⟨rfl, rfl⟩
    · cases hd

/-- A supergraph is emitted exactly if nothing fatal is returned. -/
theorem isSome_supergraph_iff : (set.compose options).supergraph.isSome = true ↔
    (set.compose options).diagnostics.anyFatal = false := by
  constructor
  · intro h
    obtain ⟨composed, hcomposed⟩ := Option.isSome_iff_exists.mp h
    exact anyFatal_of_supergraph hcomposed
  · intro h
    obtain ⟨m, hm, -⟩ := exists_merged_of_compose h
    rw [supergraph_compose hm h]
    rfl

/-- Whatever the options are, the same supergraph is emitted. -/
theorem supergraph_unique {options' : CompositionOptions} {composed composed' : ComposedSupergraph}
    (h : (set.compose options).supergraph = some composed)
    (h' : (set.compose options').supergraph = some composed') : composed' = composed := by
  obtain ⟨m, hm, -, rfl⟩ := exists_merged_of_supergraph h
  obtain ⟨m', hm', -, rfl⟩ := exists_merged_of_supergraph h'
  obtain rfl := Except.ok.inj (hm.symm.trans hm')
  rfl

/-- **Options change nothing but what they say.** For every set of subgraphs there are diagnostics
and errors about unresolvable fields that are the same for all options: the diagnostics are returned,
and after them the errors if they are asked for and no diagnostic is fatal. If warnings are fatal, the
same is said and all of it is errors. A supergraph is returned exactly if nothing that is returned is
fatal, and it is the same one, with its texts, for all options. -/
theorem options_change_only_what_they_say (set : SubgraphSet) :
    ∃ base errors : Diagnostics,
      (∀ d ∈ errors, d.severity = .error ∧ d.code = .satisfiabilityError) ∧
      ∀ options : CompositionOptions,
        ((set.compose options).diagnostics.map Diagnostic.content =
          (base ++ if options.runSatisfiability = true ∧ base.anyFatal = false then errors
            else []).map Diagnostic.content) ∧
        (options.warningsAreFatal = true →
          ∀ d ∈ (set.compose options).diagnostics, d.severity = .error) ∧
        (options.warningsAreFatal = false → (set.compose options).diagnostics =
          base ++ if options.runSatisfiability = true ∧ base.anyFatal = false then errors else []) ∧
        ((set.compose options).supergraph.isSome = true ↔
          (set.compose options).diagnostics.anyFatal = false) ∧
        ∀ options' composed composed', (set.compose options).supergraph = some composed →
          (set.compose options').supergraph = some composed' → composed' = composed := by
  refine ⟨set.baseDiagnostics.1, set.unresolved {}, fun d => mem_unresolved, fun options => ?_⟩
  rw [← unresolved_eq]
  refine ⟨?_, fun hfatal d hd => ?_, fun hkept => ?_, isSome_supergraph_iff,
    fun options' composed composed' => supergraph_unique⟩
  · rw [diagnostics_compose_eq]
    split
    · exact Diagnostics.content_promoteAll _
    · rfl
  · rw [diagnostics_compose_eq, if_pos hfatal] at hd
    exact Diagnostics.severity_of_mem_promoteAll hd
  · rw [diagnostics_compose_eq, if_neg (ne_true_of_eq_false hkept)]

end SubgraphSet

end Federation
