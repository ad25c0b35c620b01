import Mathlib
import Federation.Proofs.Satisfiability.Reports
import Federation.Proofs.Subgraph.Plain

/-!
# What the check finds

Nothing that fails along a path of fields is missed, whatever the walks leave out on the way. Along a
path with type conditions something may be missed, but only where the path is cut off for the nodes
that were walked from instead.
-/

namespace Federation.Satisfiability

/-- The check has an error for each message of the report. -/
theorem check_ne_nil_iff {set : SubgraphSet} {merged : MergedSchema} :
    check set merged ≠ [] ↔ (Problem.of set merged).report.messages ≠ [] := by
  rw [check, Ne, List.map_eq_nil_iff]

/-- What is computed from a merged schema is true of it. -/
theorem exists_merged_of_map_eq {set : SubgraphSet} {β : Type} {f : MergedSchema → β} {b : β}
    (h : (MergedSchema.ofSubgraphs set).toOption.map f = some b) :
    ∃ merged, MergedSchema.ofSubgraphs set = .ok merged ∧ f merged = b := by
  cases hmerged : MergedSchema.ofSubgraphs set with
  | error e =>
    rw [hmerged] at h
    cases h
  | ok merged =>
    rw [hmerged] at h
    exact ⟨merged, rfl, Option.some.inj h⟩

/-- **No failing path of fields is missed.** If a path of fields from some start can be taken, step by
step and without leaving anything out, up to a field that no node resolves, the check reports an
error. And it reports errors only if some path from some start fails in this way, where a path may
have type conditions as well. -/
theorem check_misses_no_fields {set : SubgraphSet} {merged : MergedSchema}
    (h : MergedSchema.ofSubgraphs set = .ok merged) :
    (∀ labels ∈ (Problem.of set merged).labelStates, ∀ start ∈ (Problem.of set merged).starts,
      ∀ path : List ApiMove, (∀ move ∈ path, move.isField = true) →
      ((Problem.of set merged).walker labels).Fails start.typeName start.options path →
      ∃ message, Diagnostic.error .satisfiabilityError message ∈ check set merged) ∧
    (check set merged ≠ [] → ∃ labels ∈ (Problem.of set merged).labelStates,
      ∃ start ∈ (Problem.of set merged).starts, ∃ path,
        ((Problem.of set merged).walker labels).Fails start.typeName start.options path) := by
  have hreports := Problem.reports_report h
  constructor
  · intro labels hlabels start hstart path hfields hfails
    have hfailed := hreports.failed_ne_nil (Problem.walksSchema h) hlabels
      (fun _ _ hpath move hmove => hpath move (List.mem_cons_of_mem _ hmove))
      (Problem.keepsFailures_of_fields _ labels) hfields ⟨start, hstart, hfails⟩
    obtain ⟨message, hmessage⟩ :=
      List.exists_mem_of_ne_nil _ (hreports.messages_ne_nil_iff.mpr hfailed)
    exact ⟨message, List.mem_map_of_mem hmessage⟩
  · intro hne
    obtain ⟨labels, hlabels, path, start, hstart, hfails⟩ :=
      hreports.exists_unsatisfiable_of_messages (check_ne_nil_iff.mp hne)
    exact ⟨labels, hlabels, start, hstart, path, hfails⟩

/-- The users of one subgraph have a name in another, which cannot be got to. -/
def detachedUsers : SubgraphSet where
  subgraphs :=
    [.plain "a"
      [.plainObject "Query" [.plain "me" { name := "User" }],
        .plainObject "User" [.plain "id" { name := "ID" } true]],
    .plain "b"
      [.plainObject "User" [.plain "id" { name := "ID" } true, .plain "name" { name := "String" }]]]

/-- The missing name is reported. -/
theorem check_finds_detachedUsers :
    ∃ merged, MergedSchema.ofSubgraphs detachedUsers = .ok merged ∧
      ∃ message, Diagnostic.error .satisfiabilityError message ∈ check detachedUsers merged := by
  have hrun : ((MergedSchema.ofSubgraphs detachedUsers).toOption.map fun merged =>
      (Problem.of detachedUsers merged).starts.any fun start =>
        ((Problem.of detachedUsers merged).walker []).stops true start.typeName start.options
          [.field "me" "User", .field "name" "String"]) = some true := by
    cbv
  obtain ⟨merged, hmerged, hany⟩ := exists_merged_of_map_eq hrun
  obtain ⟨start, hstart, hfails⟩ := List.any_eq_true.mp hany
  exact ⟨merged, hmerged, (check_misses_no_fields hmerged).1 [] List.mem_cons_self start hstart
    _ (by decide) hfails⟩

/-- **When fewer nodes fail, too.** A path that fails from some nodes of a type fails from fewer of
them exactly if it is not cut off there by a type condition. So fewer nodes fail somewhere if more
nodes do, exactly if more nodes fail nowhere, or one of the paths on which they fail is not cut off
for fewer nodes, or fewer nodes fail on some other path. If, at all places that queries get to, fewer
nodes cut off no path on which more nodes fail, then walks in any order agree on whether there is an
error, and so does the check: there is one exactly if some path fails. -/
theorem fewer_nodes_fail_iff {set : SubgraphSet} {merged : MergedSchema}
    (h : MergedSchema.ofSubgraphs set = .ok merged) :
    (∀ labels typeName options options', options' ⊆ options →
      (∀ path, ((Problem.of set merged).walker labels).Fails typeName options path →
        (((Problem.of set merged).walker labels).Fails typeName options' path ↔
          ¬ ((Problem.of set merged).walker labels).CutOff typeName options' path)) ∧
      (((∃ path, ((Problem.of set merged).walker labels).Fails typeName options path) →
          ∃ path, ((Problem.of set merged).walker labels).Fails typeName options' path) ↔
        (∀ path, ¬ ((Problem.of set merged).walker labels).Fails typeName options path) ∨
        (∃ path, ((Problem.of set merged).walker labels).Fails typeName options path ∧
          ¬ ((Problem.of set merged).walker labels).CutOff typeName options' path) ∨
        ∃ path, ((Problem.of set merged).walker labels).Fails typeName options' path ∧
          ¬ ((Problem.of set merged).walker labels).Fails typeName options path)) ∧
    ((∀ labels ∈ (Problem.of set merged).labelStates,
        (Problem.of set merged).KeepsFailures labels fun _ => True) →
      (∀ r, (Problem.of set merged).Reports (Problem.of set merged).labelStates {} r →
        (r.messages ≠ [] ↔ check set merged ≠ [])) ∧
      (check set merged ≠ [] ↔ ∃ labels ∈ (Problem.of set merged).labelStates,
        ∃ path, (Problem.of set merged).Unsatisfiable labels path)) := by
  refine ⟨fun labels typeName options options' hsub => ⟨fun path hfails => ?_, ?_⟩,
    fun hkept => ?_⟩
  · exact hfails.iff_not_cutOff hsub
  · exact Walker.exists_fails_of_subset_iff hsub
  · have hw := Problem.walksSchema h
    have hcheck := (Problem.reports_report h).messages_ne_nil_iff_unsatisfiable hw hkept
    rw [check_ne_nil_iff]
    refine ⟨fun r hr => ?_, hcheck⟩
    rw [hr.messages_ne_nil_iff_unsatisfiable hw hkept, hcheck]

/-- Walks in any order report that the name of a user is missing. -/
theorem messages_ne_nil_of_detachedUsers :
    ∃ merged, MergedSchema.ofSubgraphs detachedUsers = .ok merged ∧
      ∀ r, (Problem.of detachedUsers merged).Reports
        (Problem.of detachedUsers merged).labelStates {} r → r.messages ≠ [] := by
  have hrun : ((MergedSchema.ofSubgraphs detachedUsers).toOption.map fun merged =>
      ((Problem.of detachedUsers merged).starts.any fun start =>
        ((Problem.of detachedUsers merged).walker []).stops true start.typeName start.options
          [.field "me" "User", .field "name" "String"],
      (Problem.of detachedUsers merged).api.types.all fun t => t.moves.all ApiMove.isField)) =
        some (true, true) := by
    cbv
  obtain ⟨merged, hmerged, hfacts⟩ := exists_merged_of_map_eq hrun
  obtain ⟨hany, hfields⟩ := Prod.mk.inj hfacts
  obtain ⟨start, hstart, hfails⟩ := List.any_eq_true.mp hany
  have hall := (fewer_nodes_fail_iff hmerged).2 fun labels _ =>
    Problem.keepsFailures_of_fields_only labels _ (by simpa using hfields)
  refine ⟨merged, hmerged, fun r hr => (hall.1 r hr).mpr (hall.2.mpr ?_)⟩
  exact ⟨[], List.mem_cons_self, _, start, hstart, hfails⟩

/-- A union has two members in one subgraph and one of them in another. Only a third subgraph
resolves a field of the other member. -/
def splitUnion : SubgraphSet where
  subgraphs :=
    [.plain "a"
      [.plainObject "Query" [.plain "both" { name := "U" } true], .plainUnion "U" ["A", "B"],
        .plainObject "A" [.plain "a" { name := "Int" } true],
        .plainObject "B" [.plain "b" { name := "Int" } true]],
    .plain "b"
      [.plainObject "Query" [.plain "both" { name := "U" } true, .plain "one" { name := "U" }],
        .plainUnion "U" ["A"], .plainObject "A" [.plain "a" { name := "Int" } true]],
    .plain "c"
      [.plainObject "B" [.plain "b" { name := "Int" } true, .plain "x" { name := "Int" }]]]

set_option maxRecDepth 4096 in
/-- With both nodes of the union a path fails, with one of the two none does. The check walks from
the one node first, leaves out the place with both, and finds nothing. In another order the walks find
the path. -/
theorem fewer_nodes_fail_less :
    ∃ merged, MergedSchema.ofSubgraphs splitUnion = .ok merged ∧
      (∃ options options', (Problem.of splitUnion merged).Reached [] ("U", options') ∧
        (Problem.of splitUnion merged).Reached [] ("U", options) ∧ options' ⊆ options ∧
        (∃ path, ((Problem.of splitUnion merged).walker []).Fails "U" options path) ∧
        ∀ path, ¬ ((Problem.of splitUnion merged).walker []).Fails "U" options' path) ∧
      check splitUnion merged = [] ∧
      ∃ r, (Problem.of splitUnion merged).Reports (Problem.of splitUnion merged).labelStates {} r ∧
        r.messages ≠ [] := by
  have hrun : ((MergedSchema.ofSubgraphs splitUnion).toOption.map fun merged =>
      ((Problem.of splitUnion merged).starts.map fun start => start.waiting.2.place,
      (Problem.of splitUnion merged).labelStates,
      ((Problem.of splitUnion merged).walker []).api.moves "Query",
      ((Problem.of splitUnion merged).walker []).advance [0, 5] (.field "both" "U"),
      ((Problem.of splitUnion merged).walker []).advance [0, 5] (.field "one" "U"),
      ((Problem.of splitUnion merged).walker []).stops true "U" [1, 6]
        [.narrow "B", .field "x" "Int"],
      ((Problem.of splitUnion merged).walker []).isQuiet [("U", [6]), ("A", [7]), ("Int", [8])],
      ((Problem.of splitUnion merged).walker []).stops true "Query" [0, 5]
        [.field "both" "U", .narrow "B", .field "x" "Int"],
      ((Problem.of splitUnion merged).walker []).isFresh [] "Query" [0, 5]
        [.field "both" "U", .narrow "B", .field "x" "Int"],
      (check splitUnion merged).isEmpty)) =
        some ([("Query", [0, 5])], [[]], [.field "both" "U", .field "one" "U"], [1, 6], [6], true,
          true, true, true, true) := by
    cbv
  obtain ⟨merged, hmerged, hfacts⟩ := exists_merged_of_map_eq hrun
  simp only [Prod.mk.injEq] at hfacts
  obtain ⟨hstarts, hlabels, hmoves, hboth, hone, hfails, hquiet, hpath, hfresh, hcheck⟩ := hfacts
  obtain ⟨start, hstart, hplace⟩ := List.mem_map.mp (hstarts ▸ List.mem_singleton_self _)
  have hquery : (Problem.of splitUnion merged).Reached [] ("Query", [0, 5]) :=
    ⟨start, hstart, by rw [hplace]⟩
  have hreachBoth : (Problem.of splitUnion merged).Reached [] ("U", [1, 6]) :=
    hquery.move (by rw [hmoves]; decide) hboth (List.cons_ne_nil _ _)
  have hreachOne : (Problem.of splitUnion merged).Reached [] ("U", [6]) :=
    hquery.move (by rw [hmoves]; decide) hone (List.cons_ne_nil _ _)
  have hnone : ∀ path, ¬ ((Problem.of splitUnion merged).walker []).Fails "U" [6] path :=
    fun path => Walker.not_fails_of_isQuiet hquiet List.mem_cons_self
  have htype : start.typeName = "Query" := (Prod.mk.inj hplace).1
  have hoptions : start.options = [0, 5] := (Prod.mk.inj hplace).2
  rw [← htype, ← hoptions] at hpath hfresh
  obtain ⟨q, hwalk, hfailed⟩ := Problem.exists_run_of_isFresh hmerged {} hstart hpath hfresh
  have hreports : (Problem.of splitUnion merged).Reports
      (Problem.of splitUnion merged).labelStates {} q.report := by
    rw [hlabels]
    exact Problem.Reports.walk hwalk (Problem.Reports.done _)
  exact ⟨merged, hmerged, ⟨[1, 6], [6], hreachOne, hreachBoth, by simp, ⟨_, hfails⟩, hnone⟩,
    List.isEmpty_iff.mp hcheck, q.report, hreports, hreports.messages_ne_nil_iff.mpr hfailed⟩

end Federation.Satisfiability
