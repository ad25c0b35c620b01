import Federation.Proofs.Merge.Alone
import Federation.Proofs.QueryGraph.FieldMoves
import Federation.Proofs.Satisfiability.Reports

/-!
# Queries to one subgraph

A subgraph that is composed alone resolves every query. Its query graph has one node for each of its
types, and no field has conditions or requirements. So a planner that is at the node of a type can
resolve each field of the type, and is at the node of the field's type afterwards.
-/

namespace Federation

/-! ## Fields that stand alone -/

/-- The field is resolved by its subgraph, and in any case. -/
structure FieldInGraph.StandsAlone (f : FieldInGraph) : Prop where
  isExternal : f.isExternal = false
  override : f.override = none
  requires : f.requires = none
  provides : f.provides = none

/-- What is planned for a field that stands alone. -/
def FieldInGraph.plan (f : FieldInGraph) : FieldPlan where
  name := f.definition.name
  typeName := f.type.name
  condition := none
  isOverridden := false
  provides := []

/-- The fields of a type stand alone if the type does. -/
theorem TypeDef.IsStandalone.standsAlone {d : TypeDef} (hd : d.IsStandalone) (s : Subgraph)
    {field : Field} (hfield : field ∈ d.fields) : (FieldInGraph.of s d field).StandsAlone := by
  obtain ⟨hattributes, -⟩ := hd.fields field hfield
  constructor
  · show (field.attributes.isExternal || (d.attributes.isExternal && !s.version.isV1)) = false
    rw [hattributes.isExternal, hd.attributes.isExternal, Bool.false_and, Bool.or_false]
  · exact hattributes.override
  · show field.attributes.requires.bind _ = none
    rw [hattributes.requires, Option.bind_none]
  · show field.attributes.provides.bind _ = none
    rw [hattributes.provides, Option.bind_none]

/-- A field that stands alone is planned without conditions. -/
theorem FieldInGraph.StandsAlone.of?_alone {f : FieldInGraph} (h : f.StandsAlone)
    (nameOf : SubgraphId → String) : FieldPlan.of? nameOf 0 (.alone f) = some f.plan := by
  have hoverrider : (MergedField.alone f).overrider? (nameOf 0) = none := by
    rw [MergedField.overrider?, MergedField.byGraph_alone, List.find?_cons, h.override]
    rfl
  have hcondition : FieldPlan.conditionOf f none = none := by
    unfold FieldPlan.conditionOf
    rw [h.override]
  have hfound : (MergedField.alone f).byGraph.get? 0 = some f := rfl
  rw [FieldPlan.of?, hfound, hoverrider]
  show (if f.isExternal && !f.isUsedAsKey then none else _) = _
  rw [h.isExternal, Bool.false_and, if_neg Bool.false_ne_true, h.provides, Option.map_none,
    hcondition]
  rfl

namespace SubgraphSet.HasOnly

variable {set : SubgraphSet} {s : Subgraph} {m : MergedSchema} (h : set.HasOnly s)
  (hm : MergedSchema.ofSubgraphs set = .ok m)

include h hm

/-- The output fields of a merged type are those of its definition. -/
theorem exists_of_mem_fields {t : MergedType} (ht : t ∈ m.types) {field : MergedField}
    (hfield : field ∈ t.fields) :
    ∃ d ∈ s.definitions, t.name = d.name ∧ (d.kind = .object ∨ d.kind = .interface) ∧
      ∃ f : FieldInGraph, f.StandsAlone ∧ field = .alone f := by
  obtain ⟨d, hd, halone⟩ := h.exists_isAlone hm ht
  have hkind : d.kind = .object ∨ d.kind = .interface := by
    by_contra hneither
    rw [← halone.kind] at hneither
    rw [MergedType.fields_eq_nil hneither] at hfield
    cases hfield
  rw [halone.fields hkind] at hfield
  obtain ⟨g, hg, rfl⟩ := List.mem_map.mp hfield
  exact ⟨d, hd, halone.name, hkind, _, (h.standalone d hd).standsAlone s hg, rfl⟩

/-- Whatever is said about a field, it stands alone. -/
theorem standsAlone_of_fieldIn? {typeName field : String} {id : SubgraphId} {f : FieldInGraph}
    (hf : m.fieldIn? typeName field id = some f) : f.StandsAlone := by
  obtain ⟨merged, hmerged, hentry⟩ := Option.bind_eq_some_iff.mp hf
  obtain ⟨t, ht, hfield⟩ := Option.bind_eq_some_iff.mp hmerged
  obtain ⟨-, -, -, -, g, hg, rfl⟩ := h.exists_of_mem_fields hm
    (MergedSchema.mem_types_of_type?_eq_some ht).1 (List.mem_of_find?_eq_some hfield)
  rw [MergedField.byGraph_alone, ByGraph.get?, List.lookup_cons] at hentry
  split at hentry
  · exact Option.some.inj hentry ▸ hg
  · cases hentry

/-! ## The query graph -/

/-- Nothing is provided. -/
theorem provisions_eq_nil : (QueryGraph.draft set m).provisions = [] := by
  refine List.eq_nil_iff_forall_not_mem.mpr fun p hp => ?_
  obtain ⟨f, ⟨_, _, _, -, -, -, hf⟩, hprovides⟩ :=
    (QueryGraph.isReady_joinSubgraphs hm).sound p hp
  rw [(h.standsAlone_of_fieldIn? hm hf).provides] at hprovides
  cases hprovides

theorem ofSubgraphs_eq_joined : QueryGraph.ofSubgraphs set m = QueryGraph.joined set m := by
  unfold QueryGraph.ofSubgraphs
  dsimp only
  rw [h.provisions_eq_nil hm]
  rfl

/-- No two nodes stand for the same. -/
theorem node_unique {u v : NodeId} {subject : String × SubgraphId}
    (hu : (QueryGraph.ofSubgraphs set m).subject? u = some subject)
    (hv : (QueryGraph.ofSubgraphs set m).subject? v = some subject) : u = v := by
  rw [h.ofSubgraphs_eq_joined hm] at hu hv
  exact (QueryGraph.isReady_joinSubgraphs hm).distinct u v subject hu hv

omit hm in
/-- All nodes are those of the subgraph. -/
theorem subgraph_eq_zero {v : NodeId} {subject : String × SubgraphId}
    (hv : (QueryGraph.joined set m).subject? v = some subject) : subject.2 = 0 := by
  have hkeeps : Draft.Keeps 0 fun g => ∀ v subject, g.subject? v = some subject → subject.2 = 0 := by
    constructor
    · intro g typeName hg v subject hv
      rcases g.baseFor_eq typeName 0 with ⟨_, _, -, -, heq⟩ | ⟨-, heq⟩
      · rw [heq] at hv
        exact hg v subject hv
      · rw [heq, QueryGraph.subject?_addNode] at hv
        split at hv
        · exact Option.some.inj hv ▸ rfl
        · exact hg v subject hv
    · intro g w move tail _ hg v subject hv
      rw [QueryGraph.subject?_addEdge] at hv
      exact hg v subject hv
    · intro g w move tail _ hg v subject hv
      rw [QueryGraph.subject?_ignoreEdge, QueryGraph.subject?_addEdge] at hv
      exact hg v subject hv
  have hempty : ∀ v subject, ({} : QueryGraph).subject? v = some subject → subject.2 = 0 := nofun
  have hdraft : ∀ v subject, (QueryGraph.draft set m).graph.subject? v = some subject →
      subject.2 = 0 := by
    rw [QueryGraph.draft, h.enumerated_eq]
    exact @Draft.Keeps.addSubgraph _ (0, s) hkeeps {} hempty m set.nameOf
  have hjoined : ∀ v subject, (QueryGraph.joined set m).subject? v = some subject →
      subject.2 = 0 := by
    refine List.foldlRecOn m.types (QueryGraph.joinType set m)
      (motive := fun g => ∀ v subject, g.subject? v = some subject → subject.2 = 0) hdraft
      fun g hg t _ => QueryGraph.joinType_keeps
        (P := fun g => ∀ v subject, g.subject? v = some subject → subject.2 = 0)
        (fun g v move tail _ hg w subject hw => ?_) t hg
    rw [QueryGraph.subject?_addEdge] at hw
    exact hg w subject hw
  exact hjoined v subject hv

end SubgraphSet.HasOnly

/-! ## Planning -/

/-- A planner can be at the node of a type. -/
def Planner.IsAt (p : Planner) (typeName : String) (options : List NodeId) : Prop :=
  ∃ v ∈ options, p.graph.subject? v = some (typeName, 0)

/-- What stands for something is a node of the graph. -/
theorem QueryGraph.mem_ids_of_subject? {g : QueryGraph} {v : NodeId} {subject : String × SubgraphId}
    (h : g.subject? v = some subject) : v ∈ g.ids := by
  obtain ⟨n, hn, -⟩ := subject?_eq_some.mp h
  exact List.mem_range.mpr (Array.getElem?_eq_some_iff.mp hn).1

namespace SubgraphSet.HasOnly

open Satisfiability

variable {set : SubgraphSet} {s : Subgraph} {m : MergedSchema} (h : set.HasOnly s)
  (hm : MergedSchema.ofSubgraphs set = .ok m) {labels : List String} {typeName : String}
  {options : List NodeId}

include h hm

/-- No field has requirements. -/
theorem outcome_eq_met (node : NodeId) (field : String) :
    ((Problem.of set m).walker labels).planner.outcome node field = .met := by
  have hnone : ((Problem.of set m).walker labels).planner.requirements node field = [] := by
    unfold Planner.requirements
    split
    · rfl
    · rename_i n _
      show ((m.fieldIn? n.typeName field n.subgraph).bind FieldInGraph.requires).getD [] = []
      cases hf : m.fieldIn? n.typeName field n.subgraph with
      | none => rfl
      | some f => rw [Option.bind_some, (h.standsAlone_of_fieldIn? hm hf).requires, Option.getD_none]
  rw [Planner.outcome, Planner.outcomeWithin, hnone]
  rfl

/-- The steps along fields are those of fields that the subgraph defines. -/
theorem exists_of_field_mem_moves {name target : String}
    (hmove : .field name target ∈ m.apiGraph.moves typeName) :
    ∃ d ∈ s.definitions, d.name = typeName ∧ (d.kind = .object ∨ d.kind = .interface) ∧
      ∃ f : FieldInGraph, f.plan ∈ m.fieldPlans set.nameOf 0 typeName ∧ name = f.plan.name ∧
        target = f.plan.typeName := by
  obtain ⟨_, htype, rfl, hmem⟩ := ApiGraph.exists_type_of_mem_moves hmove
  obtain ⟨t, ht, rfl⟩ := List.mem_map.mp htype
  have ht := List.mem_of_mem_filter ht
  rcases List.mem_append.mp hmem with hmem | hmem
  · obtain ⟨field, hfield, heq⟩ := List.mem_filterMap.mp hmem
    unfold MergedSchema.apiField? at heq
    split at heq
    · cases heq
    · obtain ⟨d, hd, hname, hkind, f, hf, rfl⟩ := h.exists_of_mem_fields hm ht hfield
      obtain ⟨rfl, rfl⟩ := ApiMove.field.inj (Option.some.inj heq)
      refine ⟨d, hd, hname.symm, hkind, f, ?_, MergedField.name_alone f,
        congrArg TypeRef.name (MergedField.type_alone f)⟩
      show f.plan ∈ m.fieldPlans set.nameOf 0 t.name
      rw [MergedSchema.fieldPlans,
        (MergedSchema.hasUniqueNames_of_ofSubgraphs hm).type?_eq_some ht]
      exact List.mem_filterMap.mpr ⟨_, hfield, hf.of?_alone set.nameOf⟩
  · obtain ⟨_, -, heq⟩ := List.mem_map.mp hmem
    cases heq

/-- A planner that is at the node of a type gets to the node of the type of each of its fields. -/
theorem isAt_advance {name target : String}
    (hat : ((Problem.of set m).walker labels).planner.IsAt typeName options)
    (hmove : .field name target ∈ m.apiGraph.moves typeName) :
    ((Problem.of set m).walker labels).planner.IsAt target
      (((Problem.of set m).walker labels).planner.advance options name) := by
  obtain ⟨d, hd, rfl, hkind, f, hplan, rfl, rfl⟩ := h.exists_of_field_mem_moves hm hmove
  have hs : set.subgraph? 0 = some s := by
    rw [subgraph?, h.subgraphs]
    rfl
  obtain ⟨id, e, he, hactive, hmakes, hsource, htarget⟩ :=
    QueryGraph.movesBy_ofSubgraphs h.hasProperNames hm hs hd hkind hplan rfl
  obtain ⟨v, hv, hsubject⟩ := hat
  obtain rfl : v = id.head := h.node_unique hm hsubject hsource
  refine ⟨e.tail, Planner.mem_options.mpr ⟨QueryGraph.mem_ids_of_subject? htarget,
    List.mem_flatMap.mpr ⟨id.head, ?_, List.mem_map_of_mem (List.mem_filter.mpr ⟨?_, ?_⟩)⟩⟩, htarget⟩
  · exact Reachability.mem_closure_iff.mpr (.of_mem hv)
  · exact QueryGraph.mem_edges.mpr ⟨QueryGraph.mem_allEdges_of_edge? he, hactive⟩
  · unfold Planner.canTake
    rw [hmakes]
    show (f.plan.name == f.plan.name && true && (false || _ == _)) = true
    rw [h.outcome_eq_met hm]
    simp

/-- Whatever narrowing leads to is the node of the type. -/
theorem isAt_advanceToType {target : String}
    (hne : ((Problem.of set m).walker labels).planner.advanceToType options target ≠ []) :
    ((Problem.of set m).walker labels).planner.IsAt target
      (((Problem.of set m).walker labels).planner.advanceToType options target) := by
  obtain ⟨v, hv⟩ := List.exists_mem_of_ne_nil _ hne
  obtain ⟨hid, hmem⟩ := Planner.mem_options.mp hv
  obtain ⟨w, -, hnarrowed⟩ := List.mem_flatMap.mp hmem
  have hname : (QueryGraph.ofSubgraphs set m).typeNameOf v = target := by
    unfold Planner.narrowed at hnarrowed
    split at hnarrowed
    · rename_i heq
      rw [List.mem_singleton] at hnarrowed
      exact hnarrowed ▸ beq_iff_eq.mp heq
    · obtain ⟨e, he, rfl⟩ := List.mem_map.mp hnarrowed
      exact beq_iff_eq.mp (Bool.and_eq_true_iff.mp (List.mem_filter.mp he).2).2
  obtain ⟨n, hn⟩ : ∃ n, (QueryGraph.ofSubgraphs set m).node? v = some n :=
    ⟨_, Array.getElem?_eq_getElem (List.mem_range.mp hid)⟩
  have hsubject : (QueryGraph.ofSubgraphs set m).subject? v = some (n.typeName, n.subgraph) :=
    QueryGraph.subject?_eq_some.mpr ⟨n, hn, rfl, rfl⟩
  refine ⟨v, hv, hsubject.trans ?_⟩
  rw [QueryGraph.typeNameOf_eq hn] at hname
  rw [h.ofSubgraphs_eq_joined hm] at hsubject
  rw [hname, show n.subgraph = 0 from h.subgraph_eq_zero hsubject]

/-- No path fails where a planner is at the node of the type. The induction is on the path. -/
theorem not_fails {path : List ApiMove}
    (hat : ((Problem.of set m).walker labels).planner.IsAt typeName options) :
    ¬ ((Problem.of set m).walker labels).Fails typeName options path := by
  induction path generalizing typeName options with
  | nil => exact Walker.not_fails_nil
  | cons move rest ih =>
    intro hfails
    obtain ⟨hmove, hnext⟩ := Walker.fails_cons.mp hfails
    cases move with
    | field name target =>
      have hat' := h.isAt_advance hm hat hmove
      split at hnext
      · rename_i hnil
        obtain ⟨v, hv, -⟩ := hat'
        exact List.ne_nil_of_mem hv hnil
      · exact ih hat' hnext
    | narrow target =>
      split at hnext
      · cases hnext
      · rename_i hne
        exact ih (h.isAt_advanceToType hm hne) hnext

/-! ## The check -/

/-- Every object has a node. -/
theorem hasNodeFor {d : TypeDef} (hd : d ∈ s.definitions) (hkind : d.kind = .object) :
    (QueryGraph.ofSubgraphs set m).HasNodeFor (d.name, 0) := by
  have hs : set.subgraph? 0 = some s := by
    rw [subgraph?, h.subgraphs]
    rfl
  have hdraft : (QueryGraph.draft set m).graph.HasNodeFor (d.name, 0) :=
    QueryGraph.hasNodeFor_draft hs hd (by rw [hkind]; rfl)
  rw [h.ofSubgraphs_eq_joined hm]
  exact List.foldlRecOn m.types (QueryGraph.joinType set m)
    (motive := fun g => g.HasNodeFor (d.name, 0)) hdraft
    fun g hg t _ => QueryGraph.joinType_keeps (P := fun g => g.HasNodeFor (d.name, 0))
      (fun _ v move tail _ hg => hg.addEdge v move tail) t hg

/-- Queries start at the node of their type. -/
theorem isAt_of_mem_starts {start : Start} (hstart : start ∈ (Problem.of set m).starts) :
    ((Problem.of set m).walker labels).planner.IsAt start.typeName start.options := by
  obtain ⟨t, ht, hname, hkind, -, ids, hids, hoptions, hcases⟩ :=
    Problem.exists_type_of_mem_starts hstart
  obtain ⟨d, hd, halone⟩ := h.exists_isAlone hm ht
  have hbyGraph : t.byGraph.ids = [0] := by
    rw [halone.byGraph]
    rfl
  rw [hbyGraph] at hids hcases
  rw [hname, hoptions]
  rw [hoptions] at hcases
  have hne : (Problem.of set m).baseNodes t.name ids ≠ [] := by
    rcases hcases with rfl | hne
    · obtain ⟨v, hv⟩ := (h.hasNodeFor hm hd (halone.kind.symm.trans hkind)).exists_base?
      rw [← halone.name] at hv
      refine List.ne_nil_of_mem (a := v) (List.mem_filter.mpr
        ⟨QueryGraph.mem_ids_of_subject? (QueryGraph.base?_eq_some hv), ?_⟩)
      exact List.contains_iff_mem.mpr (List.mem_filterMap.mpr ⟨0, List.mem_singleton_self 0, hv⟩)
    · exact hne
  obtain ⟨v, hv⟩ := List.exists_mem_of_ne_nil _ hne
  obtain ⟨id, hid, hbase⟩ :=
    List.mem_filterMap.mp (List.contains_iff_mem.mp (List.mem_filter.mp hv).2)
  obtain rfl := List.mem_singleton.mp (hids hid)
  exact ⟨v, hv, QueryGraph.base?_eq_some hbase⟩

/-- **A subgraph that is composed alone resolves every query.** -/
theorem check_eq_nil : check set m = [] := by
  by_contra hne
  have hmessages : (Problem.of set m).report.messages ≠ [] :=
    fun hnil => hne (List.map_eq_nil_iff.mpr hnil)
  obtain ⟨labels, -, path, start, hstart, hfails⟩ :=
    (Problem.reports_report hm).exists_unsatisfiable_of_messages hmessages
  exact h.not_fails hm (h.isAt_of_mem_starts hm hstart) hfails

end SubgraphSet.HasOnly

end Federation
