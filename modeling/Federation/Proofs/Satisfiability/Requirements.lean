import Mathlib
import Federation.Proofs.Ingestion.Evaluation
import Federation.Proofs.Merge.FieldSets
import Federation.Proofs.QueryGraph.Operations
import Federation.Proofs.Satisfiability.Planner

/-!
# Requirements as a least fixpoint

Which fields have their requirements met is asked depth first, and a field that waits for its own
requirements does not count. Still the answer is the one that does not depend on who asks: the least
set of fields that contains each field whose requirements can be resolved along fields of the set.
-/

namespace Federation

/-! ## Selections without type conditions -/

mutual

/-- The selection has no type conditions. -/
def Selection.isPlain : Selection → Bool
  | .field _ _ selections => arePlain selections
  | .inlineFragment _ _ => false

/-- No selection has type conditions. -/
def Selection.arePlain : List Selection → Bool
  | [] => true
  | first :: others => first.isPlain && arePlain others

end

theorem QueryGraph.edgeCount_eq (g : QueryGraph) :
    g.edgeCount = (g.ids.map fun v => (g.allEdges v).length).sum := by
  rw [edgeCount, List.sum_eq_foldl, List.foldl_map]

namespace Planner

open Reachability (Step)

variable {p : Planner} {met met' : Set (NodeId × String)} {nodes nodes' : Set NodeId}

/-! ## What can be resolved -/

/-- Keys lead from some of the nodes to a node. -/
def KeysLeadTo (p : Planner) (nodes : Set NodeId) (v : NodeId) : Prop :=
  ∃ u ∈ nodes, Relation.ReflTransGen (Step p.keyTails p.graph.ids) u v

/-- The nodes that a field leads to, by way of keys, if it is provided or its requirements are
met. -/
def LeadsTo (p : Planner) (met : Set (NodeId × String)) (nodes : Set NodeId) (field : String) :
    Set NodeId :=
  {w | w ∈ p.graph.ids ∧ ∃ v, p.KeysLeadTo nodes v ∧ ∃ e ∈ p.graph.edges v, e.tail = w ∧
    ∃ condition isProvided, e.move = .field field condition isProvided ∧
      p.allows condition = true ∧ (isProvided = true ∨ (v, field) ∈ met)}

mutual

/-- A selection without type conditions can be resolved from some nodes along fields that are
provided or have their requirements met. -/
def CanResolve (p : Planner) (met : Set (NodeId × String)) (nodes : Set NodeId) :
    Selection → Prop
  | .field name _ selections => (p.LeadsTo met nodes name).Nonempty ∧
      CanResolveAll p met (p.LeadsTo met nodes name) selections
  | .inlineFragment _ _ => False

/-- All selections can be resolved. -/
def CanResolveAll (p : Planner) (met : Set (NodeId × String)) (nodes : Set NodeId) :
    List Selection → Prop
  | [] => True
  | first :: others => CanResolve p met nodes first ∧ CanResolveAll p met nodes others

end

/-- The fields whose requirements are met if those of some fields are: a field at a node requires
nothing, or a key leads back to the node and what the field requires can be resolved from there. -/
def MetBy (p : Planner) (met : Set (NodeId × String)) : Set (NodeId × String) :=
  {x | p.requirements x.1 x.2 = [] ∨
    p.canResume x.1 = true ∧ p.CanResolveAll met {x.1} (p.requirements x.1 x.2)}

/-! ## The planner's answers -/

theorem canTake_iff {isMet : NodeId → String → Bool} {v : NodeId} {field : String} {e : Edge} :
    p.canTake isMet v field e = true ↔ ∃ condition isProvided,
      e.move = .field field condition isProvided ∧ p.allows condition = true ∧
        (isProvided = true ∨ isMet v field = true) := by
  unfold canTake
  cases e.move with
  | field name condition isProvided =>
    simp only [Bool.and_eq_true, Bool.or_eq_true, beq_iff_eq, Move.field.injEq]
    constructor
    · rintro ⟨⟨rfl, hallows⟩, hmet⟩
      exact ⟨condition, isProvided, ⟨rfl, rfl, rfl⟩, hallows, hmet⟩
    · rintro ⟨_, _, ⟨rfl, rfl, rfl⟩, hallows, hmet⟩
      exact ⟨⟨rfl, hallows⟩, hmet⟩
  | entity | interfaceObject | narrow => simp

/-- The planner finds the nodes that a field leads to. -/
theorem mem_advanceWhere {isMet : NodeId → String → Bool} {nodes : List NodeId} {field : String}
    {w : NodeId} : w ∈ p.advanceWhere isMet nodes field ↔
      w ∈ p.LeadsTo {x | isMet x.1 x.2 = true} {v | v ∈ nodes} field := by
  unfold advanceWhere
  rw [mem_options, List.mem_flatMap]
  refine and_congr_right fun _ => exists_congr fun v => and_congr ?_ ?_
  · exact Reachability.mem_closure_iff
  · rw [List.mem_map]
    refine exists_congr fun e => ?_
    rw [List.mem_filter, canTake_iff, and_assoc, and_comm (a := _ = w)]
    rfl

mutual

/-- The planner finds out which selections can be resolved. -/
theorem resolvesOne_iff {isMet : NodeId → String → Bool} {nodes : List NodeId}
    (selection : Selection) (hplain : selection.isPlain = true) :
    p.resolvesOne isMet nodes selection = true ↔
      p.CanResolve {x | isMet x.1 x.2 = true} {v | v ∈ nodes} selection := by
  cases selection with
  | field name arguments selections =>
    have hnext : {w | w ∈ p.advanceWhere isMet nodes name} =
        p.LeadsTo {x | isMet x.1 x.2 = true} {v | v ∈ nodes} name :=
      Set.ext fun _ => mem_advanceWhere
    have hbelow : p.resolves isMet (p.advanceWhere isMet nodes name) selections = true ↔
        p.CanResolveAll {x | isMet x.1 x.2 = true} {w | w ∈ p.advanceWhere isMet nodes name}
          selections := resolves_iff selections hplain
    rw [hnext] at hbelow
    unfold resolvesOne CanResolve
    rw [Bool.and_eq_true, Bool.or_eq_true, hbelow, ← hnext, List.isEmpty_iff, Bool.not_eq_true',
      List.isEmpty_eq_false_iff_exists_mem]
    refine and_congr_right fun _ => ⟨?_, .inr⟩
    rintro (rfl | hresolved)
    · trivial
    · exact hresolved
  | inlineFragment condition selections => cases hplain

theorem resolves_iff {isMet : NodeId → String → Bool} {nodes : List NodeId}
    (selections : List Selection) (hplain : Selection.arePlain selections = true) :
    p.resolves isMet nodes selections = true ↔
      p.CanResolveAll {x | isMet x.1 x.2 = true} {v | v ∈ nodes} selections := by
  cases selections with
  | nil => exact iff_of_true rfl trivial
  | cons first others =>
    obtain ⟨hfirst, hothers⟩ := Bool.and_eq_true_iff.mp hplain
    unfold resolves CanResolveAll
    rw [Bool.and_eq_true, resolvesOne_iff first hfirst, resolves_iff others hothers]

end

/-! ## More fields that are met -/

/-- The fields that edges resolve, at the nodes that the edges leave. -/
def resolvedFields (p : Planner) : Set (NodeId × String) :=
  {x | ∃ e ∈ p.graph.edges x.1, e.resolves x.2 = true}

theorem KeysLeadTo.mono (hnodes : nodes ⊆ nodes') {v : NodeId} (h : p.KeysLeadTo nodes v) :
    p.KeysLeadTo nodes' v := by
  obtain ⟨u, hu, hpath⟩ := h
  exact ⟨u, hnodes hu, hpath⟩

/-- More fields that are met lead to more nodes, if edges resolve them. -/
theorem leadsTo_mono (hmet : met ∩ p.resolvedFields ⊆ met') (hnodes : nodes ⊆ nodes')
    (field : String) : p.LeadsTo met nodes field ⊆ p.LeadsTo met' nodes' field := by
  rintro w ⟨hw, v, hv, e, he, htail, condition, isProvided, hmove, hallows, hfield⟩
  refine ⟨hw, v, hv.mono hnodes, e, he, htail, condition, isProvided, hmove, hallows, ?_⟩
  refine hfield.imp_right fun hfield => hmet ⟨hfield, e, he, ?_⟩
  simp [Edge.resolves, Move.fieldName?, hmove]

mutual

theorem CanResolve.mono (hmet : met ∩ p.resolvedFields ⊆ met') {nodes nodes' : Set NodeId}
    (hnodes : nodes ⊆ nodes') (selection : Selection) (h : p.CanResolve met nodes selection) :
    p.CanResolve met' nodes' selection := by
  cases selection with
  | field name arguments selections =>
    unfold CanResolve at h ⊢
    have hnext := leadsTo_mono hmet hnodes name
    exact ⟨h.1.mono hnext, CanResolveAll.mono hmet hnext selections h.2⟩
  | inlineFragment condition selections => exact h.elim

theorem CanResolveAll.mono (hmet : met ∩ p.resolvedFields ⊆ met') {nodes nodes' : Set NodeId}
    (hnodes : nodes ⊆ nodes') (selections : List Selection)
    (h : p.CanResolveAll met nodes selections) : p.CanResolveAll met' nodes' selections := by
  cases selections with
  | nil => trivial
  | cons first others =>
    unfold CanResolveAll at h ⊢
    exact ⟨CanResolve.mono hmet hnodes first h.1, CanResolveAll.mono hmet hnodes others h.2⟩

end

theorem metBy_mono_of_inter (hmet : met ∩ p.resolvedFields ⊆ met') :
    p.MetBy met ⊆ p.MetBy met' := by
  rintro x (hnone | ⟨hresume, hresolve⟩)
  · exact .inl hnone
  · exact .inr ⟨hresume, hresolve.mono hmet (Set.Subset.refl _) _⟩

theorem metBy_mono (hmet : met ⊆ met') : p.MetBy met ⊆ p.MetBy met' :=
  metBy_mono_of_inter (Set.inter_subset_left.trans hmet)

/-- What is met depends on fields that edges resolve only. -/
theorem metBy_congr (hmet : met ∩ p.resolvedFields = met' ∩ p.resolvedFields) :
    p.MetBy met = p.MetBy met' :=
  Set.Subset.antisymm (metBy_mono_of_inter (hmet.trans_subset Set.inter_subset_left))
    (metBy_mono_of_inter (hmet.symm.trans_subset Set.inter_subset_left))

/-! ## Stages -/

/-- The fields whose requirements are met by way of at most as many fields in a row. -/
def stage (p : Planner) : Nat → Set (NodeId × String)
  | 0 => ∅
  | n + 1 => p.MetBy (stage p n)

theorem stage_subset_succ (p : Planner) (n : Nat) : p.stage n ⊆ p.stage (n + 1) := by
  induction n with
  | zero => exact Set.empty_subset _
  | succ n ih => exact metBy_mono ih

theorem stage_mono (p : Planner) {m n : Nat} (hle : m ≤ n) : p.stage m ⊆ p.stage n := by
  induction hle with
  | refl => exact Set.Subset.refl _
  | step _ ih => exact ih.trans (p.stage_subset_succ _)

/-- All stages are part of each set that contains what is met by it. -/
theorem stage_subset (h : p.MetBy met ⊆ met) (n : Nat) : p.stage n ⊆ met := by
  induction n with
  | zero => exact Set.empty_subset _
  | succ n ih => exact (metBy_mono ih).trans h

/-- Edges one by one, each with the node that it leaves and the field that it resolves. -/
def resolvedFieldsList (p : Planner) : List (NodeId × String) :=
  p.graph.ids.flatMap fun v =>
    (p.graph.edges v).filterMap fun e => e.move.fieldName?.map (Prod.mk v)

theorem resolvedFields_subset (p : Planner) :
    p.resolvedFields ⊆ (p.resolvedFieldsList.toFinset : Set (NodeId × String)) := by
  rintro ⟨v, field⟩ ⟨e, he, hresolves⟩
  obtain ⟨n, hn, -⟩ := QueryGraph.exists_node?_of_mem_allEdges (QueryGraph.mem_edges.mp he).1
  rw [Finset.mem_coe, List.mem_toFinset, resolvedFieldsList, List.mem_flatMap]
  refine ⟨v, List.mem_range.mpr (QueryGraph.node?_eq_some_lt hn), List.mem_filterMap.mpr
    ⟨e, he, ?_⟩⟩
  rw [show e.move.fieldName? = some field from beq_iff_eq.mp hresolves]
  rfl

/-- There are no more resolved fields than edges. -/
theorem length_resolvedFieldsList_le (p : Planner) :
    p.resolvedFieldsList.length ≤ p.graph.edgeCount := by
  rw [resolvedFieldsList, List.length_flatMap, QueryGraph.edgeCount_eq]
  refine List.sum_le_sum fun v _ => ?_
  exact (List.length_filterMap_le _ _).trans (List.length_filter_le _ _)

theorem finite_resolvedFields (p : Planner) : p.resolvedFields.Finite :=
  (Finset.finite_toSet _).subset p.resolvedFields_subset

theorem ncard_resolvedFields_le (p : Planner) : p.resolvedFields.ncard ≤ p.graph.edgeCount :=
  calc p.resolvedFields.ncard
      ≤ (p.resolvedFieldsList.toFinset : Set (NodeId × String)).ncard :=
        Set.ncard_le_ncard p.resolvedFields_subset
    _ = p.resolvedFieldsList.toFinset.card := Set.ncard_coe_finset _
    _ ≤ p.resolvedFieldsList.length := List.toFinset_card_le _
    _ ≤ p.graph.edgeCount := p.length_resolvedFieldsList_le

/-- If no more fields of edges are met in the next stage, none are in any later stage. -/
theorem stage_eq_of_ncard_eq {n : Nat} (h : (p.stage n ∩ p.resolvedFields).ncard =
      (p.stage (n + 1) ∩ p.resolvedFields).ncard) : p.stage (n + 1) = p.stage (n + 2) := by
  refine metBy_congr (Set.eq_of_subset_of_ncard_le ?_ h.ge ?_)
  · exact Set.inter_subset_inter_left _ (p.stage_subset_succ n)
  · exact p.finite_resolvedFields.inter_of_right _

/-- After one stage more than there are edges no more fields are met. -/
theorem metBy_stage (p : Planner) :
    p.MetBy (p.stage (p.graph.edgeCount + 1)) = p.stage (p.graph.edgeCount + 1) := by
  have hmono : Monotone fun n => (p.stage n ∩ p.resolvedFields).ncard := fun m n hle =>
    Set.ncard_le_ncard (Set.inter_subset_inter_left _ (p.stage_mono hle))
      (p.finite_resolvedFields.inter_of_right _)
  have hbound : ∀ n, (p.stage n ∩ p.resolvedFields).ncard ≤ p.graph.edgeCount := fun n =>
    (Set.ncard_le_ncard Set.inter_subset_right p.finite_resolvedFields).trans
      p.ncard_resolvedFields_le
  have hstable := Nat.stabilises_of_monotone hmono hbound
    (fun n h => by rw [stage_eq_of_ncard_eq h]) (Nat.le_succ _)
  exact (stage_eq_of_ncard_eq hstable.symm).symm

/-! ## Depth -/

/-- The fields whose requirements are found to be met within some depth, while others wait. -/
def metWithin (p : Planner) (depth : Nat) (waiting : List (NodeId × String)) :
    Set (NodeId × String) :=
  {x | p.outcomeWithin depth waiting x.1 x.2 = .met}

theorem mem_metWithin_zero {waiting : List (NodeId × String)} {x : NodeId × String} :
    x ∈ p.metWithin 0 waiting ↔ p.requirements x.1 x.2 = [] := by
  change p.outcomeWithin 0 waiting x.1 x.2 = .met ↔ _
  rw [outcomeWithin, ← List.isEmpty_iff]
  split
  · exact iff_of_true rfl ‹_›
  · refine iff_of_false ?_ ‹_›
    split
    · simp
    · split <;> simp

/-- A field with requirements is asked for those of other fields while it waits itself. -/
theorem mem_metWithin_succ (hplain : ∀ v field, Selection.arePlain (p.requirements v field) = true)
    {depth : Nat} {waiting : List (NodeId × String)} {x : NodeId × String} :
    x ∈ p.metWithin (depth + 1) waiting ↔ p.requirements x.1 x.2 = [] ∨ x ∉ waiting ∧
      p.canResume x.1 = true ∧
        p.CanResolveAll (p.metWithin depth (x :: waiting)) {x.1} (p.requirements x.1 x.2) := by
  have hmet : {y : NodeId × String | (p.outcomeWithin depth (x :: waiting) y.1 y.2 == .met) = true} =
      p.metWithin depth (x :: waiting) :=
    Set.ext fun _ => beq_iff_eq
  have hnode : {v | v ∈ [x.1]} = ({x.1} : Set NodeId) := Set.ext fun _ => List.mem_singleton
  have hresolves := @resolves_iff p (fun n f => p.outcomeWithin depth (x :: waiting) n f == .met)
    [x.1] _ (hplain x.1 x.2)
  rw [hmet, hnode] at hresolves
  change p.outcomeWithin (depth + 1) waiting x.1 x.2 = .met ↔ _
  rw [outcomeWithin]
  dsimp only
  by_cases hnone : p.requirements x.1 x.2 = []
  · simp [hnone]
  · rw [if_neg (mt List.isEmpty_iff.mp hnone), or_iff_right hnone]
    by_cases hwaits : x ∈ waiting
    · rw [if_pos (List.contains_iff_mem.mpr hwaits)]
      simp [hwaits]
    · rw [if_neg (mt List.contains_iff_mem.mp hwaits), and_iff_right hwaits, ← hresolves]
      cases p.canResume x.1 <;> simp

section

variable (hplain : ∀ v field, Selection.arePlain (p.requirements v field) = true)

include hplain

/-- What is found to be met within some depth is in each set that contains what is met by it. -/
theorem metWithin_subset (h : p.MetBy met ⊆ met) (depth : Nat) (waiting : List (NodeId × String)) :
    p.metWithin depth waiting ⊆ met := by
  induction depth generalizing waiting with
  | zero => exact fun x hx => h (.inl (mem_metWithin_zero.mp hx))
  | succ depth ih =>
    intro x hx
    rcases (mem_metWithin_succ hplain).mp hx with hnone | ⟨-, hresume, hresolve⟩
    · exact h (.inl hnone)
    · exact h (metBy_mono (ih _) (.inr ⟨hresume, hresolve⟩))

/-- A field of a stage is found to be met within as much depth, unless a field of the stage waits: it
enters at some stage, and what it requires is then of earlier stages, where it does not wait. -/
theorem stage_subset_metWithin {n depth : Nat} {waiting : List (NodeId × String)}
    (hwaiting : ∀ x ∈ waiting, x ∉ p.stage n) (hdepth : n ≤ depth) :
    p.stage n ⊆ p.metWithin depth waiting := by
  induction n generalizing depth waiting with
  | zero => exact Set.empty_subset _
  | succ n ih =>
    have hearlier : ∀ x ∈ waiting, x ∉ p.stage n := fun x hx hstage =>
      hwaiting x hx (p.stage_subset_succ n hstage)
    intro x hx
    by_cases hbefore : x ∈ p.stage n
    · exact ih hearlier (Nat.le_of_succ_le hdepth) hbefore
    obtain ⟨depth, rfl⟩ := Nat.exists_eq_add_one_of_ne_zero (Nat.ne_zero_of_lt hdepth)
    refine (mem_metWithin_succ hplain).mpr ?_
    rcases hx with hnone | ⟨hresume, hresolve⟩
    · exact .inl hnone
    · refine .inr ⟨fun hwaits => hwaiting x hwaits (.inr ⟨hresume, hresolve⟩), hresume, ?_⟩
      have hmet : p.stage n ⊆ p.metWithin depth (x :: waiting) :=
        ih (List.forall_mem_cons.mpr ⟨hbefore, hearlier⟩) (Nat.le_of_succ_le_succ hdepth)
      exact hresolve.mono (Set.inter_subset_left.trans hmet) (Set.Subset.refl _) _

/-- The fields whose requirements are met are those of the last stage. -/
theorem setOf_outcome_eq : {x : NodeId × String | p.outcome x.1 x.2 = .met} =
    p.stage (p.graph.edgeCount + 1) :=
  Set.Subset.antisymm (metWithin_subset hplain p.metBy_stage.subset _ _)
    (stage_subset_metWithin hplain nofun (Nat.le_refl _))

/-- **The fields whose requirements are met are a least fixpoint.** If no field requires anything
under a type condition, then the fields whose requirements the planner finds to be met are the least
set that contains each field that requires nothing, and each field at a node to which a key leads back
and from which all that is required can be resolved along fields that are provided or in the set. So
nothing is met of fields each of which can only be met by way of another one of them. -/
theorem requirements_met_isLeast :
    IsLeast {met | p.MetBy met ⊆ met} {x : NodeId × String | p.outcome x.1 x.2 = .met} ∧
      p.MetBy {x : NodeId × String | p.outcome x.1 x.2 = .met} =
        {x : NodeId × String | p.outcome x.1 x.2 = .met} ∧
      ∀ cyclic : Set (NodeId × String), (∀ x ∈ cyclic, x ∉ p.MetBy cyclicᶜ) →
        ∀ x ∈ cyclic, p.outcome x.1 x.2 ≠ .met := by
  have hmet := setOf_outcome_eq hplain
  have hleast : ∀ met, p.MetBy met ⊆ met → {x : NodeId × String | p.outcome x.1 x.2 = .met} ⊆ met :=
    fun met h => hmet.trans_subset (stage_subset h _)
  have hfixed : p.MetBy {x : NodeId × String | p.outcome x.1 x.2 = .met} =
      {x : NodeId × String | p.outcome x.1 x.2 = .met} := by
    rw [hmet]
    exact p.metBy_stage
  refine ⟨⟨hfixed.subset, fun met h => hleast met h⟩, hfixed, fun cyclic hcyclic x hx houtcome => ?_⟩
  exact hleast cyclicᶜ (fun y hy hmem => hcyclic y hmem hy) houtcome hx

end

end Planner

/-! ### Fields that require each other -/

/-- No field of any subgraph requires anything under a type condition. -/
def MergedSchema.requiresPlainly (m : MergedSchema) : Bool :=
  m.types.all fun t => t.fields.all fun f => f.byGraph.all fun entry =>
    Selection.arePlain (entry.2.requires.getD [])

theorem Planner.arePlain_requirements {p : Planner} (h : p.merged.requiresPlainly = true)
    (v : NodeId) (field : String) : Selection.arePlain (p.requirements v field) = true := by
  unfold requirements
  split
  · rfl
  · rename_i n hn
    dsimp only
    cases hf : (p.merged.field? n.typeName field).bind fun f => f.byGraph.get? n.subgraph with
    | none => rfl
    | some f =>
      obtain ⟨merged, hmerged, hentry⟩ := Option.bind_eq_some_iff.mp hf
      obtain ⟨t, ht, hfield⟩ := Option.bind_eq_some_iff.mp hmerged
      have hplain := List.all_eq_true.mp h t (List.mem_of_find?_eq_some ht)
      have hall := List.all_eq_true.mp hplain merged (List.mem_of_find?_eq_some hfield)
      exact List.all_eq_true.mp hall _ (ByGraph.mem_of_get?_eq_some hentry)

/-- A schema with two fields that require fields of the other one. -/
def SchemaSource.waiting : SchemaSource :=
  ⟨"type T@key(fields:\"id\")\x7bid:ID x:ID@external y:ID@requires(fields:\"x\")" ++
      "z:ID@external w:ID@requires(fields:\"z\")\x7d",
    "a", none⟩

/-- A schema in which one of these fields requires a field in turn. -/
def SchemaSource.awaited : SchemaSource :=
  ⟨"type T@key(fields:\"id\")\x7bid:ID y:ID@external x:ID@requires(fields:\"y\")z:ID\x7d", "b", none⟩

/-- At a node of the first subgraph, `y` is not met, but `w` is. -/
def Planner.keepsWaiting (p : Planner) : Bool :=
  p.graph.ids.any fun v => p.graph.subject? v == some ("T", 0) &&
    p.outcome v "y" != .met && p.outcome v "w" == .met

theorem SchemaSource.validates_waiting :
    ((SubgraphSet.ofSources [.waiting, .awaited]).toOption.any fun set =>
      (MergedSchema.ofSubgraphs set).toOption.any fun m => m.requiresPlainly &&
        Planner.keepsWaiting ⟨m, QueryGraph.ofSubgraphs set m, []⟩) = true := by
  cbv

/-- In the two schemas, `y` and `x` require each other and so `y` is not met; but `w` is. -/
theorem Planner.requirements_met_isLeast_of_waiting :
    ∃ set m v, SubgraphSet.ofSources [.waiting, .awaited] = .ok set ∧
      MergedSchema.ofSubgraphs set = .ok m ∧
      (QueryGraph.ofSubgraphs set m).subject? v = some ("T", 0) ∧
      ∃ fields, IsLeast {met | MetBy ⟨m, QueryGraph.ofSubgraphs set m, []⟩ met ⊆ met} fields ∧
        (v, "y") ∉ fields ∧ (v, "w") ∈ fields := by
  obtain ⟨set, hset, hmerges⟩ := exists_ok_of_any SchemaSource.validates_waiting
  obtain ⟨m, hm, hanswers⟩ := exists_ok_of_any hmerges
  obtain ⟨hplain, hnode⟩ := Bool.and_eq_true_iff.mp hanswers
  obtain ⟨v, -, hv⟩ := List.any_eq_true.mp hnode
  simp only [Bool.and_eq_true, beq_iff_eq, bne_iff_ne] at hv
  obtain ⟨⟨hsubject, hunmet⟩, hmet⟩ := hv
  exact ⟨set, m, v, hset, hm, hsubject, _,
    (requirements_met_isLeast (p := ⟨m, QueryGraph.ofSubgraphs set m, []⟩)
      (arePlain_requirements hplain)).1, hunmet, hmet⟩

end Federation
