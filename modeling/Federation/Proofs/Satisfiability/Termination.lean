import Federation.Proofs.QueryGraph.Construction
import Federation.Proofs.Satisfiability.Reports
import Federation.Proofs.Satisfiability.Requirements

/-!
# Satisfiability ends

Requirements are asked for by way of other requirements, and a walk comes back to the same types again
and again. Neither goes on forever. A field that waits for its requirements is not asked again, and
there are only so many fields that edges resolve; a place that was visited is covered from then on, and
there are only so many places. The depth and the number of visits with which the planner and the walks
are defined are never used up.
-/

namespace Federation

/-! ## Requirements -/

namespace Planner

variable {p : Planner}

/-- A question that comes up while it is found out whether the requirements of a field are met. -/
inductive Question
  | outcome (node : NodeId) (field : String)
  | advance (nodes : List NodeId) (field : String)
  | resolves (nodes : List NodeId) (selections : List Selection)

/-- To answer a question, while some fields wait for their requirements, another one is asked. What is
selected below a field is asked for the nodes that the field leads to; these depend on answers, so that
any nodes are allowed for here. -/
inductive Asks (p : Planner) :
    List (NodeId × String) × Question → List (NodeId × String) × Question → Prop
  | requirements {waiting : List (NodeId × String)} {node : NodeId} {field : String}
      (hrequired : p.requirements node field ≠ []) (hwaiting : (node, field) ∉ waiting)
      (hresume : p.canResume node = true) :
      Asks p (waiting, .outcome node field)
        ((node, field) :: waiting, .resolves [node] (p.requirements node field))
  | edge {waiting : List (NodeId × String)} {nodes : List NodeId} {node : NodeId} {field : String}
      {e : Edge} {condition : Option LabelCondition} (hnode : node ∈ p.withKeyMoves nodes)
      (he : e ∈ p.graph.edges node) (hmove : e.move = .field field condition false)
      (hallows : p.allows condition = true) :
      Asks p (waiting, .advance nodes field) (waiting, .outcome node field)
  | field {waiting : List (NodeId × String)} {nodes : List NodeId} {name : String}
      {arguments : List (String × Value)} {below others : List Selection} :
      Asks p (waiting, .resolves nodes (.field name arguments below :: others))
        (waiting, .advance nodes name)
  | below {waiting : List (NodeId × String)} {nodes next : List NodeId} {name : String}
      {arguments : List (String × Value)} {below others : List Selection} :
      Asks p (waiting, .resolves nodes (.field name arguments below :: others))
        (waiting, .resolves next below)
  | narrowed {waiting : List (NodeId × String)} {nodes : List NodeId} {condition : String}
      {below others : List Selection} :
      Asks p (waiting, .resolves nodes (.inlineFragment condition below :: others))
        (waiting, .resolves (p.advanceToType nodes condition) below)
  | others {waiting : List (NodeId × String)} {nodes : List NodeId} {first : Selection}
      {others : List Selection} :
      Asks p (waiting, .resolves nodes (first :: others)) (waiting, .resolves nodes others)

/-- The fields that edges resolve and that do not wait. -/
def idle (p : Planner) (waiting : List (NodeId × String)) : Finset (NodeId × String) :=
  p.resolvedFieldsList.toFinset.filter (· ∉ waiting)

/-- A bound on how many fields may come to wait before a field has its answer. A field that no edge
resolves is never asked for on the way. -/
def depthOf (p : Planner) (waiting : List (NodeId × String)) (node : NodeId) (field : String) : Nat :=
  (p.idle waiting).card + if (node, field) ∈ p.resolvedFieldsList then 0 else 1

theorem card_idle_le (p : Planner) (waiting : List (NodeId × String)) :
    (p.idle waiting).card ≤ p.graph.edgeCount :=
  calc (p.idle waiting).card
      ≤ p.resolvedFieldsList.toFinset.card := Finset.card_filter_le _ _
    _ ≤ p.resolvedFieldsList.length := List.toFinset_card_le _
    _ ≤ p.graph.edgeCount := p.length_resolvedFieldsList_le

/-- Once a field waits, the questions that come up next are less deep. -/
theorem card_idle_lt_depthOf {waiting : List (NodeId × String)} {node : NodeId} {field : String}
    (h : (node, field) ∉ waiting) :
    (p.idle ((node, field) :: waiting)).card < p.depthOf waiting node field := by
  have hsub : p.idle ((node, field) :: waiting) ⊆ p.idle waiting := by
    intro x hx
    obtain ⟨hx, hwaits⟩ := Finset.mem_filter.mp hx
    exact Finset.mem_filter.mpr ⟨hx, fun hmem => hwaits (List.mem_cons_of_mem _ hmem)⟩
  unfold depthOf
  split_ifs with hresolved
  · -- the field itself is idle no more
    refine Finset.card_lt_card (Finset.ssubset_iff_subset_ne.mpr ⟨hsub, fun heq => ?_⟩)
    have hmem : (node, field) ∈ p.idle waiting :=
      Finset.mem_filter.mpr ⟨List.mem_toFinset.mpr hresolved, h⟩
    rw [← heq] at hmem
    exact (Finset.mem_filter.mp hmem).2 List.mem_cons_self
  · exact Nat.lt_succ_of_le (Finset.card_le_card hsub)

/-- A field of an edge is one of the resolved fields. -/
theorem mem_resolvedFieldsList {node : NodeId} {field : String} {e : Edge}
    (he : e ∈ p.graph.edges node) (hresolves : e.resolves field = true) :
    (node, field) ∈ p.resolvedFieldsList :=
  List.mem_toFinset.mp (p.resolvedFields_subset ⟨e, he, hresolves⟩)

theorem depthOf_of_mem {waiting : List (NodeId × String)} {node : NodeId} {field : String}
    (h : (node, field) ∈ p.resolvedFieldsList) :
    p.depthOf waiting node field = (p.idle waiting).card := by
  rw [depthOf, if_pos h, Nat.add_zero]

/-- How far a question is from being answered: how many fields may come to wait, and then how much
there is to select. -/
noncomputable def Question.rank (p : Planner) (waiting : List (NodeId × String)) : Question → Nat × Nat
  | .outcome node field => (p.depthOf waiting node field, 0)
  | .advance _ _ => ((p.idle waiting).card, 1)
  | .resolves _ selections => ((p.idle waiting).card, 2 + sizeOf selections)

/-- **The recursion on requirements is well-founded**: there is no endless chain of questions. -/
theorem wellFounded_asks (p : Planner) :
    WellFounded fun asked asking : List (NodeId × String) × Question => p.Asks asking asked := by
  have hrank : WellFounded (InvImage (Prod.Lex (· < ·) (· < ·))
      fun q : List (NodeId × String) × Question => q.2.rank p q.1) :=
    InvImage.wf _ (wellFounded_lt.prod_lex wellFounded_lt)
  refine Subrelation.wf (fun {asked asking} hasks => ?_) hrank
  cases hasks with
  | requirements _ hwaiting _ => exact .left _ _ (card_idle_lt_depthOf hwaiting)
  | @edge waiting _ node field e _ _ he hmove _ =>
    have hresolves : e.resolves field = true := by simp [Edge.resolves, Move.fieldName?, hmove]
    show Prod.Lex _ _ (p.depthOf waiting node field, 0) _
    rw [depthOf_of_mem (mem_resolvedFieldsList he hresolves)]
    exact .right _ Nat.zero_lt_one
  | field => exact .right _ (by omega)
  | @below waiting _ _ name arguments below others =>
    refine .right _ ?_
    simp
    omega
  | @narrowed waiting _ condition below others =>
    refine .right _ ?_
    simp
    omega
  | others => exact .right _ (by simp)

/-! ### Answers without a depth -/

/-- Whether the requirements of a field are met, given the answers for those fields that are asked on
the way. -/
def outcomeBy (p : Planner) (answer : NodeId → String → Outcome) (waiting : List (NodeId × String))
    (node : NodeId) (field : String) : Outcome :=
  let requirements := p.requirements node field
  if requirements.isEmpty then .met
  else if waiting.contains (node, field) then .unmet
  else if !p.canResume node then .noWayBack
  else if p.resolves (fun n f => answer n f == .met) [node] requirements then .met else .unmet

/-- Answers that the recursion gives when nothing bounds its depth. -/
def IsRecursive (p : Planner)
    (answer : List (NodeId × String) → NodeId → String → Outcome) : Prop :=
  ∀ waiting node field, answer waiting node field =
    p.outcomeBy (answer ((node, field) :: waiting)) waiting node field

theorem outcomeWithin_succ (depth : Nat) (waiting : List (NodeId × String)) (node : NodeId)
    (field : String) : p.outcomeWithin (depth + 1) waiting node field =
      p.outcomeBy (p.outcomeWithin depth ((node, field) :: waiting)) waiting node field := by
  rw [outcomeWithin]
  rfl

/-- A field that waits has its answer at any depth. -/
theorem outcomeWithin_of_mem {waiting : List (NodeId × String)} {node : NodeId} {field : String}
    (h : (node, field) ∈ waiting) (depth : Nat) : p.outcomeWithin depth waiting node field =
      if (p.requirements node field).isEmpty then .met else .unmet := by
  cases depth <;> simp [outcomeWithin, h]

/-- The answers agree on the fields that edges resolve. -/
def AgreeOnEdges {α : Type} (p : Planner) (answer answer' : NodeId → String → α) : Prop :=
  ∀ node field, (node, field) ∈ p.resolvedFieldsList → answer node field = answer' node field

/-- Only the fields that edges resolve are asked for. -/
theorem AgreeOnEdges.advanceWhere {isMet isMet' : NodeId → String → Bool}
    (h : p.AgreeOnEdges isMet isMet') (nodes : List NodeId) (field : String) :
    p.advanceWhere isMet nodes field = p.advanceWhere isMet' nodes field := by
  have htake : ∀ node, (p.graph.edges node).filter (p.canTake isMet node field) =
      (p.graph.edges node).filter (p.canTake isMet' node field) := by
    refine fun node => List.filter_congr fun e he => ?_
    unfold canTake
    cases hmove : e.move with
    | field name condition isProvided =>
      have hresolves : e.resolves name = true := by simp [Edge.resolves, Move.fieldName?, hmove]
      dsimp only
      rw [h node name (mem_resolvedFieldsList he hresolves)]
    | entity | interfaceObject | narrow => rfl
  unfold Planner.advanceWhere
  simp only [htake]

mutual

theorem AgreeOnEdges.resolvesOne {isMet isMet' : NodeId → String → Bool}
    (h : p.AgreeOnEdges isMet isMet') (nodes : List NodeId) (selection : Selection) :
    p.resolvesOne isMet nodes selection = p.resolvesOne isMet' nodes selection := by
  cases selection with
  | field name arguments selections =>
    rw [Planner.resolvesOne, Planner.resolvesOne, h.advanceWhere, h.resolves _ selections]
  | inlineFragment condition selections =>
    rw [Planner.resolvesOne, Planner.resolvesOne, h.resolves _ selections]

theorem AgreeOnEdges.resolves {isMet isMet' : NodeId → String → Bool}
    (h : p.AgreeOnEdges isMet isMet') (nodes : List NodeId) (selections : List Selection) :
    p.resolves isMet nodes selections = p.resolves isMet' nodes selections := by
  cases selections with
  | nil => rfl
  | cons first others =>
    rw [Planner.resolves, Planner.resolves, h.resolvesOne nodes first, h.resolves nodes others]

end

/-- A field that waits for its requirements has its answer without further questions. -/
theorem outcomeBy_congr {answer answer' : NodeId → String → Outcome}
    {waiting : List (NodeId × String)} {node : NodeId} {field : String}
    (h : (node, field) ∉ waiting → p.AgreeOnEdges answer answer') :
    p.outcomeBy answer waiting node field = p.outcomeBy answer' waiting node field := by
  unfold outcomeBy
  dsimp only
  by_cases hwaits : (node, field) ∈ waiting
  · rw [if_pos (List.contains_iff_mem.mpr hwaits), if_pos (List.contains_iff_mem.mpr hwaits)]
  · have hmet : p.AgreeOnEdges (fun n f => answer n f == .met) fun n f => answer' n f == .met :=
      fun n f hmem => congrArg (· == Outcome.met) (h hwaits n f hmem)
    rw [hmet.resolves]

/-- Beyond the depth of a field, more depth makes no difference. -/
theorem outcomeWithin_eq {depth depth' : Nat} {waiting : List (NodeId × String)} {node : NodeId}
    {field : String} (hdepth : p.depthOf waiting node field ≤ depth)
    (hdepth' : p.depthOf waiting node field ≤ depth') :
    p.outcomeWithin depth waiting node field = p.outcomeWithin depth' waiting node field := by
  induction depth generalizing depth' waiting node field with
  | zero =>
    -- a field that does not wait would have some depth
    have hwaits : (node, field) ∈ waiting := by
      by_contra hwaits
      exact absurd (Nat.lt_of_lt_of_le (card_idle_lt_depthOf hwaits) hdepth) (Nat.not_lt_zero _)
    rw [outcomeWithin_of_mem hwaits, outcomeWithin_of_mem hwaits]
  | succ depth ih =>
    by_cases hwaits : (node, field) ∈ waiting
    · rw [outcomeWithin_of_mem hwaits, outcomeWithin_of_mem hwaits]
    have hless := card_idle_lt_depthOf (p := p) hwaits
    obtain ⟨depth', rfl⟩ := Nat.exists_eq_add_one_of_ne_zero (by omega : depth' ≠ 0)
    rw [outcomeWithin_succ, outcomeWithin_succ]
    refine outcomeBy_congr fun _ n f hmem => ih ?_ ?_
    · rw [depthOf_of_mem hmem]
      omega
    · rw [depthOf_of_mem hmem]
      omega

/-- With the depth that the planner takes, the answers are those without a bound. -/
theorem isRecursive_outcomeWithin (p : Planner) :
    p.IsRecursive (p.outcomeWithin (p.graph.edgeCount + 1)) := by
  intro waiting node field
  rw [outcomeWithin_succ]
  refine outcomeBy_congr fun _ n f hmem => outcomeWithin_eq ?_ ?_
  · rw [depthOf_of_mem hmem]
    exact p.card_idle_le _
  · rw [depthOf_of_mem hmem]
    exact (p.card_idle_le _).trans (Nat.le_succ _)

/-- No other answers are recursive. The induction is on the depth of a field. -/
theorem IsRecursive.eq {answer answer' : List (NodeId × String) → NodeId → String → Outcome}
    (h : p.IsRecursive answer) (h' : p.IsRecursive answer') : answer = answer' := by
  funext waiting node field
  induction hdepth : p.depthOf waiting node field using Nat.strong_induction_on
    generalizing waiting node field with
  | _ depth ih =>
    rw [h, h']
    refine outcomeBy_congr fun hwaits n f hmem => ih _ ?_ _ n f rfl
    rw [depthOf_of_mem hmem, ← hdepth]
    exact card_idle_lt_depthOf hwaits

end Planner

/-! ## Walks -/

namespace Walker

variable {w : Walker}

/-- Takes the state on top of the stack. It is left out if it is covered, and visited otherwise; then
the states that follow it lie on top. -/
def next? (w : Walker) (entry : Entry) :
    List WalkState × WalkProgress → Option (List WalkState × WalkProgress)
  | ([], _) => none
  | (state :: stack, p) =>
    if p.covers state then some (stack, p)
    else some (w.successors state ++ stack, w.visit entry state p)

/-- The places that were not visited yet. -/
def unvisited (w : Walker) (p : WalkProgress) : List (String × List NodeId) :=
  w.places.filter fun place => place ∉ p.visited

/-- There are no more of them than visits that a walk may make. -/
theorem length_unvisited_le (w : Walker) (p : WalkProgress) :
    (w.unvisited p).length ≤ w.visitBound :=
  (List.length_filter_le _ _).trans_eq w.length_places

/-- A visit to a state that is not covered is the first to its place. -/
theorem length_unvisited_visit_lt {p : WalkProgress} (entry : Entry) {state : WalkState}
    (hstate : state.place ∈ w.places) (hcovers : ¬ p.covers state = true) :
    (w.unvisited (w.visit entry state p)).length < (w.unvisited p).length := by
  have hvisited : ∀ place, place ∈ (w.visit entry state p).visited ↔
      place ∈ p.visited ∨ place = state.place := by
    intro place
    rw [visit, List.mem_append, List.mem_singleton]
    rfl
  have hfilter : w.unvisited (w.visit entry state p) =
      (w.unvisited p).filter fun place => place ≠ state.place := by
    rw [unvisited, unvisited, List.filter_filter]
    refine List.filter_congr fun place _ => ?_
    simp [hvisited, Bool.and_comm]
  have hnew : state.place ∉ p.visited := fun hmem => hcovers (WalkProgress.covers_of_mem hmem)
  rw [hfilter, List.length_filter_lt_length_iff_exists]
  exact ⟨state.place, List.mem_filter.mpr ⟨hstate, decide_eq_true hnew⟩, by simp⟩

/-- With as many visits left as there are places not visited yet, no state waits in the end. -/
theorem endsIn_walkWithin (h : w.WalksSchema) (entry : Entry) (visits : Nat)
    (stack : List WalkState) (p : WalkProgress) (hstack : ∀ state ∈ stack, state.place ∈ w.places)
    (hvisits : (w.unvisited p).length ≤ visits) :
    EndsIn (w.next? entry) (stack, p) ([], w.walkWithin entry visits stack p) := by
  induction visits, stack, p using walkWithin.induct w entry with
  | case1 visits p =>
    unfold walkWithin
    exact .refl rfl
  | case2 visits p state stack hcovers ih =>
    obtain ⟨-, hothers⟩ := List.forall_mem_cons.mp hstack
    rw [walkWithin_of_covers hcovers]
    exact .head (if_pos hcovers) (ih hothers hvisits)
  | case3 p state stack hcovers =>
    -- the state would be a place not visited yet
    have hless := length_unvisited_visit_lt entry (hstack state List.mem_cons_self) hcovers
    omega
  | case4 p state stack hcovers visits ih =>
    obtain ⟨hstate, hothers⟩ := List.forall_mem_cons.mp hstack
    have hless := length_unvisited_visit_lt entry hstate hcovers
    rw [walkWithin, if_neg hcovers]
    refine .head (if_neg hcovers) (ih ?_ (by omega))
    refine List.forall_mem_append.mpr ⟨fun next hnext => ?_, hothers⟩
    obtain ⟨move, hmove, hnil, hcomposite, hplace⟩ := place_mem_successors_iff.mp ⟨next, hnext, rfl⟩
    rw [hplace]
    exact h.isKept_places state.place _ hstate ⟨move, hmove, hnil, rfl⟩ hcomposite

end Walker

/-! ## Whole checks -/

namespace Satisfiability

/-- All that is done to check some subgraphs comes to an end, with what the check is defined by. -/
structure Ends (set : SubgraphSet) (merged : MergedSchema) : Prop where
  /-- The types of a subgraph are added, whatever the queue begins with. -/
  expand : ∀ (s : Draft.Source) (queue : List String) (e : Draft.Expansion),
    EndsIn (Draft.expandNext? s) (queue, e) ([], Draft.expand s queue e)
  /-- Subgraphs are joined, whatever moves they have. -/
  join : ∀ g : QueryGraph, EndsIn (Tasks.next? (QueryGraph.JoinTask.step set merged))
    (merged.types.map .type, g) ([], QueryGraph.joinSubgraphs set merged g)
  /-- All that fields provide is provided. -/
  provide : EndsIn (Tasks.next? (QueryGraph.ProvideTask.step merged))
    ((QueryGraph.draft set merged).provisions.map .provision,
      QueryGraph.joinSubgraphs set merged (QueryGraph.draft set merged).graph)
    ([], (Problem.of set merged).graph)
  /-- Requirements are not asked for endlessly. -/
  asks : ∀ labels, WellFounded fun asked asking =>
    ((Problem.of set merged).walker labels).planner.Asks asking asked
  /-- The recursion on requirements has one solution, which gives the planner its answers. -/
  answers : ∀ labels, ∃ answer,
    ((Problem.of set merged).walker labels).planner.IsRecursive answer ∧
      (∀ other, ((Problem.of set merged).walker labels).planner.IsRecursive other →
        other = answer) ∧
      answer [] = ((Problem.of set merged).walker labels).planner.outcome
  /-- A walk from a start takes all states from its stack, whatever was visited before. -/
  walk : ∀ labels, ∀ start ∈ (Problem.of set merged).starts, ∀ p,
    EndsIn (((Problem.of set merged).walker labels).next? start.entry) ([start.waiting.2], p)
      ([], ((Problem.of set merged).walker labels).walk start.entry start.typeName start.options p)

/-- **Satisfiability ends.** If some subgraphs can be merged, then the loops that make their query
graph end, the recursion on requirements is well-founded and has one solution, and all walks end, while
any labels are active. -/
theorem ends_of_ofSubgraphs {set : SubgraphSet} {merged : MergedSchema}
    (h : MergedSchema.ofSubgraphs set = .ok merged) : Ends set merged where
  expand := Draft.endsIn_expand
  join := QueryGraph.endsIn_joinSubgraphs set merged
  provide := QueryGraph.endsIn_ofSubgraphs set merged
  asks labels := Planner.wellFounded_asks _
  answers labels := by
    have hanswer := Planner.isRecursive_outcomeWithin ((Problem.of set merged).walker labels).planner
    exact ⟨_, hanswer, fun _ hother => hother.eq hanswer, rfl⟩
  walk labels start hstart p := by
    have hplace := Problem.place_mem_places labels hstart
    refine Walker.endsIn_walkWithin (Problem.walksSchema h labels) start.entry _ _ p ?_
      (Walker.length_unvisited_le _ p)
    exact fun state hstate => List.mem_singleton.mp hstate ▸ hplace

end Satisfiability

/-- A schema with types that lead to each other, keys that overlap, and provided fields below provided
fields. -/
def SchemaSource.circling : SchemaSource :=
  ⟨"type Query\x7bt:T@provides(fields:\"u\x7bt\x7bx\x7d\x7d\")\x7dtype U\x7bt:T\x7d" ++
      "type T@key(fields:\"id\")@key(fields:\"id y\")" ++
      "\x7bid:ID u:U x:ID@external y:ID@requires(fields:\"x\")\x7d",
    "a", none⟩

/-- A schema that resolves what the other one requires, and requires what the other one resolves. -/
def SchemaSource.opposite : SchemaSource :=
  ⟨"type T@key(fields:\"id\")@key(fields:\"id x\")\x7bid:ID y:ID@external x:ID@requires(fields:\"y\")\x7d",
    "b", none⟩

/-- Some subgraph requires other fields for the field. -/
def MergedField.isRequiring (field : MergedField) : Bool :=
  field.byGraph.any fun entry => entry.2.requires.isSome

theorem SchemaSource.merges_circling :
    ((SubgraphSet.ofSources [circling, opposite]).toOption.any fun set =>
      (MergedSchema.ofSubgraphs set).toOption.any fun merged =>
        ["x", "y"].all fun name => (merged.field? "T" name).any MergedField.isRequiring) = true := by
  rw [SubgraphSet.ofSources_eq_foldlM_insertSource]
  decide +kernel

/-- Types, requirements and provided fields that go in circles are a case of it. -/
theorem Satisfiability.ends_of_ofSubgraphs_of_circling :
    ∃ set merged, SubgraphSet.ofSources [.circling, .opposite] = .ok set ∧
      MergedSchema.ofSubgraphs set = .ok merged ∧
      (∀ name ∈ ["x", "y"], (merged.field? "T" name).any MergedField.isRequiring = true) ∧
      Ends set merged := by
  obtain ⟨set, hset, hmerges⟩ := exists_ok_of_any SchemaSource.merges_circling
  obtain ⟨merged, hm, hrequiring⟩ := exists_ok_of_any hmerges
  exact ⟨set, merged, hset, hm, List.all_eq_true.mp hrequiring, ends_of_ofSubgraphs hm⟩

end Federation
