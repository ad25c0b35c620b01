import Mathlib
import Federation.Proofs.Ingestion.Evaluation
import Federation.Proofs.Satisfiability.Check
import Federation.Proofs.Validation.Rules

/-!
# Labels that are active together

The check tries the labels of overrides one at a time. A planner looks at the label of an edge only
when it comes by the edge with the field to resolve, also on its way through what a field requires.
So a path does not tell apart sets of labels that agree on what is looked at along the path, and a
path that fails with several active labels, but with none of them alone, looks at two of them.
-/

namespace Federation

/-- Two sets of active labels agree on some labels. -/
def AgreeOn (labels active active' : List String) : Prop :=
  ∀ label ∈ labels, label ∈ active ↔ label ∈ active'

section

variable {labels labels' active active' : List String}

theorem AgreeOn.left (h : AgreeOn (labels ++ labels') active active') :
    AgreeOn labels active active' :=
  fun label hlabel => h label (List.mem_append_left _ hlabel)

theorem AgreeOn.right (h : AgreeOn (labels ++ labels') active active') :
    AgreeOn labels' active active' :=
  fun label hlabel => h label (List.mem_append_right _ hlabel)

/-- Sets that agree on all labels of some items agree on the labels of each. -/
theorem AgreeOn.of_mem {α : Type} {items : List α} {f : α → List String}
    (h : AgreeOn (items.flatMap f) active active') {item : α} (hitem : item ∈ items) :
    AgreeOn (f item) active active' :=
  fun label hlabel => h label (List.mem_flatMap.mpr ⟨item, hitem, hlabel⟩)

end

namespace Planner

/-! ## What is looked at -/

/-- The labels that are looked at to see if an edge resolves a field: that of the edge, and if the
edge is open those behind the requirements of the field. -/
def gates (p : Planner) (behind : NodeId → String → List String) (node : NodeId) (field : String)
    (e : Edge) : List String :=
  match e.move with
  | .field name condition isProvided =>
    if name == field then
      (condition.map LabelCondition.label).toList ++
        if p.allows condition && !isProvided then behind node name else []
    else []
  | _ => []

/-- The labels that are looked at to resolve a field, given those behind requirements. -/
def consultedWhere (p : Planner) (behind : NodeId → String → List String) (nodes : List NodeId)
    (field : String) : List String :=
  (p.withKeyMoves nodes).flatMap fun node => (p.graph.edges node).flatMap (p.gates behind node field)

mutual

/-- The labels that are looked at to see if a selection can be resolved. -/
def consultedByOne (p : Planner) (isMet : NodeId → String → Bool)
    (behind : NodeId → String → List String) (nodes : List NodeId) : Selection → List String
  | .field name _ selections =>
    p.consultedWhere behind nodes name ++
      consultedBy p isMet behind (p.advanceWhere isMet nodes name) selections
  | .inlineFragment condition selections =>
    consultedBy p isMet behind (p.advanceToType nodes condition) selections

/-- The labels that are looked at to see if all selections can be resolved. After one that cannot,
no other is tried. -/
def consultedBy (p : Planner) (isMet : NodeId → String → Bool)
    (behind : NodeId → String → List String) (nodes : List NodeId) : List Selection → List String
  | [] => []
  | first :: others =>
    consultedByOne p isMet behind nodes first ++
      if p.resolvesOne isMet nodes first then consultedBy p isMet behind nodes others else []

end

/-- The labels that are looked at to see if the requirements of a field are met. -/
def consultedWithin (p : Planner) (depth : Nat) (waiting : List (NodeId × String)) (node : NodeId)
    (field : String) : List String :=
  let requirements := p.requirements node field
  if requirements.isEmpty || waiting.contains (node, field) || !p.canResume node then []
  else
    match depth with
    | 0 => []
    | depth + 1 =>
      p.consultedBy (fun n f => p.outcomeWithin depth ((node, field) :: waiting) n f == .met)
        (p.consultedWithin depth ((node, field) :: waiting)) [node] requirements

/-- The labels that are looked at to resolve a field. -/
def consulted (p : Planner) (nodes : List NodeId) (field : String) : List String :=
  p.consultedWhere (p.consultedWithin (p.graph.edgeCount + 1) []) nodes field

/-! ## Other labels -/

/-- The planner while other labels are active. -/
def withLabels (p : Planner) (active : List String) : Planner :=
  { p with activeLabels := active }

section

variable {p : Planner} {active : List String} {isMet isMet' : NodeId → String → Bool}
  {behind : NodeId → String → List String} {node : NodeId} {nodes : List NodeId} {field : String}

theorem allows_withLabels {condition : Option LabelCondition}
    (h : AgreeOn (condition.map LabelCondition.label).toList p.activeLabels active) :
    (p.withLabels active).allows condition = p.allows condition := by
  cases condition with
  | none => rfl
  | some c =>
    have hlabel := h c.label (List.mem_singleton_self _)
    show c.holds active = c.holds p.activeLabels
    rw [LabelCondition.holds, LabelCondition.holds]
    congr 1
    rw [Bool.eq_iff_iff, List.contains_iff_mem, List.contains_iff_mem]
    exact hlabel.symm

/-- Labels that agree on the gates of an edge agree on the edge, if they agree on requirements as far
as they agree on what is behind them. -/
theorem canTake_withLabels
    (hmet : ∀ n f, AgreeOn (behind n f) p.activeLabels active → isMet' n f = isMet n f) {e : Edge}
    (h : AgreeOn (p.gates behind node field e) p.activeLabels active) :
    (p.withLabels active).canTake isMet' node field e = p.canTake isMet node field e := by
  unfold canTake
  unfold gates at h
  cases hmove : e.move with
  | field name condition isProvided =>
    rw [hmove] at h
    dsimp only at h ⊢
    cases hname : name == field with
    | false => rfl
    | true =>
      rw [if_pos hname] at h
      rw [allows_withLabels h.left]
      cases hallows : p.allows condition with
      | false => rfl
      | true =>
        cases isProvided with
        | true => rfl
        | false =>
          rw [hallows] at h
          rw [hmet node name h.right]
  | entity key => rfl
  | interfaceObject key => rfl
  | narrow => rfl

/-- Labels that agree on what is looked at to resolve a field lead to the same nodes. -/
theorem advanceWhere_withLabels
    (hmet : ∀ n f, AgreeOn (behind n f) p.activeLabels active → isMet' n f = isMet n f)
    (h : AgreeOn (p.consultedWhere behind nodes field) p.activeLabels active) :
    (p.withLabels active).advanceWhere isMet' nodes field = p.advanceWhere isMet nodes field := by
  refine congrArg p.options (List.flatMap_congr fun node hnode => congrArg (List.map Edge.tail) ?_)
  exact List.filter_congr fun e he => canTake_withLabels hmet ((h.of_mem hnode).of_mem he)

mutual

/-- Labels that agree on what is looked at agree on whether a selection can be resolved. -/
theorem resolvesOne_withLabels
    (hmet : ∀ n f, AgreeOn (behind n f) p.activeLabels active → isMet' n f = isMet n f)
    (nodes : List NodeId) (selection : Selection)
    (h : AgreeOn (p.consultedByOne isMet behind nodes selection) p.activeLabels active) :
    (p.withLabels active).resolvesOne isMet' nodes selection =
      p.resolvesOne isMet nodes selection := by
  cases selection with
  | field name arguments selections =>
    rw [consultedByOne] at h
    rw [resolvesOne, resolvesOne, advanceWhere_withLabels hmet h.left,
      resolves_withLabels hmet _ selections h.right]
  | inlineFragment condition selections =>
    rw [consultedByOne] at h
    have hrest := resolves_withLabels hmet _ selections h
    rw [resolvesOne, resolvesOne]
    exact congrArg ((p.advanceToType nodes condition).isEmpty || ·) hrest

/-- Labels that agree on what is looked at agree on whether all selections can be resolved. -/
theorem resolves_withLabels
    (hmet : ∀ n f, AgreeOn (behind n f) p.activeLabels active → isMet' n f = isMet n f)
    (nodes : List NodeId) (selections : List Selection)
    (h : AgreeOn (p.consultedBy isMet behind nodes selections) p.activeLabels active) :
    (p.withLabels active).resolves isMet' nodes selections = p.resolves isMet nodes selections := by
  cases selections with
  | nil => rw [resolves, resolves]
  | cons first others =>
    rw [consultedBy] at h
    rw [resolves, resolves, resolvesOne_withLabels hmet nodes first h.left]
    cases hfirst : p.resolvesOne isMet nodes first with
    | false => rfl
    | true =>
      rw [if_pos hfirst] at h
      rw [resolves_withLabels hmet nodes others h.right]

end

/-- Labels that agree on what is looked at agree on requirements. The induction is on how deep
requirements are nested. -/
theorem outcomeWithin_withLabels (depth : Nat) (waiting : List (NodeId × String)) (node : NodeId)
    (field : String)
    (h : AgreeOn (p.consultedWithin depth waiting node field) p.activeLabels active) :
    (p.withLabels active).outcomeWithin depth waiting node field =
      p.outcomeWithin depth waiting node field := by
  induction depth generalizing waiting node field with
  | zero =>
    rw [outcomeWithin, outcomeWithin]
    rfl
  | succ depth ih =>
    rw [consultedWithin] at h
    rw [outcomeWithin, outcomeWithin]
    show (if (p.requirements node field).isEmpty then _
      else if waiting.contains (node, field) then _ else if !p.canResume node then _ else _) = _
    dsimp only at h ⊢
    by_cases hempty : (p.requirements node field).isEmpty = true
    · rw [if_pos hempty, if_pos hempty]
    by_cases hwaits : waiting.contains (node, field) = true
    · rw [if_neg hempty, if_pos hwaits, if_neg hempty, if_pos hwaits]
    by_cases hresume : (!p.canResume node) = true
    · rw [if_neg hempty, if_neg hwaits, if_pos hresume, if_neg hempty, if_neg hwaits,
        if_pos hresume]
    rw [if_neg (by simpa [hempty, hresume] using hwaits)] at h
    rw [if_neg hempty, if_neg hwaits, if_neg hresume, if_neg hempty, if_neg hwaits,
      if_neg hresume]
    have hresolves := resolves_withLabels
      (fun n f hbehind => congrArg (· == .met) (ih ((node, field) :: waiting) n f hbehind)) _ _ h
    show (if (p.withLabels active).resolves _ [node] (p.requirements node field) then _ else _) = _
    rw [hresolves]

/-- Labels that agree on what is looked at to resolve a field lead to the same nodes. -/
theorem advance_withLabels (h : AgreeOn (p.consulted nodes field) p.activeLabels active) :
    (p.withLabels active).advance nodes field = p.advance nodes field :=
  advanceWhere_withLabels
    (fun n f hbehind => congrArg (· == .met) (outcomeWithin_withLabels _ [] n f hbehind)) h

end

end Planner

/-! ## Paths -/

namespace Walker

/-- The labels that are looked at for a step. Narrowing looks at none. -/
def consultedFor (w : Walker) (options : List NodeId) : ApiMove → List String
  | .field name _ => w.planner.consulted options name
  | .narrow _ => []

/-- The labels that are looked at along a path. -/
def consulted (w : Walker) (options : List NodeId) : List ApiMove → List String
  | [] => []
  | move :: rest => w.consultedFor options move ++ w.consulted (w.advance options move) rest

/-- Two labels that are active are looked at along a path. -/
def MixesLabels (w : Walker) (options : List NodeId) (path : List ApiMove) : Prop :=
  ∃ first ∈ w.consulted options path, ∃ second ∈ w.consulted options path,
    first ≠ second ∧ first ∈ w.planner.activeLabels ∧ second ∈ w.planner.activeLabels

end Walker

namespace Satisfiability.Problem

variable {p : Problem} {active active' : List String}

/-- A step leads to the same nodes with other labels, if they agree on what is looked at for it. -/
theorem advance_of_agreeOn {options : List NodeId} {move : ApiMove}
    (hagree : AgreeOn ((p.walker active).consultedFor options move) active active') :
    (p.walker active').advance options move = (p.walker active).advance options move := by
  cases move with
  | field name target =>
    show ((p.walker active).planner.withLabels active').advance options name = _
    exact Planner.advance_withLabels (p := (p.walker active).planner) hagree
  | narrow typeName => rfl

/-- A path that fails also fails with other labels, if they agree on what is looked at along it. -/
theorem fails_of_agreeOn {path : List ApiMove} {typeName : String} {options : List NodeId}
    (hagree : AgreeOn ((p.walker active).consulted options path) active active')
    (h : (p.walker active).Fails typeName options path) :
    (p.walker active').Fails typeName options path := by
  induction path generalizing typeName options with
  | nil => exact absurd h Walker.not_fails_nil
  | cons move rest ih =>
    obtain ⟨hmove, h⟩ := Walker.fails_cons.mp h
    refine Walker.fails_cons.mpr ⟨hmove, ?_⟩
    rw [advance_of_agreeOn hagree.left]
    by_cases hnil : (p.walker active).advance options move = []
    · rw [if_pos hnil] at h ⊢
      exact h
    · rw [if_neg hnil] at h ⊢
      exact ih hagree.right h

/-- Unless two labels that are active are among some labels, one of the sets that are tried agrees on
them. -/
theorem exists_labelState_agreeOn {labels : List String}
    (hactive : active ⊆ QueryGraph.labelsOf p.set p.merged)
    (h : ∀ first ∈ labels, ∀ second ∈ labels, first ∈ active → second ∈ active → first = second) :
    ∃ state ∈ p.labelStates, AgreeOn labels active state := by
  by_cases hsome : ∃ label ∈ labels, label ∈ active
  · obtain ⟨label, hlabel, hin⟩ := hsome
    refine ⟨[label], List.mem_cons_of_mem _ (List.mem_map_of_mem (hactive hin)), ?_⟩
    intro other hother
    rw [List.mem_singleton]
    constructor
    · exact fun hmem => h other hother label hlabel hmem hin
    · rintro rfl
      exact hin
  · refine ⟨[], List.mem_cons_self, fun label hlabel => ?_⟩
    constructor
    · exact fun hmem => absurd ⟨label, hlabel, hmem⟩ hsome
    · exact fun hmem => absurd hmem List.not_mem_nil

/-- A path that fails fails with a set of labels that is tried, or it mixes labels. -/
theorem mixesLabels_or_unsatisfiable (hactive : active ⊆ QueryGraph.labelsOf p.set p.merged)
    {start : Start} (hstart : start ∈ p.starts) {path : List ApiMove}
    (h : (p.walker active).Fails start.typeName start.options path) :
    (p.walker active).MixesLabels start.options path ∨
      ∃ state ∈ p.labelStates, p.Unsatisfiable state path := by
  by_cases hmix : (p.walker active).MixesLabels start.options path
  · exact Or.inl hmix
  · right
    have hsame : ∀ first ∈ (p.walker active).consulted start.options path,
        ∀ second ∈ (p.walker active).consulted start.options path,
          first ∈ active → second ∈ active → first = second :=
      fun first hfirst second hsecond hin hin' =>
        by_contra fun hne => hmix ⟨first, hfirst, second, hsecond, hne, hin, hin'⟩
    obtain ⟨state, hstate, hagree⟩ := exists_labelState_agreeOn hactive hsame
    exact ⟨state, hstate, start, hstart, fails_of_agreeOn hagree h⟩

variable {set : SubgraphSet} {merged : MergedSchema}

/-- The walks with some labels report a field exactly if they have a message. -/
theorem messages_walkWith_ne_nil_iff (h : MergedSchema.ofSubgraphs set = .ok merged) :
    ((Problem.of set merged).walkWith {} active).messages ≠ [] ↔
      ((Problem.of set merged).walkWith {} active).failed ≠ [] := by
  obtain ⟨q, hrun, hq⟩ := run_walkWith h {} active
  rw [← hq, ← List.length_pos_iff, ← List.length_pos_iff, hrun.length_messages rfl]

/-- If the walks with some labels report nothing, no path fails of those that are kept. -/
theorem not_unsatisfiable_of_messages (h : MergedSchema.ofSubgraphs set = .ok merged)
    (hquiet : ((Problem.of set merged).walkWith {} active).messages = [])
    {P : List ApiMove → Prop} (hP : ∀ move rest, P (move :: rest) → P rest)
    (hkept : (Problem.of set merged).KeepsFailures active P) {path : List ApiMove}
    (hpath : P path) : ¬ (Problem.of set merged).Unsatisfiable active path := by
  intro hfails
  obtain ⟨q, hrun, hq⟩ := run_walkWith h {} active
  have hfailed := failed_ne_nil_of_unsatisfiable (walksSchema h active) hrun hP hkept hpath hfails
  rw [hq] at hfailed
  exact (messages_walkWith_ne_nil_iff h).mpr hfailed hquiet

/-- If the walks report nothing with any set of labels that is tried, a path that fails with other
labels mixes them, if it is one of those that are kept. -/
theorem mixesLabels_of_fails (h : MergedSchema.ofSubgraphs set = .ok merged)
    (hquiet : ∀ labels ∈ (Problem.of set merged).labelStates,
      ((Problem.of set merged).walkWith {} labels).messages = [])
    (hactive : active ⊆ QueryGraph.labelsOf set merged)
    {P : List ApiMove → Prop} (hP : ∀ move rest, P (move :: rest) → P rest)
    (hkept : ∀ labels ∈ (Problem.of set merged).labelStates,
      (Problem.of set merged).KeepsFailures labels P)
    {start : Start} (hstart : start ∈ (Problem.of set merged).starts) {path : List ApiMove}
    (hpath : P path)
    (hfails : ((Problem.of set merged).walker active).Fails start.typeName start.options path) :
    ((Problem.of set merged).walker active).MixesLabels start.options path := by
  refine (mixesLabels_or_unsatisfiable hactive hstart hfails).resolve_right ?_
  rintro ⟨state, hstate, hunsatisfiable⟩
  exact not_unsatisfiable_of_messages h (hquiet state hstate) hP (hkept state hstate) hpath
    hunsatisfiable

end Satisfiability.Problem

namespace Satisfiability

/-- **When one label at a time is enough.** Suppose that the walks find nothing while no label is
active, and while each label is active alone. Then a path of fields that fails while any set of
labels is active looks at two labels of this set: where only one of them decides which edges can be
taken, nothing fails. As long as fewer nodes cut off no path on which more nodes fail, this holds for
all paths, and the walks with the set find something only if a path fails that looks at two of its
labels. -/
theorem labels_fail_together_only_where_they_mix {set : SubgraphSet} {merged : MergedSchema}
    (h : MergedSchema.ofSubgraphs set = .ok merged)
    (hquiet : ∀ labels ∈ (Problem.of set merged).labelStates,
      ((Problem.of set merged).walkWith {} labels).messages = [])
    {active : List String} (hactive : active ⊆ QueryGraph.labelsOf set merged) :
    (∀ start ∈ (Problem.of set merged).starts, ∀ path : List ApiMove,
      (∀ move ∈ path, move.isField = true) →
      ((Problem.of set merged).walker active).Fails start.typeName start.options path →
      ((Problem.of set merged).walker active).MixesLabels start.options path) ∧
    ((∀ labels ∈ (Problem.of set merged).labelStates,
        (Problem.of set merged).KeepsFailures labels fun _ => True) →
      (∀ start ∈ (Problem.of set merged).starts, ∀ path,
        ((Problem.of set merged).walker active).Fails start.typeName start.options path →
        ((Problem.of set merged).walker active).MixesLabels start.options path) ∧
      (((Problem.of set merged).walkWith {} active).messages ≠ [] →
        ∃ start ∈ (Problem.of set merged).starts, ∃ path,
          ((Problem.of set merged).walker active).Fails start.typeName start.options path ∧
          ((Problem.of set merged).walker active).MixesLabels start.options path)) := by
  constructor
  · intro start hstart path hfields hfails
    exact Problem.mixesLabels_of_fails h hquiet hactive
      (fun _ _ hpath move hmove => hpath move (List.mem_cons_of_mem _ hmove))
      (fun labels _ => Problem.keepsFailures_of_fields _ labels) hstart hfields hfails
  · intro hkept
    have hmixes : ∀ start ∈ (Problem.of set merged).starts, ∀ path,
        ((Problem.of set merged).walker active).Fails start.typeName start.options path →
        ((Problem.of set merged).walker active).MixesLabels start.options path :=
      fun start hstart path hfails =>
        Problem.mixesLabels_of_fails h hquiet hactive (fun _ _ => id) hkept hstart trivial hfails
    refine ⟨hmixes, fun hne => ?_⟩
    obtain ⟨q, hrun, hq⟩ := Problem.run_walkWith h {} active
    obtain ⟨x, hx⟩ := List.exists_mem_of_ne_nil _ ((Problem.messages_walkWith_ne_nil_iff h).mp hne)
    rw [← hq] at hx
    obtain ⟨path, start, hstart, hfails⟩ :=
      (Problem.exists_unsatisfiable_of_mem_failed hrun hx).resolve_left List.not_mem_nil
    exact ⟨start, hstart, path, hfails, hmixes start hstart path hfails⟩

/-- Three schemas. The field that leads to a type moves with one label, and the field of the type with
another. -/
def relocatedSources : List SchemaSource :=
  [⟨"type Query\x7bx:T\x7dtype T\x7by:ID\x7d", "a", none⟩,
    ⟨"type Query\x7bx:T@override(from:\"a\",label:\"l\")\x7dtype T\x7by:ID\x7d", "b", none⟩,
    ⟨"type T\x7by:ID@override(from:\"b\",label:\"m\")\x7d", "c", none⟩]

theorem validates_relocated :
    ((SubgraphSet.ofSources relocatedSources).toOption.any fun set =>
      (MergedSchema.ofSubgraphs set).toOption.any fun merged =>
        !(set.diagnostics ++ Validation.validate { set, merged }).anyFatal) = true := by
  decide +kernel

/-- The path with both fields fails while both labels are active. -/
theorem walks_relocated :
    ((SubgraphSet.ofSources relocatedSources).toOption.any fun set =>
      (MergedSchema.ofSubgraphs set).toOption.any fun merged =>
        ((Problem.of set merged).labelStates.all fun labels =>
          ((Problem.of set merged).walkWith {} labels).messages.isEmpty) &&
        (QueryGraph.labelsOf set merged == ["l", "m"] &&
          ((Problem.of set merged).api.types.all fun t => t.moves.all ApiMove.isField) &&
          (Problem.of set merged).starts.any fun start =>
            ((Problem.of set merged).walker ["l", "m"]).stops true start.typeName start.options
              [.field "x" "T", .field "y" "ID"])) = true := by
  cbv

/-- What the three schemas make. -/
theorem exists_relocated :
    ∃ set merged, SubgraphSet.ofSources relocatedSources = .ok set ∧
      MergedSchema.ofSubgraphs set = .ok merged ∧
      (set.diagnostics ++ Validation.validate { set, merged }).anyFatal = false ∧
      (∀ labels ∈ (Problem.of set merged).labelStates,
        ((Problem.of set merged).walkWith {} labels).messages = []) ∧
      ["l", "m"] ⊆ QueryGraph.labelsOf set merged ∧
      (∀ labels P, (Problem.of set merged).KeepsFailures labels P) ∧
      (Problem.of set merged).Unsatisfiable ["l", "m"] [.field "x" "T", .field "y" "ID"] := by
  obtain ⟨set, hset, hmerges⟩ := exists_ok_of_any validates_relocated
  obtain ⟨merged, hmerged, hvalid⟩ := exists_ok_of_any hmerges
  have hwalks := walks_relocated
  rw [hset] at hwalks
  simp only [Except.toOption, Option.any_some, hmerged, Bool.and_eq_true, List.all_eq_true,
    List.any_eq_true, List.isEmpty_iff, beq_iff_eq] at hwalks
  obtain ⟨hquiet, ⟨hlabels, hfields⟩, start, hstart, hstops⟩ := hwalks
  refine ⟨set, merged, hset, hmerged, by simpa using hvalid, hquiet, ?_, fun labels P => ?_, start,
    hstart, hstops⟩
  · rw [hlabels]
    exact List.Subset.refl _
  · exact Problem.keepsFailures_of_fields_only labels P hfields

/-- With both labels the walks find something, and there a path fails that looks at both. -/
theorem relocated_fails_where_labels_mix :
    ∃ set merged, SubgraphSet.ofSources relocatedSources = .ok set ∧
      MergedSchema.ofSubgraphs set = .ok merged ∧
      ((Problem.of set merged).walkWith {} ["l", "m"]).messages ≠ [] ∧
      ∃ start ∈ (Problem.of set merged).starts, ∃ path,
        ((Problem.of set merged).walker ["l", "m"]).Fails start.typeName start.options path ∧
        ((Problem.of set merged).walker ["l", "m"]).MixesLabels start.options path := by
  obtain ⟨set, merged, hset, hmerged, -, hquiet, hactive, hkept, hfails⟩ := exists_relocated
  have hmessages : ((Problem.of set merged).walkWith {} ["l", "m"]).messages ≠ [] := fun hnone =>
    Problem.not_unsatisfiable_of_messages hmerged hnone (fun _ _ => id) (hkept _ fun _ => True)
      trivial hfails
  have hmixed := labels_fail_together_only_where_they_mix hmerged hquiet hactive
  exact ⟨set, merged, hset, hmerged, hmessages, (hmixed.2 fun labels _ => hkept labels _).2 hmessages⟩

/-- Nothing is found with no label and with each label alone, but with two labels. -/
theorem labels_may_fail_together :
    ¬ ∀ set merged, MergedSchema.ofSubgraphs set = .ok merged →
      (set.diagnostics ++ Validation.validate { set, merged }).anyFatal = false →
      (∀ labels ∈ (Problem.of set merged).labelStates,
        ((Problem.of set merged).walkWith {} labels).messages = []) →
      ∀ active, active ⊆ QueryGraph.labelsOf set merged →
        ((Problem.of set merged).walkWith {} active).messages = [] := by
  intro hclaim
  obtain ⟨set, merged, -, hmerged, hvalid, hquiet, hactive, hkept, hfails⟩ := exists_relocated
  have hnone := hclaim set merged hmerged hvalid hquiet _ hactive
  exact Problem.not_unsatisfiable_of_messages hmerged hnone (fun _ _ => id) (hkept _ fun _ => True)
    trivial hfails

end Satisfiability

end Federation
