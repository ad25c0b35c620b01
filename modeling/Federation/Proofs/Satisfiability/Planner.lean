import Federation.Proofs.Reachability
import Federation.Satisfiability.Walk

/-!
# More nodes lead to more nodes

Whatever a planner can get to from some nodes, by keys, by a field or by narrowing, it can get to
from more nodes. The answers are in one form: nodes of the graph, each once and in its order.

Nodes do not depend on each other either. Both steps go to all nodes that keys lead to, and from
each of these to what it leads to. The nodes that keys lead to are found from one of the starts
each, so a step distributes over the nodes, and so does a path of steps. What is asked of a node for
a field, its requirements included, does not matter to this.
-/

namespace Federation

namespace Planner

variable {p : Planner} {nodes nodes' : List NodeId}

/-! ## The form of answers -/

theorem mem_options {node : NodeId} :
    node ∈ p.options nodes ↔ node ∈ p.graph.ids ∧ node ∈ nodes := by
  rw [options, List.mem_filter, List.contains_iff_mem]

theorem sublist_options (p : Planner) (nodes : List NodeId) :
    (p.options nodes).Sublist p.graph.ids :=
  List.filter_sublist

/-- A field leads to nodes of the graph in its order. -/
theorem sublist_advance (p : Planner) (nodes : List NodeId) (field : String) :
    (p.advance nodes field).Sublist p.graph.ids :=
  sublist_options p _

/-- Narrowing leads to nodes of the graph in its order. -/
theorem sublist_advanceToType (p : Planner) (nodes : List NodeId) (typeName : String) :
    (p.advanceToType nodes typeName).Sublist p.graph.ids :=
  sublist_options p _

/-! ## Monotony -/

theorem options_mono (h : nodes ⊆ nodes') : p.options nodes ⊆ p.options nodes' := by
  intro node hnode
  rw [mem_options] at *
  exact ⟨hnode.1, h hnode.2⟩

/-- Keys lead from more nodes to more nodes. -/
theorem withKeyMoves_mono (h : nodes ⊆ nodes') : p.withKeyMoves nodes ⊆ p.withKeyMoves nodes' :=
  Reachability.closure_mono h

/-- What each node reached by keys leads to is more for more nodes. -/
theorem options_flatMap_mono (next : NodeId → List NodeId) (h : nodes ⊆ nodes') :
    p.options ((p.withKeyMoves nodes).flatMap next) ⊆
      p.options ((p.withKeyMoves nodes').flatMap next) := by
  refine options_mono fun node hnode => ?_
  obtain ⟨source, hsource, hnode⟩ := List.mem_flatMap.mp hnode
  exact List.mem_flatMap.mpr ⟨source, withKeyMoves_mono h hsource, hnode⟩

/-- A field leads from more nodes to more nodes. -/
theorem advance_mono (h : nodes ⊆ nodes') (field : String) :
    p.advance nodes field ⊆ p.advance nodes' field :=
  options_flatMap_mono _ h

/-- Narrowing leads from more nodes to more nodes. -/
theorem advanceToType_mono (h : nodes ⊆ nodes') (typeName : String) :
    p.advanceToType nodes typeName ⊆ p.advanceToType nodes' typeName :=
  options_flatMap_mono _ h

/-! ## Independence -/

theorem subset_withKeyMoves : nodes ⊆ p.withKeyMoves nodes :=
  Reachability.subset_closure

/-- Keys lead nowhere else from where keys lead. -/
theorem withKeyMoves_withKeyMoves :
    p.withKeyMoves (p.withKeyMoves nodes) = p.withKeyMoves nodes :=
  Reachability.closure_closure

/-- No node is listed twice for where keys lead from it. -/
theorem nodup_withKeyMoves_iff : (p.withKeyMoves nodes).Nodup ↔ nodes.Nodup :=
  Reachability.nodup_closure_iff List.nodup_range

/-- Lists with the same nodes of the graph are one choice of nodes. -/
theorem options_congr (h : ∀ node ∈ p.graph.ids, node ∈ nodes ↔ node ∈ nodes') :
    p.options nodes = p.options nodes' := by
  refine List.filter_congr fun node hnode => ?_
  rw [Bool.eq_iff_iff, List.contains_iff_mem, List.contains_iff_mem]
  exact h node hnode

/-- What the nodes reached by keys lead to, one of the starts leads to. -/
theorem mem_options_flatMap_iff_exists (next : NodeId → List NodeId) {node : NodeId} :
    node ∈ p.options ((p.withKeyMoves nodes).flatMap next) ↔
      ∃ start ∈ nodes, node ∈ p.options ((p.withKeyMoves [start]).flatMap next) := by
  simp only [mem_options, List.mem_flatMap]
  constructor
  · rintro ⟨hid, source, hsource, hnode⟩
    obtain ⟨start, hstart, hreached⟩ := Reachability.mem_closure_iff_exists.mp hsource
    exact ⟨start, hstart, hid, source, hreached, hnode⟩
  · rintro ⟨start, hstart, hid, source, hreached, hnode⟩
    have hsource := Reachability.mem_closure_iff_exists.mpr ⟨start, hstart, hreached⟩
    exact ⟨hid, source, hsource, hnode⟩

end Planner

namespace Walker

variable {w : Walker} {nodes nodes' : List NodeId}

/-- Both kinds of steps are in one form. -/
theorem exists_advance_eq (w : Walker) (move : ApiMove) : ∃ next : NodeId → List NodeId,
    ∀ nodes, w.advance nodes move =
      w.planner.options ((w.planner.withKeyMoves nodes).flatMap next) := by
  cases move with
  | field name target => exact ⟨_, fun _ => rfl⟩
  | narrow typeName => exact ⟨_, fun _ => rfl⟩

/-- A step leads from some nodes to what it leads to from one of them. -/
theorem mem_advance_iff_exists {move : ApiMove} {node : NodeId} :
    node ∈ w.advance nodes move ↔ ∃ start ∈ nodes, node ∈ w.advance [start] move := by
  obtain ⟨next, hnext⟩ := w.exists_advance_eq move
  simp only [hnext]
  exact Planner.mem_options_flatMap_iff_exists next

/-- A step leads to some nodes of the graph in its order, so it is a choice of nodes. -/
theorem options_advance (move : ApiMove) :
    w.planner.options (w.advance nodes move) = w.advance nodes move := by
  obtain ⟨next, hnext⟩ := w.exists_advance_eq move
  rw [hnext]
  refine Planner.options_congr fun node hnode => ?_
  rw [Planner.mem_options]
  exact and_iff_right hnode

/-- A step from more nodes leads to what it leads to from each part of them. -/
theorem advance_append (move : ApiMove) :
    w.advance (nodes ++ nodes') move =
      w.planner.options (w.advance nodes move ++ w.advance nodes' move) := by
  rw [← options_advance]
  refine Planner.options_congr fun node _ => ?_
  rw [List.mem_append, mem_advance_iff_exists, @mem_advance_iff_exists w nodes,
    @mem_advance_iff_exists w nodes']
  simp only [List.mem_append, or_and_right, exists_or]

/-- It does not matter to a step whether the keys are followed before. -/
theorem advance_withKeyMoves (move : ApiMove) :
    w.advance (w.planner.withKeyMoves nodes) move = w.advance nodes move := by
  obtain ⟨next, hnext⟩ := w.exists_advance_eq move
  rw [hnext, hnext, Planner.withKeyMoves_withKeyMoves]

/-- A path of steps leads from some nodes to what it leads to from one of them. -/
theorem mem_foldl_advance_iff_exists {moves : List ApiMove} {node : NodeId} :
    node ∈ moves.foldl w.advance nodes ↔
      ∃ start ∈ nodes, node ∈ moves.foldl w.advance [start] := by
  induction moves generalizing nodes with
  | nil => simp
  | cons move moves ih =>
    simp only [List.foldl_cons]
    constructor
    · intro h
      obtain ⟨middle, hmiddle, hnode⟩ := ih.mp h
      obtain ⟨start, hstart, hfirst⟩ := mem_advance_iff_exists.mp hmiddle
      exact ⟨start, hstart, ih.mpr ⟨middle, hfirst, hnode⟩⟩
    · rintro ⟨start, hstart, h⟩
      obtain ⟨middle, hfirst, hnode⟩ := ih.mp h
      exact ih.mpr ⟨middle, mem_advance_iff_exists.mpr ⟨start, hstart, hfirst⟩, hnode⟩

/-- **Options are independent of each other**: the nodes that keys lead to are a closure that lists
no node twice, a step distributes over the nodes and does not ask whether keys were followed before,
and a path of steps leads to what it leads to from each node alone. -/
theorem options_are_independent (w : Walker) (nodes nodes' : List NodeId) :
    (nodes ⊆ w.planner.withKeyMoves nodes ∧
      (nodes ⊆ nodes' → w.planner.withKeyMoves nodes ⊆ w.planner.withKeyMoves nodes') ∧
      w.planner.withKeyMoves (w.planner.withKeyMoves nodes) = w.planner.withKeyMoves nodes ∧
      ((w.planner.withKeyMoves nodes).Nodup ↔ nodes.Nodup)) ∧
    (∀ move : ApiMove,
      w.advance (nodes ++ nodes') move =
        w.planner.options (w.advance nodes move ++ w.advance nodes' move) ∧
      w.advance (w.planner.withKeyMoves nodes) move = w.advance nodes move) ∧
    ∀ (moves : List ApiMove) (node : NodeId),
      node ∈ moves.foldl w.advance nodes ↔
        ∃ start ∈ nodes, node ∈ moves.foldl w.advance [start] := by
  refine ⟨⟨?_, ?_, ?_, ?_⟩, fun move => ⟨?_, ?_⟩, fun moves node => ?_⟩
  · exact Planner.subset_withKeyMoves
  · exact Planner.withKeyMoves_mono
  · exact Planner.withKeyMoves_withKeyMoves
  · exact Planner.nodup_withKeyMoves_iff
  · exact advance_append move
  · exact advance_withKeyMoves move
  · exact mem_foldl_advance_iff_exists

/-- Two nodes of an entity with keys between them, where only the second has the field. -/
def keyedPair : Walker where
  api := { types := [] }
  planner :=
    { merged := {}
      graph :=
        { nodes := #[
            { typeName := "T", subgraph := 0, edges := [{ move := .entity default, tail := 1 }] },
            { typeName := "T"
              subgraph := 1
              edges := [
                { move := .entity default, tail := 0 },
                { move := .field "f" none false, tail := 2 }] },
            { typeName := "U", subgraph := 1 }] }
      activeLabels := [] }
  nameOf := fun _ => ""

theorem options_are_independent_of_keyedPair :
    [0] ⊆ [0, 1] ∧ keyedPair.planner.withKeyMoves [0] ⊆ keyedPair.planner.withKeyMoves [0, 1] ∧
      keyedPair.advance [0] (.field "f" "U") = [2] := by
  have h : [0] ⊆ [0, 1] := by decide
  refine ⟨h, (keyedPair.options_are_independent [0] [0, 1]).1.2.1 h, ?_⟩
  cbv

end Walker

end Federation
