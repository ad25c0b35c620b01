import Federation.Proofs.QueryGraph.Follow
import Federation.QueryGraph.Provides
import Mathlib.Logic.Relation

/-!
# Growing query graphs

Providing fields makes a query graph grow in three ways: a base node is added, a node gets an edge of
a field that it cannot resolve yet, or an edge is led to a copy of the node that it leads to. In each
of them nodes keep their types, edges lead to nodes of the types of their fields, and every node
that is new, unless it is bare, takes after a node of its type.
-/

namespace Federation

/-- What a subgraph says about a field of a type. -/
def MergedSchema.fieldIn? (m : MergedSchema) (typeName field : String) (id : SubgraphId) :
    Option FieldInGraph :=
  (m.field? typeName field).bind fun f => f.byGraph.get? id

/-! ## Types of nodes -/

/-- The edge fits a node: a field leads to a node of its type, and moves along fields and to possible
types stay inside the subgraph. -/
def Edge.Fits (merged : MergedSchema) (g : QueryGraph) (n : Node) (e : Edge) : Prop :=
  match e.move with
  | .field name _ _ => ∃ f w, merged.fieldIn? n.typeName name n.subgraph = some f ∧
      g.node? e.tail = some w ∧ w.typeName = f.type.name ∧ w.subgraph = n.subgraph
  | .narrow => ∃ w, g.node? e.tail = some w ∧ w.subgraph = n.subgraph
  | .entity _ | .interfaceObject _ => True

namespace QueryGraph

/-- All edges fit their nodes. -/
def IsTyped (merged : MergedSchema) (g : QueryGraph) : Prop :=
  ∀ v n, g.node? v = some n → ∀ e ∈ n.edges, e.Fits merged g n

variable {merged : MergedSchema} {g g' : QueryGraph}

/-- Edges still fit in a graph whose nodes have the types that they had. -/
theorem fits_of_nodes (h : ∀ v n, g.node? v = some n → ∃ n', g'.node? v = some n' ∧
      n'.typeName = n.typeName ∧ n'.subgraph = n.subgraph)
    {n n' : Node} (hname : n'.typeName = n.typeName) (hsubgraph : n'.subgraph = n.subgraph)
    {e : Edge} (he : e.Fits merged g n) : e.Fits merged g' n' := by
  unfold Edge.Fits at he ⊢
  cases hmove : e.move with
  | field name condition isProvided =>
    rw [hmove] at he
    obtain ⟨f, w, hf, hw, hwname, hwsubgraph⟩ := he
    obtain ⟨w', hw', hname', hsubgraph'⟩ := h _ _ hw
    exact ⟨f, w', by rw [hname, hsubgraph, hf], hw', hname'.trans hwname,
      hsubgraph'.trans (hwsubgraph.trans hsubgraph.symm)⟩
  | narrow =>
    rw [hmove] at he
    obtain ⟨w, hw, hwsubgraph⟩ := he
    obtain ⟨w', hw', -, hsubgraph'⟩ := h _ _ hw
    exact ⟨w', hw', hsubgraph'.trans (hwsubgraph.trans hsubgraph.symm)⟩
  | entity key => trivial
  | interfaceObject key => trivial

/-- Edges still fit after the graph has grown. -/
theorem Extends.fits (h : g.Extends g') {n n' : Node} (hname : n'.typeName = n.typeName)
    (hsubgraph : n'.subgraph = n.subgraph) {e : Edge} (he : e.Fits merged g n) :
    e.Fits merged g' n' :=
  fits_of_nodes h.nodes hname hsubgraph he

/-- An edge fits as well if it leads to another node of the same type. -/
theorem fits_of_tail {n w w' : Node} {e : Edge} {tail : NodeId} (he : e.Fits merged g n)
    (hw : g.node? e.tail = some w) (hw' : g.node? tail = some w')
    (hname : w'.typeName = w.typeName) (hsubgraph : w'.subgraph = w.subgraph) :
    Edge.Fits merged g n { e with tail } := by
  unfold Edge.Fits at he ⊢
  cases hmove : e.move with
  | field name condition isProvided =>
    rw [hmove] at he
    obtain ⟨f, x, hf, hx, hxname, hxsubgraph⟩ := he
    obtain rfl : w = x := Option.some.inj (hw.symm.trans hx)
    exact ⟨f, w', hf, hw', hname.trans hxname, hsubgraph.trans hxsubgraph⟩
  | narrow =>
    rw [hmove] at he
    obtain ⟨x, hx, hxsubgraph⟩ := he
    obtain rfl : w = x := Option.some.inj (hw.symm.trans hx)
    exact ⟨w', hw', hsubgraph.trans hxsubgraph⟩
  | entity key => trivial
  | interfaceObject key => trivial

theorem IsTyped.addNode (h : g.IsTyped merged) {n : Node} (hn : n.edges = []) :
    (g.addNode n).2.IsTyped merged := by
  intro v m hm e he
  rw [node?_addNode] at hm
  split at hm
  · obtain rfl := Option.some.inj hm
    rw [hn] at he
    cases he
  · exact (Extends.addNode g n).fits rfl rfl (h v m hm e he)

theorem IsTyped.baseFor (h : g.IsTyped merged) (typeName : String) (subgraph : SubgraphId) :
    (g.baseFor typeName subgraph).2.IsTyped merged := by
  rcases g.baseFor_eq typeName subgraph with ⟨v, n, -, -, heq⟩ | ⟨-, heq⟩
  · rw [heq]
    exact h
  · rw [heq]
    exact h.addNode rfl

/-- An edge that fits can be added. -/
theorem IsTyped.addEdge (h : g.IsTyped merged) {v tail : NodeId} {move : Move}
    (hfits : ∀ n, g.node? v = some n → Edge.Fits merged g n { move, tail }) :
    (g.addEdge v move tail).2.IsTyped merged := by
  intro u m hm e he
  have hextends := Extends.addEdge g v move tail
  change (g.modifyEdges v _).node? u = some m at hm
  by_cases hu : v = u
  · subst hu
    rw [node?_modifyEdges, if_pos rfl] at hm
    obtain ⟨n, hn, rfl⟩ := Option.map_eq_some_iff.mp hm
    rcases List.mem_append.mp he with he | he
    · exact hextends.fits rfl rfl (h v n hn e he)
    · rw [List.mem_singleton.mp he]
      exact hextends.fits rfl rfl (hfits n hn)
  · rw [node?_modifyEdges_of_ne _ hu] at hm
    exact hextends.fits rfl rfl (h u m hm e he)

/-- Edges that are ignored still fit. -/
theorem IsTyped.ignoreEdge (h : g.IsTyped merged) (id : EdgeId) :
    (g.ignoreEdge id).IsTyped merged := by
  have hnodes : ∀ v n, g.node? v = some n → ∃ n', (g.ignoreEdge id).node? v = some n' ∧
      n'.typeName = n.typeName ∧ n'.subgraph = n.subgraph := fun v n hn => by
    rw [← subject?_eq_some, subject?_ignoreEdge, subject?_eq_some]
    exact ⟨n, hn, rfl, rfl⟩
  intro v n' hn' e' he'
  obtain ⟨position, hposition⟩ := exists_edge?_of_mem (by rwa [allEdges_of_node? hn'])
  rw [edge?_ignoreEdge, Option.map_eq_some_iff] at hposition
  obtain ⟨e, he, rfl⟩ := hposition
  obtain ⟨n, hn, hmem⟩ := exists_node?_of_mem_allEdges (mem_allEdges_of_edge? he)
  obtain ⟨n'', hn'', hname, hsubgraph⟩ := hnodes v n hn
  obtain rfl := Option.some.inj (hn''.symm.trans hn')
  have hfits := fits_of_nodes hnodes hname hsubgraph (h v n hn e hmem)
  split
  · exact hfits
  · exact hfits

/-- Copies are of the same types. -/
theorem IsTyped.splitTail (h : g.IsTyped merged) {id : EdgeId} {e : Edge} {w : Node}
    (he : g.edge? id = some e) (hw : g.node? e.tail = some w) :
    (g.splitTail id).2.IsTyped merged := by
  obtain ⟨n, hn, hmem⟩ := exists_node?_of_mem_allEdges (mem_allEdges_of_edge? he)
  have hextends := Extends.splitTail he hw
  have hhead := node?_eq_some_lt hn
  have hcopy := node?_splitTail_copy he hw hhead
  intro v m hm e₁ he₁
  have hv : v < (g.splitTail id).2.size := node?_eq_some_lt hm
  rw [size_splitTail he hw] at hv
  rcases Nat.lt_succ_iff_lt_or_eq.mp hv with hv | rfl
  · by_cases hsame : id.head = v
    · subst hsame
      rw [node?_splitTail_head he hw hn] at hm
      obtain rfl := Option.some.inj hm
      obtain ⟨position, hposition⟩ := List.mem_iff_getElem?.mp he₁
      rw [List.getElem?_modify] at hposition
      obtain ⟨e₂, he₂, rfl⟩ := Option.map_eq_some_iff.mp hposition
      have hfits := h id.head n hn e₂ (List.mem_of_getElem? he₂)
      split
      · rename_i hpos
        have htail : e₂ = e := by
          rw [edge?, allEdges_of_node? hn, hpos, he₂] at he
          exact Option.some.inj he
        subst htail
        obtain ⟨w', hw', hname, hsubgraph⟩ := hextends.nodes _ _ hw
        exact fits_of_tail (hextends.fits rfl rfl hfits) hw' hcopy hname.symm hsubgraph.symm
      · exact hextends.fits rfl rfl hfits
    · rw [node?_splitTail_of_ne he hw hv hsame] at hm
      exact hextends.fits rfl rfl (h v m hm e₁ he₁)
  · obtain rfl := Option.some.inj (hcopy.symm.trans hm)
    have hall : e₁ ∈ w.edges := by
      have hmem := (mem_edges.mp he₁).1
      rwa [allEdges_of_node? hw] at hmem
    exact hextends.fits rfl rfl (h _ w hw e₁ hall)

/-! ## Steps -/

/-- What a step of providing fields may do to a graph, if it only touches edges of nodes from some
node on. -/
inductive Grows (merged : MergedSchema) (first : NodeId) : QueryGraph → QueryGraph → Prop
  /-- A base node is added if there is none. -/
  | base (g : QueryGraph) (typeName : String) (subgraph : SubgraphId) :
      Grows merged first g (g.baseFor typeName subgraph).2
  /-- A node gets an edge of a field that it cannot resolve yet. -/
  | add {g : QueryGraph} {v tail : NodeId} {n : Node} {name : String} (hv : first ≤ v)
      (hn : g.node? v = some n) (hnew : ∀ e ∈ g.edges v, e.resolves name = false)
      (hfits : Edge.Fits merged g n { move := .field name none true, tail }) :
      Grows merged first g (g.addEdge v (.field name none true) tail).2
  /-- An edge is led to a copy of the node that it leads to. -/
  | split {g : QueryGraph} {id : EdgeId} {e : Edge} {w : Node} (hv : first ≤ id.head)
      (he : g.edge? id = some e) (hw : g.node? e.tail = some w) :
      Grows merged first g (g.splitTail id).2

namespace Grows

variable {first : NodeId}

/-- Steps that touch fewer nodes. -/
theorem mono {earlier : NodeId} (hle : earlier ≤ first) (h : Grows merged first g g') :
    Grows merged earlier g g' := by
  cases h with
  | base typeName subgraph => exact .base g typeName subgraph
  | add hv hn hnew hfits => exact .add (Nat.le_trans hle hv) hn hnew hfits
  | split hv he hw => exact .split (Nat.le_trans hle hv) he hw

theorem toExtends (h : Grows merged first g g') : g.Extends g' := by
  cases h with
  | base typeName subgraph => exact Extends.baseFor g typeName subgraph
  | add => exact Extends.addEdge g _ _ _
  | split _ he hw => exact Extends.splitTail he hw

theorem isTyped (h : Grows merged first g g') (hg : g.IsTyped merged) : g'.IsTyped merged := by
  cases h with
  | base typeName subgraph => exact hg.baseFor typeName subgraph
  | add _ hn _ hfits =>
    refine hg.addEdge fun m hm => ?_
    obtain rfl := Option.some.inj (hn.symm.trans hm)
    exact hfits
  | split _ he hw => exact hg.splitTail he hw

/-- Nodes before the first one stay as they are. -/
theorem node?_eq (h : Grows merged first g g') {v : NodeId} (hv : v < first) (hsize : v < g.size) :
    g'.node? v = g.node? v := by
  cases h with
  | base typeName subgraph =>
    rcases g.baseFor_eq typeName subgraph with ⟨u, n, -, -, heq⟩ | ⟨-, heq⟩
    · rw [heq]
    · rw [heq]
      exact node?_addNode_of_lt _ hsize
  | add hle _ _ _ => exact node?_modifyEdges_of_ne _ (Nat.ne_of_gt (Nat.lt_of_lt_of_le hv hle))
  | split hle he hw =>
    exact node?_splitTail_of_ne he hw hsize (Nat.ne_of_gt (Nat.lt_of_lt_of_le hv hle))

end Grows

/-! ## Runs -/

/-- Any number of steps. -/
def GrowsTo (merged : MergedSchema) (first : NodeId) : QueryGraph → QueryGraph → Prop :=
  Relation.ReflTransGen (Grows merged first)

namespace GrowsTo

variable {first : NodeId}

theorem mono {earlier : NodeId} (hle : earlier ≤ first) (h : GrowsTo merged first g g') :
    GrowsTo merged earlier g g' := by
  induction h with
  | refl => exact .refl
  | tail _ hstep ih => exact ih.tail (hstep.mono hle)

theorem toExtends (h : GrowsTo merged first g g') : g.Extends g' := by
  induction h with
  | refl => exact Extends.refl g
  | tail _ hstep ih => exact ih.trans hstep.toExtends

theorem isTyped (h : GrowsTo merged first g g') (hg : g.IsTyped merged) : g'.IsTyped merged := by
  induction h with
  | refl => exact hg
  | tail _ hstep ih => exact hstep.isTyped ih

theorem node?_eq (h : GrowsTo merged first g g') {v : NodeId} (hv : v < first) (hsize : v < g.size) :
    g'.node? v = g.node? v := by
  induction h with
  | refl => rfl
  | tail hrun hstep ih =>
    obtain ⟨n, hn⟩ := exists_node?_of_lt hsize
    rw [← ih] at hn
    rw [hstep.node?_eq hv (node?_eq_some_lt hn), ih]

end GrowsTo

end QueryGraph

end Federation
