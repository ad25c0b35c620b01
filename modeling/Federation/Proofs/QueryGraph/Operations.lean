import Federation.QueryGraph.Basic

/-!
# Operations on query graphs

What each operation does to the nodes and edges of a query graph: one node is added, or the edges of
one node are changed, and everything else stays as it is.
-/

namespace Federation.QueryGraph

variable {g : QueryGraph} {u v : NodeId}

/-! ## Nodes and edges -/

theorem node?_eq_some_lt {n : Node} (h : g.node? v = some n) : v < g.size :=
  (Array.getElem?_eq_some_iff.mp h).1

theorem exists_node?_of_lt (h : v < g.size) : ∃ n, g.node? v = some n :=
  ⟨g.nodes[v], Array.getElem?_eq_getElem h⟩

theorem allEdges_of_node? {n : Node} (h : g.node? v = some n) : g.allEdges v = n.edges := by
  rw [allEdges, h]
  rfl

theorem mem_edges {e : Edge} : e ∈ g.edges v ↔ e ∈ g.allEdges v ∧ e.isIgnored = false := by
  rw [edges, List.mem_filter, Bool.not_eq_true']

/-- Only nodes have edges. -/
theorem exists_node?_of_mem_allEdges {e : Edge} (h : e ∈ g.allEdges v) :
    ∃ n, g.node? v = some n ∧ e ∈ n.edges := by
  unfold allEdges at h
  cases hn : g.node? v with
  | none =>
    rw [hn] at h
    cases h
  | some n =>
    rw [hn] at h
    exact ⟨n, rfl, h⟩

/-- Nodes that are the same have the same edges. -/
theorem allEdges_congr {g' : QueryGraph} (h : g'.node? v = g.node? v) :
    g'.allEdges v = g.allEdges v := by
  rw [allEdges, allEdges, h]

theorem edges_congr {g' : QueryGraph} (h : g'.node? v = g.node? v) : g'.edges v = g.edges v := by
  rw [edges, edges, allEdges_congr h]

theorem edge?_congr {g' : QueryGraph} {e : EdgeId} (h : g'.node? e.head = g.node? e.head) :
    g'.edge? e = g.edge? e := by
  rw [edge?, edge?, allEdges_congr h]

/-- An edge is found at its place. -/
theorem exists_edge?_of_mem {e : Edge} (h : e ∈ g.allEdges v) :
    ∃ position, g.edge? ⟨v, position⟩ = some e :=
  List.mem_iff_getElem?.mp h

theorem mem_allEdges_of_edge? {id : EdgeId} {e : Edge} (h : g.edge? id = some e) :
    e ∈ g.allEdges id.head :=
  List.mem_of_getElem? h

/-- What a node stands for: a type and its subgraph. -/
def subject? (g : QueryGraph) (v : NodeId) : Option (String × SubgraphId) :=
  (g.node? v).map fun n => (n.typeName, n.subgraph)

theorem subject?_eq_some {typeName : String} {subgraph : SubgraphId} :
    g.subject? v = some (typeName, subgraph) ↔
      ∃ n, g.node? v = some n ∧ n.typeName = typeName ∧ n.subgraph = subgraph := by
  rw [subject?, Option.map_eq_some_iff]
  simp only [Prod.mk.injEq]

theorem isOf_iff {n : Node} {typeName : String} {subgraph : SubgraphId} :
    n.isOf typeName subgraph = true ↔ n.typeName = typeName ∧ n.subgraph = subgraph := by
  rw [Node.isOf, Bool.and_eq_true, beq_iff_eq, beq_iff_eq]

/-! ## Adding nodes -/

theorem size_addNode (g : QueryGraph) (n : Node) : (g.addNode n).2.size = g.size + 1 :=
  Array.size_push n

/-- A new node comes last. -/
theorem node?_addNode (g : QueryGraph) (n : Node) (v : NodeId) :
    (g.addNode n).2.node? v = if v = g.size then some n else g.node? v :=
  Array.getElem?_push

theorem node?_addNode_of_lt (n : Node) (h : v < g.size) : (g.addNode n).2.node? v = g.node? v := by
  rw [node?_addNode, if_neg (Nat.ne_of_lt h)]

/-- A base node is there already, or it is added without edges. -/
theorem baseFor_eq (g : QueryGraph) (typeName : String) (subgraph : SubgraphId) :
    (∃ v n, g.node? v = some n ∧ n.isOf typeName subgraph = true ∧
        g.baseFor typeName subgraph = (v, g)) ∨
      (∀ v n, g.node? v = some n → n.isOf typeName subgraph = false) ∧
        g.baseFor typeName subgraph = g.addNode { typeName, subgraph } := by
  unfold baseFor base?
  cases hfound : g.nodes.findIdx? fun n => n.isOf typeName subgraph with
  | some v =>
    obtain ⟨hv, hn, -⟩ := Array.findIdx?_eq_some_iff_getElem.mp hfound
    exact .inl ⟨v, g.nodes[v], Array.getElem?_eq_getElem hv, hn, rfl⟩
  | none =>
    refine .inr ⟨fun v n hn => ?_, rfl⟩
    exact Array.findIdx?_eq_none_iff.mp hfound n (Array.mem_of_getElem? hn)

theorem subject?_addNode (g : QueryGraph) (n : Node) (v : NodeId) :
    (g.addNode n).2.subject? v =
      if v = g.size then some (n.typeName, n.subgraph) else g.subject? v := by
  rw [subject?, node?_addNode, subject?]
  split <;> rfl

/-- A base node stands for its type. -/
theorem subject?_baseFor_fst (g : QueryGraph) (typeName : String) (subgraph : SubgraphId) :
    (g.baseFor typeName subgraph).2.subject? (g.baseFor typeName subgraph).1 =
      some (typeName, subgraph) := by
  rcases g.baseFor_eq typeName subgraph with ⟨u, w, hw, hof, heq⟩ | ⟨-, heq⟩
  · rw [heq]
    exact subject?_eq_some.mpr ⟨w, hw, isOf_iff.mp hof⟩
  · rw [heq, subject?_addNode]
    exact if_pos rfl

theorem node?_baseFor_of_lt (typeName : String) (subgraph : SubgraphId) (hv : v < g.size) :
    (g.baseFor typeName subgraph).2.node? v = g.node? v := by
  rcases g.baseFor_eq typeName subgraph with ⟨u, w, -, -, heq⟩ | ⟨-, heq⟩
  · rw [heq]
  · rw [heq]
    exact node?_addNode_of_lt _ hv

theorem subject?_baseFor_of_lt (typeName : String) (subgraph : SubgraphId) (hv : v < g.size) :
    (g.baseFor typeName subgraph).2.subject? v = g.subject? v := by
  rw [subject?, subject?, node?_baseFor_of_lt typeName subgraph hv]

/-- Base nodes are added without edges. -/
theorem edge?_baseFor (g : QueryGraph) (typeName : String) (subgraph : SubgraphId) (id : EdgeId) :
    (g.baseFor typeName subgraph).2.edge? id = g.edge? id := by
  rcases g.baseFor_eq typeName subgraph with ⟨u, w, -, -, heq⟩ | ⟨-, heq⟩
  · rw [heq]
  · rw [heq, edge?, edge?, allEdges, allEdges, node?_addNode]
    split
    · rename_i hhead
      rw [hhead, show g.node? g.size = none from Array.getElem?_size]
      rfl
    · rfl

/-! ## Changing edges -/

@[simp] theorem size_modifyEdges (g : QueryGraph) (v : NodeId) (f : List Edge → List Edge) :
    (g.modifyEdges v f).size = g.size :=
  Array.size_modify

/-- Only the edges of one node change. -/
theorem node?_modifyEdges (g : QueryGraph) (v : NodeId) (f : List Edge → List Edge) (u : NodeId) :
    (g.modifyEdges v f).node? u =
      if v = u then (g.node? u).map fun n => { n with edges := f n.edges } else g.node? u := by
  unfold modifyEdges node?
  rw [Array.getElem?_modify]

theorem node?_modifyEdges_of_ne (f : List Edge → List Edge) (h : v ≠ u) :
    (g.modifyEdges v f).node? u = g.node? u := by
  rw [node?_modifyEdges, if_neg h]

theorem node?_modifyEdges_self {n : Node} (h : g.node? v = some n) (f : List Edge → List Edge) :
    (g.modifyEdges v f).node? v = some { n with edges := f n.edges } := by
  rw [node?_modifyEdges, if_pos rfl, h]
  rfl

@[simp] theorem subject?_modifyEdges (g : QueryGraph) (v : NodeId) (f : List Edge → List Edge)
    (u : NodeId) : (g.modifyEdges v f).subject? u = g.subject? u := by
  rw [subject?, node?_modifyEdges, subject?]
  split
  · rw [Option.map_map]
    rfl
  · rfl

@[simp] theorem subject?_addEdge (g : QueryGraph) (v : NodeId) (move : Move) (tail u : NodeId) :
    (g.addEdge v move tail).2.subject? u = g.subject? u :=
  subject?_modifyEdges g v _ u

@[simp] theorem subject?_ignoreEdge (g : QueryGraph) (id : EdgeId) (u : NodeId) :
    (g.ignoreEdge id).subject? u = g.subject? u :=
  subject?_modifyEdges g id.head _ u

/-- Edges that were there before stay where they are. -/
theorem edge?_modifyEdges_append {id : EdgeId} {e : Edge} (he : g.edge? id = some e) (v : NodeId)
    (more : List Edge) : (g.modifyEdges v (· ++ more)).edge? id = some e := by
  obtain ⟨n, hn, -⟩ : ∃ n, g.node? id.head = some n ∧ e ∈ n.edges :=
    exists_node?_of_mem_allEdges (List.mem_of_getElem? he)
  rw [edge?, allEdges_of_node? hn] at he
  by_cases hv : v = id.head
  · subst hv
    rw [edge?, allEdges_of_node? (node?_modifyEdges_self hn _),
      List.getElem?_append_left (List.getElem?_eq_some_iff.mp he).1]
    exact he
  · rw [edge?_congr (node?_modifyEdges_of_ne _ hv), edge?, allEdges_of_node? hn]
    exact he

/-- The new edge comes last at its node. -/
theorem edge?_addEdge {n : Node} (hn : g.node? v = some n) (move : Move) (tail : NodeId) :
    (g.addEdge v move tail).2.edge? (g.addEdge v move tail).1 = some { move, tail } := by
  show (g.modifyEdges v _).edge? ⟨v, _⟩ = _
  rw [edge?, allEdges_of_node? (node?_modifyEdges_self hn _), allEdges_of_node? hn]
  exact List.getElem?_concat_length

/-- Every edge was there before or is the new one. -/
theorem edge?_of_addEdge {move : Move} {tail : NodeId} {id : EdgeId} {e : Edge}
    (h : (g.addEdge v move tail).2.edge? id = some e) :
    g.edge? id = some e ∨ id = (g.addEdge v move tail).1 ∧ e = { move, tail } := by
  obtain ⟨head, position⟩ := id
  by_cases hv : v = head
  · subst hv
    obtain ⟨n', hn', -⟩ := exists_node?_of_mem_allEdges (mem_allEdges_of_edge? h)
    obtain ⟨n, hn⟩ := exists_node?_of_lt (g.size_modifyEdges v _ ▸ node?_eq_some_lt hn')
    change (g.modifyEdges v _).edge? ⟨v, position⟩ = some e at h
    rw [edge?, allEdges_of_node? (node?_modifyEdges_self hn _), List.getElem?_append] at h
    rw [edge?, allEdges_of_node? hn]
    dsimp only at h ⊢
    split at h
    · exact .inl h
    · obtain ⟨hposition, he⟩ := List.getElem?_eq_some_iff.mp h
      have hlast : position = n.edges.length := by
        simp only [List.length_cons, List.length_nil] at hposition
        omega
      subst hlast
      refine .inr ⟨?_, ?_⟩
      · show _ = EdgeId.mk v (g.allEdges v).length
        rw [allEdges_of_node? hn]
      · rw [← he]
        simp
  · left
    rw [← h]
    exact (edge?_congr (node?_modifyEdges_of_ne _ hv)).symm

/-- Only the edge itself is ignored. -/
theorem edge?_ignoreEdge (g : QueryGraph) (id other : EdgeId) :
    (g.ignoreEdge id).edge? other =
      (g.edge? other).map fun e => if id = other then { e with isIgnored := true } else e := by
  show (g.modifyEdges id.head _).edge? other = _
  by_cases hhead : id.head = other.head
  · rw [edge?, edge?, allEdges, allEdges, node?_modifyEdges, if_pos hhead]
    cases g.node? other.head with
    | none => rfl
    | some n =>
      show (n.edges.modify id.position _)[other.position]? = n.edges[other.position]?.map _
      rw [List.getElem?_modify, Option.map_eq_map]
      by_cases hsame : id = other
      · simp only [hsame, if_true]
      · have hposition : id.position ≠ other.position := fun heq =>
          hsame (by rw [← show EdgeId.mk id.head id.position = id from rfl, hhead, heq])
        simp only [hsame, hposition, if_false]
  · have hne : id ≠ other := fun heq => hhead (heq ▸ rfl)
    simp only [if_neg hne, Option.map_id']
    exact edge?_congr (node?_modifyEdges_of_ne _ hhead)

/-! ## Copies -/

section

variable {id : EdgeId} {e : Edge} {n w : Node}

/-- An edge that leads to a node leads to a copy of it afterwards. -/
theorem splitTail_eq (he : g.edge? id = some e) (hw : g.node? e.tail = some w) :
    g.splitTail id =
      (g.size, (g.addNode { w with edges := g.edges e.tail }).2.setTail id g.size) := by
  unfold splitTail copyNode
  rw [he]
  dsimp only
  rw [hw]
  rfl

theorem size_splitTail (he : g.edge? id = some e) (hw : g.node? e.tail = some w) :
    (g.splitTail id).2.size = g.size + 1 := by
  rw [splitTail_eq he hw]
  show (modifyEdges _ _ _).size = _
  rw [size_modifyEdges, size_addNode]

/-- The copy has the edges that are not ignored. -/
theorem node?_splitTail_copy (he : g.edge? id = some e) (hw : g.node? e.tail = some w)
    (hhead : id.head < g.size) :
    (g.splitTail id).2.node? g.size = some { w with edges := g.edges e.tail } := by
  rw [splitTail_eq he hw]
  show (modifyEdges _ _ _).node? _ = _
  rw [node?_modifyEdges_of_ne _ (Nat.ne_of_lt hhead), node?_addNode, if_pos rfl]

/-- The node that the edge leaves keeps all its edges; only that edge leads to the copy. -/
theorem node?_splitTail_head (he : g.edge? id = some e) (hw : g.node? e.tail = some w)
    (hn : g.node? id.head = some n) :
    (g.splitTail id).2.node? id.head =
      some { n with edges := n.edges.modify id.position fun e => { e with tail := g.size } } := by
  rw [splitTail_eq he hw]
  refine node?_modifyEdges_self ?_ _
  rw [node?_addNode_of_lt _ (node?_eq_some_lt hn), hn]

/-- All other nodes stay as they are. -/
theorem node?_splitTail_of_ne (he : g.edge? id = some e) (hw : g.node? e.tail = some w)
    (hu : u < g.size) (hne : id.head ≠ u) : (g.splitTail id).2.node? u = g.node? u := by
  rw [splitTail_eq he hw]
  show (modifyEdges _ _ _).node? _ = _
  rw [node?_modifyEdges_of_ne _ hne, node?_addNode_of_lt _ hu]

/-- Of the edges that were there before, only the one leads elsewhere. -/
theorem edge?_splitTail (he : g.edge? id = some e) (hw : g.node? e.tail = some w) {other : EdgeId}
    (hother : other.head < g.size) :
    (g.splitTail id).2.edge? other =
      if other = id then some { e with tail := g.size } else g.edge? other := by
  obtain ⟨n, hn, -⟩ := exists_node?_of_mem_allEdges (mem_allEdges_of_edge? he)
  obtain ⟨head, position⟩ := other
  by_cases hhead : id.head = head
  · subst hhead
    have hposition : n.edges[id.position]? = some e := by
      rw [edge?, allEdges_of_node? hn] at he
      exact he
    rw [edge?, allEdges_of_node? (node?_splitTail_head he hw hn), List.getElem?_modify, edge?,
      allEdges_of_node? hn]
    by_cases hpos : id.position = position
    · subst hpos
      rw [if_pos rfl, hposition]
      simp
    · have hne : (⟨id.head, position⟩ : EdgeId) ≠ id := fun heq => hpos (heq ▸ rfl)
      rw [if_neg hne]
      simp [hpos]
  · have hne : (⟨head, position⟩ : EdgeId) ≠ id := fun heq => hhead (heq ▸ rfl)
    rw [if_neg hne]
    exact edge?_congr (node?_splitTail_of_ne he hw hother hhead)

end

end Federation.QueryGraph
