import Federation.Proofs.QueryGraph.Provision

/-!
# Lineage of nodes

Every node of a query graph that has grown takes after a node of its type, with which it shares the
moves, unless there was no node of its type before. So what all nodes of a type can do is handed down
to all later copies: they resolve a field if their ancestors do, and the field leads them to where
selections can be followed if it leads their ancestors there.
-/

namespace Federation.QueryGraph

variable {merged : MergedSchema} {g g' : QueryGraph} {first : NodeId}

/-! ## Ancestors -/

/-- A node of a graph that has grown takes after a node of the graph before: it makes the same moves,
which lead to where at least as much can be followed, and perhaps one to a field that the other node
does not resolve. -/
structure TakesAfter (g : QueryGraph) (u : NodeId) (g' : QueryGraph) (v : NodeId) : Prop where
  moves : ∀ e ∈ g.edges u, ∃ e' ∈ g'.edges v, e'.move = e.move
  edges : ∀ e' ∈ g'.edges v,
    (∃ e ∈ g.edges u, e'.move = e.move ∧ ∀ selections,
      g.followsAll e.tail selections = true → g'.followsAll e'.tail selections = true) ∨
    ∃ name, e'.move = .field name none true ∧ ∀ e ∈ g.edges u, e.resolves name = false

theorem TakesAfter.of_edges_eq {u v : NodeId} (hextends : g.Extends g')
    (hsame : g'.edges v = g.edges u) : TakesAfter g u g' v where
  moves := fun e he => ⟨e, hsame ▸ he, rfl⟩
  edges := fun e he => .inl ⟨e, hsame ▸ he, rfl, fun _ => hextends.followsAll⟩

/-- A node that gets an edge takes after itself. -/
theorem takesAfter_addEdge {v tail : NodeId} {n : Node} {name : String} (hn : g.node? v = some n)
    (hnew : ∀ e ∈ g.edges v, e.resolves name = false) :
    TakesAfter g v (g.addEdge v (.field name none true) tail).2 v := by
  have hextends := Extends.addEdge g v (.field name none true) tail
  have hedges : ∀ e, e ∈ (g.addEdge v (.field name none true) tail).2.edges v ↔
      e ∈ g.edges v ∨ e = { move := .field name none true, tail } := by
    intro e
    have hall := allEdges_of_node? (node?_modifyEdges_self hn
      fun edges => edges ++ [{ move := Move.field name none true, tail }])
    change (g.addEdge v (.field name none true) tail).2.allEdges v = _ at hall
    rw [mem_edges, hall, mem_edges, allEdges_of_node? hn, List.mem_append, List.mem_singleton]
    constructor
    · rintro ⟨he | he, hactive⟩
      · exact .inl ⟨he, hactive⟩
      · exact .inr he
    · rintro (⟨he, hactive⟩ | rfl)
      · exact ⟨.inl he, hactive⟩
      · exact ⟨.inr rfl, rfl⟩
  refine ⟨fun e he => ⟨e, (hedges e).mpr (.inl he), rfl⟩, fun e he => ?_⟩
  rcases (hedges e).mp he with he | rfl
  · exact .inl ⟨e, he, rfl, fun _ => hextends.followsAll⟩
  · exact .inr ⟨name, rfl, hnew⟩

/-- A node keeps its moves when one of its edges is led to a copy. -/
theorem takesAfter_splitTail {id : EdgeId} {e : Edge} {w : Node} (he : g.edge? id = some e)
    (hw : g.node? e.tail = some w) {v : NodeId} (hv : v < g.size) :
    TakesAfter g v (g.splitTail id).2 v := by
  have hextends := Extends.splitTail he hw
  refine ⟨fun e₁ he₁ => ?_, fun e₁ he₁ => .inl ?_⟩
  · obtain ⟨e', he', hmove, -⟩ := hextends.exists_edge he₁
    exact ⟨e', he', hmove⟩
  · obtain ⟨hmem, hactive⟩ := mem_edges.mp he₁
    obtain ⟨position, hposition⟩ := exists_edge?_of_mem hmem
    have hsplit := edge?_splitTail he hw (show (⟨v, position⟩ : EdgeId).head < g.size from hv)
    rw [hposition] at hsplit
    by_cases hsame : (⟨v, position⟩ : EdgeId) = id
    · rw [if_pos hsame] at hsplit
      obtain rfl := Option.some.inj hsplit
      subst hsame
      have hmem' := mem_edges.mpr ⟨mem_allEdges_of_edge? he, hactive⟩
      exact ⟨e, hmem', rfl, fun _ => followsAll_copy he hw⟩
    · rw [if_neg hsame] at hsplit
      exact ⟨e₁, mem_edges.mpr ⟨mem_allEdges_of_edge? hsplit.symm, hactive⟩, rfl,
        fun _ => hextends.followsAll⟩

/-- After a step, every node takes after a node of its type, unless there was none. -/
theorem Grows.exists_ancestor (h : Grows merged first g g') {v : NodeId} {n' : Node}
    (hn' : g'.node? v = some n') :
    (∃ u n, g.node? u = some n ∧ n.typeName = n'.typeName ∧ n.subgraph = n'.subgraph ∧
        TakesAfter g u g' v) ∨
      ∀ u n, g.node? u = some n → n.isOf n'.typeName n'.subgraph = false := by
  have hextends := h.toExtends
  have hsame : ∀ n, g.node? v = some n → g'.node? v = g.node? v →
      ∃ u n, g.node? u = some n ∧ n.typeName = n'.typeName ∧ n.subgraph = n'.subgraph ∧
        TakesAfter g u g' v := by
    intro n hn heq
    obtain rfl := Option.some.inj (hn.symm.trans (heq.symm.trans hn'))
    exact ⟨v, n, hn, rfl, rfl, .of_edges_eq hextends (edges_congr heq)⟩
  cases h with
  | base typeName subgraph =>
    rcases g.baseFor_eq typeName subgraph with ⟨u, n, hu, -, heq⟩ | ⟨hnone, heq⟩
    · rw [heq] at hn' hsame ⊢
      exact .inl (hsame n' hn' rfl)
    · rw [heq] at hn' hsame ⊢
      rw [node?_addNode] at hn'
      split at hn'
      · obtain rfl := Option.some.inj hn'
        exact .inr hnone
      · exact .inl (hsame n' hn' (node?_addNode_of_lt _ (node?_eq_some_lt hn')))
  | @add v' tail n name _ hn hnew _ =>
    left
    by_cases hv : v' = v
    · subst hv
      obtain ⟨n₁, hn₁, hname, hsubgraph⟩ := hextends.nodes _ n hn
      obtain rfl := Option.some.inj (hn₁.symm.trans hn')
      exact ⟨v', n, hn, hname.symm, hsubgraph.symm, takesAfter_addEdge hn hnew⟩
    · have heq : (g.addEdge v' (.field name none true) tail).2.node? v = g.node? v :=
        node?_modifyEdges_of_ne _ hv
      exact hsame n' (heq ▸ hn') heq
  | @split id e w _ he hw =>
    left
    obtain ⟨n, hn, -⟩ := exists_node?_of_mem_allEdges (mem_allEdges_of_edge? he)
    have hcopy := node?_splitTail_copy he hw (node?_eq_some_lt hn)
    have hv : v < (g.splitTail id).2.size := node?_eq_some_lt hn'
    rw [size_splitTail he hw] at hv
    rcases Nat.lt_succ_iff_lt_or_eq.mp hv with hv | rfl
    · obtain ⟨m, hm⟩ := exists_node?_of_lt hv
      obtain ⟨m', hm', hname, hsubgraph⟩ := hextends.nodes _ m hm
      obtain rfl := Option.some.inj (hm'.symm.trans hn')
      exact ⟨v, m, hm, hname.symm, hsubgraph.symm, takesAfter_splitTail he hw hv⟩
    · -- the copy takes after the original
      obtain rfl := Option.some.inj (hcopy.symm.trans hn')
      refine ⟨e.tail, w, hw, rfl, rfl, .of_edges_eq hextends ?_⟩
      rw [edges, allEdges_of_node? hcopy]
      exact List.filter_eq_self.mpr fun e₁ he₁ => by simp [(mem_edges.mp he₁).2]

/-! ## What all nodes of a type can do -/

/-- There are nodes of a type, and all of them resolve a field. -/
def Resolves (g : QueryGraph) (typeName : String) (subgraph : SubgraphId) (field : String) : Prop :=
  (∃ v, g.subject? v = some (typeName, subgraph)) ∧
    ∀ v, g.subject? v = some (typeName, subgraph) → ∃ e ∈ g.edges v, e.resolves field = true

/-- Wherever a field leads from a node, selections can be followed from there. -/
def ProvidesAt (g : QueryGraph) (v : NodeId) (field : String) (selections : List Selection) : Prop :=
  ∀ e ∈ g.edges v, e.resolves field = true → g.followsAll e.tail selections = true

/-- Wherever a field leads from a node of a type, selections can be followed from there. -/
def Provides (g : QueryGraph) (typeName : String) (subgraph : SubgraphId) (field : String)
    (selections : List Selection) : Prop :=
  ∀ v, g.subject? v = some (typeName, subgraph) → g.ProvidesAt v field selections

variable {typeName field : String} {subgraph : SubgraphId} {selections : List Selection}

/-- Where all nodes of a type resolve a field, every node of the type takes after one of them. -/
theorem Resolves.exists_ancestor (hresolves : g.Resolves typeName subgraph field)
    (h : Grows merged first g g') {v : NodeId} (hv : g'.subject? v = some (typeName, subgraph)) :
    ∃ u, g.subject? u = some (typeName, subgraph) ∧ TakesAfter g u g' v := by
  obtain ⟨n', hn', rfl, rfl⟩ := subject?_eq_some.mp hv
  rcases h.exists_ancestor hn' with ⟨u, n, hn, hname, hsubgraph, hafter⟩ | hnone
  · exact ⟨u, subject?_eq_some.mpr ⟨n, hn, hname, hsubgraph⟩, hafter⟩
  · obtain ⟨⟨u, hu⟩, -⟩ := hresolves
    obtain ⟨n, hn, hof⟩ := subject?_eq_some.mp hu
    exact absurd ((hnone u n hn).symm.trans (isOf_iff.mpr hof)) Bool.false_ne_true

/-- A field that all nodes of a type resolve is resolved by all later nodes of the type. -/
theorem Resolves.grows (hresolves : g.Resolves typeName subgraph field)
    (h : Grows merged first g g') : g'.Resolves typeName subgraph field := by
  refine ⟨?_, fun v hv => ?_⟩
  · obtain ⟨⟨v, hv⟩, -⟩ := hresolves
    exact ⟨v, h.toExtends.subject? hv⟩
  · obtain ⟨u, hu, hafter⟩ := hresolves.exists_ancestor h hv
    obtain ⟨e, he, hfield⟩ := hresolves.2 u hu
    obtain ⟨e', he', hmove⟩ := hafter.moves e he
    exact ⟨e', he', by rw [Edge.resolves, hmove]; exact hfield⟩

/-- If all nodes of a type resolve a field, and to where selections can be followed, so do all later
nodes of the type. -/
theorem Provides.grows (hprovides : g.Provides typeName subgraph field selections)
    (hresolves : g.Resolves typeName subgraph field) (h : Grows merged first g g') :
    g'.Provides typeName subgraph field selections := by
  intro v hv e' he' hfield
  obtain ⟨u, hu, hafter⟩ := hresolves.exists_ancestor h hv
  rcases hafter.edges e' he' with ⟨e, he, hmove, hfollows⟩ | ⟨name, hmove, hnew⟩
  · refine hfollows selections (hprovides u hu e he ?_)
    rw [Edge.resolves, ← hmove]
    exact hfield
  · -- the field would have been resolved before
    obtain ⟨e, he, hresolved⟩ := hresolves.2 u hu
    obtain rfl : name = field := by
      simpa [Edge.resolves, hmove, Move.fieldName?] using hfield
    rw [hnew e he] at hresolved
    cases hresolved

/-- Runs hand down what all nodes of a type can do. -/
theorem Provides.growsTo (hprovides : g.Provides typeName subgraph field selections)
    (hresolves : g.Resolves typeName subgraph field) (h : GrowsTo merged first g g') :
    g'.Resolves typeName subgraph field ∧ g'.Provides typeName subgraph field selections := by
  induction h with
  | refl => exact ⟨hresolves, hprovides⟩
  | tail _ hstep ih => exact ⟨ih.1.grows hstep, ih.2.grows ih.1 hstep⟩

theorem Resolves.growsTo (hresolves : g.Resolves typeName subgraph field)
    (h : GrowsTo merged first g g') : g'.Resolves typeName subgraph field := by
  induction h with
  | refl => exact hresolves
  | tail _ hstep ih => exact ih.grows hstep

end Federation.QueryGraph
