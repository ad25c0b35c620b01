import Federation.Proofs.QueryGraph.Operations
import Federation.Selection

/-!
# Following selections

A selection can be followed from a node if the fields that it selects can be resolved one after the
other. What can be followed in a graph can be followed in any graph that simulates it, and so what
could be followed before a query graph is extended can be followed afterwards.
-/

namespace Federation.QueryGraph

/-! ## Selections that can be followed -/

mutual

/-- A selection without type conditions can be followed along the edges of fields that are not
ignored. The field `__typename` needs no edge. -/
def follows (g : QueryGraph) (v : NodeId) : Selection → Bool
  | .field name _ selections =>
    name == "__typename" || (g.edges v).any fun e => e.resolves name && g.followsAll e.tail selections
  | .inlineFragment _ _ => false

/-- All selections can be followed. -/
def followsAll (g : QueryGraph) (v : NodeId) : List Selection → Bool
  | [] => true
  | first :: others => g.follows v first && g.followsAll v others

end

variable {g g' : QueryGraph}

theorem followsAll_iff {v : NodeId} {selections : List Selection} :
    g.followsAll v selections = true ↔ ∀ selection ∈ selections, g.follows v selection = true := by
  induction selections with
  | nil => simp [followsAll]
  | cons first others ih => simp [followsAll, ih]

theorem follows_field_iff {v : NodeId} {name : String} {arguments : List (String × Value)}
    {selections : List Selection} :
    g.follows v (.field name arguments selections) = true ↔ name = "__typename" ∨
      ∃ e ∈ g.edges v, e.resolves name = true ∧ g.followsAll e.tail selections = true := by
  simp [follows]

/-! ## Simulation -/

/-- Whatever can be done at a node in one graph can be done at related nodes in the other graph. -/
def Simulates (g g' : QueryGraph) (related : NodeId → NodeId → Prop) : Prop :=
  ∀ u u', related u u' → ∀ e ∈ g.edges u, ∃ e' ∈ g'.edges u',
    e'.move = e.move ∧ related e.tail e'.tail

mutual

theorem Simulates.follows {related : NodeId → NodeId → Prop} (h : Simulates g g' related)
    {u u' : NodeId} (hu : related u u') (selection : Selection)
    (hfollows : g.follows u selection = true) : g'.follows u' selection = true := by
  cases selection with
  | field name arguments selections =>
    rw [follows_field_iff] at hfollows ⊢
    refine hfollows.imp_right ?_
    rintro ⟨e, he, hresolves, htail⟩
    obtain ⟨e', he', hmove, hrelated⟩ := h u u' hu e he
    refine ⟨e', he', ?_, h.followsAll hrelated selections htail⟩
    rw [Edge.resolves, hmove]
    exact hresolves
  | inlineFragment condition selections => cases hfollows

theorem Simulates.followsAll {related : NodeId → NodeId → Prop} (h : Simulates g g' related)
    {u u' : NodeId} (hu : related u u') (selections : List Selection)
    (hfollows : g.followsAll u selections = true) : g'.followsAll u' selections = true := by
  cases selections with
  | nil => rfl
  | cons first others =>
    obtain ⟨hfirst, hothers⟩ := Bool.and_eq_true_iff.mp hfollows
    exact Bool.and_eq_true_iff.mpr ⟨h.follows hu first hfirst, h.followsAll hu others hothers⟩

end

/-! ## Extensions -/

/-- The graph has grown: its nodes stand for what they stood for, and its edges make the same moves
and lead to where at least as much can be followed. -/
structure Extends (g g' : QueryGraph) : Prop where
  nodes : ∀ v n, g.node? v = some n → ∃ n', g'.node? v = some n' ∧ n'.typeName = n.typeName ∧
    n'.subgraph = n.subgraph
  edges : ∀ id e, g.edge? id = some e → ∃ e', g'.edge? id = some e' ∧ e'.move = e.move ∧
    e'.isIgnored = e.isIgnored ∧
      ∀ selections, g.followsAll e.tail selections = true → g'.followsAll e'.tail selections = true

namespace Extends

theorem refl (g : QueryGraph) : g.Extends g where
  nodes := fun _ n hn => ⟨n, hn, rfl, rfl⟩
  edges := fun _ e he => ⟨e, he, rfl, rfl, fun _ => id⟩

theorem trans {a b c : QueryGraph} (hab : a.Extends b) (hbc : b.Extends c) : a.Extends c where
  nodes := fun v n hn => by
    obtain ⟨n', hn', hname, hsubgraph⟩ := hab.nodes v n hn
    obtain ⟨n'', hn'', hname', hsubgraph'⟩ := hbc.nodes v n' hn'
    exact ⟨n'', hn'', hname'.trans hname, hsubgraph'.trans hsubgraph⟩
  edges := fun id e he => by
    obtain ⟨e', he', hmove, hignored, hfollows⟩ := hab.edges id e he
    obtain ⟨e'', he'', hmove', hignored', hfollows'⟩ := hbc.edges id e' he'
    exact ⟨e'', he'', hmove'.trans hmove, hignored'.trans hignored, fun selections h =>
      hfollows' selections (hfollows selections h)⟩

/-- A node still stands for the same type. -/
theorem subject? (h : g.Extends g') {v : NodeId} {subject : String × SubgraphId}
    (hv : g.subject? v = some subject) : g'.subject? v = some subject := by
  obtain ⟨n, hn, hsubject⟩ := subject?_eq_some.mp hv
  obtain ⟨n', hn', hname, hsubgraph⟩ := h.nodes v n hn
  exact subject?_eq_some.mpr
    ⟨n', hn', hname.trans hsubject.1, hsubgraph.trans hsubject.2⟩

/-- An edge that is not ignored is still there. -/
theorem exists_edge (h : g.Extends g') {v : NodeId} {e : Edge} (he : e ∈ g.edges v) :
    ∃ e' ∈ g'.edges v, e'.move = e.move ∧
      ∀ selections, g.followsAll e.tail selections = true →
        g'.followsAll e'.tail selections = true := by
  obtain ⟨hmem, hactive⟩ := mem_edges.mp he
  obtain ⟨position, hposition⟩ := exists_edge?_of_mem hmem
  obtain ⟨e', he', hmove, hignored, hfollows⟩ := h.edges _ e hposition
  exact ⟨e', mem_edges.mpr ⟨mem_allEdges_of_edge? he', hignored.trans hactive⟩, hmove, hfollows⟩

/-- What can be followed can still be followed. -/
theorem followsAll (h : g.Extends g') {v : NodeId} {selections : List Selection}
    (hfollows : g.followsAll v selections = true) : g'.followsAll v selections = true := by
  rw [followsAll_iff] at hfollows ⊢
  intro selection hselection
  have hold := hfollows selection hselection
  cases selection with
  | field name arguments selections =>
    rw [follows_field_iff] at hold ⊢
    refine hold.imp_right ?_
    rintro ⟨e, he, hresolves, htail⟩
    obtain ⟨e', he', hmove, hnew⟩ := h.exists_edge he
    refine ⟨e', he', ?_, hnew selections htail⟩
    rw [Edge.resolves, hmove]
    exact hresolves
  | inlineFragment condition selections => cases hold

/-- A graph that keeps all edges extends the graph. -/
theorem of_append (h : ∀ v n, g.node? v = some n → ∃ more,
    g'.node? v = some { n with edges := n.edges ++ more }) : g.Extends g' := by
  have hedges : ∀ v, ∀ e ∈ g.allEdges v, e ∈ g'.allEdges v := by
    intro v e he
    obtain ⟨n, hn, hmem⟩ := exists_node?_of_mem_allEdges he
    obtain ⟨more, hn'⟩ := h v n hn
    rw [allEdges_of_node? hn']
    exact List.mem_append_left _ hmem
  have hsimulates : Simulates g g' Eq := by
    rintro u _ rfl e he
    obtain ⟨hmem, hactive⟩ := mem_edges.mp he
    exact ⟨e, mem_edges.mpr ⟨hedges u e hmem, hactive⟩, rfl, rfl⟩
  refine ⟨fun v n hn => ?_, fun id e he => ?_⟩
  · obtain ⟨more, hn'⟩ := h v n hn
    exact ⟨_, hn', rfl, rfl⟩
  · obtain ⟨n, hn, -⟩ := exists_node?_of_mem_allEdges (mem_allEdges_of_edge? he)
    obtain ⟨more, hn'⟩ := h id.head n hn
    refine ⟨e, ?_, rfl, rfl, fun selections => hsimulates.followsAll rfl selections⟩
    rw [edge?, allEdges_of_node? hn] at he
    rw [edge?, allEdges_of_node? hn', List.getElem?_append_left (List.getElem?_eq_some_iff.mp he).1]
    exact he

/-- Adding a node extends the graph. -/
theorem addNode (g : QueryGraph) (n : Node) : g.Extends (g.addNode n).2 := by
  refine of_append fun v m hm => ⟨[], ?_⟩
  rw [node?_addNode_of_lt n (node?_eq_some_lt hm), hm, List.append_nil]

/-- Looking for a base node extends the graph. -/
theorem baseFor (g : QueryGraph) (typeName : String) (subgraph : SubgraphId) :
    g.Extends (g.baseFor typeName subgraph).2 := by
  rcases g.baseFor_eq typeName subgraph with ⟨v, n, -, -, heq⟩ | ⟨-, heq⟩
  · rw [heq]
    exact refl g
  · rw [heq]
    exact addNode g _

/-- Adding an edge extends the graph. -/
theorem addEdge (g : QueryGraph) (head : NodeId) (move : Move) (tail : NodeId) :
    g.Extends (g.addEdge head move tail).2 := by
  refine of_append fun v n hn => ?_
  by_cases hv : head = v
  · subst hv
    exact ⟨_, node?_modifyEdges_self hn _⟩
  · refine ⟨[], ?_⟩
    rw [List.append_nil, ← hn]
    exact node?_modifyEdges_of_ne _ hv

end Extends

/-! ## Copies -/

section

variable {id : EdgeId} {e : Edge} {w : Node}

/-- After an edge has been led to a copy, every node can do what it could, and the copy can do what
the original can. -/
theorem simulates_splitTail (he : g.edge? id = some e) (hw : g.node? e.tail = some w) :
    Simulates g (g.splitTail id).2 fun u u' => u' = u ∨ u = e.tail ∧ u' = g.size := by
  obtain ⟨n, hn, -⟩ := exists_node?_of_mem_allEdges (mem_allEdges_of_edge? he)
  rintro u u' hrelated e₁ he₁
  obtain ⟨hmem, hactive⟩ := mem_edges.mp he₁
  rcases hrelated with rfl | ⟨rfl, rfl⟩
  · obtain ⟨position, hposition⟩ := exists_edge?_of_mem hmem
    obtain ⟨m, hm, -⟩ := exists_node?_of_mem_allEdges hmem
    have hsplit := edge?_splitTail he hw (show (⟨u', position⟩ : EdgeId).head < g.size from
      node?_eq_some_lt hm)
    by_cases hsame : (⟨u', position⟩ : EdgeId) = id
    · rw [if_pos hsame] at hsplit
      obtain rfl : e₁ = e := Option.some.inj (hposition.symm.trans (hsame ▸ he))
      exact ⟨_, mem_edges.mpr ⟨mem_allEdges_of_edge? hsplit, hactive⟩, rfl, .inr ⟨rfl, rfl⟩⟩
    · rw [if_neg hsame, hposition] at hsplit
      exact ⟨e₁, mem_edges.mpr ⟨mem_allEdges_of_edge? hsplit, hactive⟩, rfl, .inl rfl⟩
  · -- the copy has the edges of the original, and they lead where they led before
    refine ⟨e₁, ?_, rfl, .inl rfl⟩
    rw [mem_edges, allEdges_of_node? (node?_splitTail_copy he hw (node?_eq_some_lt hn))]
    exact ⟨he₁, hactive⟩

/-- Leading an edge to a copy extends the graph. -/
theorem Extends.splitTail (he : g.edge? id = some e) (hw : g.node? e.tail = some w) :
    g.Extends (g.splitTail id).2 := by
  obtain ⟨n, hn, -⟩ := exists_node?_of_mem_allEdges (mem_allEdges_of_edge? he)
  have hsimulates := simulates_splitTail he hw
  refine ⟨fun v m hm => ?_, fun other e₁ he₁ => ?_⟩
  · by_cases hv : id.head = v
    · subst hv
      obtain rfl : n = m := Option.some.inj (hn.symm.trans hm)
      exact ⟨_, node?_splitTail_head he hw hn, rfl, rfl⟩
    · exact ⟨m, (node?_splitTail_of_ne he hw (node?_eq_some_lt hm) hv).trans hm, rfl, rfl⟩
  · obtain ⟨m, hm, -⟩ := exists_node?_of_mem_allEdges (mem_allEdges_of_edge? he₁)
    have hsplit := edge?_splitTail he hw (node?_eq_some_lt hm)
    by_cases hsame : other = id
    · rw [if_pos hsame] at hsplit
      obtain rfl : e₁ = e := Option.some.inj (he₁.symm.trans (hsame ▸ he))
      exact ⟨_, hsplit, rfl, rfl, hsimulates.followsAll (.inr ⟨rfl, rfl⟩)⟩
    · rw [if_neg hsame, he₁] at hsplit
      exact ⟨e₁, hsplit, rfl, rfl, hsimulates.followsAll (.inl rfl)⟩

/-- What can be followed from a node can be followed from its copy. -/
theorem followsAll_copy (he : g.edge? id = some e) (hw : g.node? e.tail = some w)
    {selections : List Selection} (hfollows : g.followsAll e.tail selections = true) :
    (g.splitTail id).2.followsAll g.size selections = true :=
  (simulates_splitTail he hw).followsAll (.inr ⟨rfl, rfl⟩) selections hfollows

end

end Federation.QueryGraph
