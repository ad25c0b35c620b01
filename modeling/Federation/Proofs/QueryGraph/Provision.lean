import Federation.Proofs.QueryGraph.Growth

/-!
# Providing selections

Providing selections at a node lets the graph grow step by step, and touches the edges of this node
and of new nodes only. Afterwards the selections can be followed from the node, as far as the
subgraph declares them.
-/

namespace Federation

mutual

/-- A subgraph declares all fields of a selection without type conditions. The field `__typename` is
there on every type. -/
def MergedSchema.Declares (m : MergedSchema) (id : SubgraphId) (typeName : String) :
    Selection → Prop
  | .field name _ selections => name = "__typename" ∨
      ∃ f, m.fieldIn? typeName name id = some f ∧ m.DeclaresAll id f.type.name selections
  | .inlineFragment _ _ => False

/-- A subgraph declares all fields of some selections. -/
def MergedSchema.DeclaresAll (m : MergedSchema) (id : SubgraphId) (typeName : String) :
    List Selection → Prop
  | [] => True
  | first :: others => m.Declares id typeName first ∧ m.DeclaresAll id typeName others

end

namespace QueryGraph

variable {merged : MergedSchema} {g g' : QueryGraph} {id : SubgraphId} {v : NodeId} {n : Node}

/-! ## Edges of fields -/

theorem typeNameOf_eq (hn : g.node? v = some n) : g.typeNameOf v = n.typeName := by
  rw [typeNameOf, hn]
  rfl

/-- An edge that is found leaves the node, is not ignored and is as it should be. -/
theorem findEdge?_eq_some {p : Edge → Bool} {edge : EdgeId} (h : g.findEdge? v p = some edge) :
    edge.head = v ∧ ∃ e, g.edge? edge = some e ∧ e.isIgnored = false ∧ p e = true := by
  obtain ⟨position, hposition, rfl⟩ := Option.map_eq_some_iff.mp h
  obtain ⟨hlt, he, -⟩ := List.findIdx?_eq_some_iff_getElem.mp hposition
  obtain ⟨hactive, hp⟩ := Bool.and_eq_true_iff.mp he
  exact ⟨rfl, _, List.getElem?_eq_getElem hlt, by simpa using hactive, hp⟩

/-- If no edge is found, none is as it should be. -/
theorem findEdge?_eq_none {p : Edge → Bool} (h : g.findEdge? v p = none) :
    ∀ e ∈ g.edges v, p e = false := by
  intro e he
  obtain ⟨hmem, hactive⟩ := mem_edges.mp he
  have hnone := List.findIdx?_eq_none_iff.mp (Option.map_eq_none_iff.mp h) e hmem
  simpa [hactive] using hnone

/-- The edge of a provided field is there or is added. -/
theorem growsTo_provideField? (hn : g.node? v = some n) (hsubgraph : n.subgraph = id) {name : String}
    {edge : EdgeId} (h : provideField? merged id v name g = some (edge, g')) :
    GrowsTo merged v g g' ∧ edge.head = v ∧
      ∃ e, g'.edge? edge = some e ∧ e.isIgnored = false ∧ e.resolves name = true := by
  unfold provideField? at h
  split at h
  · rename_i found hfound
    obtain ⟨rfl, rfl⟩ := Prod.mk.inj (Option.some.inj h)
    obtain ⟨hhead, he⟩ := findEdge?_eq_some hfound
    exact ⟨.refl, hhead, he⟩
  · rename_i hnone
    split at h
    · cases h
    · rename_i f hf
      rw [typeNameOf_eq hn] at hf
      have hlt := node?_eq_some_lt hn
      have hbase : Grows merged v g (g.baseFor f.type.name id).2 := .base g f.type.name id
      obtain ⟨w, hw, hname, hwsubgraph⟩ :=
        subject?_eq_some.mp (g.subject?_baseFor_fst f.type.name id)
      have hsame := node?_baseFor_of_lt f.type.name id hlt
      generalize g.baseFor f.type.name id = base at *
      obtain ⟨tail, g₁⟩ := base
      have hnew : ∀ e ∈ g₁.edges v, e.resolves name = false := by
        rw [edges_congr hsame]
        exact findEdge?_eq_none hnone
      have hfits : Edge.Fits merged g₁ n { move := .field name none true, tail } :=
        ⟨f, w, by rw [hsubgraph]; exact hf, hw, hname, hwsubgraph.trans hsubgraph.symm⟩
      obtain ⟨hedge, hgraph⟩ := Prod.mk.inj (Option.some.inj h)
      rw [← hedge, ← hgraph]
      refine ⟨.tail (.single hbase) (.add (Nat.le_refl v) (hsame.trans hn) hnew hfits), rfl, _,
        edge?_addEdge (hsame.trans hn) _ _, rfl, ?_⟩
      simp [Edge.resolves, Move.fieldName?]

/-- A declared field has an edge or gets one. -/
theorem exists_provideField? (hn : g.node? v = some n) {name : String} {f : FieldInGraph}
    (hf : merged.fieldIn? n.typeName name id = some f) :
    ∃ edge g', provideField? merged id v name g = some (edge, g') := by
  unfold provideField?
  split
  · exact ⟨_, _, rfl⟩
  · rw [typeNameOf_eq hn, show (merged.field? n.typeName name).bind _ = some f from hf]
    exact ⟨_, _, rfl⟩

/-- An edge of a field leads to a node of the field's type. -/
theorem IsTyped.exists_tail (hg : g.IsTyped merged) {edge : EdgeId} {e : Edge}
    (he : g.edge? edge = some e) (hn : g.node? edge.head = some n) {name : String}
    (hresolves : e.resolves name = true) :
    ∃ f w, merged.fieldIn? n.typeName name n.subgraph = some f ∧ g.node? e.tail = some w ∧
      w.typeName = f.type.name ∧ w.subgraph = n.subgraph := by
  have hmem := mem_allEdges_of_edge? he
  rw [allEdges_of_node? hn] at hmem
  have hfits := hg _ n hn e hmem
  unfold Edge.Fits at hfits
  cases hmove : e.move with
  | field other condition isProvided =>
    rw [hmove] at hfits
    obtain rfl : other = name := by simpa [Edge.resolves, Move.fieldName?, hmove] using hresolves
    exact hfits
  | entity key | interfaceObject key | narrow =>
    simp [Edge.resolves, Move.fieldName?, hmove] at hresolves

/-- An edge to a possible type leads to a node of the same subgraph. -/
theorem IsTyped.exists_possibleType (hg : g.IsTyped merged) {edge : EdgeId} {e : Edge}
    (he : g.edge? edge = some e) (hn : g.node? edge.head = some n)
    (hnarrows : e.move.isNarrowing = true) :
    ∃ w, g.node? e.tail = some w ∧ w.subgraph = n.subgraph := by
  have hmem := mem_allEdges_of_edge? he
  rw [allEdges_of_node? hn] at hmem
  have hfits := hg _ n hn e hmem
  unfold Edge.Fits at hfits
  cases hmove : e.move with
  | narrow =>
    rw [hmove] at hfits
    exact hfits
  | entity key | interfaceObject key | field name condition isProvided =>
    rw [hmove] at hnarrows
    cases hnarrows

/-! ## Selections -/

theorem splitTail_fst {edge : EdgeId} {e : Edge} {w : Node} (he : g.edge? edge = some e)
    (hw : g.node? e.tail = some w) : (g.splitTail edge).1 = g.size := by
  rw [splitTail_eq he hw]

/-- Leading an edge to a copy and letting the copy resolve more is a run of steps, too. -/
theorem growsTo_splitTail {first : NodeId} {edge : EdgeId} {e : Edge} {w : Node}
    (hfirst : first ≤ edge.head) (he : g.edge? edge = some e) (hw : g.node? e.tail = some w)
    (h : GrowsTo merged g.size (g.splitTail edge).2 g') : GrowsTo merged first g g' := by
  obtain ⟨n, hn, -⟩ := exists_node?_of_mem_allEdges (mem_allEdges_of_edge? he)
  have hle : first ≤ g.size := Nat.le_trans hfirst (Nat.le_of_lt (node?_eq_some_lt hn))
  exact .head (.split hfirst he hw) (h.mono hle)

mutual

theorem growsTo_provideOne {g : QueryGraph} {v : NodeId} {n : Node} (hg : g.IsTyped merged)
    (hn : g.node? v = some n) (hsubgraph : n.subgraph = id) (selection : Selection) :
    GrowsTo merged v g (provideOne merged id v g selection) := by
  cases selection with
  | field name arguments selections =>
    unfold provideOne
    split
    · exact .refl
    · rename_i edge g₁ hfield
      obtain ⟨hrun, rfl, e, he, -, hresolves⟩ := growsTo_provideField? hn hsubgraph hfield
      split
      · exact hrun
      · have hg₁ := hrun.isTyped hg
        obtain ⟨n₁, hn₁, -, hsubgraph₁⟩ := hrun.toExtends.nodes _ n hn
        obtain ⟨f, w, -, hw, -, hwsubgraph⟩ := hg₁.exists_tail he hn₁ hresolves
        have hcopy := node?_splitTail_copy he hw (node?_eq_some_lt hn₁)
        rw [← splitTail_fst he hw] at hcopy
        have hcopyid : Node.subgraph { w with edges := g₁.edges e.tail } = id :=
          hwsubgraph.trans (hsubgraph₁.trans hsubgraph)
        have hmore := growsTo_provide (hg₁.splitTail he hw) hcopy hcopyid selections
        refine hrun.trans (growsTo_splitTail (Nat.le_refl _) he hw ?_)
        rw [← splitTail_fst he hw]
        exact hmore
  | inlineFragment condition selections =>
    unfold provideOne
    split
    · exact growsTo_provide hg hn hsubgraph selections
    · split
      · exact .refl
      · rename_i edge hfound
        obtain ⟨rfl, e, he, -, hnarrows⟩ := findEdge?_eq_some hfound
        obtain ⟨w, hw, hwsubgraph⟩ :=
          hg.exists_possibleType he hn (Bool.and_eq_true_iff.mp hnarrows).1
        have hcopy := node?_splitTail_copy he hw (node?_eq_some_lt hn)
        rw [← splitTail_fst he hw] at hcopy
        have hcopyid : Node.subgraph { w with edges := g.edges e.tail } = id :=
          hwsubgraph.trans hsubgraph
        have hmore := growsTo_provide (hg.splitTail he hw) hcopy hcopyid selections
        refine growsTo_splitTail (Nat.le_refl _) he hw ?_
        rw [← splitTail_fst he hw]
        exact hmore

theorem growsTo_provide {g : QueryGraph} {v : NodeId} {n : Node} (hg : g.IsTyped merged)
    (hn : g.node? v = some n) (hsubgraph : n.subgraph = id) (selections : List Selection) :
    GrowsTo merged v g (provide merged id v g selections) := by
  cases selections with
  | nil =>
    rw [provide]
    exact .refl
  | cons first others =>
    rw [provide]
    have hfirst := growsTo_provideOne hg hn hsubgraph first
    obtain ⟨n', hn', -, hsubgraph'⟩ := hfirst.toExtends.nodes v n hn
    exact hfirst.trans
      (growsTo_provide (hfirst.isTyped hg) hn' (hsubgraph'.trans hsubgraph) others)

end

/-! ## What can be followed -/

/-- A selection that goes on below a field can be followed once it can be followed from the copy that
the edge of the field leads to. -/
theorem follows_of_splitTail {edge : EdgeId} {e : Edge} {w : Node} {name : String}
    {arguments : List (String × Value)} {selections : List Selection}
    (he : g.edge? edge = some e) (hactive : e.isIgnored = false) (hresolves : e.resolves name = true)
    (hw : g.node? e.tail = some w) (hrun : GrowsTo merged g.size (g.splitTail edge).2 g')
    (hfollows : g'.followsAll g.size selections = true) :
    g'.follows edge.head (.field name arguments selections) = true := by
  obtain ⟨n, hn, -⟩ := exists_node?_of_mem_allEdges (mem_allEdges_of_edge? he)
  have hlt := node?_eq_some_lt hn
  -- the run does not touch the node that the edge leaves
  have hsize : edge.head < (g.splitTail edge).2.size := by
    rw [size_splitTail he hw]
    exact Nat.lt_succ_of_lt hlt
  have hsame := hrun.node?_eq hlt hsize
  have hedge := edge?_splitTail he hw hlt
  rw [if_pos rfl, ← edge?_congr hsame] at hedge
  exact follows_field_iff.mpr
    (.inr ⟨_, mem_edges.mpr ⟨mem_allEdges_of_edge? hedge, hactive⟩, hresolves, hfollows⟩)

mutual

theorem follows_provideOne {g : QueryGraph} {v : NodeId} {n : Node} (hg : g.IsTyped merged)
    (hn : g.node? v = some n) (hsubgraph : n.subgraph = id) (selection : Selection)
    (hdeclared : merged.Declares id n.typeName selection) :
    (provideOne merged id v g selection).follows v selection = true := by
  cases selection with
  | field name arguments selections =>
    unfold MergedSchema.Declares at hdeclared
    rcases hdeclared with rfl | ⟨f, hf, hbelow⟩
    · exact follows_field_iff.mpr (.inl rfl)
    · obtain ⟨edge, g₁, hfield⟩ := exists_provideField? hn hf
      obtain ⟨hrun, rfl, e, he, hactive, hresolves⟩ := growsTo_provideField? hn hsubgraph hfield
      unfold provideOne
      rw [hfield]
      dsimp only
      split
      · rename_i hempty
        rw [List.isEmpty_iff.mp hempty]
        exact follows_field_iff.mpr
          (.inr ⟨e, mem_edges.mpr ⟨mem_allEdges_of_edge? he, hactive⟩, hresolves, rfl⟩)
      · have hg₁ := hrun.isTyped hg
        obtain ⟨n₁, hn₁, hname₁, hsubgraph₁⟩ := hrun.toExtends.nodes _ n hn
        obtain ⟨f', w, hf', hw, hwname, hwsubgraph⟩ := hg₁.exists_tail he hn₁ hresolves
        obtain rfl : f = f' := by
          rw [hname₁, hsubgraph₁, hsubgraph, hf] at hf'
          exact Option.some.inj hf'
        have hcopy := node?_splitTail_copy he hw (node?_eq_some_lt hn₁)
        have hcopyid : Node.subgraph { w with edges := g₁.edges e.tail } = id :=
          hwsubgraph.trans (hsubgraph₁.trans hsubgraph)
        have hg₂ := hg₁.splitTail he hw
        have hmore := growsTo_provide hg₂ hcopy hcopyid selections
        have hfollows := followsAll_provide hg₂ hcopy hcopyid selections (hwname ▸ hbelow)
        rw [splitTail_fst he hw]
        exact follows_of_splitTail he hactive hresolves hw hmore hfollows
  | inlineFragment condition selections => exact hdeclared.elim

theorem followsAll_provide {g : QueryGraph} {v : NodeId} {n : Node} (hg : g.IsTyped merged)
    (hn : g.node? v = some n) (hsubgraph : n.subgraph = id) (selections : List Selection)
    (hdeclared : merged.DeclaresAll id n.typeName selections) :
    (provide merged id v g selections).followsAll v selections = true := by
  cases selections with
  | nil => rfl
  | cons first others =>
    obtain ⟨hfirst, hothers⟩ := hdeclared
    have hrun := growsTo_provideOne hg hn hsubgraph first
    obtain ⟨n', hn', hname', hsubgraph'⟩ := hrun.toExtends.nodes v n hn
    have hg' := hrun.isTyped hg
    have hid := hsubgraph'.trans hsubgraph
    have hrest := growsTo_provide hg' hn' hid others
    have hprovided : (provideOne merged id v g first).followsAll v [first] = true := by
      rw [followsAll, follows_provideOne hg hn hsubgraph first hfirst]
      rfl
    rw [provide, followsAll, Bool.and_eq_true_iff]
    refine ⟨?_, followsAll_provide hg' hn' hid others (hname' ▸ hothers)⟩
    exact (Bool.and_eq_true_iff.mp (hrest.toExtends.followsAll hprovided)).1

end

end QueryGraph

end Federation
