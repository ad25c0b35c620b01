import Federation.Proofs.QueryGraph.FieldMoves

/-!
# Copies stay behind the fields that provide

Fields are provided at copies. Base nodes keep the edges that they have before anything is provided;
only the edges of fields that provide something are led to copies. So nothing that has been provided
is found without taking the edge of such a field first.
-/

namespace Federation

/-- The move resolves a field that is there only because it is provided. -/
def Move.isProvided : Move → Bool
  | .field _ _ isProvided => isProvided
  | .entity _ | .interfaceObject _ | .narrow => false

namespace QueryGraph

variable {g g' : QueryGraph} {v : NodeId}

/-! ## Base nodes and copies -/

/-- The node is the first one that stands for its type in its subgraph. -/
def IsBase (g : QueryGraph) (v : NodeId) : Prop :=
  ∃ typeName subgraph, g.base? typeName subgraph = some v

/-- An earlier node stands for the same type in the same subgraph. -/
def IsCopy (g : QueryGraph) (v : NodeId) : Prop :=
  ∃ u < v, ∃ subject, g.subject? u = some subject ∧ g.subject? v = some subject

theorem base?_eq_some_iff {typeName : String} {subgraph : SubgraphId} :
    g.base? typeName subgraph = some v ↔ g.subject? v = some (typeName, subgraph) ∧
      ∀ u < v, g.subject? u ≠ some (typeName, subgraph) := by
  constructor
  · intro h
    refine ⟨base?_eq_some h, fun u hu hsubject => ?_⟩
    obtain ⟨hv, -, hbefore⟩ := Array.findIdx?_eq_some_iff_getElem.mp h
    obtain ⟨n, hn, hof⟩ := subject?_eq_some.mp hsubject
    have hlt : u < g.nodes.size := Nat.lt_trans hu hv
    obtain rfl : g.nodes[u] = n := Option.some.inj ((Array.getElem?_eq_getElem hlt).symm.trans hn)
    exact hbefore u hu (isOf_iff.mpr hof)
  · rintro ⟨hsubject, hbefore⟩
    obtain ⟨n, hn, hof⟩ := subject?_eq_some.mp hsubject
    have hlt := node?_eq_some_lt hn
    obtain rfl : g.nodes[v] = n := Option.some.inj ((Array.getElem?_eq_getElem hlt).symm.trans hn)
    refine Array.findIdx?_eq_some_iff_getElem.mpr ⟨hlt, isOf_iff.mpr hof, fun u hu hother => ?_⟩
    exact hbefore u hu (subject?_eq_some.mpr
      ⟨_, Array.getElem?_eq_getElem (Nat.lt_trans hu hlt), isOf_iff.mp hother⟩)

/-- A copy is no base node. -/
theorem IsCopy.not_isBase (h : g.IsCopy v) : ¬ g.IsBase v := by
  rintro ⟨typeName, subgraph, hbase⟩
  obtain ⟨u, hu, subject, hsubject, hsame⟩ := h
  obtain ⟨hv, hbefore⟩ := base?_eq_some_iff.mp hbase
  exact hbefore u hu (hsubject.trans (hsame.symm.trans hv))

/-- A copy is still a copy when the graph has grown. -/
theorem IsCopy.extends (h : g.IsCopy v) (hextends : g.Extends g') : g'.IsCopy v := by
  obtain ⟨u, hu, subject, hsubject, hsame⟩ := h
  exact ⟨u, hu, subject, hextends.subject? hsubject, hextends.subject? hsame⟩

/-- An edge that is split leads to a copy. -/
theorem isCopy_splitTail {id : EdgeId} {e : Edge} {w : Node} (he : g.edge? id = some e)
    (hw : g.node? e.tail = some w) : (g.splitTail id).2.IsCopy g.size := by
  have hsubject : g.subject? e.tail = some (w.typeName, w.subgraph) :=
    subject?_eq_some.mpr ⟨w, hw, rfl, rfl⟩
  exact ⟨e.tail, node?_eq_some_lt hw, _, (Extends.splitTail he hw).subject? hsubject,
    (subject?_splitTail_copy he hw).trans hsubject⟩

theorem exists_subject?_of_lt (h : v < g.size) : ∃ subject, g.subject? v = some subject := by
  obtain ⟨n, hn⟩ := exists_node?_of_lt h
  exact ⟨_, subject?_eq_some.mpr ⟨n, hn, rfl, rfl⟩⟩

theorem lt_of_subject? {subject : String × SubgraphId} (h : g.subject? v = some subject) :
    v < g.size := by
  obtain ⟨n, hn, -⟩ := subject?_eq_some.mp h
  exact node?_eq_some_lt hn

theorem Extends.size_le (h : g.Extends g') : g.size ≤ g'.size := by
  refine Nat.le_of_not_lt fun hlt => ?_
  obtain ⟨subject, hsubject⟩ := exists_subject?_of_lt hlt
  exact Nat.lt_irrefl _ (lt_of_subject? (h.subject? hsubject))

/-! ## Graphs before fields are provided -/

/-- Every edge leads to a node, and none resolves a field that is only provided. -/
def ProvidesNothing (g : QueryGraph) : Prop :=
  ∀ id e, g.edge? id = some e → e.tail < g.size ∧ e.move.isProvided = false

theorem providesNothing_empty : ({} : QueryGraph).ProvidesNothing := by
  intro id e he
  obtain ⟨n, hn, -⟩ := exists_node?_of_mem_allEdges (mem_allEdges_of_edge? he)
  cases hn

namespace ProvidesNothing

theorem baseFor (h : g.ProvidesNothing) (typeName : String) (subgraph : SubgraphId) :
    (g.baseFor typeName subgraph).2.ProvidesNothing := by
  intro id e he
  rw [edge?_baseFor] at he
  obtain ⟨htail, hmove⟩ := h id e he
  exact ⟨Nat.lt_of_lt_of_le htail (Extends.baseFor g typeName subgraph).size_le, hmove⟩

theorem addEdge (h : g.ProvidesNothing) {move : Move} {tail : NodeId} (htail : tail < g.size)
    (hmove : move.isProvided = false) : (g.addEdge v move tail).2.ProvidesNothing := by
  intro id e he
  rw [show (g.addEdge v move tail).2.size = g.size from size_modifyEdges g v _]
  rcases edge?_of_addEdge he with he | ⟨-, rfl⟩
  · exact h id e he
  · exact ⟨htail, hmove⟩

theorem ignoreEdge (h : g.ProvidesNothing) (id : EdgeId) : (g.ignoreEdge id).ProvidesNothing := by
  intro other e' he'
  rw [show (g.ignoreEdge id).size = g.size from size_modifyEdges g id.head _]
  rw [edge?_ignoreEdge, Option.map_eq_some_iff] at he'
  obtain ⟨e, he, rfl⟩ := he'
  have hold := h other e he
  split
  · exact hold
  · exact hold

end ProvidesNothing

end QueryGraph

namespace Draft

/-- Nothing has been provided yet, and there is something to be provided for each note. -/
structure ProvidesNothing (d : Draft) : Prop where
  graph : d.graph.ProvidesNothing
  provisions : ∀ p ∈ d.provisions, p.selections ≠ []

namespace ProvidesNothing

variable {d : Draft} (h : d.ProvidesNothing)

include h

theorem addField (id : SubgraphId) (node : NodeId) (plan : FieldPlan) :
    (addField id node d plan).ProvidesNothing := by
  have htail := QueryGraph.lt_of_subject? (d.graph.subject?_baseFor_fst plan.typeName id)
  have hmove : (Move.field plan.name plan.condition false).isProvided = false := rfl
  have hadded := (h.graph.baseFor plan.typeName id).addEdge (v := node) htail hmove
  unfold Draft.addField
  constructor
  · dsimp only
    split
    · exact hadded.ignoreEdge _
    · exact hadded
  · dsimp only
    split
    · exact h.provisions
    · rename_i hprovides
      intro p hp
      rcases List.mem_append.mp hp with hp | hp
      · exact h.provisions p hp
      · rw [List.mem_singleton.mp hp]
        exact fun hnil => hprovides (List.isEmpty_iff.mpr hnil)

theorem addPossibleType (id : SubgraphId) (node : NodeId) (possible : String) :
    (addPossibleType id node d possible).ProvidesNothing where
  graph := (h.graph.baseFor possible id).addEdge
    (QueryGraph.lt_of_subject? (d.graph.subject?_baseFor_fst possible id)) rfl
  provisions := h.provisions

theorem addType (id : SubgraphId) (t : TypeDef) (plans : List FieldPlan)
    (possibleTypes : List String) : (addType id d t plans possibleTypes).ProvidesNothing := by
  have hfields := List.foldlRecOn plans (Draft.addField id (d.graph.baseFor t.name id).1)
    (motive := ProvidesNothing) (b := { d with graph := (d.graph.baseFor t.name id).2 })
    ⟨h.graph.baseFor t.name id, h.provisions⟩ fun _ hd plan _ => hd.addField id _ plan
  exact List.foldlRecOn possibleTypes (Draft.addPossibleType id (d.graph.baseFor t.name id).1)
    (motive := ProvidesNothing) hfields fun _ hd possible _ => hd.addPossibleType id _ possible

omit h in
theorem expand (s : Source) (queue : List String) (e : Expansion) (h : e.draft.ProvidesNothing) :
    (expand s queue e).draft.ProvidesNothing := by
  fun_induction Draft.expand s queue e with
  | case1 e => exact h
  | case2 e name queue hfound ih => exact ih h
  | case3 e name queue t hfound hfewer ih =>
    have hadded := ih (h.addType s.id t _ _)
    simpa only [List.unattach_filter, List.unattach_attach] using hadded

theorem addSubgraph (merged : MergedSchema) (nameOf : SubgraphId → String)
    (entry : SubgraphId × Subgraph) : (addSubgraph merged nameOf d entry).ProvidesNothing :=
  .expand _ _ _ (.expand _ _ _ (.expand _ _ _ h))

end ProvidesNothing

end Draft

namespace QueryGraph

variable {set : SubgraphSet} {merged : MergedSchema} {g g' : QueryGraph} {v : NodeId}

namespace ProvidesNothing

/-- Fetching objects provides nothing, and leaves the nodes as they are. -/
theorem addKeyEdge {target : NodeId} (h : g.ProvidesNothing ∧ target < g.size)
    {makeMove : Key → Move} (hmove : ∀ key, (makeMove key).isProvided = false) (keys : List Key)
    (sourceName : String) (source : SubgraphId × TypeDef) :
    (addKeyEdge set makeMove keys target sourceName g source).ProvidesNothing ∧
      target < (addKeyEdge set makeMove keys target sourceName g source).size := by
  unfold QueryGraph.addKeyEdge
  dsimp only
  split
  · exact ⟨h.1.addEdge h.2 (hmove _), (size_modifyEdges g _ _).symm ▸ h.2⟩
  · exact h

theorem joinTarget (h : g.ProvidesNothing) (t : MergedType) (target : SubgraphId × TypeDef) :
    (joinTarget set t g target).ProvidesNothing := by
  unfold QueryGraph.joinTarget
  split
  · exact h
  · rename_i node hnode
    exact (List.foldlRecOn _ (QueryGraph.addKeyEdge set .entity target.2.keys node t.name)
      (motive := fun g => g.ProvidesNothing ∧ node < g.size)
      ⟨h, lt_of_subject? (base?_eq_some hnode)⟩
      fun _ hg source _ => addKeyEdge hg (fun _ => rfl) _ _ source).1

theorem joinInterfaceObject (h : g.ProvidesNothing) (t : MergedType)
    (target : SubgraphId × TypeDef) :
    (joinInterfaceObject set merged t g target).ProvidesNothing := by
  unfold QueryGraph.joinInterfaceObject
  split
  · exact h
  · rename_i node hnode
    refine (List.foldlRecOn t.implementations (joinImplementation set merged node target.2.keys)
      (motive := fun g => g.ProvidesNothing ∧ node < g.size)
      ⟨h, lt_of_subject? (base?_eq_some hnode)⟩ fun g hg implementation _ => ?_).1
    unfold joinImplementation
    split
    · exact hg
    · rename_i object _
      exact List.foldlRecOn object.byGraph (motive := fun g => g.ProvidesNothing ∧ node < g.size)
        (QueryGraph.addKeyEdge set .interfaceObject target.2.keys node object.name) hg
        fun _ hg source _ => addKeyEdge hg (fun _ => rfl) _ _ source

theorem joinType (h : g.ProvidesNothing) (t : MergedType) :
    (joinType set merged g t).ProvidesNothing := by
  have hjoined := List.foldlRecOn t.byGraph (QueryGraph.joinTarget set t)
    (motive := ProvidesNothing) h fun _ hg target _ => hg.joinTarget t target
  have hstandIns := List.foldlRecOn (t.byGraph.filter fun entry => entry.2.isInterfaceObject)
    (QueryGraph.joinInterfaceObject set merged t) (motive := ProvidesNothing) hjoined
    fun _ hg target _ => hg.joinInterfaceObject t target
  unfold QueryGraph.joinType
  split
  · exact hstandIns
  · exact hstandIns
  · exact h

end ProvidesNothing

theorem providesNothing_draft (set : SubgraphSet) (merged : MergedSchema) :
    (draft set merged).ProvidesNothing :=
  List.foldlRecOn set.enumerated (Draft.addSubgraph merged set.nameOf)
    (motive := Draft.ProvidesNothing) (b := {}) ⟨providesNothing_empty, nofun⟩
    fun _ hd entry _ => hd.addSubgraph merged set.nameOf entry

/-- Before it is their turn, fields provide nothing. -/
theorem providesNothing_joined (set : SubgraphSet) (merged : MergedSchema) :
    (joined set merged).ProvidesNothing :=
  List.foldlRecOn merged.types (QueryGraph.joinType set merged) (motive := ProvidesNothing)
    (providesNothing_draft set merged).graph fun _ hg t _ => hg.joinType t

/-! ## What is provided leaves copies -/

/-- Edges of fields that are only provided leave copies, and so do all edges of nodes from some node
on. -/
def StaysBehind (first : NodeId) (g : QueryGraph) : Prop :=
  ∀ id e, g.edge? id = some e → first ≤ id.head ∨ e.move.isProvided = true → g.IsCopy id.head

theorem ProvidesNothing.staysBehind (h : g.ProvidesNothing) : g.StaysBehind g.size := by
  rintro id e he (hlast | hprovided)
  · exact absurd (edge?_head_lt he) (Nat.not_lt.mpr hlast)
  · rw [(h id e he).2] at hprovided
    cases hprovided

namespace StaysBehind

variable {first : NodeId}

theorem baseFor (h : g.StaysBehind first) (typeName : String) (subgraph : SubgraphId) :
    (g.baseFor typeName subgraph).2.StaysBehind first := by
  intro id e he hid
  rw [edge?_baseFor] at he
  exact (h id e he hid).extends (.baseFor g typeName subgraph)

/-- Copies may get edges. -/
theorem addEdge (h : g.StaysBehind first) (hv : g.IsCopy v) (move : Move) (tail : NodeId) :
    (g.addEdge v move tail).2.StaysBehind first := by
  have hextends := Extends.addEdge g v move tail
  intro id e he hid
  rcases edge?_of_addEdge he with he | ⟨rfl, -⟩
  · exact (h id e he hid).extends hextends
  · exact hv.extends hextends

/-- Edges may be led to copies. -/
theorem splitTail (h : g.StaysBehind first) {id : EdgeId} {e : Edge} {w : Node}
    (he : g.edge? id = some e) (hw : g.node? e.tail = some w) :
    (g.splitTail id).2.StaysBehind first := by
  have hextends := Extends.splitTail he hw
  intro other e' he' hother
  have hlt := edge?_head_lt he'
  rw [size_splitTail he hw] at hlt
  rcases Nat.lt_succ_iff_lt_or_eq.mp hlt with hlt | hlast
  · rw [edge?_splitTail he hw hlt] at he'
    split at he'
    · rename_i hsame
      obtain rfl := Option.some.inj he'
      subst hsame
      exact (h other e he hother).extends hextends
    · exact (h other e' he' hother).extends hextends
  · rw [hlast]
    exact isCopy_splitTail he hw


/-- The edge of a provided field is there or is added to a copy. -/
theorem provideField? (h : g.StaysBehind first) (hv : g.IsCopy v) {id : SubgraphId} {name : String}
    {edge : EdgeId} (hfield : provideField? merged id v name g = some (edge, g')) :
    g'.StaysBehind first := by
  unfold QueryGraph.provideField? at hfield
  split at hfield
  · obtain ⟨-, rfl⟩ := Prod.mk.inj (Option.some.inj hfield)
    exact h
  · split at hfield
    · cases hfield
    · rename_i f hf
      obtain ⟨-, rfl⟩ := Prod.mk.inj (Option.some.inj hfield)
      exact (h.baseFor f.type.name id).addEdge (hv.extends (.baseFor g f.type.name id)) _ _

mutual

/-- Letting a copy resolve a selection adds edges to copies only. -/
theorem provideOne {g : QueryGraph} {v : NodeId} {n : Node} {id : SubgraphId}
    (h : g.StaysBehind first) (hg : g.IsTyped merged) (hn : g.node? v = some n)
    (hsubgraph : n.subgraph = id) (hv : g.IsCopy v) (selection : Selection) :
    (provideOne merged id v g selection).StaysBehind first := by
  cases selection with
  | field name arguments selections =>
    unfold QueryGraph.provideOne
    split
    · exact h
    · rename_i edge g₁ hfield
      obtain ⟨hrun, rfl, e, he, -, hresolves⟩ := growsTo_provideField? hn hsubgraph hfield
      have hadded := h.provideField? hv hfield
      split
      · exact hadded
      · have hg₁ := hrun.isTyped hg
        obtain ⟨n₁, hn₁, -, hsubgraph₁⟩ := hrun.toExtends.nodes _ n hn
        obtain ⟨f, w, -, hw, -, hwsubgraph⟩ := hg₁.exists_tail he hn₁ hresolves
        dsimp only
        rw [splitTail_fst he hw]
        exact (hadded.splitTail he hw).provide (hg₁.splitTail he hw)
          (node?_splitTail_copy he hw (edge?_head_lt he))
          (hwsubgraph.trans (hsubgraph₁.trans hsubgraph)) (isCopy_splitTail he hw) selections
  | inlineFragment condition selections =>
    unfold QueryGraph.provideOne
    split
    · exact h.provide hg hn hsubgraph hv selections
    · split
      · exact h
      · rename_i edge hfound
        obtain ⟨rfl, e, he, -, hnarrows⟩ := findEdge?_eq_some hfound
        obtain ⟨w, hw, hwsubgraph⟩ :=
          hg.exists_possibleType he hn (Bool.and_eq_true_iff.mp hnarrows).1
        dsimp only
        rw [splitTail_fst he hw]
        exact (h.splitTail he hw).provide (hg.splitTail he hw)
          (node?_splitTail_copy he hw (edge?_head_lt he)) (hwsubgraph.trans hsubgraph)
          (isCopy_splitTail he hw) selections

/-- Letting a copy resolve selections adds edges to copies only. -/
theorem provide {g : QueryGraph} {v : NodeId} {n : Node} {id : SubgraphId}
    (h : g.StaysBehind first) (hg : g.IsTyped merged) (hn : g.node? v = some n)
    (hsubgraph : n.subgraph = id) (hv : g.IsCopy v) (selections : List Selection) :
    (provide merged id v g selections).StaysBehind first := by
  cases selections with
  | nil =>
    rw [QueryGraph.provide]
    exact h
  | cons first others =>
    rw [QueryGraph.provide]
    have hfirst := growsTo_provideOne hg hn hsubgraph first
    obtain ⟨n', hn', -, hsubgraph'⟩ := hfirst.toExtends.nodes v n hn
    exact (h.provideOne hg hn hsubgraph hv first).provide (hfirst.isTyped hg) hn'
      (hsubgraph'.trans hsubgraph) (hv.extends hfirst.toExtends) others

end

/-- Letting what a field leads to resolve what the field provides adds edges to copies only. -/
theorem resolveProvision (h : g.StaysBehind first) (hg : g.IsTyped merged) {p : Provision}
    {f : FieldInGraph} (hf : EdgeResolves merged g p.edge p.subgraph f) :
    (resolveProvision merged g p).StaysBehind first := by
  obtain ⟨e, w, he, hw, -, hsubgraph⟩ := hf.exists_tail hg
  show (QueryGraph.provide merged p.subgraph (g.splitTail p.edge).1 (g.splitTail p.edge).2
    p.selections).StaysBehind first
  rw [splitTail_fst he hw]
  exact (h.splitTail he hw).provide (hg.splitTail he hw)
    (node?_splitTail_copy he hw (edge?_head_lt he)) hsubgraph (isCopy_splitTail he hw) p.selections

/-- Resolving notes adds edges to copies only. -/
theorem foldl {provisions : List Provision} (h : g.StaysBehind first) (hg : g.IsTyped merged)
    (hnoted : ∀ p ∈ provisions, IsNoted merged g p) :
    (provisions.foldl (QueryGraph.resolveProvision merged) g).StaysBehind first := by
  induction provisions generalizing g with
  | nil => exact h
  | cons p provisions ih =>
    obtain ⟨⟨f, hf, -⟩, hothers⟩ := List.forall_mem_cons.mp hnoted
    have hfirst := growsTo_resolveProvision hg hf
    exact ih (h.resolveProvision hg hf) (hfirst.isTyped hg)
      fun q hq => (hothers q hq).extends hfirst.toExtends

end StaysBehind

/-! ## Where edges lead -/

/-- Notes lead their edges to new nodes of the same type, and leave all other edges as they are. -/
theorem tail_foldl {provisions : List Provision} (hg : g.IsTyped merged)
    (hnoted : ∀ p ∈ provisions, IsNoted merged g p) {id : EdgeId} {e : Edge}
    (he : g.edge? id = some e) (htail : e.tail < g.size) :
    ∃ e', (provisions.foldl (QueryGraph.resolveProvision merged) g).edge? id = some e' ∧
      e'.move = e.move ∧ e'.isIgnored = e.isIgnored ∧
      (provisions.foldl (QueryGraph.resolveProvision merged) g).subject? e'.tail =
        g.subject? e.tail ∧
      ((∃ p ∈ provisions, p.edge = id) → g.size ≤ e'.tail) ∧
      ((∀ p ∈ provisions, p.edge ≠ id) → e'.tail = e.tail) := by
  induction provisions generalizing g e with
  | nil => exact ⟨e, he, rfl, rfl, rfl, nofun, fun _ => rfl⟩
  | cons p provisions ih =>
    obtain ⟨⟨f, hf, -⟩, hothers⟩ := List.forall_mem_cons.mp hnoted
    have hfirst := growsTo_resolveProvision hg hf
    have hsize := hfirst.toExtends.size_le
    obtain ⟨subject, hsubject⟩ := exists_subject?_of_lt htail
    obtain ⟨w, hw, -⟩ := Option.map_eq_some_iff.mp hsubject
    have hedge := edge?_resolveProvision hg hf (edge?_head_lt he)
    rw [he, Option.map_some] at hedge
    by_cases hsame : id = p.edge
    · rw [if_pos hsame] at hedge
      subst hsame
      have hcopy := (resolveProvision_splitTail hg hf).1.toExtends.subject?
        ((subject?_splitTail_copy he hw).trans hsubject)
      obtain ⟨e', he', hmove, hignored, hsubject', hnew, hold⟩ := ih (hfirst.isTyped hg)
        (fun q hq => (hothers q hq).extends hfirst.toExtends) hedge (lt_of_subject? hcopy)
      refine ⟨e', he', hmove, hignored, hsubject'.trans (hcopy.trans hsubject.symm), fun _ => ?_,
        fun hnone => absurd rfl (hnone p List.mem_cons_self)⟩
      by_cases hlater : ∃ q ∈ provisions, q.edge = p.edge
      · exact Nat.le_trans hsize (hnew hlater)
      · exact Nat.le_of_eq (hold fun q hq hqedge => hlater ⟨q, hq, hqedge⟩).symm
    · rw [if_neg hsame] at hedge
      obtain ⟨e', he', hmove, hignored, hsubject', hnew, hold⟩ := ih (hfirst.isTyped hg)
        (fun q hq => (hothers q hq).extends hfirst.toExtends) hedge
        (Nat.lt_of_lt_of_le htail hsize)
      refine ⟨e', he', hmove, hignored, ?_, ?_, ?_⟩
      · rw [List.foldl_cons, hsubject', hfirst.toExtends.subject? hsubject, hsubject]
      · rintro ⟨q, hq, hqedge⟩
        rcases List.mem_cons.mp hq with rfl | hq
        · exact absurd hqedge.symm hsame
        · exact Nat.le_trans hsize (hnew ⟨q, hq, hqedge⟩)
      · exact fun hnone => hold fun q hq => hnone q (List.mem_cons_of_mem _ hq)

/-! ## Base nodes -/

/-- The edge that leaves a node resolves a field that provides something. -/
def HasProvides (merged : MergedSchema) (g : QueryGraph) (v : NodeId) (e : Edge) : Prop :=
  ∃ typeName subgraph name f selections, g.subject? v = some (typeName, subgraph) ∧
    e.resolves name = true ∧ merged.fieldIn? typeName name subgraph = some f ∧
    f.provides = some selections ∧ selections ≠ []

/-- What becomes of an edge of a base node: it makes the same move, to the same node unless it
resolves a field that provides something. Then it leads to a copy of the node. -/
structure IsKept (merged : MergedSchema) (g : QueryGraph) (v : NodeId) (before after : Edge) :
    Prop where
  move : after.move = before.move
  isIgnored : after.isIgnored = before.isIgnored
  tail : ¬ HasProvides merged g v after → after.tail = before.tail
  copy : HasProvides merged g v after →
    g.IsCopy after.tail ∧ g.subject? after.tail = g.subject? before.tail

/-- Some edge leads from one node to another without resolving a field that provides something. -/
def LeadsAside (merged : MergedSchema) (g : QueryGraph) (u v : NodeId) : Prop :=
  ∃ e ∈ g.allEdges u, e.tail = v ∧ ¬ HasProvides merged g u e

section

variable (hm : MergedSchema.ofSubgraphs set = .ok merged)

include hm

theorem extends_ofSubgraphs : (joined set merged).Extends (ofSubgraphs set merged) :=
  (growsTo_ofSubgraphs hm 0).toExtends

/-- All nodes are base nodes before anything is provided, and so they are afterwards. -/
theorem base?_of_subject?_joined {typeName : String} {subgraph : SubgraphId}
    (h : (joined set merged).subject? v = some (typeName, subgraph)) :
    (joined set merged).base? typeName subgraph = some v := by
  refine base?_eq_some_iff.mpr ⟨h, fun u hu hsubject => Nat.ne_of_lt hu ?_⟩
  exact (isReady_joinSubgraphs hm).distinct u v _ hsubject h

/-- Edges are noted if they resolve fields that provide something. -/
theorem exists_provision_iff {id : EdgeId} {e : Edge} (he : (joined set merged).edge? id = some e) :
    (∃ p ∈ (draft set merged).provisions, p.edge = id) ↔
      HasProvides merged (joined set merged) id.head e := by
  have hready := isReady_joinSubgraphs hm
  constructor
  · rintro ⟨p, hp, rfl⟩
    obtain ⟨f, ⟨typeName, name, e', htype, he', hresolves, hf⟩, hprovides⟩ := hready.sound p hp
    obtain rfl := Option.some.inj (he'.symm.trans he)
    exact ⟨typeName, p.subgraph, name, f, p.selections, htype, hresolves, hf, hprovides,
      (providesNothing_draft set merged).provisions p hp⟩
  · rintro ⟨typeName, subgraph, name, f, selections, htype, hresolves, hf, hprovides, hne⟩
    exact hready.complete id subgraph f selections ⟨typeName, name, e, htype, he, hresolves, hf⟩
      hprovides hne

/-- Edges that are there before anything is provided are kept. -/
theorem exists_isKept {id : EdgeId} {e : Edge} (he : (joined set merged).edge? id = some e) :
    ∃ e', (ofSubgraphs set merged).edge? id = some e' ∧
      IsKept merged (ofSubgraphs set merged) id.head e e' := by
  have hready := isReady_joinSubgraphs hm
  have hextends := extends_ofSubgraphs hm
  have htail := (providesNothing_joined set merged id e he).1
  obtain ⟨e', he', hmove, hignored, hsubject, hnew, hold⟩ :=
    tail_foldl hready.typed hready.sound he htail
  obtain ⟨target, htarget⟩ := exists_subject?_of_lt htail
  have hafter := hsubject.trans htarget
  obtain ⟨source, hsource⟩ := exists_subject?_of_lt (edge?_head_lt he)
  -- whether a field provides something is the same before and after
  have hprovides : HasProvides merged (ofSubgraphs set merged) id.head e' ↔
      ∃ p ∈ (draft set merged).provisions, p.edge = id := by
    rw [exists_provision_iff hm he]
    unfold HasProvides Edge.resolves
    rw [hextends.subject? hsource, hsource, hmove]
  refine ⟨e', he', hmove, hignored, fun hnone => hold fun p hp hedge => ?_, fun hprovided => ?_⟩
  · exact hnone (hprovides.mpr ⟨p, hp, hedge⟩)
  · have hlt := Nat.lt_of_lt_of_le htail (hnew (hprovides.mp hprovided))
    have hbefore := hextends.subject? htarget
    exact ⟨⟨e.tail, hlt, target, hbefore, hafter⟩, hafter.trans hbefore.symm⟩

/-- The edges of a node that is there before anything is provided are kept. -/
theorem forall₂_isKept (hv : v < (joined set merged).size) :
    List.Forall₂ (IsKept merged (ofSubgraphs set merged) v) ((joined set merged).allEdges v)
      ((ofSubgraphs set merged).allEdges v) := by
  have hready := isReady_joinSubgraphs hm
  refine List.forall₂_iff_get.mpr ⟨Nat.le_antisymm ?_ ?_, fun i hbefore hafter => ?_⟩
  · refine Nat.le_of_not_lt fun hlt => ?_
    have hedge : (joined set merged).edge? ⟨v, _⟩ = some _ := List.getElem?_eq_getElem hlt
    obtain ⟨e', he', -⟩ := exists_isKept hm hedge
    exact Nat.lt_irrefl _ (List.getElem?_eq_some_iff.mp he').1
  · refine Nat.le_of_not_lt fun hlt => ?_
    have hedge : (ofSubgraphs set merged).edge? ⟨v, _⟩ = some _ := List.getElem?_eq_getElem hlt
    obtain ⟨e, he, -⟩ := exists_edge?_of_foldl hready.typed hready.sound hv hedge
    exact Nat.lt_irrefl _ (List.getElem?_eq_some_iff.mp he).1
  · have hedge : (joined set merged).edge? ⟨v, i⟩ = some _ := List.getElem?_eq_getElem hbefore
    obtain ⟨e', he', hkept⟩ := exists_isKept hm hedge
    obtain rfl := Option.some.inj ((List.getElem?_eq_getElem hafter).symm.trans he')
    exact hkept

theorem staysBehind_ofSubgraphs : (ofSubgraphs set merged).StaysBehind (joined set merged).size :=
  have hready := isReady_joinSubgraphs hm
  (providesNothing_joined set merged).staysBehind.foldl hready.typed hready.sound

/-- A base node was a base node before anything was provided, and its edges are kept, or there was
no node of its type in its subgraph, and it has no edges. -/
theorem base?_ofSubgraphs_cases {typeName : String} {subgraph : SubgraphId}
    (h : (ofSubgraphs set merged).base? typeName subgraph = some v) :
    (joined set merged).base? typeName subgraph = some v ∧
        List.Forall₂ (IsKept merged (ofSubgraphs set merged) v) ((joined set merged).allEdges v)
          ((ofSubgraphs set merged).allEdges v) ∨
      (joined set merged).base? typeName subgraph = none ∧
        (ofSubgraphs set merged).allEdges v = [] := by
  rcases Nat.lt_or_ge v (joined set merged).size with hv | hv
  · obtain ⟨⟨typeName', subgraph'⟩, hsubject⟩ := exists_subject?_of_lt hv
    have hafter := (extends_ofSubgraphs hm).subject? hsubject
    obtain ⟨rfl, rfl⟩ := Prod.mk.inj (Option.some.inj (hafter.symm.trans (base?_eq_some h)))
    exact .inl ⟨base?_of_subject?_joined hm hsubject, forall₂_isKept hm hv⟩
  · refine .inr ⟨Option.eq_none_iff_forall_ne_some.mpr fun u hu => ?_,
      List.eq_nil_iff_forall_not_mem.mpr fun e he => ?_⟩
    · obtain rfl := Option.some.inj ((base?_ofSubgraphs hm hu).symm.trans h)
      exact Nat.not_lt.mpr hv (lt_of_subject? (base?_eq_some hu))
    · obtain ⟨position, hposition⟩ := exists_edge?_of_mem he
      exact (staysBehind_ofSubgraphs hm _ e hposition (.inl hv)).not_isBase ⟨_, _, h⟩

/-- Without fields that provide something, base nodes lead to base nodes only. -/
theorem IsBase.leadsAside {u : NodeId} (hu : (ofSubgraphs set merged).IsBase u)
    (h : LeadsAside merged (ofSubgraphs set merged) u v) : (ofSubgraphs set merged).IsBase v := by
  obtain ⟨typeName, subgraph, hbase⟩ := hu
  obtain ⟨e', he', rfl, hnone⟩ := h
  rcases base?_ofSubgraphs_cases hm hbase with ⟨-, hedges⟩ | ⟨-, hbare⟩
  · obtain ⟨e, he, hkept⟩ := exists_of_forall₂_right hedges he'
    obtain ⟨position, hposition⟩ := exists_edge?_of_mem he
    obtain ⟨⟨typeName', subgraph'⟩, hsubject⟩ :=
      exists_subject?_of_lt (providesNothing_joined set merged _ e hposition).1
    rw [hkept.tail hnone]
    exact ⟨typeName', subgraph', base?_ofSubgraphs hm (base?_of_subject?_joined hm hsubject)⟩
  · rw [hbare] at he'
    cases he'

/-- **Provided fields stay behind the fields that provide them.** In the query graph, the base nodes
are those that there are before anything is provided, with the edges that they have then, only that
the edges of fields that provide something lead to copies; base nodes that come later have no edges.
Edges of fields that are only provided leave copies. And from base nodes one gets to base nodes only,
as long as one does not take the edge of a field that provides something. -/
theorem provided_fields_stay_behind :
    (∀ typeName subgraph v, (joined set merged).base? typeName subgraph = some v →
      (ofSubgraphs set merged).base? typeName subgraph = some v) ∧
    (∀ typeName subgraph v, (ofSubgraphs set merged).base? typeName subgraph = some v →
      (joined set merged).base? typeName subgraph = some v ∧
          List.Forall₂ (IsKept merged (ofSubgraphs set merged) v) ((joined set merged).allEdges v)
            ((ofSubgraphs set merged).allEdges v) ∨
        (joined set merged).base? typeName subgraph = none ∧
          (ofSubgraphs set merged).allEdges v = []) ∧
    (∀ v, ∀ e ∈ (ofSubgraphs set merged).allEdges v, e.move.isProvided = true →
      (ofSubgraphs set merged).IsCopy v ∧ ¬ (ofSubgraphs set merged).IsBase v) ∧
    ∀ u v, (ofSubgraphs set merged).IsBase u →
      Relation.ReflTransGen (LeadsAside merged (ofSubgraphs set merged)) u v →
        (ofSubgraphs set merged).IsBase v := by
  refine ⟨fun _ _ _ => base?_ofSubgraphs hm, fun _ _ _ => base?_ofSubgraphs_cases hm,
    fun v e he hprovided => ?_, fun u v hu hpath => ?_⟩
  · obtain ⟨position, hposition⟩ := exists_edge?_of_mem he
    have hcopy := staysBehind_ofSubgraphs hm _ e hposition (.inr hprovided)
    exact ⟨hcopy, hcopy.not_isBase⟩
  · -- each move of the path keeps to base nodes
    induction hpath with
    | refl => exact hu
    | tail _ hstep ih => exact ih.leadsAside hm hstep

end

/-- The field `t` of the two schemas leads from the base node of the query type to a copy. -/
theorem provided_fields_stay_behind_of_nested :
    ∃ set m, SubgraphSet.ofSources [.nested, .provided] = .ok set ∧
      MergedSchema.ofSubgraphs set = .ok m ∧
      (ofSubgraphs set m).base? "Query" 0 = some 0 ∧
      ∃ e ∈ (ofSubgraphs set m).allEdges 0, e.resolves "t" = true ∧
        (ofSubgraphs set m).IsCopy e.tail := by
  obtain ⟨set, m, s, hset, hm, -, hs, -, hoffers, hjoined, -, -, hcopied, -⟩ := exists_nested
  obtain ⟨d, hd, hname, hkind, field, hfield, hfieldname, arguments, target, hprovides, -, -⟩ :=
    Subgraph.exists_of_offers hoffers
  have hf := MergedSchema.fieldIn?_of_mem (SubgraphSet.ingested_ofSources hset).hasProperNames hm hs
    hd (.inl hkind) hfield
  rw [hname, hfieldname] at hf
  obtain ⟨hbefore, hafter, -⟩ := provided_fields_stay_behind hm
  have hbase := hbefore _ _ _ (base?_of_subject?_joined hm hjoined)
  obtain ⟨e, he, hresolves⟩ := List.any_eq_true.mp (Bool.and_eq_true_iff.mp hcopied).1
  have hmem := (mem_edges.mp he).1
  refine ⟨set, m, hset, hm, hbase, e, hmem, hresolves, ?_⟩
  rcases hafter _ _ _ hbase with ⟨-, hkept⟩ | ⟨-, hbare⟩
  · obtain ⟨_, -, hsame⟩ := exists_of_forall₂_right hkept hmem
    exact (hsame.copy ⟨_, _, _, _, _, base?_eq_some hbase, hresolves, hf, hprovides,
      List.cons_ne_nil _ _⟩).1
  · rw [hbare] at hmem
    cases hmem

end QueryGraph

end Federation
