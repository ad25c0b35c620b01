import Federation.Proofs.Merge.Origins
import Federation.Proofs.QueryGraph.Provision

/-!
# Graphs before fields are provided

Before anything is provided, a query graph has one node for each type in each subgraph, its edges
lead to nodes of the types of their fields, and what is still to be provided has been noted for
exactly the edges of fields with `@provides`. This is kept by every step of adding subgraphs, and by
the edges between subgraphs.
-/

namespace Federation

/-- An edge resolves at most one field. -/
theorem Edge.resolves_unique {e : Edge} {name name' : String}
    (h : e.resolves name = true) (h' : e.resolves name' = true) : name = name' := by
  rw [Edge.resolves, beq_iff_eq] at h h'
  exact Option.some.inj (h.symm.trans h')

namespace QueryGraph

variable {merged : MergedSchema} {g g' : QueryGraph} {provisions more : List Provision}
  {typeName : String} {subgraph : SubgraphId} {v tail : NodeId} {move : Move}

/-! ## Edges of fields -/

/-- An edge of a subgraph resolves a field. -/
def EdgeResolves (merged : MergedSchema) (g : QueryGraph) (id : EdgeId) (subgraph : SubgraphId)
    (f : FieldInGraph) : Prop :=
  ∃ typeName name e, g.subject? id.head = some (typeName, subgraph) ∧ g.edge? id = some e ∧
    e.resolves name = true ∧ merged.fieldIn? typeName name subgraph = some f

/-- An edge still resolves its field if it makes the same move from a node that stands for the same
type. -/
theorem EdgeResolves.mono {id : EdgeId} {f : FieldInGraph} (h : EdgeResolves merged g id subgraph f)
    (hsame : ∀ e, g.edge? id = some e → g'.subject? id.head = g.subject? id.head ∧
      ∃ e', g'.edge? id = some e' ∧ e'.move = e.move) :
    EdgeResolves merged g' id subgraph f := by
  obtain ⟨typeName, name, e, htype, he, hresolves, hf⟩ := h
  obtain ⟨hsubject, e', he', hmove⟩ := hsame e he
  refine ⟨typeName, name, e', hsubject.trans htype, he', ?_, hf⟩
  rw [Edge.resolves, hmove]
  exact hresolves

/-- An edge resolves one field only. -/
theorem EdgeResolves.unique {id : EdgeId} {subgraph' : SubgraphId} {f f' : FieldInGraph}
    (h : EdgeResolves merged g id subgraph f) (h' : EdgeResolves merged g id subgraph' f') :
    subgraph' = subgraph ∧ f' = f := by
  obtain ⟨typeName, name, e, htype, he, hresolves, hf⟩ := h
  obtain ⟨typeName', name', e', htype', he', hresolves', hf'⟩ := h'
  obtain ⟨rfl, rfl⟩ := Prod.mk.inj (Option.some.inj (htype'.symm.trans htype))
  obtain rfl := Option.some.inj (he'.symm.trans he)
  obtain rfl := Edge.resolves_unique hresolves' hresolves
  exact ⟨rfl, Option.some.inj (hf'.symm.trans hf)⟩

/-- A note is about an edge whose field provides what has been noted. -/
def IsNoted (merged : MergedSchema) (g : QueryGraph) (p : Provision) : Prop :=
  ∃ f, EdgeResolves merged g p.edge p.subgraph f ∧ f.provides = some p.selections

/-! ## Graphs to which fields can be provided -/

/-- The graph has one node for each type, its edges are typed, and the notes are those of its edges
with `@provides`. -/
structure IsReady (merged : MergedSchema) (provisions : List Provision)
    (g : QueryGraph) : Prop where
  typed : g.IsTyped merged
  distinct : ∀ u v subject, g.subject? u = some subject → g.subject? v = some subject → u = v
  sound : ∀ p ∈ provisions, IsNoted merged g p
  complete : ∀ id subgraph f selections, EdgeResolves merged g id subgraph f →
    f.provides = some selections → selections ≠ [] → ∃ p ∈ provisions, p.edge = id

theorem isReady_empty (merged : MergedSchema) : IsReady merged [] {} where
  typed := nofun
  distinct := nofun
  sound := nofun
  complete := fun _ _ _ _ ⟨_, _, _, htype, _⟩ => nomatch htype

theorem edge?_head_lt {id : EdgeId} {e : Edge} (h : g.edge? id = some e) : id.head < g.size := by
  obtain ⟨n, hn, -⟩ := exists_node?_of_mem_allEdges (mem_allEdges_of_edge? h)
  exact node?_eq_some_lt hn

/-- A base node is added only if there is none. -/
theorem IsReady.baseFor (h : g.IsReady merged provisions) (typeName : String)
    (subgraph : SubgraphId) : (g.baseFor typeName subgraph).2.IsReady merged provisions := by
  have hedge := g.edge?_baseFor typeName subgraph
  have hsubject : ∀ {id : EdgeId} {e : Edge}, g.edge? id = some e →
      (g.baseFor typeName subgraph).2.subject? id.head = g.subject? id.head := fun he =>
    subject?_baseFor_of_lt typeName subgraph (edge?_head_lt he)
  refine ⟨h.typed.baseFor typeName subgraph, ?_, ?_, ?_⟩
  · rcases g.baseFor_eq typeName subgraph with ⟨w, n, -, -, heq⟩ | ⟨hnone, heq⟩
    · rw [heq]
      exact h.distinct
    · have hnew : ∀ w, g.subject? w ≠ some (typeName, subgraph) := by
        intro w hw
        obtain ⟨n, hn, hof⟩ := subject?_eq_some.mp hw
        exact Bool.false_ne_true ((hnone w n hn).symm.trans (isOf_iff.mpr hof))
      intro u v subject hu hv
      rw [heq, subject?_addNode] at hu hv
      by_cases hulast : u = g.size <;> by_cases hvlast : v = g.size
      · exact hulast.trans hvlast.symm
      · rw [if_pos hulast] at hu
        rw [if_neg hvlast, ← hu] at hv
        exact absurd hv (hnew v)
      · rw [if_pos hvlast] at hv
        rw [if_neg hulast, ← hv] at hu
        exact absurd hu (hnew u)
      · rw [if_neg hulast] at hu
        rw [if_neg hvlast] at hv
        exact h.distinct u v subject hu hv
  · intro p hp
    obtain ⟨f, hf, hprovides⟩ := h.sound p hp
    exact ⟨f, hf.mono fun e he => ⟨hsubject he, e, (hedge _).trans he, rfl⟩, hprovides⟩
  · refine fun id subgraph f selections hid => h.complete id subgraph f selections (hid.mono ?_)
    intro e he
    rw [hedge] at he
    exact ⟨(hsubject he).symm, e, he, rfl⟩

/-- An edge that fits can be added, if what it provides is noted. -/
theorem IsReady.addEdge (h : g.IsReady merged provisions)
    (hfits : ∀ n, g.node? v = some n → Edge.Fits merged g n { move, tail })
    (hsound : ∀ p ∈ more, IsNoted merged (g.addEdge v move tail).2 p)
    (hcomplete : ∀ subgraph f selections,
      EdgeResolves merged (g.addEdge v move tail).2 (g.addEdge v move tail).1 subgraph f →
        f.provides = some selections → selections ≠ [] →
          ∃ p ∈ more, p.edge = (g.addEdge v move tail).1) :
    (g.addEdge v move tail).2.IsReady merged (provisions ++ more) := by
  have hsubject := g.subject?_addEdge v move tail
  refine ⟨h.typed.addEdge hfits, ?_, ?_, ?_⟩
  · intro u w subject hu hw
    rw [hsubject] at hu hw
    exact h.distinct u w subject hu hw
  · intro p hp
    rcases List.mem_append.mp hp with hp | hp
    · obtain ⟨f, hf, hprovides⟩ := h.sound p hp
      refine ⟨f, hf.mono fun e he => ⟨hsubject _, e, ?_, rfl⟩, hprovides⟩
      exact edge?_modifyEdges_append he v _
    · exact hsound p hp
  · intro id subgraph f selections hid hprovides hne
    by_cases hnew : id = (g.addEdge v move tail).1
    · subst hnew
      obtain ⟨p, hp, hedge⟩ := hcomplete subgraph f selections hid hprovides hne
      exact ⟨p, List.mem_append_right _ hp, hedge⟩
    · have hold : EdgeResolves merged g id subgraph f := by
        refine hid.mono fun e he => ⟨(hsubject _).symm, e, ?_, rfl⟩
        rcases edge?_of_addEdge he with he | ⟨hid, -⟩
        · exact he
        · exact absurd hid hnew
      obtain ⟨p, hp, hedge⟩ := h.complete id subgraph f selections hold hprovides hne
      exact ⟨p, List.mem_append_left _ hp, hedge⟩

/-- An edge that resolves no field can be added. -/
theorem IsReady.addEdge_of_fieldName?_eq_none (h : g.IsReady merged provisions)
    (hfits : ∀ n, g.node? v = some n → Edge.Fits merged g n { move, tail })
    (hmove : move.fieldName? = none) :
    (g.addEdge v move tail).2.IsReady merged provisions := by
  rw [← List.append_nil provisions]
  refine h.addEdge hfits nofun ?_
  intro subgraph f selections hid
  obtain ⟨typeName, name, e, htype, he, hresolves, -⟩ := hid
  obtain ⟨u, hu⟩ : ∃ n, g.node? v = some n := by
    rw [subject?_addEdge] at htype
    obtain ⟨n, hn, -⟩ := subject?_eq_some.mp htype
    exact ⟨n, hn⟩
  rw [edge?_addEdge hu] at he
  rw [← Option.some.inj he, Edge.resolves, hmove] at hresolves
  cases hresolves

/-- Edges may be ignored. -/
theorem IsReady.ignoreEdge (h : g.IsReady merged provisions) (id : EdgeId) :
    (g.ignoreEdge id).IsReady merged provisions := by
  have hsubject := g.subject?_ignoreEdge id
  have hforward : ∀ other e, g.edge? other = some e →
      ∃ e', (g.ignoreEdge id).edge? other = some e' ∧ e'.move = e.move := by
    intro other e he
    refine ⟨_, by rw [edge?_ignoreEdge, he, Option.map_some], ?_⟩
    split <;> rfl
  have hbackward : ∀ other e', (g.ignoreEdge id).edge? other = some e' →
      ∃ e, g.edge? other = some e ∧ e.move = e'.move := by
    intro other e' he'
    rw [edge?_ignoreEdge, Option.map_eq_some_iff] at he'
    obtain ⟨e, he, rfl⟩ := he'
    refine ⟨e, he, ?_⟩
    split <;> rfl
  refine ⟨h.typed.ignoreEdge id, ?_, ?_, ?_⟩
  · intro u w subject hu hw
    rw [hsubject] at hu hw
    exact h.distinct u w subject hu hw
  · intro p hp
    obtain ⟨f, hf, hprovides⟩ := h.sound p hp
    exact ⟨f, hf.mono fun e he => ⟨hsubject _, hforward _ e he⟩, hprovides⟩
  · exact fun other subgraph f selections hother => h.complete other subgraph f selections
      (hother.mono fun e he => ⟨(hsubject _).symm, hbackward _ e he⟩)

theorem subject?_baseFor {subject : String × SubgraphId} (h : g.subject? v = some subject)
    (typeName : String) (subgraph : SubgraphId) :
    (g.baseFor typeName subgraph).2.subject? v = some subject := by
  obtain ⟨n, hn, -⟩ := Option.map_eq_some_iff.mp h
  rw [subject?_baseFor_of_lt typeName subgraph (node?_eq_some_lt hn), h]

end QueryGraph

/-! ## Adding subgraphs -/

/-- A plan for a field that the subgraph defines. -/
def FieldPlan.IsFor (merged : MergedSchema) (typeName : String) (id : SubgraphId)
    (plan : FieldPlan) : Prop :=
  ∃ f, merged.fieldIn? typeName plan.name id = some f ∧ plan.typeName = f.type.name ∧
    plan.provides = f.provides.getD []

/-- Plans are for fields that the subgraph defines. -/
theorem MergedSchema.isFor_of_mem_fieldPlans {set : SubgraphSet} {m : MergedSchema}
    (h : ofSubgraphs set = .ok m) {nameOf : SubgraphId → String} {id : SubgraphId}
    {typeName : String} {plan : FieldPlan} (hplan : plan ∈ m.fieldPlans nameOf id typeName) :
    plan.IsFor m typeName id := by
  obtain ⟨field, hfield, hof⟩ := List.mem_filterMap.mp hplan
  cases ht : m.type? typeName with
  | none =>
    rw [ht] at hfield
    cases hfield
  | some t =>
    rw [ht] at hfield
    unfold FieldPlan.of? at hof
    obtain ⟨f, hf, hof⟩ := Option.bind_eq_some_iff.mp hof
    split at hof
    · cases hof
    · obtain rfl := Option.some.inj hof
      have hdefined : field.byGraph ≠ [] := by
        intro hnil
        rw [hnil] at hf
        cases hf
      refine ⟨f, ?_, rfl, rfl⟩
      rw [fieldIn?, field?_of_mem h ht hfield hdefined]
      exact hf

namespace Draft

variable {merged : MergedSchema} {d : Draft} {id : SubgraphId} {node : NodeId} {typeName : String}

/-- What is to be provided has been noted so far. -/
def IsReady (merged : MergedSchema) (d : Draft) : Prop :=
  d.graph.IsReady merged d.provisions

/-- A draft with a node for a type. -/
structure HasNode (merged : MergedSchema) (d : Draft) (node : NodeId) (typeName : String)
    (id : SubgraphId) : Prop where
  ready : d.IsReady merged
  subject : d.graph.subject? node = some (typeName, id)

/-- The note about an edge that has been added for a field. -/
def noteOf (edge : EdgeId) (id : SubgraphId) (plan : FieldPlan) : List Provision :=
  if plan.provides.isEmpty then [] else [{ edge, subgraph := id, selections := plan.provides }]

/-- The edge of a field fits, and is noted if it provides anything. -/
theorem isReady_addEdge {g : QueryGraph} {provisions : List Provision} {tail : NodeId}
    {plan : FieldPlan} (h : g.IsReady merged provisions)
    (hnode : g.subject? node = some (typeName, id))
    (htail : g.subject? tail = some (plan.typeName, id)) (hplan : plan.IsFor merged typeName id)
    (move : Move) (hmove : move = .field plan.name plan.condition false) :
    (g.addEdge node move tail).2.IsReady merged
      (provisions ++ noteOf (g.addEdge node move tail).1 id plan) := by
  obtain ⟨f, hf, htype, hprovides⟩ := hplan
  obtain ⟨n, hn, hname, hsubgraph⟩ := QueryGraph.subject?_eq_some.mp hnode
  obtain ⟨w, hw, hwname, hwsubgraph⟩ := QueryGraph.subject?_eq_some.mp htail
  have hedge := QueryGraph.edge?_addEdge hn move tail
  have hresolves : Edge.resolves { move, tail } plan.name = true := by
    simp [Edge.resolves, Move.fieldName?, hmove]
  refine h.addEdge ?_ ?_ ?_
  · intro n' hn'
    obtain rfl := Option.some.inj (hn.symm.trans hn')
    rw [Edge.Fits, hmove]
    exact ⟨f, w, by rw [hname, hsubgraph, hf], hw, hwname.trans htype,
      hwsubgraph.trans hsubgraph.symm⟩
  · intro p hp
    unfold noteOf at hp
    split at hp
    · cases hp
    · rename_i hempty
      obtain rfl := List.mem_singleton.mp hp
      refine ⟨f, ⟨typeName, plan.name, _, ?_, hedge, hresolves, hf⟩, ?_⟩
      · rw [QueryGraph.subject?_addEdge]
        exact hnode
      · cases hsome : f.provides with
        | none =>
          rw [hprovides, hsome] at hempty
          exact absurd rfl hempty
        | some selections =>
          rw [hprovides, hsome]
          rfl
  · intro subgraph f' selections hid hprovides' hne
    obtain ⟨typeName', name, e, htype', he, hresolves', hf'⟩ := hid
    rw [QueryGraph.subject?_addEdge] at htype'
    obtain ⟨rfl, rfl⟩ := Prod.mk.inj (Option.some.inj (htype'.symm.trans hnode))
    obtain rfl := Option.some.inj (hedge.symm.trans he)
    obtain rfl := Edge.resolves_unique hresolves' hresolves
    obtain rfl := Option.some.inj (hf'.symm.trans hf)
    refine ⟨{ edge := _, subgraph, selections := plan.provides }, ?_, rfl⟩
    unfold noteOf
    rw [if_neg (by rw [hprovides, hprovides']; simpa using hne)]
    exact List.mem_singleton_self _

/-- A field is added. -/
theorem HasNode.addField (h : d.HasNode merged node typeName id) {plan : FieldPlan}
    (hplan : plan.IsFor merged typeName id) :
    (addField id node d plan).HasNode merged node typeName id := by
  have hready := h.ready.baseFor plan.typeName id
  have hnode := QueryGraph.subject?_baseFor h.subject plan.typeName id
  have htail := d.graph.subject?_baseFor_fst plan.typeName id
  unfold Draft.addField
  generalize d.graph.baseFor plan.typeName id = base at *
  obtain ⟨tail, g⟩ := base
  have hadded := isReady_addEdge hready hnode htail hplan _ rfl
  have hprovisions : ∀ edge, (if plan.provides.isEmpty then d.provisions
      else d.provisions ++ [{ edge, subgraph := id, selections := plan.provides }]) =
        d.provisions ++ noteOf edge id plan := by
    intro edge
    unfold noteOf
    split
    · exact (List.append_nil _).symm
    · rfl
  have hsubject := g.subject?_addEdge node (.field plan.name plan.condition false) tail
  constructor
  · unfold IsReady
    dsimp only
    rw [hprovisions]
    split
    · exact hadded.ignoreEdge _
    · exact hadded
  · dsimp only
    split
    · rw [QueryGraph.subject?_ignoreEdge, hsubject]
      exact hnode
    · rw [hsubject]
      exact hnode

/-- A possible type is added. -/
theorem HasNode.addPossibleType (h : d.HasNode merged node typeName id) (possible : String) :
    (addPossibleType id node d possible).HasNode merged node typeName id := by
  have hready := h.ready.baseFor possible id
  have hnode := QueryGraph.subject?_baseFor h.subject possible id
  have htail := d.graph.subject?_baseFor_fst possible id
  unfold Draft.addPossibleType
  generalize d.graph.baseFor possible id = base at *
  obtain ⟨tail, g⟩ := base
  refine ⟨?_, ?_⟩
  · refine QueryGraph.IsReady.addEdge_of_fieldName?_eq_none hready (fun n hn => ?_) rfl
    obtain ⟨n', hn', -, hsubgraph⟩ := QueryGraph.subject?_eq_some.mp hnode
    obtain ⟨w, hw, -, hwsubgraph⟩ := QueryGraph.subject?_eq_some.mp htail
    obtain rfl := Option.some.inj (hn'.symm.trans hn)
    exact ⟨w, hw, hwsubgraph.trans hsubgraph.symm⟩
  · exact (g.subject?_addEdge node _ tail node).trans hnode

/-- A type is added, with its fields and possible types. -/
theorem IsReady.addType (h : d.IsReady merged) {t : TypeDef} {plans : List FieldPlan}
    (hplans : ∀ plan ∈ plans, plan.IsFor merged t.name id) (possibleTypes : List String) :
    (addType id d t plans possibleTypes).IsReady merged := by
  have hbase : HasNode merged { d with graph := (d.graph.baseFor t.name id).2 }
      (d.graph.baseFor t.name id).1 t.name id :=
    ⟨QueryGraph.IsReady.baseFor h t.name id, d.graph.subject?_baseFor_fst t.name id⟩
  unfold Draft.addType
  generalize d.graph.baseFor t.name id = base at *
  obtain ⟨node, graph⟩ := base
  have hfields := List.foldlRecOn plans (addField id node)
    (motive := fun d => HasNode merged d node t.name id) hbase
    fun d hd plan hplan => hd.addField (hplans plan hplan)
  exact (List.foldlRecOn possibleTypes (addPossibleType id node)
    (motive := fun d => HasNode merged d node t.name id) hfields
    fun d hd possible _ => hd.addPossibleType possible).ready

/-- Types are added in the order of a queue. -/
theorem IsReady.expand {s : Source} (hplans : ∀ t, ∀ plan ∈ s.plans t, plan.IsFor merged t.name s.id)
    (queue : List String) (e : Expansion) (h : e.draft.IsReady merged) :
    (expand s queue e).draft.IsReady merged := by
  fun_induction Draft.expand s queue e with
  | case1 e => exact h
  | case2 e name queue hfound ih => exact ih h
  | case3 e name queue t hfound hfewer ih =>
    have hadded := ih (h.addType (hplans t) _)
    simpa only [List.unattach_filter, List.unattach_attach] using hadded

/-- A subgraph is added. -/
theorem IsReady.addSubgraph {set : SubgraphSet} (hm : MergedSchema.ofSubgraphs set = .ok merged)
    (h : d.IsReady merged) (nameOf : SubgraphId → String) (entry : SubgraphId × Subgraph) :
    (addSubgraph merged nameOf d entry).IsReady merged := by
  have hplans : ∀ t, ∀ plan ∈ Source.plans ⟨entry.1, entry.2, merged, nameOf⟩ t,
      plan.IsFor merged t.name entry.1 := by
    intro t plan hplan
    unfold Source.plans at hplan
    split at hplan
    · exact MergedSchema.isFor_of_mem_fieldPlans hm hplan
    · exact MergedSchema.isFor_of_mem_fieldPlans hm hplan
    · cases hplan
  exact .expand hplans _ _ (.expand hplans _ _ (.expand hplans _ _ h))

end Draft

namespace QueryGraph

/-! ## Adding edges between subgraphs -/

section

variable {set : SubgraphSet} {merged : MergedSchema} {provisions : List Provision} {g : QueryGraph}

section

variable {P : QueryGraph → Prop}

/-- What adding a move by any key keeps. -/
theorem addKeyEdge_keeps {makeMove : Key → Move}
    (hP : ∀ g v key tail, P g → P (QueryGraph.addEdge g v (makeMove key) tail).2) (keys : List Key)
    (target : NodeId) (sourceName : String) (source : SubgraphId × TypeDef) (h : P g) :
    P (addKeyEdge set makeMove keys target sourceName g source) := by
  unfold QueryGraph.addKeyEdge
  dsimp only
  split
  · exact hP _ _ _ _ h
  · exact h

/-- Objects of a type are fetched by its keys. -/
theorem joinTarget_keeps
    (hP : ∀ g v key tail, P g → P (QueryGraph.addEdge g v (.entity key) tail).2) (t : MergedType)
    (target : SubgraphId × TypeDef) (h : P g) : P (joinTarget set t g target) := by
  unfold QueryGraph.joinTarget
  split
  · exact h
  · exact List.foldlRecOn _ _ h fun g hg source _ => addKeyEdge_keeps hP _ _ _ source hg

/-- Implementations are fetched as objects that stand in for their interface. -/
theorem joinImplementation_keeps
    (hP : ∀ g v key tail, P g → P (QueryGraph.addEdge g v (.interfaceObject key) tail).2)
    (node : NodeId) (keys : List Key) (implementation : String) (h : P g) :
    P (joinImplementation set merged node keys g implementation) := by
  unfold QueryGraph.joinImplementation
  split
  · exact h
  · exact List.foldlRecOn _ _ h fun g hg source _ => addKeyEdge_keeps hP _ _ _ source hg

/-- Objects that stand in for an interface are fetched by its keys. -/
theorem joinInterfaceObject_keeps
    (hP : ∀ g v key tail, P g → P (QueryGraph.addEdge g v (.interfaceObject key) tail).2)
    (t : MergedType) (target : SubgraphId × TypeDef) (h : P g) :
    P (joinInterfaceObject set merged t g target) := by
  unfold QueryGraph.joinInterfaceObject
  split
  · exact h
  · exact List.foldlRecOn _ _ h fun g hg implementation _ =>
      joinImplementation_keeps hP _ _ implementation hg

theorem joinType_keeps
    (hP : ∀ g v move tail, move.isByKey = true → P g → P (QueryGraph.addEdge g v move tail).2)
    (t : MergedType) (h : P g) : P (joinType set merged g t) := by
  have hjoined := List.foldlRecOn t.byGraph (QueryGraph.joinTarget set t) (motive := P) h
    fun g hg target _ => joinTarget_keeps (fun g v _ tail => hP g v _ tail rfl) t target hg
  have hstandIns := List.foldlRecOn (t.byGraph.filter fun entry => entry.2.isInterfaceObject)
    (QueryGraph.joinInterfaceObject set merged t) (motive := P) hjoined
    fun g hg target _ => joinInterfaceObject_keeps (fun g v _ tail => hP g v _ tail rfl) t target hg
  unfold QueryGraph.joinType
  split
  · exact hstandIns
  · exact hstandIns
  · exact h

end

/-- Edges between subgraphs resolve no fields. -/
theorem IsReady.addEdge_of_isByKey (h : g.IsReady merged provisions) (v : NodeId) (move : Move)
    (tail : NodeId) (hmove : move.isByKey = true) :
    (g.addEdge v move tail).2.IsReady merged provisions := by
  refine h.addEdge_of_fieldName?_eq_none (fun n hn => ?_) ?_
  · unfold Edge.Fits
    cases move with
    | entity key => trivial
    | interfaceObject key => trivial
    | field | narrow => cases hmove
  · cases move with
    | entity key => rfl
    | interfaceObject key => rfl
    | field | narrow => cases hmove

/-- **Before anything is provided** there is one node for each type in each subgraph, edges lead to
nodes of the types of their fields, and the notes are those of all edges with `@provides`. -/
theorem isReady_joinSubgraphs (hm : MergedSchema.ofSubgraphs set = .ok merged) :
    (joinSubgraphs set merged (draft set merged).graph).IsReady merged
      (draft set merged).provisions := by
  have hdraft : (draft set merged).IsReady merged :=
    List.foldlRecOn set.enumerated (Draft.addSubgraph merged set.nameOf)
      (motive := fun d => d.IsReady merged) (isReady_empty merged)
      fun d hd entry _ => hd.addSubgraph hm set.nameOf entry
  exact List.foldlRecOn merged.types (QueryGraph.joinType set merged)
    (motive := fun g => g.IsReady merged (draft set merged).provisions) hdraft
    fun g hg t _ => joinType_keeps (P := fun g => g.IsReady merged (draft set merged).provisions)
      (fun g v move tail hmove h => h.addEdge_of_isByKey v move tail hmove) t hg

end

end QueryGraph

end Federation
