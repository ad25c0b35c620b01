import Federation.Proofs.QueryGraph.EntityMoves
import Federation.Satisfiability.Planner

/-!
# Field moves

A field that a subgraph may resolve leads from the nodes of its type to the nodes of its own type,
unless it has moved to another subgraph for good. Its edge is added together with its type, and every
composite type of a subgraph is added at some time.

From the base node of a type the planner can resolve the fields that the subgraph may resolve, and no
others. A field that has moved to another subgraph for good has an ignored edge only, and provided
fields are resolved at copies.
-/

namespace Federation

/-! ## Moves along fields -/

/-- The move along a field that a subgraph may resolve. -/
def FieldPlan.move (plan : FieldPlan) : Move :=
  .field plan.name plan.condition false

namespace Draft

variable {d : Draft} {id : SubgraphId} {node : NodeId} {plan : FieldPlan}

/-- What a node stands for stays. -/
theorem keeps_subject (id : SubgraphId) (node : NodeId) (subject : String × SubgraphId) :
    Keeps id fun g => g.subject? node = some subject where
  base := fun _ typeName h => QueryGraph.subject?_baseFor h typeName id
  add := fun _ _ _ _ _ h => (QueryGraph.subject?_addEdge _ _ _ _ _).trans h
  ignore := fun _ _ _ _ _ h =>
    (QueryGraph.subject?_ignoreEdge _ _ _).trans ((QueryGraph.subject?_addEdge _ _ _ _ _).trans h)

/-- A field that has not moved elsewhere leads on from its node. -/
theorem movesBy_addField {source : String × SubgraphId}
    (hnode : d.graph.subject? node = some source) (hplan : plan.isOverridden = false) :
    (addField id node d plan).graph.MovesBy source plan.move (plan.typeName, id) := by
  have hsource := QueryGraph.subject?_baseFor hnode plan.typeName id
  have htail := d.graph.subject?_baseFor_fst plan.typeName id
  unfold Draft.addField
  dsimp only
  rw [hplan, if_neg Bool.false_ne_true]
  exact QueryGraph.movesBy_addEdge hsource htail

/-- The fields that are added with a type lead on from it. -/
theorem movesBy_addType (d : Draft) (t : TypeDef) {plans : List FieldPlan} (hmem : plan ∈ plans)
    (hplan : plan.isOverridden = false) (possibleTypes : List String) :
    (addType id d t plans possibleTypes).graph.MovesBy (t.name, id) plan.move
      (plan.typeName, id) := by
  have hkeeps := keeps_movesBy id (t.name, id) plan.move (plan.typeName, id)
  have hfields := foldl_establishes (f := addField id (d.graph.baseFor t.name id).1)
    (P := fun d => d.graph.MovesBy (t.name, id) plan.move (plan.typeName, id))
    (R := fun d' => d'.graph.subject? (d.graph.baseFor t.name id).1 = some (t.name, id)) hmem
    (fun _ other hd => (keeps_subject id _ _).addField hd _ other)
    (fun _ other hd => hkeeps.addField hd _ other) (fun _ hd => movesBy_addField hd hplan)
    (s := { d with graph := (d.graph.baseFor t.name id).2 })
    (d.graph.subject?_baseFor_fst t.name id)
  exact List.foldlRecOn possibleTypes (addPossibleType id (d.graph.baseFor t.name id).1)
    (motive := fun d => d.graph.MovesBy (t.name, id) plan.move (plan.typeName, id)) hfields
    fun _ hd possible _ => hkeeps.addPossibleType hd _ possible

/-- The fields of all objects and interfaces of a subgraph lead on. -/
theorem movesBy_addSubgraph {s : Subgraph} (hs : s.HasProperNames) (merged : MergedSchema)
    (nameOf : SubgraphId → String) (d : Draft) {t : TypeDef} (ht : t ∈ s.definitions)
    (hkind : t.kind = .object ∨ t.kind = .interface)
    (hmem : plan ∈ merged.fieldPlans nameOf id t.name) (hplan : plan.isOverridden = false) :
    (addSubgraph merged nameOf d (id, s)).graph.MovesBy (t.name, id) plan.move
      (plan.typeName, id) := by
  have hcomposite : t.kind.isComposite = true := by
    rcases hkind with hkind | hkind <;> rw [hkind] <;> rfl
  refine establishes_addSubgraph (keeps_movesBy id _ _ _) merged nameOf d ht hcomposite ?_
  intro d first hfirst hname
  obtain rfl : first = t := List.inj_on_of_nodup_map hs.types hfirst ht hname
  have hplans : plan ∈ Source.plans ⟨id, s, merged, nameOf⟩ first := by
    unfold Source.plans
    rcases hkind with hkind | hkind <;> rw [hkind] <;> exact hmem
  exact movesBy_addType d first hplans hplan _

end Draft

namespace QueryGraph

variable {set : SubgraphSet} {merged : MergedSchema}

/-- Before anything is provided, the fields that a subgraph may resolve lead on. -/
theorem movesBy_joined (hset : set.HasProperNames) {id : SubgraphId} {s : Subgraph}
    (hs : set.subgraph? id = some s) {t : TypeDef} (ht : t ∈ s.definitions)
    (hkind : t.kind = .object ∨ t.kind = .interface) {plan : FieldPlan}
    (hmem : plan ∈ merged.fieldPlans set.nameOf id t.name) (hplan : plan.isOverridden = false) :
    (joined set merged).MovesBy (t.name, id) plan.move (plan.typeName, id) := by
  have hdraft : (draft set merged).graph.MovesBy (t.name, id) plan.move (plan.typeName, id) :=
    foldl_establishes (R := fun _ => True)
      (P := fun d => d.graph.MovesBy (t.name, id) plan.move (plan.typeName, id))
      (SubgraphSet.mem_enumerated.mpr hs) (fun _ _ _ => trivial)
      (fun _ entry hd => (Draft.keeps_movesBy entry.1 _ _ _).addSubgraph hd merged set.nameOf)
      (fun d _ => Draft.movesBy_addSubgraph (hset s (List.mem_of_getElem? hs)) merged set.nameOf d ht
        hkind hmem hplan) trivial
  exact List.foldlRecOn merged.types (joinType set merged)
    (motive := fun g => g.MovesBy (t.name, id) plan.move (plan.typeName, id)) hdraft
    fun g hg other _ => joinType_keeps (P := fun g => g.MovesBy _ plan.move _)
      (fun _ v move tail _ hg => hg.addEdge v move tail) other hg

/-- **The fields that a subgraph may resolve lead on** from their types in the query graph, unless
they have moved elsewhere for good. -/
theorem movesBy_ofSubgraphs (hset : set.HasProperNames)
    (hm : MergedSchema.ofSubgraphs set = .ok merged) {id : SubgraphId} {s : Subgraph}
    (hs : set.subgraph? id = some s) {t : TypeDef} (ht : t ∈ s.definitions)
    (hkind : t.kind = .object ∨ t.kind = .interface) {plan : FieldPlan}
    (hmem : plan ∈ merged.fieldPlans set.nameOf id t.name) (hplan : plan.isOverridden = false) :
    (ofSubgraphs set merged).MovesBy (t.name, id) plan.move (plan.typeName, id) :=
  (movesBy_joined hset hs ht hkind hmem hplan).growsTo (growsTo_ofSubgraphs hm 0)

end QueryGraph

namespace QueryGraph

variable {g : QueryGraph} {ways : String × SubgraphId → Move → Prop} {v tail : NodeId} {move : Move}

/-! ## Edges of fields -/

/-- Fields are resolved in certain ways only. -/
def ResolvesOnly (ways : String × SubgraphId → Move → Prop) (g : QueryGraph) : Prop :=
  ∀ id e, g.edge? id = some e → e.isIgnored = false → e.move.fieldName?.isSome = true →
    ∃ source, g.subject? id.head = some source ∧ ways source e.move

theorem resolvesOnly_empty : ({} : QueryGraph).ResolvesOnly ways := by
  intro id e he
  obtain ⟨n, hn, -⟩ := exists_node?_of_mem_allEdges (mem_allEdges_of_edge? he)
  cases hn

theorem ResolvesOnly.baseFor (h : g.ResolvesOnly ways) (typeName : String)
    (subgraph : SubgraphId) : (g.baseFor typeName subgraph).2.ResolvesOnly ways := by
  intro id e he hactive hmove
  rw [edge?_baseFor] at he
  obtain ⟨source, hsource, hway⟩ := h id e he hactive hmove
  exact ⟨source, subject?_baseFor hsource _ _, hway⟩

theorem ResolvesOnly.addEdge (h : g.ResolvesOnly ways)
    (hnew : move.fieldName?.isSome = true → ∃ source, g.subject? v = some source ∧ ways source move) :
    (g.addEdge v move tail).2.ResolvesOnly ways := by
  intro id e he hactive hmove
  simp only [subject?_addEdge]
  rcases edge?_of_addEdge he with he | ⟨rfl, rfl⟩
  · exact h id e he hactive hmove
  · exact hnew hmove

/-- An edge that is ignored as soon as it has been added may resolve anything. -/
theorem ResolvesOnly.ignoreEdge_addEdge (h : g.ResolvesOnly ways) (v : NodeId) (move : Move)
    (tail : NodeId) :
    ((g.addEdge v move tail).2.ignoreEdge (g.addEdge v move tail).1).ResolvesOnly ways := by
  intro id e he hactive hmove
  simp only [subject?_ignoreEdge, subject?_addEdge]
  rw [edge?_ignoreEdge, Option.map_eq_some_iff] at he
  obtain ⟨added, hadded, rfl⟩ := he
  split at hactive
  · cases hactive
  · rename_i hold
    rw [if_neg hold] at hmove ⊢
    rcases edge?_of_addEdge hadded with hadded | ⟨rfl, -⟩
    · exact h id added hadded hactive hmove
    · exact absurd rfl hold

end QueryGraph

/-! ## Drafts -/

namespace Draft

open QueryGraph (ResolvesOnly)

variable {ways : String × SubgraphId → Move → Prop} {d : Draft} {id : SubgraphId} {node : NodeId}

/-- A draft with a node for a type, in which fields are resolved in certain ways only. -/
structure HasNodeOnly (ways : String × SubgraphId → Move → Prop) (node : NodeId)
    (source : String × SubgraphId) (d : Draft) : Prop where
  only : d.graph.ResolvesOnly ways
  subject : d.graph.subject? node = some source

theorem HasNodeOnly.addField {source : String × SubgraphId} (h : d.HasNodeOnly ways node source)
    {plan : FieldPlan} (hplan : plan.isOverridden = false → ways source plan.move) :
    (addField id node d plan).HasNodeOnly ways node source := by
  have hbase := h.only.baseFor plan.typeName id
  refine ⟨?_, (keeps_subject id node source).addField h.subject node plan⟩
  unfold Draft.addField
  dsimp only
  split
  · exact hbase.ignoreEdge_addEdge _ _ _
  · rename_i hplace
    refine hbase.addEdge fun _ => ⟨source, QueryGraph.subject?_baseFor h.subject _ _, ?_⟩
    exact hplan (Bool.not_eq_true _ ▸ hplace)

theorem HasNodeOnly.addPossibleType {source : String × SubgraphId}
    (h : d.HasNodeOnly ways node source) (possible : String) :
    (addPossibleType id node d possible).HasNodeOnly ways node source :=
  ⟨(h.only.baseFor possible id).addEdge nofun,
    (keeps_subject id node source).addPossibleType h.subject node possible⟩

/-- A type is added with the fields that may be resolved. -/
theorem resolvesOnly_addType (h : d.graph.ResolvesOnly ways) (t : TypeDef) {plans : List FieldPlan}
    (hplans : ∀ plan ∈ plans, plan.isOverridden = false → ways (t.name, id) plan.move)
    (possibleTypes : List String) : (addType id d t plans possibleTypes).graph.ResolvesOnly ways := by
  have hbase : HasNodeOnly ways (d.graph.baseFor t.name id).1 (t.name, id)
      { d with graph := (d.graph.baseFor t.name id).2 } :=
    ⟨h.baseFor t.name id, d.graph.subject?_baseFor_fst t.name id⟩
  have hfields := List.foldlRecOn plans (addField id (d.graph.baseFor t.name id).1)
    (motive := HasNodeOnly ways (d.graph.baseFor t.name id).1 (t.name, id)) hbase
    fun d hd plan hplan => hd.addField (hplans plan hplan)
  exact (List.foldlRecOn possibleTypes (addPossibleType id (d.graph.baseFor t.name id).1)
    (motive := HasNodeOnly ways (d.graph.baseFor t.name id).1 (t.name, id)) hfields
    fun d hd possible _ => hd.addPossibleType possible).only

theorem resolvesOnly_expand {s : Source}
    (hplans : ∀ t, ∀ plan ∈ s.plans t, plan.isOverridden = false → ways (t.name, s.id) plan.move)
    (queue : List String) (e : Expansion) (h : e.draft.graph.ResolvesOnly ways) :
    (expand s queue e).draft.graph.ResolvesOnly ways := by
  fun_induction Draft.expand s queue e with
  | case1 e => exact h
  | case2 e name queue hfound ih => exact ih h
  | case3 e name queue t hfound hfewer ih =>
    have hadded := ih (resolvesOnly_addType h t (hplans t) _)
    simpa only [List.unattach_filter, List.unattach_attach] using hadded

theorem resolvesOnly_addSubgraph {merged : MergedSchema} {nameOf : SubgraphId → String}
    {entry : SubgraphId × Subgraph}
    (hplans : ∀ t, ∀ plan ∈ merged.fieldPlans nameOf entry.1 t, plan.isOverridden = false →
      ways (t, entry.1) plan.move)
    (h : d.graph.ResolvesOnly ways) :
    (addSubgraph merged nameOf d entry).graph.ResolvesOnly ways := by
  have hsource : ∀ t, ∀ plan ∈ Source.plans ⟨entry.1, entry.2, merged, nameOf⟩ t,
      plan.isOverridden = false → ways (t.name, entry.1) plan.move := by
    intro t plan hplan
    unfold Source.plans at hplan
    split at hplan
    · exact hplans t.name plan hplan
    · exact hplans t.name plan hplan
    · cases hplan
  have hexpand := fun queue e => resolvesOnly_expand (e := e) hsource queue
  exact hexpand _ _ (hexpand _ _ (hexpand _ _ h))

end Draft

/-! ## Whole graphs -/

/-- A field of a type may be resolved in a subgraph by a move. -/
def SubgraphSet.MayResolveBy (set : SubgraphSet) (merged : MergedSchema)
    (source : String × SubgraphId) (move : Move) : Prop :=
  ∃ plan ∈ merged.fieldPlans set.nameOf source.2 source.1, plan.isOverridden = false ∧
    plan.move = move

namespace QueryGraph

variable {set : SubgraphSet} {merged : MergedSchema}

/-- Before anything is provided, fields are resolved only where they may be. -/
theorem resolvesOnly_joined (set : SubgraphSet) (merged : MergedSchema) :
    (joined set merged).ResolvesOnly (set.MayResolveBy merged) := by
  have hdraft : (draft set merged).graph.ResolvesOnly (set.MayResolveBy merged) :=
    List.foldlRecOn set.enumerated (Draft.addSubgraph merged set.nameOf)
      (motive := fun d => d.graph.ResolvesOnly (set.MayResolveBy merged)) resolvesOnly_empty
      fun _ hd entry _ => Draft.resolvesOnly_addSubgraph
        (fun _ plan hplan hplace => ⟨plan, hplan, hplace, rfl⟩) hd
  refine List.foldlRecOn merged.types (joinType set merged)
    (motive := fun g => g.ResolvesOnly (set.MayResolveBy merged)) hdraft fun g hg t _ => ?_
  refine joinType_keeps (P := fun g => g.ResolvesOnly _) (fun g v move tail hmove hg => ?_) t hg
  refine hg.addEdge fun hfield => ?_
  cases move with
  | entity | interfaceObject => cases hfield
  | field | narrow => cases hmove

/-- Composite types of subgraphs have base nodes. -/
theorem exists_base?_joined (merged : MergedSchema) {id : SubgraphId} {s : Subgraph}
    (hs : set.subgraph? id = some s) {t : TypeDef} (ht : t ∈ s.definitions)
    (hkind : t.kind.isComposite = true) : ∃ v, (joined set merged).base? t.name id = some v := by
  have hjoined : (joined set merged).HasNodeFor (t.name, id) :=
    List.foldlRecOn merged.types (joinType set merged)
      (motive := fun g => g.HasNodeFor (t.name, id)) (hasNodeFor_draft hs ht hkind)
      fun g hg other _ => joinType_keeps (P := fun g => g.HasNodeFor (t.name, id))
        (fun _ v move tail _ hg => hg.addEdge v move tail) other hg
  exact hjoined.exists_base?

section

variable (hm : MergedSchema.ofSubgraphs set = .ok merged)

include hm

/-- Providing fields leaves the base nodes where they are. -/
theorem base?_ofSubgraphs {typeName : String} {id : SubgraphId}
    (hv : (joined set merged).base? typeName id = some v) :
    (ofSubgraphs set merged).base? typeName id = some v := by
  have hextends := (growsTo_ofSubgraphs hm 0).toExtends
  change (joined set merged).Extends _ at hextends
  obtain ⟨hlt, hof, hbefore⟩ := Array.findIdx?_eq_some_iff_getElem.mp hv
  -- nodes keep what they stand for
  have hsame : ∀ u (hu : u < (joined set merged).nodes.size),
      ∃ hu' : u < (ofSubgraphs set merged).nodes.size,
        ((ofSubgraphs set merged).nodes[u]).isOf typeName id =
          ((joined set merged).nodes[u]).isOf typeName id := by
    intro u hu
    obtain ⟨n, hn, hname, hsubgraph⟩ := hextends.nodes u _ (Array.getElem?_eq_getElem hu)
    have hu' := node?_eq_some_lt hn
    refine ⟨hu', ?_⟩
    obtain rfl : (ofSubgraphs set merged).nodes[u] = n :=
      Option.some.inj ((Array.getElem?_eq_getElem hu').symm.trans hn)
    unfold Node.isOf
    rw [hname, hsubgraph]
  obtain ⟨hlt', hof'⟩ := hsame v hlt
  refine Array.findIdx?_eq_some_iff_getElem.mpr ⟨hlt', hof'.trans hof, fun u hu => ?_⟩
  obtain ⟨_, hother⟩ := hsame u (Nat.lt_trans hu hlt)
  rw [hother]
  exact hbefore u hu

/-- Providing fields leaves the moves of earlier nodes as they are. -/
theorem exists_edge_joined {e : Edge} (hv : v < (joined set merged).size)
    (he : e ∈ (ofSubgraphs set merged).edges v) : ∃ e' ∈ (joined set merged).edges v,
      e'.move = e.move := by
  have hready := isReady_joinSubgraphs hm
  obtain ⟨hmem, hactive⟩ := mem_edges.mp he
  obtain ⟨position, hposition⟩ := exists_edge?_of_mem hmem
  obtain ⟨e', he', hmove, hignored⟩ := exists_edge?_of_foldl hready.typed hready.sound
    (show (⟨v, position⟩ : EdgeId).head < _ from hv) hposition
  exact ⟨e', mem_edges.mpr ⟨mem_allEdges_of_edge? he', hignored.trans hactive⟩, hmove⟩

/-- **From the base node of a type fields are resolved exactly as the subgraph may resolve them.** -/
theorem exists_field_edge_iff (hset : set.HasProperNames) {id : SubgraphId} {s : Subgraph}
    (hs : set.subgraph? id = some s) {t : TypeDef} (ht : t ∈ s.definitions)
    (hkind : t.kind = .object ∨ t.kind = .interface) {move : Move}
    (hmove : move.fieldName?.isSome = true) :
    (∃ v, (ofSubgraphs set merged).base? t.name id = some v ∧
        ∃ e ∈ (ofSubgraphs set merged).edges v, e.move = move) ↔
      set.MayResolveBy merged (t.name, id) move := by
  have hcomposite : t.kind.isComposite = true := by
    rcases hkind with hkind | hkind <;> rw [hkind] <;> rfl
  obtain ⟨v, hv⟩ := exists_base?_joined merged hs ht hcomposite
  have hbase := base?_ofSubgraphs hm hv
  have hsubject := base?_eq_some hv
  have hready := isReady_joinSubgraphs hm
  constructor
  · rintro ⟨u, hu, e, he, rfl⟩
    obtain rfl : v = u := Option.some.inj (hbase.symm.trans hu)
    obtain ⟨n, hn, -⟩ := subject?_eq_some.mp hsubject
    obtain ⟨e', he', hsame⟩ := exists_edge_joined hm (node?_eq_some_lt hn) he
    obtain ⟨hmem, hactive⟩ := mem_edges.mp he'
    obtain ⟨position, hposition⟩ := exists_edge?_of_mem hmem
    obtain ⟨source, hsource, hway⟩ :=
      resolvesOnly_joined set merged ⟨v, position⟩ e' hposition hactive (hsame ▸ hmove)
    obtain rfl := Option.some.inj (hsource.symm.trans hsubject)
    exact hsame ▸ hway
  · rintro ⟨plan, hplan, hplace, rfl⟩
    -- the move is made from some node of the type, and there is one such node at first
    obtain ⟨edge, e, he, hactive, hemove, hhead, -⟩ :=
      movesBy_joined hset hs ht hkind hplan hplace
    obtain rfl : edge.head = v := hready.distinct _ _ _ hhead hsubject
    obtain ⟨e', he', hkept, hignored, -⟩ := (growsTo_ofSubgraphs hm 0).toExtends.edges edge e he
    refine ⟨_, hbase, e', mem_edges.mpr ⟨mem_allEdges_of_edge? he', hignored.trans hactive⟩, ?_⟩
    exact hkept.trans hemove

end

end QueryGraph

end Federation
