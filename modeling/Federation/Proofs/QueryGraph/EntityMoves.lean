import Federation.Proofs.Merge.Contents
import Federation.Proofs.QueryGraph.Occurrences

/-!
# Entity moves

Objects of a type are fetched from another subgraph along the entity moves of a query graph. The nodes
of a type in a subgraph are entered from each other subgraph that defines the type, by the cheapest
key that can be filled in there, and in no other way. Edges between subgraphs are added once all types
have nodes, and providing fields only copies them.
-/

namespace Federation

/-! ## Folds -/

section

variable {σ β : Type} {f : σ → β → σ}

/-- What one step brings about and no step undoes holds after all steps. -/
theorem foldl_establishes {R P : σ → Prop} {items : List β} {item : β} (hitem : item ∈ items)
    (hready : ∀ s b, R s → R (f s b)) (hkeep : ∀ s b, P s → P (f s b))
    (hstep : ∀ s, R s → P (f s item)) {s : σ} (hs : R s) : P (items.foldl f s) := by
  obtain ⟨before, after, rfl⟩ := List.append_of_mem hitem
  rw [List.foldl_append, List.foldl_cons]
  have hbefore : R (before.foldl f s) :=
    List.foldlRecOn before f hs fun s h b _ => hready s b h
  exact List.foldlRecOn after f (hstep _ hbefore) fun s h b _ => hkeep s b h

end

/-- Objects of a type can be fetched from another subgraph that defines the type, by the cheapest key
that can be filled in where they come from. -/
def SubgraphSet.CanFetchBy (set : SubgraphSet) (source : String × SubgraphId) (key : Key)
    (target : String × SubgraphId) : Prop :=
  source.1 = target.1 ∧ source.2 ≠ target.2 ∧
    ∃ s d, set.subgraph? target.2 = some s ∧ s.definition? target.1 = some d ∧
      (d.kind = .object ∨ d.kind = .interface) ∧
      ∃ s' d', set.subgraph? source.2 = some s' ∧ s'.definition? source.1 = some d' ∧
        Key.cheapestFrom? s' d' d.keys = some key

namespace QueryGraph

variable {g g' : QueryGraph} {source target subject : String × SubgraphId} {key : Key}
  {v tail : NodeId} {move made : Move}

/-! ## Moves by keys -/

/-- Some node stands for a type in a subgraph. -/
def HasNodeFor (g : QueryGraph) (subject : String × SubgraphId) : Prop :=
  ∃ v, g.subject? v = some subject

/-- A move can be made: some edge that is not ignored makes it from a node of one type to a node of
another. -/
def MovesBy (g : QueryGraph) (source : String × SubgraphId) (move : Move)
    (target : String × SubgraphId) : Prop :=
  ∃ id e, g.edge? id = some e ∧ e.isIgnored = false ∧ e.move = move ∧
    g.subject? id.head = some source ∧ g.subject? e.tail = some target

/-- Objects are fetched by a key: some edge that is not ignored leads from a node of one subgraph to a
node of the other. -/
def FetchesBy (g : QueryGraph) (source : String × SubgraphId) (key : Key)
    (target : String × SubgraphId) : Prop :=
  ∃ id e, g.edge? id = some e ∧ e.isIgnored = false ∧ e.move = .entity key ∧
    g.subject? id.head = some source ∧ g.subject? e.tail = some target

/-- Objects are fetched by keys in certain ways only. -/
def FetchesOnly (ways : String × SubgraphId → Move → String × SubgraphId → Prop)
    (g : QueryGraph) : Prop :=
  ∀ id e, g.edge? id = some e → e.move.isByKey = true →
    ∃ source target, g.subject? id.head = some source ∧ g.subject? e.tail = some target ∧
      ways source e.move target

variable {ways : String × SubgraphId → Move → String × SubgraphId → Prop}

theorem FetchesOnly.of_movesBy (h : g.FetchesOnly ways) (hkey : move.isByKey = true)
    (hmoves : g.MovesBy source move target) : ways source move target := by
  obtain ⟨id, e, he, -, rfl, hsource, htarget⟩ := hmoves
  obtain ⟨source', target', hsource', htarget', hways⟩ := h id e he hkey
  obtain rfl := Option.some.inj (hsource.symm.trans hsource')
  obtain rfl := Option.some.inj (htarget.symm.trans htarget')
  exact hways

theorem base?_eq_some {typeName : String} {subgraph : SubgraphId}
    (h : g.base? typeName subgraph = some v) : g.subject? v = some (typeName, subgraph) := by
  obtain ⟨hv, hof, -⟩ := Array.findIdx?_eq_some_iff_getElem.mp h
  exact subject?_eq_some.mpr ⟨g.nodes[v], Array.getElem?_eq_getElem hv, isOf_iff.mp hof⟩

/-- A type has a base node if some node stands for it. -/
theorem HasNodeFor.exists_base? {typeName : String} {subgraph : SubgraphId}
    (h : g.HasNodeFor (typeName, subgraph)) : ∃ v, g.base? typeName subgraph = some v := by
  obtain ⟨v, hv⟩ := h
  obtain ⟨n, hn, hof⟩ := subject?_eq_some.mp hv
  cases hbase : g.base? typeName subgraph with
  | some u => exact ⟨u, rfl⟩
  | none =>
    have hnone := Array.findIdx?_eq_none_iff.mp hbase n (Array.mem_of_getElem? hn)
    exact absurd (hnone.symm.trans (isOf_iff.mpr hof)) Bool.false_ne_true

/-! ### Adding nodes and edges -/

theorem HasNodeFor.addEdge (h : g.HasNodeFor subject) (v : NodeId) (move : Move) (tail : NodeId) :
    (g.addEdge v move tail).2.HasNodeFor subject := by
  obtain ⟨u, hu⟩ := h
  exact ⟨u, by rw [subject?_addEdge, hu]⟩

theorem MovesBy.baseFor (h : g.MovesBy source made target) (typeName : String)
    (subgraph : SubgraphId) : (g.baseFor typeName subgraph).2.MovesBy source made target := by
  obtain ⟨id, e, he, hactive, hmove, hsource, htarget⟩ := h
  exact ⟨id, e, (edge?_baseFor _ _ _ _).trans he, hactive, hmove, subject?_baseFor hsource _ _,
    subject?_baseFor htarget _ _⟩

theorem MovesBy.addEdge (h : g.MovesBy source made target) (v : NodeId) (move : Move)
    (tail : NodeId) : (g.addEdge v move tail).2.MovesBy source made target := by
  obtain ⟨id, e, he, hactive, hmove, hsource, htarget⟩ := h
  exact ⟨id, e, edge?_modifyEdges_append he v _, hactive, hmove,
    by rw [subject?_addEdge, hsource], by rw [subject?_addEdge, htarget]⟩

/-- A move can still be made after a new edge has been added and ignored. -/
theorem MovesBy.ignoreEdge_addEdge (h : g.MovesBy source made target) (v : NodeId) (move : Move)
    (tail : NodeId) :
    ((g.addEdge v move tail).2.ignoreEdge (g.addEdge v move tail).1).MovesBy source made target := by
  obtain ⟨id, e, he, hactive, hmove, hsource, htarget⟩ := h
  have hold : (g.addEdge v move tail).1 ≠ id := by
    rintro rfl
    have hlt := (List.getElem?_eq_some_iff.mp he).1
    exact Nat.lt_irrefl _ hlt
  refine ⟨id, e, ?_, hactive, hmove, ?_, ?_⟩
  · have hadded : (g.addEdge v move tail).2.edge? id = some e := edge?_modifyEdges_append he v _
    rw [edge?_ignoreEdge, hadded, Option.map_some, if_neg hold]
  · rw [subject?_ignoreEdge, subject?_addEdge, hsource]
  · rw [subject?_ignoreEdge, subject?_addEdge, htarget]

/-- The move of a new edge can be made. -/
theorem movesBy_addEdge (hsource : g.subject? v = some source)
    (htarget : g.subject? tail = some target) :
    (g.addEdge v move tail).2.MovesBy source move target := by
  obtain ⟨n, hn, -⟩ := Option.map_eq_some_iff.mp hsource
  refine ⟨_, _, edge?_addEdge hn move tail, rfl, rfl, ?_, ?_⟩
  · rw [subject?_addEdge]
    exact hsource
  · rw [subject?_addEdge]
    exact htarget

theorem FetchesOnly.baseFor (h : g.FetchesOnly ways) (typeName : String)
    (subgraph : SubgraphId) : (g.baseFor typeName subgraph).2.FetchesOnly ways := by
  intro id e he hmove
  rw [edge?_baseFor] at he
  obtain ⟨source, target, hsource, htarget, hways⟩ := h id e he hmove
  exact ⟨source, target, subject?_baseFor hsource _ _, subject?_baseFor htarget _ _, hways⟩

theorem FetchesOnly.addEdge (h : g.FetchesOnly ways)
    (hnew : move.isByKey = true → ∃ source target, g.subject? v = some source ∧
      g.subject? tail = some target ∧ ways source move target) :
    (g.addEdge v move tail).2.FetchesOnly ways := by
  intro id e he hmove
  simp only [subject?_addEdge]
  rcases edge?_of_addEdge he with he | ⟨rfl, rfl⟩
  · exact h id e he hmove
  · exact hnew hmove

theorem FetchesOnly.ignoreEdge (h : g.FetchesOnly ways) (id : EdgeId) :
    (g.ignoreEdge id).FetchesOnly ways := by
  intro other e' he' hmove
  simp only [subject?_ignoreEdge]
  rw [edge?_ignoreEdge, Option.map_eq_some_iff] at he'
  obtain ⟨e, he, rfl⟩ := he'
  have hold := h other e he
  split at hmove
  · rw [if_pos ‹_›]
    exact hold hmove
  · rw [if_neg ‹_›]
    exact hold hmove

/-! ### Providing fields -/

section

variable {id : EdgeId} {e : Edge} {w : Node}

/-- A copy stands for what the node stands for. -/
theorem subject?_splitTail_copy (he : g.edge? id = some e) (hw : g.node? e.tail = some w) :
    (g.splitTail id).2.subject? g.size = g.subject? e.tail := by
  rw [subject?, node?_splitTail_copy he hw (edge?_head_lt he), subject?, hw]
  rfl

theorem MovesBy.splitTail (h : g.MovesBy source made target) (he : g.edge? id = some e)
    (hw : g.node? e.tail = some w) : (g.splitTail id).2.MovesBy source made target := by
  have hextends := Extends.splitTail he hw
  obtain ⟨other, e₁, he₁, hactive, hmove, hsource, htarget⟩ := h
  have hsplit := edge?_splitTail he hw (edge?_head_lt he₁)
  by_cases hsame : other = id
  · obtain rfl : e₁ = e := Option.some.inj (he₁.symm.trans (hsame ▸ he))
    rw [if_pos hsame] at hsplit
    exact ⟨other, _, hsplit, hactive, hmove, hextends.subject? hsource,
      (subject?_splitTail_copy he hw).trans htarget⟩
  · rw [if_neg hsame, he₁] at hsplit
    exact ⟨other, e₁, hsplit, hactive, hmove, hextends.subject? hsource,
      hextends.subject? htarget⟩

theorem FetchesOnly.splitTail (h : g.FetchesOnly ways) (he : g.edge? id = some e)
    (hw : g.node? e.tail = some w) : (g.splitTail id).2.FetchesOnly ways := by
  have hextends := Extends.splitTail he hw
  have hhead := edge?_head_lt he
  intro other e' he' hmove
  have hlt := edge?_head_lt he'
  rw [size_splitTail he hw] at hlt
  rcases Nat.lt_succ_iff_lt_or_eq.mp hlt with hlt | hlast
  · have hsplit := edge?_splitTail he hw hlt
    rw [he'] at hsplit
    by_cases hsame : other = id
    · rw [if_pos hsame] at hsplit
      obtain rfl := Option.some.inj hsplit
      obtain ⟨source, target, hsource, htarget, hways⟩ := h id e he hmove
      exact ⟨source, target, hextends.subject? (hsame ▸ hsource),
        (subject?_splitTail_copy he hw).trans htarget, hways⟩
    · rw [if_neg hsame] at hsplit
      obtain ⟨source, target, hsource, htarget, hways⟩ := h other e' hsplit.symm hmove
      exact ⟨source, target, hextends.subject? hsource, hextends.subject? htarget, hways⟩
  · -- the edges of the copy are edges of the original
    have hmem := mem_allEdges_of_edge? he'
    rw [hlast, allEdges_of_node? (node?_splitTail_copy he hw hhead)] at hmem
    obtain ⟨position, hposition⟩ := exists_edge?_of_mem (mem_edges.mp hmem).1
    obtain ⟨source, target, hsource, htarget, hways⟩ := h _ e' hposition hmove
    refine ⟨source, target, ?_, hextends.subject? htarget, hways⟩
    rw [hlast]
    exact (subject?_splitTail_copy he hw).trans hsource

end

variable {merged : MergedSchema} {first : NodeId}

theorem MovesBy.grows (h : g.MovesBy source made target) (hgrows : Grows merged first g g') :
    g'.MovesBy source made target := by
  cases hgrows with
  | base typeName subgraph => exact h.baseFor typeName subgraph
  | add => exact h.addEdge _ _ _
  | split _ he hw => exact h.splitTail he hw

theorem FetchesOnly.grows (h : g.FetchesOnly ways) (hgrows : Grows merged first g g') :
    g'.FetchesOnly ways := by
  cases hgrows with
  | base typeName subgraph => exact h.baseFor typeName subgraph
  | add => exact h.addEdge nofun
  | split _ he hw => exact h.splitTail he hw

/-- After fields have been provided, every move can still be made. -/
theorem MovesBy.growsTo (h : g.MovesBy source made target) (hrun : GrowsTo merged first g g') :
    g'.MovesBy source made target := by
  induction hrun with
  | refl => exact h
  | tail _ hstep ih => exact ih.grows hstep

/-- Providing fields adds no way to fetch objects. -/
theorem FetchesOnly.growsTo (h : g.FetchesOnly ways) (hrun : GrowsTo merged first g g') :
    g'.FetchesOnly ways := by
  induction hrun with
  | refl => exact h
  | tail _ hstep ih => exact ih.grows hstep

end QueryGraph

/-! ## Nodes of all types -/

namespace Draft

/-- A property of query graphs that is kept while a subgraph is added. An edge is ignored only when
it has just been added. -/
structure Keeps (id : SubgraphId) (P : QueryGraph → Prop) : Prop where
  base : ∀ g typeName, P g → P (QueryGraph.baseFor g typeName id).2
  add : ∀ g v move tail, move.isByKey = false → P g → P (QueryGraph.addEdge g v move tail).2
  ignore : ∀ g v move tail, move.isByKey = false → P g →
    P ((QueryGraph.addEdge g v move tail).2.ignoreEdge (QueryGraph.addEdge g v move tail).1)

/-- Nodes stay. -/
theorem keeps_hasNodeFor (id : SubgraphId) (subject : String × SubgraphId) :
    Keeps id fun g => g.HasNodeFor subject where
  base := fun _ typeName ⟨v, hv⟩ => ⟨v, QueryGraph.subject?_baseFor hv typeName id⟩
  add := fun _ v move tail _ h => h.addEdge v move tail
  ignore := fun _ _ _ _ _ ⟨v, hv⟩ =>
    ⟨v, by rw [QueryGraph.subject?_ignoreEdge, QueryGraph.subject?_addEdge, hv]⟩

/-- Moves that can be made can still be made. -/
theorem keeps_movesBy (id : SubgraphId) (source : String × SubgraphId) (move : Move)
    (target : String × SubgraphId) : Keeps id fun g => g.MovesBy source move target where
  base := fun _ typeName h => h.baseFor typeName id
  add := fun _ v move tail _ h => h.addEdge v move tail
  ignore := fun _ v move tail _ h => h.ignoreEdge_addEdge v move tail

/-- Inside a subgraph nothing is fetched by keys. -/
theorem keeps_fetchesOnly (id : SubgraphId)
    (ways : String × SubgraphId → Move → String × SubgraphId → Prop) :
    Keeps id fun g => g.FetchesOnly ways := by
  have hadd : ∀ g v move tail, move.isByKey = false → g.FetchesOnly ways →
      (QueryGraph.addEdge g v move tail).2.FetchesOnly ways := by
    intro g v move tail hmove h
    refine h.addEdge fun hkey => ?_
    rw [hmove] at hkey
    cases hkey
  exact ⟨fun _ typeName h => h.baseFor typeName id, hadd,
    fun g v move tail hmove h => (hadd g v move tail hmove h).ignoreEdge _⟩

namespace Keeps

variable {id : SubgraphId} {P : QueryGraph → Prop} (hP : Keeps id P) {d : Draft} (h : P d.graph)

include hP h

theorem addField (node : NodeId) (plan : FieldPlan) : P (addField id node d plan).graph := by
  have hbase := hP.base _ plan.typeName h
  unfold Draft.addField
  dsimp only
  split
  · exact hP.ignore _ node _ _ rfl hbase
  · exact hP.add _ node _ _ rfl hbase

theorem addPossibleType (node : NodeId) (possible : String) :
    P (addPossibleType id node d possible).graph :=
  hP.add _ node .narrow _ rfl (hP.base _ possible h)

omit h in
theorem addType_of_baseFor {t : TypeDef} (h : P (d.graph.baseFor t.name id).2)
    (plans : List FieldPlan) (possibleTypes : List String) :
    P (addType id d t plans possibleTypes).graph := by
  have hfields := List.foldlRecOn plans (Draft.addField id (d.graph.baseFor t.name id).1)
    (motive := fun d => P d.graph) (b := { d with graph := (d.graph.baseFor t.name id).2 }) h
    fun d hd plan _ => hP.addField hd _ plan
  exact List.foldlRecOn possibleTypes (Draft.addPossibleType id (d.graph.baseFor t.name id).1)
    (motive := fun d => P d.graph) hfields fun d hd possible _ => hP.addPossibleType hd _ possible

theorem addType (t : TypeDef) (plans : List FieldPlan) (possibleTypes : List String) :
    P (addType id d t plans possibleTypes).graph :=
  hP.addType_of_baseFor (hP.base _ t.name h) plans possibleTypes

end Keeps

namespace Keeps

variable {P : QueryGraph → Prop}

theorem expand {s : Source} (hP : Keeps s.id P) (queue : List String) (e : Expansion)
    (h : P e.draft.graph) : P (expand s queue e).draft.graph := by
  fun_induction Draft.expand s queue e with
  | case1 e => exact h
  | case2 e name queue hfound ih => exact ih h
  | case3 e name queue t hfound hfewer ih =>
    have hadded := ih (hP.addType h t _ _)
    simpa only [List.unattach_filter, List.unattach_attach] using hadded

theorem addSubgraph {entry : SubgraphId × Subgraph} (hP : Keeps entry.1 P) {d : Draft}
    (h : P d.graph) (merged : MergedSchema) (nameOf : SubgraphId → String) :
    P (addSubgraph merged nameOf d entry).graph := by
  have hexpand := fun queue e => Keeps.expand (s := ⟨entry.1, entry.2, merged, nameOf⟩) hP queue e
  exact hexpand _ _ (hexpand _ _ (hexpand _ _ h))

end Keeps

/-- Adding a type gives it a node. -/
theorem hasNodeFor_addType (id : SubgraphId) (d : Draft) (t : TypeDef) (plans : List FieldPlan)
    (possibleTypes : List String) :
    (addType id d t plans possibleTypes).graph.HasNodeFor (t.name, id) :=
  (keeps_hasNodeFor id (t.name, id)).addType_of_baseFor
    ⟨_, d.graph.subject?_baseFor_fst t.name id⟩ plans possibleTypes

/-- Types that stay out of a draft are types that were not part of it before. -/
theorem unexpanded_expand_subset (s : Source) (queue : List String) (e : Expansion) :
    (expand s queue e).unexpanded ⊆ e.unexpanded := by
  fun_induction Draft.expand s queue e with
  | case1 e => exact List.Subset.refl _
  | case2 e name queue hnone ih => exact ih
  | case3 e name queue first hfound hfewer ih =>
    simp only [List.unattach_filter, List.unattach_attach] at ih ⊢
    exact List.Subset.trans ih (List.filter_subset_self _)

section

variable {s : Source} {P : QueryGraph → Prop} (hP : Keeps s.id P) {t : TypeDef}

include hP

/-- Types that stay out of the draft are not in the queue. For all other types there is what adding
them brings about. -/
theorem expand_cases (queue : List String) (e : Expansion) (ht : t ∈ e.unexpanded)
    (hadd : ∀ d, ∀ first ∈ e.unexpanded, first.name = t.name →
      P (addType s.id d first (s.plans first) (s.possibleTypes first)).graph) :
    t ∈ (expand s queue e).unexpanded ∧ t.name ∉ queue ∨ P (expand s queue e).draft.graph := by
  fun_induction Draft.expand s queue e with
  | case1 e => exact .inl ⟨ht, List.not_mem_nil⟩
  | case2 e name queue hnone ih =>
    refine (ih ht hadd).imp_left ?_
    rintro ⟨hmem, hqueue⟩
    refine ⟨hmem, List.not_mem_cons_of_ne_of_not_mem ?_ hqueue⟩
    simpa using List.find?_eq_none.mp hnone t ht
  | case3 e name queue first hfound hfewer ih =>
    simp only [List.unattach_filter, List.unattach_attach] at ih ⊢
    by_cases hname : t.name = name
    · right
      have hfirst : first.name = name := by simpa using List.find?_some hfound
      exact hP.expand _ _ (hadd _ first (List.mem_of_find?_eq_some hfound) (hfirst.trans hname.symm))
    · have hmem : t ∈ e.unexpanded.filter fun other => other.name != name :=
        List.mem_filter.mpr ⟨ht, bne_iff_ne.mpr hname⟩
      refine (ih hmem fun d first hfirst => hadd d first (List.mem_of_mem_filter hfirst)).imp_left ?_
      rintro ⟨hleft, hqueue⟩
      refine ⟨hleft, List.not_mem_cons_of_ne_of_not_mem hname fun hin => hqueue ?_⟩
      exact List.mem_append_left _ hin

end

/-- Adding a subgraph adds each of its composite types at some time. -/
theorem establishes_addSubgraph {id : SubgraphId} {P : QueryGraph → Prop} (hP : Keeps id P)
    (merged : MergedSchema) (nameOf : SubgraphId → String) (d : Draft) {s : Subgraph} {t : TypeDef}
    (ht : t ∈ s.definitions) (hkind : t.kind.isComposite = true)
    (hadd : ∀ d, ∀ first ∈ s.definitions, first.name = t.name →
      P (addType id d first (Source.plans ⟨id, s, merged, nameOf⟩ first)
        (Source.possibleTypes ⟨id, s, merged, nameOf⟩ first)).graph) :
    P (addSubgraph merged nameOf d (id, s)).graph := by
  have hkeep := fun queue e => Keeps.expand (s := ⟨id, s, merged, nameOf⟩) hP queue e
  have hcases := fun queue e => expand_cases (s := ⟨id, s, merged, nameOf⟩) hP (t := t) queue e
  have hsub := unexpanded_expand_subset ⟨id, s, merged, nameOf⟩
  unfold Draft.addSubgraph
  dsimp only
  rcases hcases (RootOperation.all.filterMap s.roots.get)
    { draft := d, unexpanded := s.definitions } ht hadd with ⟨hroots, -⟩ | hdone
  · rcases hcases ((s.definitions.filter TypeDef.isEntity).map TypeDef.name) _ hroots
      (fun d first hfirst => hadd d first (hsub _ _ hfirst)) with ⟨hentities, -⟩ | hdone
    · rcases hcases ((s.definitions.filter fun t => t.kind.isComposite).map TypeDef.name) _ hentities
        (fun d first hfirst => hadd d first (hsub _ _ (hsub _ _ hfirst))) with ⟨-, hout⟩ | hdone
      · exact absurd (List.mem_map_of_mem (List.mem_filter.mpr ⟨ht, hkind⟩)) hout
      · exact hdone
    · exact hkeep _ _ hdone
  · exact hkeep _ _ (hkeep _ _ hdone)

/-- Adding a subgraph gives a node to each of its composite types. -/
theorem hasNodeFor_addSubgraph (merged : MergedSchema) (nameOf : SubgraphId → String) (d : Draft)
    {id : SubgraphId} {s : Subgraph} {t : TypeDef} (ht : t ∈ s.definitions)
    (hkind : t.kind.isComposite = true) :
    (addSubgraph merged nameOf d (id, s)).graph.HasNodeFor (t.name, id) :=
  establishes_addSubgraph (keeps_hasNodeFor id (t.name, id)) merged nameOf d ht hkind
    fun d first _ hname => hname ▸ hasNodeFor_addType id d first _ _

end Draft

namespace QueryGraph

variable {set : SubgraphSet} {merged : MergedSchema}

/-- Before the subgraphs are joined, each composite type of each subgraph has a node. -/
theorem hasNodeFor_draft {id : SubgraphId} {s : Subgraph} (hs : set.subgraph? id = some s)
    {t : TypeDef} (ht : t ∈ s.definitions) (hkind : t.kind.isComposite = true) :
    (draft set merged).graph.HasNodeFor (t.name, id) :=
  foldl_establishes (R := fun _ => True) (P := fun d => d.graph.HasNodeFor (t.name, id))
    (SubgraphSet.mem_enumerated.mpr hs) (fun _ _ _ => trivial)
    (fun _ entry hd => (Draft.keeps_hasNodeFor entry.1 _).addSubgraph hd merged set.nameOf)
    (fun d _ => Draft.hasNodeFor_addSubgraph merged set.nameOf d ht hkind) trivial

/-- Before the subgraphs are joined, each object and interface of each subgraph has a node. -/
theorem hasNodeFor_draft_of_definition? {id : SubgraphId} {s : Subgraph}
    (hs : set.subgraph? id = some s) {name : String} {t : TypeDef} (ht : s.definition? name = some t)
    (hkind : t.kind = .object ∨ t.kind = .interface) :
    (draft set merged).graph.HasNodeFor (name, id) := by
  rw [← Subgraph.name_of_definition? ht]
  refine hasNodeFor_draft hs (Subgraph.mem_of_definition? ht) ?_
  rcases hkind with hkind | hkind <;> rw [hkind] <;> rfl

theorem fetchesOnly_draft (ways : String × SubgraphId → Move → String × SubgraphId → Prop) :
    (draft set merged).graph.FetchesOnly ways := by
  have hempty : (Draft.graph {}).FetchesOnly ways := by
    intro id e he
    obtain ⟨n, hn, -⟩ := exists_node?_of_mem_allEdges (mem_allEdges_of_edge? he)
    cases hn
  exact List.foldlRecOn set.enumerated (Draft.addSubgraph merged set.nameOf)
    (motive := fun d => d.graph.FetchesOnly ways) hempty
    fun _ hd entry _ => (Draft.keeps_fetchesOnly entry.1 ways).addSubgraph hd merged set.nameOf

/-! ## Joining subgraphs -/

theorem HasNodeFor.addKeyEdge {g : QueryGraph} {subject : String × SubgraphId}
    (h : g.HasNodeFor subject) (makeMove : Key → Move) (keys : List Key) (target : NodeId)
    (sourceName : String) (source : SubgraphId × TypeDef) :
    (addKeyEdge set makeMove keys target sourceName g source).HasNodeFor subject :=
  addKeyEdge_keeps (P := fun g => g.HasNodeFor subject) (fun _ _ _ _ hg => hg.addEdge _ _ _) keys
    target sourceName source h

theorem MovesBy.addKeyEdge {g : QueryGraph} {source target : String × SubgraphId} {move : Move}
    (h : g.MovesBy source move target) (makeMove : Key → Move) (keys : List Key) (node : NodeId)
    (name : String) (entry : SubgraphId × TypeDef) :
    (addKeyEdge set makeMove keys node name g entry).MovesBy source move target :=
  addKeyEdge_keeps (P := fun g => g.MovesBy source move target)
    (fun _ _ _ _ hg => hg.addEdge _ _ _) keys node name entry h

theorem subject?_addKeyEdge (g : QueryGraph) (makeMove : Key → Move) (keys : List Key)
    (target : NodeId) (sourceName : String) (source : SubgraphId × TypeDef) (v : NodeId) :
    (addKeyEdge set makeMove keys target sourceName g source).subject? v = g.subject? v :=
  addKeyEdge_keeps (P := fun g' => g'.subject? v = g.subject? v)
    (fun _ _ _ _ hg => (subject?_addEdge _ _ _ _ _).trans hg) keys target sourceName source rfl

section

variable {g : QueryGraph} {t : MergedType} {target : String × SubgraphId} {makeMove : Key → Move}
  {keys : List Key} {key : Key} {node : NodeId} {name : String}
  {sources : List (SubgraphId × TypeDef)}
  {ways : String × SubgraphId → Move → String × SubgraphId → Prop}

theorem subject?_foldl_addKeyEdge (v : NodeId) :
    (sources.foldl (addKeyEdge set makeMove keys node name) g).subject? v = g.subject? v :=
  List.foldlRecOn sources _ (motive := fun g' : QueryGraph => g'.subject? v = g.subject? v) rfl
    fun _ hg _ _ => (subject?_addKeyEdge _ _ _ _ _ _ _).trans hg

/-- The edges to a node fetch objects by the cheapest keys. -/
theorem FetchesOnly.foldl_addKeyEdge (h : g.FetchesOnly ways) (hnode : g.subject? node = some target)
    (hways : ∀ source ∈ sources, ∀ s, set.subgraph? source.1 = some s →
      ∀ key, Key.cheapestFrom? s source.2 keys = some key →
        ways (name, source.1) (makeMove key) target) :
    (sources.foldl (QueryGraph.addKeyEdge set makeMove keys node name) g).FetchesOnly ways := by
  refine (List.foldlRecOn sources (QueryGraph.addKeyEdge set makeMove keys node name)
    (motive := fun g => g.FetchesOnly ways ∧ g.subject? node = some target)
    ⟨h, hnode⟩ fun g hg source hsource => ⟨?_, ?_⟩).1
  · unfold QueryGraph.addKeyEdge
    dsimp only
    split
    · rename_i head key hhead hkey
      obtain ⟨s, hs, hcheapest⟩ := Option.bind_eq_some_iff.mp hkey
      exact hg.1.addEdge fun _ =>
        ⟨_, _, base?_eq_some hhead, hg.2, hways source hsource s hs key hcheapest⟩
    · exact hg.1
  · rw [subject?_addKeyEdge]
    exact hg.2

/-- There is an edge to a node from each type that can fill in a key. -/
theorem movesBy_foldl_addKeyEdge {source : SubgraphId × TypeDef} (hsource : source ∈ sources)
    {s : Subgraph} (hs : set.subgraph? source.1 = some s)
    (hkey : Key.cheapestFrom? s source.2 keys = some key) (hhead : g.HasNodeFor (name, source.1))
    (hnode : g.subject? node = some target) :
    (sources.foldl (addKeyEdge set makeMove keys node name) g).MovesBy (name, source.1)
      (makeMove key) target := by
  refine foldl_establishes (f := QueryGraph.addKeyEdge set makeMove keys node name)
    (P := fun g => g.MovesBy (name, source.1) (makeMove key) target)
    (R := fun g => g.HasNodeFor (name, source.1) ∧ g.subject? node = some target)
    hsource ?_ ?_ ?_ ⟨hhead, hnode⟩
  · exact fun g other hg => ⟨hg.1.addKeyEdge _ _ _ _ _, (subject?_addKeyEdge _ _ _ _ _ _ _).trans hg.2⟩
  · exact fun g other hg => hg.addKeyEdge _ _ _ _ _
  · intro g hg
    obtain ⟨head, hbase⟩ := hg.1.exists_base?
    unfold QueryGraph.addKeyEdge
    dsimp only
    rw [hbase, hs, Option.bind_some, hkey]
    exact movesBy_addEdge (base?_eq_some hbase) hg.2

/-- The edges to a type in one subgraph fetch objects from the others by the cheapest keys. -/
theorem FetchesOnly.joinTarget (h : g.FetchesOnly ways) (target : SubgraphId × TypeDef)
    (hways : ∀ source ∈ t.byGraph, source.1 ≠ target.1 → ∀ s, set.subgraph? source.1 = some s →
      ∀ key, Key.cheapestFrom? s source.2 target.2.keys = some key →
        ways (t.name, source.1) (.entity key) (t.name, target.1)) :
    (joinTarget set t g target).FetchesOnly ways := by
  unfold QueryGraph.joinTarget
  split
  · exact h
  · rename_i node hnode
    refine h.foldl_addKeyEdge (base?_eq_some hnode) fun source hsource => ?_
    obtain ⟨hmem, hne⟩ := List.mem_filter.mp hsource
    exact hways source hmem (bne_iff_ne.mp hne)

/-- The edges to what stands in for an interface fetch objects by the cheapest keys. -/
theorem FetchesOnly.joinInterfaceObject (h : g.FetchesOnly ways) (target : SubgraphId × TypeDef)
    (hways : ∀ name ∈ t.implementations, ∀ o, merged.object? name = some o →
      ∀ source ∈ o.byGraph, ∀ s, set.subgraph? source.1 = some s →
        ∀ key, Key.cheapestFrom? s source.2 target.2.keys = some key →
          ways (o.name, source.1) (.interfaceObject key) (t.name, target.1)) :
    (joinInterfaceObject set merged t g target).FetchesOnly ways := by
  unfold QueryGraph.joinInterfaceObject
  split
  · exact h
  · rename_i node hnode
    refine (List.foldlRecOn t.implementations (joinImplementation set merged node target.2.keys)
      (motive := fun g => g.FetchesOnly ways ∧ g.subject? node = some (t.name, target.1))
      ⟨h, base?_eq_some hnode⟩ fun g hg name hname => ?_).1
    unfold joinImplementation
    split
    · exact hg
    · rename_i o ho
      exact ⟨hg.1.foldl_addKeyEdge hg.2 (hways name hname o ho),
        (subject?_foldl_addKeyEdge node).trans hg.2⟩

/-- There is an edge from each other subgraph where a key can be filled in. -/
theorem fetchesBy_joinTarget {source target : SubgraphId × TypeDef} (hsource : source ∈ t.byGraph)
    (hne : source.1 ≠ target.1) {s : Subgraph} (hs : set.subgraph? source.1 = some s) {key : Key}
    (hkey : Key.cheapestFrom? s source.2 target.2.keys = some key)
    (hhead : g.HasNodeFor (t.name, source.1)) (htail : g.HasNodeFor (t.name, target.1)) :
    (joinTarget set t g target).FetchesBy (t.name, source.1) key (t.name, target.1) := by
  obtain ⟨node, hnode⟩ := htail.exists_base?
  unfold QueryGraph.joinTarget
  rw [hnode]
  have hmem : source ∈ t.byGraph.filter fun source => source.1 != target.1 :=
    List.mem_filter.mpr ⟨hsource, bne_iff_ne.mpr hne⟩
  exact movesBy_foldl_addKeyEdge hmem hs hkey hhead (base?_eq_some hnode)

theorem fetchesOnly_joinType (h : g.FetchesOnly ways) (merged : MergedSchema)
    (hways : t.kind = .object ∨ t.kind = .interface → ∀ target ∈ t.byGraph, ∀ source ∈ t.byGraph,
      source.1 ≠ target.1 → ∀ s, set.subgraph? source.1 = some s →
        ∀ key, Key.cheapestFrom? s source.2 target.2.keys = some key →
          ways (t.name, source.1) (.entity key) (t.name, target.1))
    (hstandIns : ∀ target ∈ t.byGraph, target.2.isInterfaceObject = true →
      ∀ name ∈ t.implementations, ∀ o, merged.object? name = some o → ∀ source ∈ o.byGraph,
        ∀ s, set.subgraph? source.1 = some s →
          ∀ key, Key.cheapestFrom? s source.2 target.2.keys = some key →
            ways (o.name, source.1) (.interfaceObject key) (t.name, target.1)) :
    (joinType set merged g t).FetchesOnly ways := by
  have hjoined : t.kind = .object ∨ t.kind = .interface →
      ((t.byGraph.filter fun entry => entry.2.isInterfaceObject).foldl
        (joinInterfaceObject set merged t)
        (t.byGraph.foldl (QueryGraph.joinTarget set t) g)).FetchesOnly ways := by
    intro hkind
    have htargets := List.foldlRecOn t.byGraph (QueryGraph.joinTarget set t)
      (motive := fun g => g.FetchesOnly ways) h fun g hg target htarget =>
        hg.joinTarget target (hways hkind target htarget)
    refine List.foldlRecOn _ (joinInterfaceObject set merged t)
      (motive := fun g => g.FetchesOnly ways) htargets fun g hg target htarget => ?_
    obtain ⟨hmem, hstandIn⟩ := List.mem_filter.mp htarget
    exact hg.joinInterfaceObject target (hstandIns target hmem hstandIn)
  unfold joinType
  split
  · exact hjoined (.inl ‹_›)
  · exact hjoined (.inr ‹_›)
  · exact h

theorem fetchesBy_joinType (merged : MergedSchema) (hkind : t.kind = .object ∨ t.kind = .interface)
    {source target : SubgraphId × TypeDef} (htarget : target ∈ t.byGraph)
    (hsource : source ∈ t.byGraph) (hne : source.1 ≠ target.1) {s : Subgraph}
    (hs : set.subgraph? source.1 = some s) {key : Key}
    (hkey : Key.cheapestFrom? s source.2 target.2.keys = some key)
    (hhead : g.HasNodeFor (t.name, source.1)) (htail : g.HasNodeFor (t.name, target.1)) :
    (joinType set merged g t).FetchesBy (t.name, source.1) key (t.name, target.1) := by
  have htargets := foldl_establishes (f := QueryGraph.joinTarget set t)
    (P := fun g => g.FetchesBy (t.name, source.1) key (t.name, target.1))
    (R := fun g => g.HasNodeFor (t.name, source.1) ∧ g.HasNodeFor (t.name, target.1)) htarget
    (fun g other => joinTarget_keeps (P := fun g => g.HasNodeFor _ ∧ g.HasNodeFor _)
      (fun _ _ _ _ hg => ⟨hg.1.addEdge _ _ _, hg.2.addEdge _ _ _⟩) t other)
    (fun g other => joinTarget_keeps (P := fun g => g.FetchesBy _ _ _)
      (fun _ _ _ _ hg => MovesBy.addEdge hg _ _ _) t other)
    (fun g hg => fetchesBy_joinTarget hsource hne hs hkey hg.1 hg.2) ⟨hhead, htail⟩
  have hstandIns := List.foldlRecOn (t.byGraph.filter fun entry => entry.2.isInterfaceObject)
    (joinInterfaceObject set merged t)
    (motive := fun g => g.FetchesBy (t.name, source.1) key (t.name, target.1)) htargets
    fun g hg other _ => joinInterfaceObject_keeps (P := fun g => g.FetchesBy _ _ _)
      (fun _ _ _ _ hg => MovesBy.addEdge hg _ _ _) t other hg
  unfold joinType
  rcases hkind with hkind | hkind
  · rw [hkind]
    exact hstandIns
  · rw [hkind]
    exact hstandIns

end

/-! ## Whole graphs -/

section

variable (hset : set.HasProperNames) (hm : MergedSchema.ofSubgraphs set = .ok merged)

include hset hm

theorem fetchesOnly_joined : (joined set merged).FetchesOnly fun source move target =>
    ∀ key, move = .entity key → set.CanFetchBy source key target := by
  refine List.foldlRecOn merged.types (joinType set merged)
    (motive := FetchesOnly _) (fetchesOnly_draft _) fun g hg t ht => ?_
  refine fetchesOnly_joinType hg merged ?_ ?_
  · intro hkind target htarget source hsource hne s hs key hkey key' hmove
    obtain rfl := Move.entity.inj hmove
    obtain ⟨u, hu, hdefined⟩ := (MergedSchema.mem_byGraph_iff hset hm ht).mp htarget
    obtain ⟨s', hs', hdefined'⟩ := (MergedSchema.mem_byGraph_iff hset hm ht).mp hsource
    obtain rfl : s = s' := Option.some.inj (hs.symm.trans hs')
    refine ⟨rfl, hne, u, target.2, hu, hdefined, ?_, s, source.2, hs, hdefined', hkey⟩
    rw [MergedSchema.kind_of_mem_byGraph hset hm ht htarget]
    exact hkind
  · intros
    contradiction

theorem fetchesBy_joined {source target : String × SubgraphId} {key : Key}
    (h : set.CanFetchBy source key target) : (joined set merged).FetchesBy source key target := by
  obtain ⟨name, id'⟩ := source
  obtain ⟨name', id⟩ := target
  obtain ⟨hname, hne, s, d, hs, hd, hkind, s', d', hs', hd', hkey⟩ := h
  dsimp only at hname hne hs hd hs' hd'
  subst hname
  obtain ⟨t, hfound, htkind, -⟩ := MergedSchema.exists_type?_of_mem hm (e := ⟨id, s, d⟩)
    (SubgraphSet.mem_typeEntries.mpr ⟨hs, Subgraph.mem_of_definition? hd⟩)
  obtain ⟨ht, htname⟩ := MergedSchema.mem_types_of_type?_eq_some hfound
  have hdname : d.name = name := Subgraph.name_of_definition? hd
  obtain rfl : t.name = name := htname.trans hdname
  have htarget := (MergedSchema.mem_byGraph_iff hset hm ht).mpr ⟨s, hs, hd⟩
  have hsource := (MergedSchema.mem_byGraph_iff hset hm ht).mpr ⟨s', hs', hd'⟩
  have hkind' : d'.kind = d.kind :=
    (MergedSchema.kind_of_mem_byGraph hset hm ht hsource).trans htkind
  -- both definitions are composite, so there are nodes to be joined
  have hnode : (draft set merged).graph.HasNodeFor (t.name, id) :=
    hasNodeFor_draft_of_definition? hs hd hkind
  have hnode' : (draft set merged).graph.HasNodeFor (t.name, id') :=
    hasNodeFor_draft_of_definition? hs' hd' (hkind' ▸ hkind)
  refine foldl_establishes (f := joinType set merged)
    (P := fun g => g.FetchesBy (t.name, id') key (t.name, id))
    (R := fun g => g.HasNodeFor (t.name, id') ∧ g.HasNodeFor (t.name, id)) ht ?_ ?_ ?_
    ⟨hnode', hnode⟩
  · exact fun g other => joinType_keeps (P := fun g => g.HasNodeFor _ ∧ g.HasNodeFor _)
      (fun _ _ _ _ _ hg => ⟨hg.1.addEdge _ _ _, hg.2.addEdge _ _ _⟩) other
  · exact fun g other => joinType_keeps (P := fun g => g.FetchesBy _ _ _)
      (fun _ _ _ _ _ hg => MovesBy.addEdge hg _ _ _) other
  · exact fun g hg => fetchesBy_joinType merged (htkind ▸ hkind) htarget hsource hne hs' hkey hg.1
      hg.2

/-- **Objects are fetched from exactly the other subgraphs that define their type and can fill in a
key, and always by the cheapest one.** -/
theorem fetchesBy_ofSubgraphs_iff {source target : String × SubgraphId} {key : Key} :
    (ofSubgraphs set merged).FetchesBy source key target ↔ set.CanFetchBy source key target := by
  have hrun : GrowsTo merged 0 (joined set merged) (ofSubgraphs set merged) :=
    growsTo_ofSubgraphs hm 0
  constructor
  · intro h
    exact ((fetchesOnly_joined hset hm).growsTo hrun).of_movesBy rfl h key rfl
  · intro h
    exact MovesBy.growsTo (fetchesBy_joined hset hm h) hrun

end

end QueryGraph

end Federation
