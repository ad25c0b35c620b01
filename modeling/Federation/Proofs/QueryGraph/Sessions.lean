import Federation.Proofs.QueryGraph.Copies
import Federation.Proofs.QueryGraph.Tables
import Mathlib.Data.Set.Function

/-!
# Sessions that build query graphs

A query graph and tables that go through the same calls have the same nodes and edges, find the same
nodes by type and refuse the same calls. So what the tables keep holds of the query graph: edges go
by the places that they got when they were added, and no call touches the edges of two nodes.
-/

namespace Federation

/-! ## Calls on a query graph -/

/-- A query graph that is built by calls, and the place of each edge by its number. -/
structure GraphSession where
  graph : QueryGraph := {}
  places : List EdgeId := []

namespace GraphSession

/-- Changes the graph at the place of the edge of a number. -/
def atPlace (s : GraphSession) (number : Nat) (f : EdgeId → QueryGraph) : GraphSession :=
  { s with graph := ((s.places[number]?).map f).getD s.graph }

/-- The query graph after a call, with the places of the edges that are added. The graph knows
sources by their numbers. -/
def after (idOf : NodeSource → SubgraphId) (s : GraphSession) : GraphCall → GraphSession
  | .nodeFor typeName source =>
    { s with graph := (s.graph.baseFor typeName (idOf source)).2 }
  | .addEdge head move tail =>
    let (place, graph) := s.graph.addEdge head move tail
    { graph, places := s.places ++ [place] }
  | .ignoreEdge number => s.atPlace number s.graph.ignoreEdge
  | .setEdgeTail number tail => s.atPlace number fun place => s.graph.setTail place tail
  | .duplicateNode node =>
    let (copy, graph) := s.graph.copyNode node
    { graph
      places := s.places ++ (List.range (s.graph.edges node).length).map (EdgeId.mk copy) }

/-- The query graph after a call that names only nodes and edges that are there. -/
def call? (idOf : NodeSource → SubgraphId) (s : GraphSession) (call : GraphCall) :
    Option GraphSession :=
  if call.namesAmong s.graph.size s.places.length then some (s.after idOf call) else none

/-- The query graph after calls that name only nodes and edges that are there. -/
def run? (idOf : NodeSource → SubgraphId) (s : GraphSession) (calls : List GraphCall) :
    Option GraphSession :=
  calls.foldlM (call? idOf) s

end GraphSession

/-! ## Edges of a query graph -/

namespace QueryGraph

variable {g : QueryGraph} {v : NodeId}

theorem allEdges_eq_nil (hv : g.size ≤ v) : g.allEdges v = [] := by
  rw [allEdges, show g.node? v = none from Array.getElem?_eq_none hv]
  rfl

/-- A new node has its own edges. -/
theorem allEdges_addNode (g : QueryGraph) (n : Node) (v : NodeId) :
    (g.addNode n).2.allEdges v = g.allEdges v ++ if g.size = v then n.edges else [] := by
  rw [allEdges, node?_addNode]
  by_cases hv : v = g.size
  · rw [if_pos hv, if_pos hv.symm, allEdges_eq_nil hv.ge]
    rfl
  · rw [if_neg hv, if_neg (Ne.symm hv), List.append_nil]
    rfl

/-- An edge that is added comes last at its node. -/
theorem allEdges_addEdge {head : NodeId} (hhead : head < g.size) (move : Move) (tail v : NodeId) :
    (g.addEdge head move tail).2.allEdges v =
      g.allEdges v ++ if head = v then [Edge.mk move tail false] else [] := by
  show (g.modifyEdges head _).allEdges v = _
  rw [allEdges, node?_modifyEdges]
  split
  · rename_i hv
    obtain ⟨n, hn⟩ := exists_node?_of_lt (hv ▸ hhead)
    rw [allEdges_of_node? hn, hn]
    rfl
  · exact (List.append_nil _).symm

/-- A change of an edge is one at its position, and only at the node that it leaves. -/
theorem allEdges_modifyEdge (g : QueryGraph) (id : EdgeId) (f : Edge → Edge) (v : NodeId) :
    (g.modifyEdge id f).allEdges v =
      if id.head = v then (g.allEdges v).modify id.position f else g.allEdges v := by
  show (g.modifyEdges id.head _).allEdges v = _
  rw [allEdges, node?_modifyEdges]
  split
  · rw [allEdges]
    cases g.node? v with
    | none => exact (List.modify_nil f id.position).symm
    | some n => rfl
  · rfl

end QueryGraph

namespace GraphTables

variable {t t' : GraphTables} {v : NodeId} {s : GraphSession}

/-! ## The same nodes and edges -/

/-- The query graph has the nodes of the tables. It knows the sources by numbers, and all sources
are among given ones. -/
structure HasNodes (idOf : NodeSource → SubgraphId) (sources : Set NodeSource) (t : GraphTables)
    (g : QueryGraph) : Prop where
  known : ∀ subject ∈ t.nodes, subject.2 ∈ sources
  subject? : ∀ v, g.subject? v = (t.nodes[v]?).map fun subject => (subject.1, idOf subject.2)

/-- The query graph has the edges of the tables, and each edge is at the position that its number
has at its node. -/
structure HasEdges (t : GraphTables) (s : GraphSession) : Prop where
  allEdges : ∀ v, s.graph.allEdges v = t.allEdges v
  length : s.places.length = t.rows.length
  place : ∀ number (id : EdgeId), s.places[number]? = some id →
    (t.numbersAt id.head)[id.position]? = some number

/-- The query graph has the nodes and edges of the tables, and finds the same nodes by type. -/
structure Represents (idOf : NodeSource → SubgraphId) (sources : Set NodeSource) (t : GraphTables)
    (s : GraphSession) : Prop where
  hasNodes : t.HasNodes idOf sources s.graph
  base? : ∀ typeName, ∀ source ∈ sources,
    s.graph.base? typeName (idOf source) = t.byType.lookup (typeName, source)
  hasEdges : t.HasEdges s

section

variable {idOf : NodeSource → SubgraphId} {sources : Set NodeSource} {g g' : QueryGraph}

theorem HasNodes.size (hnodes : t.HasNodes idOf sources g) : g.size = t.nodes.length := by
  have hle : ∀ v, g.size ≤ v ↔ t.nodes.length ≤ v := by
    intro v
    have hsubject := hnodes.subject? v
    rw [QueryGraph.subject?] at hsubject
    rw [← List.getElem?_eq_none_iff, QueryGraph.size, ← Array.getElem?_eq_none_iff]
    constructor
    · intro hnone
      rw [show g.node? v = none from hnone] at hsubject
      exact Option.map_eq_none_iff.mp hsubject.symm
    · intro hnone
      rw [hnone] at hsubject
      exact Option.map_eq_none_iff.mp hsubject
  exact Nat.le_antisymm ((hle _).mpr (Nat.le_refl _)) ((hle _).mp (Nat.le_refl _))

/-- The nodes decide what is found by type. -/
theorem HasNodes.represents (hnodes : t.HasNodes idOf sources s.graph) (h : t.IsConsistent)
    (hidOf : sources.InjOn idOf) (hedges : t.HasEdges s) : t.Represents idOf sources s where
  hasNodes := hnodes
  hasEdges := hedges
  base? typeName source hsource := by
    have hsame : ∀ v, s.graph.subject? v = some (typeName, idOf source) ↔
        t.nodes[v]? = some (typeName, source) := by
      intro v
      rw [hnodes.subject?, Option.map_eq_some_iff]
      constructor
      · rintro ⟨⟨typeName', source'⟩, hv, heq⟩
        obtain ⟨rfl, hid⟩ := Prod.mk.inj heq
        obtain rfl := hidOf (hnodes.known _ (List.mem_of_getElem? hv)) hsource hid
        exact hv
      · exact fun hv => ⟨_, hv, rfl⟩
    refine Option.ext fun v => ?_
    rw [QueryGraph.base?_eq_some_iff, h.lookup_eq_some]
    simp only [ne_eq, hsame]

/-- A node is added on both sides. -/
theorem HasNodes.push (hnodes : t.HasNodes idOf sources g) {subject : String × NodeSource}
    (hsource : subject.2 ∈ sources) (ht' : t'.nodes = t.nodes ++ [subject])
    (hg' : ∀ v, g'.subject? v =
      if v = g.size then some (subject.1, idOf subject.2) else g.subject? v) :
    t'.HasNodes idOf sources g' where
  known subject hsubject := by
    rcases List.mem_append.mp (ht' ▸ hsubject) with hold | hnew
    · exact hnodes.known subject hold
    · rw [List.mem_singleton.mp hnew]
      exact hsource
  subject? v := by
    rw [hg', ht', hnodes.subject?, hnodes.size]
    by_cases hv : v = t.nodes.length
    · rw [if_pos hv, hv, List.getElem?_concat_length]
      rfl
    · rw [if_neg hv]
      rcases Nat.lt_or_gt_of_ne hv with hlt | hgt
      · rw [List.getElem?_append_left hlt]
      · rw [List.getElem?_eq_none (Nat.le_of_lt hgt), List.getElem?_eq_none]
        rw [List.length_append]
        exact hgt

theorem HasNodes.congr (hnodes : t.HasNodes idOf sources g) (ht' : t'.nodes = t.nodes)
    (hg' : ∀ v, g'.subject? v = g.subject? v) : t'.HasNodes idOf sources g' where
  known := ht' ▸ hnodes.known
  subject? v := by
    rw [hg', ht', hnodes.subject?]

/-- Edges that change keep their positions. -/
theorem HasEdges.congr (hedges : t.HasEdges s) (hallEdges : ∀ v, g'.allEdges v = t'.allEdges v)
    (hlength : t'.rows.length = t.rows.length) (hnumbers : ∀ v, t'.numbersAt v = t.numbersAt v) :
    t'.HasEdges { s with graph := g' } where
  allEdges := hallEdges
  length := hlength ▸ hedges.length
  place number id hid := by
    rw [hnumbers]
    exact hedges.place number id hid

/-- Edges are added on both sides, each of them at a position that its number gets. -/
theorem HasEdges.append (hedges : t.HasEdges s) {more : List EdgeId}
    (hallEdges : ∀ v, g'.allEdges v = t'.allEdges v)
    (hlength : t'.rows.length = t.rows.length + more.length)
    (hnumbers : ∀ v, t.numbersAt v <+: t'.numbersAt v)
    (hmore : ∀ i (id : EdgeId), more[i]? = some id →
      (t'.numbersAt id.head)[id.position]? = some (t.rows.length + i)) :
    t'.HasEdges { graph := g', places := s.places ++ more } where
  allEdges := hallEdges
  length := by
    rw [List.length_append, hedges.length, hlength]
  place number id hid := by
    rw [List.getElem?_append] at hid
    split at hid
    · obtain ⟨hlt, hget⟩ := List.getElem?_eq_some_iff.mp (hedges.place number id hid)
      rw [← hget]
      exact List.prefix_iff_getElem?.mp (hnumbers id.head) id.position hlt
    · rename_i hnumber
      rw [hmore _ id hid, ← hedges.length, Nat.add_sub_cancel' (Nat.not_lt.mp hnumber)]

end

namespace Represents

variable {idOf : NodeSource → SubgraphId} {sources : Set NodeSource}

theorem empty (idOf : NodeSource → SubgraphId) (sources : Set NodeSource) :
    Represents idOf sources {} {} where
  hasNodes := ⟨fun _ hsubject => (nomatch hsubject), fun _ => rfl⟩
  base? _ _ _ := Array.findIdx?_empty
  hasEdges := ⟨fun _ => rfl, rfl, fun _ _ hplace => (nomatch hplace)⟩

variable (hr : Represents idOf sources t s) (h : t.IsConsistent) (hidOf : sources.InjOn idOf)
include hr h hidOf

/-- A node is added on both sides, unless its type already has one in the source. -/
theorem nodeFor (typeName : String) {source : NodeSource} (hsource : source ∈ sources) :
    Represents idOf sources (t.nodeFor (typeName, source)).2
      { s with graph := (s.graph.baseFor typeName (idOf source)).2 } := by
  have hafter := h.nodeFor (typeName, source)
  have hallEdges := t.allEdges_nodeFor (typeName, source)
  cases hfound : t.byType.lookup (typeName, source) with
  | some v =>
    have hgraph : s.graph.baseFor typeName (idOf source) = (v, s.graph) := by
      rw [QueryGraph.baseFor, hr.base? typeName source hsource, hfound]
    rw [nodeFor_of_some hfound, hgraph]
    exact hr
  | none =>
    have hgraph : s.graph.baseFor typeName (idOf source) =
        s.graph.addNode { typeName, subgraph := idOf source } := by
      rw [QueryGraph.baseFor, hr.base? typeName source hsource, hfound]
    rw [hgraph]
    rw [nodeFor_of_none hfound] at hafter hallEdges ⊢
    refine (hr.hasNodes.push hsource rfl (QueryGraph.subject?_addNode s.graph _)).represents hafter
      hidOf (hr.hasEdges.congr (fun v => ?_) rfl (t.numbersAt_pushNode (typeName, source)))
    rw [QueryGraph.allEdges_addNode, hallEdges, hr.hasEdges.allEdges, ite_self, List.append_nil]

/-- An edge is added on both sides. -/
theorem addEdge {head : NodeId} (move : Move) {tail : NodeId} (hhead : head < t.nodes.length)
    (htail : tail < t.nodes.length) :
    Represents idOf sources (t.addEdge head move tail).2
      { graph := (s.graph.addEdge head move tail).2
        places := s.places ++ [(s.graph.addEdge head move tail).1] } := by
  have hsize : head < s.graph.size := hr.hasNodes.size ▸ hhead
  have hnumbers := numbersAt_addEdge h move hhead htail
  refine HasNodes.represents (hr.hasNodes.congr rfl ?_) (h.addEdge move hhead htail) hidOf
    (hr.hasEdges.append ?_ List.length_append ?_ ?_)
  · exact QueryGraph.subject?_addEdge s.graph head move tail
  · intro v
    rw [QueryGraph.allEdges_addEdge hsize, allEdges_addEdge h move hhead htail,
      hr.hasEdges.allEdges]
  · intro v
    rw [hnumbers]
    exact List.prefix_append _ _
  · intro i id hid
    obtain ⟨rfl, rfl⟩ : i = 0 ∧ id = ⟨head, (s.graph.allEdges head).length⟩ := by
      cases i with
      | zero => exact ⟨rfl, (Option.some_inj.mp hid).symm⟩
      | succ i => cases hid
    rw [hnumbers, if_pos rfl, hr.hasEdges.allEdges, length_allEdges h]
    exact List.getElem?_concat_length

/-- The edge of a number changes on both sides. -/
theorem changeEdge {number : Nat} (f : Edge → Edge) (hnumber : number < t.rows.length)
    (hchanged : (t.changeEdge number f).IsConsistent) :
    Represents idOf sources (t.changeEdge number f)
      (s.atPlace number fun id => s.graph.modifyEdge id f) := by
  obtain ⟨id, hid⟩ : ∃ id, s.places[number]? = some id :=
    ⟨_, List.getElem?_eq_getElem (hr.hasEdges.length ▸ hnumber)⟩
  have hposition := hr.hasEdges.place number id hid
  rw [show s.atPlace number _ = { s with graph := s.graph.modifyEdge id f } by
    rw [GraphSession.atPlace, hid]; rfl]
  refine HasNodes.represents (hr.hasNodes.congr rfl ?_) hchanged hidOf
    (hr.hasEdges.congr ?_ (List.length_modify _ _ _) fun _ => rfl)
  · exact QueryGraph.subject?_modifyEdges s.graph id.head _
  · intro v
    rw [QueryGraph.allEdges_modifyEdge, hr.hasEdges.allEdges]
    split
    · rename_i hv
      exact (allEdges_changeEdge h hchanged (hv ▸ hposition)).symm
    · rename_i hv
      obtain ⟨row, hrow, hhead⟩ := h.mem_numbersAt.mp (List.mem_of_getElem? hposition)
      refine (allEdges_changeEdge_of_notMem f (h.notMem_numbersAt ?_)).symm
      rw [hrow, Option.map_some, hhead]
      exact fun heq => hv (Option.some_inj.mp heq)

/-- A copy with its edges is added on both sides. -/
theorem duplicateNode {node : NodeId} (hnode : node < t.nodes.length) :
    Represents idOf sources (t.duplicateNode node).2
      { graph := (s.graph.copyNode node).2
        places := s.places ++ (List.range (s.graph.edges node).length).map
          (EdgeId.mk (s.graph.copyNode node).1) } := by
  have hsubject := List.getElem?_eq_getElem hnode
  have hedges : s.graph.edges node = t.edges node := by
    rw [QueryGraph.edges, hr.hasEdges.allEdges, edges]
  obtain ⟨n, hn⟩ := QueryGraph.exists_node?_of_lt (hr.hasNodes.size ▸ hnode : node < s.graph.size)
  have hcopy : s.graph.copyNode node = s.graph.addNode { n with edges := t.edges node } := by
    rw [QueryGraph.copyNode, hn, hedges]
  have hcopyOf : (n.typeName, n.subgraph) = (t.nodes[node].1, idOf t.nodes[node].2) := by
    have heq := hr.hasNodes.subject? node
    rw [QueryGraph.subject?, hn, hsubject] at heq
    exact Option.some_inj.mp heq
  have hnodes := nodes_duplicateNode hsubject
  have hlength : (t.duplicateNode node).2.rows.length = t.rows.length +
      ((List.range (t.edges node).length).map (EdgeId.mk s.graph.size)).length := by
    rw [duplicateNode_eq hsubject, length_rows_addEdges, List.length_map, List.length_range]
    rfl
  have hnumbers := numbersAt_duplicateNode h hnode
  rw [hcopy, hedges]
  refine HasNodes.represents (hr.hasNodes.push (hr.hasNodes.known _ (List.getElem_mem hnode)) hnodes
    fun v => ?_) (h.duplicateNode hnode) hidOf
    (hr.hasEdges.append (fun v => ?_) hlength (fun v => ?_) fun i id hid => ?_)
  · rw [QueryGraph.subject?_addNode, hcopyOf]
  · rw [QueryGraph.allEdges_addNode, allEdges_duplicateNode h hnode, hr.hasEdges.allEdges,
      hr.hasNodes.size]
  · rw [hnumbers]
    exact List.prefix_append _ _
  · rw [List.getElem?_map, Option.map_eq_some_iff] at hid
    obtain ⟨position, hposition, rfl⟩ := hid
    obtain ⟨hlt, rfl⟩ := List.getElem?_eq_some_iff.mp hposition
    -- the copy had no numbers before, so the new ones start at the first position
    rw [List.length_range] at hlt
    show ((t.duplicateNode node).2.numbersAt s.graph.size)[_]? = _
    rw [hnumbers, hr.hasNodes.size, if_pos rfl, h.numbersAt_eq_nil (Nat.le_refl _),
      List.nil_append, List.getElem_range, List.getElem?_range' hlt, Nat.one_mul]

/-- The same call on both sides leads to the same nodes and edges. -/
theorem after {call : GraphCall} (hnames : call.namesAmong t.nodes.length t.rows.length = true)
    (hsource : ∀ typeName source, call = .nodeFor typeName source → source ∈ sources) :
    Represents idOf sources (t.after call) (s.after idOf call) := by
  have hconsistent : (t.after call).IsConsistent := h.call? (call?_eq_some.mpr ⟨hnames, rfl⟩)
  cases call with
  | nodeFor typeName source => exact hr.nodeFor h hidOf typeName (hsource typeName source rfl)
  | addEdge head move tail =>
    obtain ⟨hhead, htail⟩ := GraphCall.namesAmong_addEdge.mp hnames
    exact hr.addEdge h hidOf move hhead htail
  | ignoreEdge number =>
    exact hr.changeEdge h hidOf (fun edge => { edge with isIgnored := true })
      (of_decide_eq_true hnames) hconsistent
  | setEdgeTail number tail =>
    have hnumber := (GraphCall.namesAmong_setEdgeTail.mp hnames).1
    exact hr.changeEdge h hidOf (fun edge => { edge with tail }) hnumber hconsistent
  | duplicateNode node => exact hr.duplicateNode h hidOf (of_decide_eq_true hnames)

/-- The same calls on both sides lead to the same nodes and edges, or are refused on both. -/
theorem run? {calls : List GraphCall}
    (hsources : ∀ typeName source, GraphCall.nodeFor typeName source ∈ calls → source ∈ sources) :
    Option.Rel (Represents idOf sources) (t.run? calls) (s.run? idOf calls) := by
  induction calls generalizing t s with
  | nil => exact .some hr
  | cons call others ih =>
    -- both sides count the same nodes and edges, so they refuse the same calls
    have hsame : call.namesAmong s.graph.size s.places.length =
        call.namesAmong t.nodes.length t.rows.length := by
      rw [hr.hasNodes.size, hr.hasEdges.length]
    show Option.Rel _ ((t.call? call).bind fun next => next.run? others)
      ((s.call? idOf call).bind fun next => next.run? idOf others)
    rw [GraphTables.call?, GraphSession.call?, hsame]
    by_cases hnames : call.namesAmong t.nodes.length t.rows.length = true
    · rw [if_pos hnames, if_pos hnames]
      have hnext := h.call? (call?_eq_some.mpr ⟨hnames, rfl⟩)
      have hrnext := hr.after h hidOf hnames fun typeName source heq =>
        hsources typeName source (heq ▸ List.mem_cons_self)
      exact ih hrnext hnext fun typeName source hmem =>
        hsources typeName source (List.mem_cons_of_mem _ hmem)
    · rw [if_neg hnames, if_neg hnames]
      exact .none

end Represents

/-! ## Every session -/

/-- After any calls that name only nodes and edges that are there, the tables are consistent and a
query graph has the same nodes and edges. Nodes and edges keep their numbers, and a node and its
copy go their own ways. -/
theorem tables_stay_consistent (calls : List GraphCall) :
    (∀ idOf : NodeSource → SubgraphId,
      Set.InjOn idOf {source | ∃ typeName, GraphCall.nodeFor typeName source ∈ calls} →
      Option.Rel (Represents idOf {source | ∃ typeName, GraphCall.nodeFor typeName source ∈ calls})
        (GraphTables.run? {} calls) (GraphSession.run? idOf {} calls)) ∧
    ∀ t, GraphTables.run? {} calls = some t →
      t.IsConsistent ∧
      (∀ subject, (t.nodeFor subject).2.byType.lookup subject = some (t.nodeFor subject).1) ∧
      (∀ more t', t.run? more = some t' → t.IsKeptBy t') ∧
      ∀ node < t.nodes.length,
        t.HasCopy (t.duplicateNode node).2 node (t.duplicateNode node).1 := by
  constructor
  · intro idOf hidOf
    exact (Represents.empty idOf _).run? .empty hidOf fun typeName _ hmem => ⟨typeName, hmem⟩
  · intro t hrun
    have hconsistent := IsConsistent.empty.run? hrun
    exact ⟨hconsistent, t.lookup_nodeFor, fun _ _ => IsKeptBy.run?,
      fun _ => hasCopy_duplicateNode hconsistent⟩

/-- A node and its copy diverge: the copy gets an edge, and the edge of the node is ignored. -/
def divergingCalls : List GraphCall :=
  [.nodeFor "User" (.subgraph 0), .nodeFor "String" (.subgraph 0), .nodeFor "User" (.subgraph 0),
    .addEdge 0 (.field "name" none false) 1, .duplicateNode 0,
    .addEdge 2 (.field "email" none true) 1, .ignoreEdge 0]

theorem tables_stay_consistent_of_divergingCalls :
    ∃ t, GraphTables.run? {} divergingCalls = some t ∧
      t.nodes.length = 3 ∧ t.rows.length = 3 ∧
      (t.edges 0).length = 0 ∧ (t.allEdges 0).length = 1 ∧ (t.edges 2).length = 2 ∧
      t.byType.lookup ("User", .subgraph 0) = some 0 ∧
      t.IsConsistent ∧ t.HasCopy (t.duplicateNode 2).2 2 3 ∧
      ∃ s, GraphSession.run? (fun _ => 0) {} divergingCalls = some s ∧ t.HasEdges s := by
  have hsources : ∀ typeName source, GraphCall.nodeFor typeName source ∈ divergingCalls →
      source = .subgraph 0 := by
    simp only [divergingCalls, List.mem_cons, GraphCall.nodeFor.injEq, reduceCtorEq]
    grind
  have hidOf : Set.InjOn (fun _ => 0)
      {source | ∃ typeName, GraphCall.nodeFor typeName source ∈ divergingCalls} := by
    rintro source ⟨typeName, hsource⟩ source' ⟨typeName', hsource'⟩ -
    rw [hsources typeName source hsource, hsources typeName' source' hsource']
  obtain ⟨hrel, htables⟩ := tables_stay_consistent divergingCalls
  obtain ⟨hconsistent, -, -, hcopy⟩ := htables _ rfl
  refine ⟨_, rfl, rfl, rfl, rfl, rfl, rfl, rfl, hconsistent, hcopy 2 (by decide), ?_⟩
  have htablesRun : GraphTables.run? {} divergingCalls = some _ := rfl
  have hrepresents := hrel (fun _ => 0) hidOf
  rw [htablesRun] at hrepresents
  cases hsession : GraphSession.run? (fun _ => 0) {} divergingCalls with
  | none => simp [hsession] at hrepresents
  | some s =>
    rw [hsession, Option.rel_some_some] at hrepresents
    exact ⟨s, rfl, hrepresents.hasEdges⟩

end GraphTables

end Federation
