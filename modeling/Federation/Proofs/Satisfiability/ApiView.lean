import Federation.Proofs.QueryGraph.Tables
import Federation.Proofs.Reachability
import Federation.Satisfiability.ApiGraph

/-!
# The view of an API

An API can be kept in the tables of a graph: a node for each type that queries get to, and an edge
for each step. No type has two nodes, and the edges at a node are the steps of its type, in their
order.

Whether queries get from a type to another is searched for in the tables, breadth first. The search
ends at the first edge that leads to the target. An answer is kept, and it is given again when the
question comes again. So no answer depends on the questions before it.
-/

namespace Federation

/-! ## Building the tables -/

/-- A step as a move of a graph. -/
def ApiMove.move : ApiMove → Move
  | .field name _ => .field name none false
  | .narrow _ => .narrow

namespace GraphTables

/-- Adds the edge of a step to a node. -/
def addApiMove (head : NodeId) (t : GraphTables) (step : ApiMove) : GraphTables :=
  let (tail, t) := t.nodeFor (step.target, .supergraph)
  (t.addEdge head step.move tail).2

/-- Adds a type with all its steps. -/
def addApiType (t : GraphTables) (type : ApiType) : GraphTables :=
  let (head, t) := t.nodeFor (type.name, .supergraph)
  type.moves.foldl (addApiMove head) t

end GraphTables

/-- The tables of all types of an API. -/
def ApiGraph.tables (g : ApiGraph) : GraphTables :=
  g.types.foldl GraphTables.addApiType {}

/-! ## Steps of types -/

namespace ApiType

/-- All steps of the types of a name. -/
def stepsOf (types : List ApiType) (name : String) : List ApiMove :=
  types.flatMap fun type => if type.name = name then type.moves else []

/-- Queries that select from some types get to a type. -/
def Knows (types : List ApiType) (name : String) : Prop :=
  ∃ type ∈ types, type.name = name ∨ ∃ step ∈ type.moves, step.target = name

variable {types : List ApiType} {name : String}

/-- Some step leads from a type to another. -/
def Leads (types : List ApiType) (a b : String) : Prop :=
  ∃ step ∈ stepsOf types a, step.target = b

theorem mem_stepsOf {step : ApiMove} :
    step ∈ stepsOf types name ↔ ∃ type ∈ types, type.name = name ∧ step ∈ type.moves := by
  simp only [stepsOf, List.mem_flatMap, List.mem_ite_nil_right]

/-- A type that is not known has no steps. -/
theorem stepsOf_eq_nil (h : ¬ Knows types name) : stepsOf types name = [] := by
  refine List.eq_nil_iff_forall_not_mem.mpr fun step hstep => ?_
  obtain ⟨type, htype, hname, -⟩ := mem_stepsOf.mp hstep
  exact h ⟨type, htype, .inl hname⟩

theorem stepsOf_append_singleton (types : List ApiType) (type : ApiType) (name : String) :
    stepsOf (types ++ [type]) name =
      stepsOf types name ++ if type.name = name then type.moves else [] := by
  rw [stepsOf, List.flatMap_append, List.flatMap_singleton, stepsOf]

theorem knows_append_singleton {type : ApiType} :
    Knows (types ++ [type]) name ↔
      Knows types name ∨ type.name = name ∨ ∃ step ∈ type.moves, step.target = name := by
  simp only [Knows, List.mem_append, List.mem_singleton, or_and_right, exists_or, exists_eq_left]

end ApiType

/-! ## Tables of some types -/

namespace GraphTables

variable {t : GraphTables} {subject : String × NodeSource} {v : NodeId}

theorem IsConsistent.getElem?_nodeFor (h : t.IsConsistent) (subject : String × NodeSource) :
    (t.nodeFor subject).2.nodes[(t.nodeFor subject).1]? = some subject :=
  ((h.nodeFor subject).lookup_eq_some.mp (t.lookup_nodeFor subject)).1

/-- A node is only added for a type that has none. -/
theorem IsConsistent.nodes_nodeFor (h : t.IsConsistent) (subject : String × NodeSource) :
    (t.nodeFor subject).2.nodes = if subject ∈ t.nodes then t.nodes else t.nodes ++ [subject] := by
  cases hfound : t.byType.lookup subject with
  | some v =>
    have hmem := List.mem_of_getElem? (h.lookup_eq_some.mp hfound).1
    rw [nodeFor_of_some hfound, if_pos hmem]
  | none =>
    have hnot : subject ∉ t.nodes := by
      intro hmem
      rw [h.byType, List.findIdx?_eq_none_iff] at hfound
      simpa using hfound subject hmem
    rw [nodeFor_of_none hfound, if_neg hnot]
    rfl

/-- An edge as it is written: its move, whether it is ignored, and what it leads to. -/
def written (t : GraphTables) (e : Edge) : Move × Bool × Option (String × NodeSource) :=
  (e.move, e.isIgnored, t.nodes[e.tail]?)

/-- How the edge of a step is written. -/
def writtenStep (step : ApiMove) : Move × Bool × Option (String × NodeSource) :=
  (step.move, false, some (step.target, .supergraph))

/-- Edges are written alike in later tables. -/
theorem IsConsistent.map_written (h : t.IsConsistent) {t' : GraphTables} (hkept : t.IsKeptBy t')
    (v : NodeId) : (t.allEdges v).map t'.written = (t.allEdges v).map t.written := by
  refine List.map_congr_left fun e he => ?_
  rw [written, written, hkept.getElem?_nodes (h.tail_lt he)]

/-- The tables hold some types with their steps, and nothing else. -/
structure Holds (types : List ApiType) (t : GraphTables) : Prop where
  consistent : t.IsConsistent
  distinct : t.nodes.Nodup
  known : ∀ subject, subject ∈ t.nodes ↔
    subject.2 = .supergraph ∧ ApiType.Knows types subject.1
  steps : ∀ v name, t.nodes[v]? = some (name, .supergraph) →
    (t.allEdges v).map t.written = (ApiType.stepsOf types name).map writtenStep

namespace Holds

theorem empty : Holds [] {} where
  consistent := .empty
  distinct := List.nodup_nil
  known _ := by simp [ApiType.Knows]
  steps _ _ hv := nomatch hv

variable {types types' : List ApiType}

/-- A type gets a node before it gets steps. -/
theorem nodeFor (h : Holds types t) (name : String) :
    Holds (types ++ [⟨name, []⟩]) (t.nodeFor (name, .supergraph)).2 where
  consistent := h.consistent.nodeFor _
  distinct := by
    rw [h.consistent.nodes_nodeFor]
    split
    · exact h.distinct
    · rename_i hnew
      exact List.nodup_append.mpr ⟨h.distinct, List.nodup_singleton _, fun a ha b hb heq =>
        hnew (List.mem_singleton.mp hb ▸ heq ▸ ha)⟩
  known subject := by
    obtain ⟨other, source⟩ := subject
    have hmem : (other, source) ∈ (t.nodeFor (name, .supergraph)).2.nodes ↔
        (other, source) ∈ t.nodes ∨ (other, source) = (name, .supergraph) := by
      rw [h.consistent.nodes_nodeFor]
      split
      · rename_i hold
        exact ⟨.inl, fun hor => hor.elim id fun heq => heq ▸ hold⟩
      · rw [List.mem_append, List.mem_singleton]
    rw [hmem, h.known, ApiType.knows_append_singleton, Prod.mk.injEq]
    constructor
    · rintro (⟨hsource, hold⟩ | ⟨rfl, hsource⟩)
      · exact ⟨hsource, .inl hold⟩
      · exact ⟨hsource, .inr (.inl rfl)⟩
    · rintro ⟨hsource, hold | rfl | ⟨step, hstep, -⟩⟩
      · exact .inl ⟨hsource, hold⟩
      · exact .inr ⟨rfl, hsource⟩
      · cases hstep
  steps v other hv := by
    have hkept := IsKeptBy.nodeFor t (name, .supergraph)
    rw [allEdges_nodeFor, h.consistent.map_written hkept, ApiType.stepsOf_append_singleton,
      ite_self, List.append_nil]
    by_cases hlt : v < t.nodes.length
    · rw [hkept.getElem?_nodes hlt] at hv
      exact h.steps v other hv
    · -- a new node stands for a type that was not known before
      have hnew : (other, NodeSource.supergraph) ∉ t.nodes := by
        rw [h.consistent.nodes_nodeFor] at hv
        split at hv
        · exact absurd (List.getElem?_eq_some_iff.mp hv).1 hlt
        · rename_i hnew
          rw [List.getElem?_append_right (Nat.not_lt.mp hlt)] at hv
          rw [← List.mem_singleton.mp (List.mem_of_getElem? hv)] at hnew
          exact hnew
      rw [h.consistent.allEdges_eq_nil (Nat.not_lt.mp hlt), ApiType.stepsOf_eq_nil]
      · rfl
      · exact fun hknows => hnew ((h.known _).mpr ⟨rfl, hknows⟩)

/-- A step between types that have nodes gets an edge, the last one at its node. -/
theorem addEdge (h : Holds types t) {name : String} {step : ApiMove} {head tail : NodeId}
    (hhead : t.nodes[head]? = some (name, .supergraph))
    (htail : t.nodes[tail]? = some (step.target, .supergraph))
    (hknown : ∀ other, ApiType.Knows types' other ↔ ApiType.Knows types other)
    (hsteps : ∀ other, ApiType.stepsOf types' other =
      ApiType.stepsOf types other ++ if name = other then [step] else []) :
    Holds types' (t.addEdge head step.move tail).2 := by
  obtain ⟨hheadLt, -⟩ := List.getElem?_eq_some_iff.mp hhead
  obtain ⟨htailLt, -⟩ := List.getElem?_eq_some_iff.mp htail
  refine ⟨h.consistent.addEdge step.move hheadLt htailLt, h.distinct, fun subject => ?_, ?_⟩
  · rw [hknown]
    exact h.known subject
  · intro v other hv
    -- the steps are those of a name, the edge stands at a node, and no two nodes have one name
    have hsame : head = v ↔ name = other := by
      rw [← List.getElem?_inj hheadLt h.distinct, hhead, show t.nodes[v]? = _ from hv,
        Option.some_inj, Prod.mk.injEq, and_iff_left rfl]
    have hnew : (t.addEdge head step.move tail).2.written ⟨step.move, tail, false⟩ =
        writtenStep step := by
      rw [written, writtenStep, show (t.addEdge head step.move tail).2.nodes[tail]? = _ from htail]
    rw [allEdges_addEdge h.consistent step.move hheadLt htailLt, List.map_append,
      h.consistent.map_written (IsKeptBy.addEdge t head step.move tail), h.steps v other hv, hsteps,
      List.map_append]
    simp only [hsame]
    congr 1
    split
    · rw [List.map_singleton, List.map_singleton, hnew]
    · rfl

/-- A step is added to the type that came last. -/
theorem addApiMove {name : String} {moves : List ApiMove} {head : NodeId}
    (h : Holds (types ++ [⟨name, moves⟩]) t) (hhead : t.nodes[head]? = some (name, .supergraph))
    (step : ApiMove) :
    Holds (types ++ [⟨name, moves ++ [step]⟩]) (t.addApiMove head step) ∧
      (t.addApiMove head step).nodes[head]? = some (name, .supergraph) := by
  obtain ⟨hlt, -⟩ := List.getElem?_eq_some_iff.mp hhead
  have hhead' := ((IsKeptBy.nodeFor t (step.target, .supergraph)).getElem?_nodes hlt).trans hhead
  refine ⟨?_, hhead'⟩
  refine (h.nodeFor step.target).addEdge hhead' (h.consistent.getElem?_nodeFor _) ?_ ?_
  · intro other
    simp only [ApiType.knows_append_singleton, List.mem_append, List.mem_singleton, or_and_right,
      exists_or, exists_eq_left, List.not_mem_nil, false_and, exists_false, or_false, or_assoc]
  · intro other
    rw [ApiType.stepsOf_append_singleton, ApiType.stepsOf_append_singleton,
      ApiType.stepsOf_append_singleton, ite_self, List.append_nil, List.append_assoc]
    split <;> rfl

/-- Steps are added to the type that came last, one after the other. -/
theorem foldl_addApiMove {name : String} {head : NodeId} (moves : List ApiMove) :
    ∀ {added t}, Holds (types ++ [⟨name, added⟩]) t → t.nodes[head]? = some (name, .supergraph) →
      Holds (types ++ [⟨name, added ++ moves⟩]) (moves.foldl (GraphTables.addApiMove head) t) := by
  induction moves with
  | nil =>
    intro added t h _
    rwa [List.append_nil]
  | cons step moves ih =>
    intro added t h hhead
    obtain ⟨hadded, hkept⟩ := h.addApiMove hhead step
    rw [List.append_cons added step moves]
    exact ih hadded hkept

theorem addApiType (h : Holds types t) (type : ApiType) :
    Holds (types ++ [type]) (t.addApiType type) :=
  foldl_addApiMove type.moves (h.nodeFor type.name) (h.consistent.getElem?_nodeFor _)

end Holds

/-- **The tables of an API hold its types and steps.** -/
theorem holds_tables (g : ApiGraph) : Holds g.types g.tables := by
  -- the tables hold the types that were added so far
  have hfold : ∀ types added t, Holds added t →
      Holds (added ++ types) (types.foldl addApiType t) := by
    intro types
    induction types with
    | nil =>
      intro added t h
      rwa [List.append_nil]
    | cons type types ih =>
      intro added t h
      rw [List.append_cons]
      exact ih _ _ (h.addApiType type)
  exact hfold g.types [] {} .empty

/-! ## Steps between nodes -/

/-- Some edge that is not ignored leads from a node to another. -/
def StepsTo (t : GraphTables) (u v : NodeId) : Prop :=
  ∃ e ∈ t.edges u, e.tail = v

/-- The node of a type of the API. -/
def apiNode? (t : GraphTables) (name : String) : Option NodeId :=
  t.byType.lookup (name, .supergraph)

/-- Edges lead from the node of a type to the node of another, one edge at least. -/
def HasPath (t : GraphTables) (a b : String) : Prop :=
  ∃ u v, t.apiNode? a = some u ∧ t.apiNode? b = some v ∧ Relation.TransGen t.StepsTo u v

namespace Holds

variable {types : List ApiType} (h : Holds types t)
include h

/-- A type has one node, if it has any. -/
theorem apiNode?_eq_some_iff {name : String} :
    t.apiNode? name = some v ↔ t.nodes[v]? = some (name, .supergraph) := by
  rw [apiNode?, h.consistent.lookup_eq_some]
  refine and_iff_left_of_imp fun hv u hu heq => ?_
  obtain ⟨hlt, -⟩ := List.getElem?_eq_some_iff.mp heq
  exact absurd ((List.getElem?_inj hlt h.distinct).mp (heq.trans hv.symm)) (Nat.ne_of_lt hu)

/-- The types with a node are those that queries get to. -/
theorem isSome_apiNode?_iff {name : String} :
    (t.apiNode? name).isSome = true ↔ ApiType.Knows types name := by
  rw [Option.isSome_iff_exists]
  simp only [h.apiNode?_eq_some_iff, ← List.mem_iff_getElem?, h.known, true_and]

/-- Edges lead from node to node as steps do from type to type. -/
theorem stepsTo_iff {name : String} (hv : t.nodes[v]? = some (name, .supergraph)) {w : NodeId} :
    t.StepsTo v w ↔
      ∃ step ∈ ApiType.stepsOf types name, t.nodes[w]? = some (step.target, .supergraph) := by
  have hwritten := h.steps v name hv
  constructor
  · rintro ⟨e, he, rfl⟩
    have hmem : t.written e ∈ (ApiType.stepsOf types name).map writtenStep :=
      hwritten ▸ List.mem_map_of_mem (List.mem_of_mem_filter he)
    obtain ⟨step, hstep, heq⟩ := List.mem_map.mp hmem
    exact ⟨step, hstep, (congrArg (fun x => x.2.2) heq).symm⟩
  · rintro ⟨step, hstep, hw⟩
    have hmem : writtenStep step ∈ (t.allEdges v).map t.written :=
      hwritten ▸ List.mem_map_of_mem hstep
    obtain ⟨e, he, heq⟩ := List.mem_map.mp hmem
    -- the edge is written like the step, so it is not ignored and leads to the node of the target
    have hactive : e.isIgnored = false := congrArg (fun x => x.2.1) heq
    have htail : t.nodes[e.tail]? = t.nodes[w]? := (congrArg (fun x => x.2.2) heq).trans hw.symm
    refine ⟨e, List.mem_filter.mpr ⟨he, by rw [hactive]; rfl⟩, ?_⟩
    exact (List.getElem?_inj (h.consistent.tail_lt he) h.distinct).mp htail

/-- A step starts at a type with a node and leads to one. -/
theorem exists_stepsTo {a b : String} (hstep : ApiType.Leads types a b) :
    (∃ v : NodeId, t.nodes[v]? = some (a, .supergraph)) ∧
      ∀ v : NodeId, t.nodes[v]? = some (a, .supergraph) →
        ∃ w : NodeId, t.nodes[w]? = some (b, .supergraph) ∧ t.StepsTo v w := by
  obtain ⟨step, hstep, rfl⟩ := hstep
  obtain ⟨type, htype, hname, hmoves⟩ := ApiType.mem_stepsOf.mp hstep
  have hnode : ∀ name, ApiType.Knows types name →
      ∃ v : NodeId, t.nodes[v]? = some (name, .supergraph) :=
    fun name hknows => List.mem_iff_getElem?.mp ((h.known _).mpr ⟨rfl, hknows⟩)
  refine ⟨hnode a ⟨type, htype, .inl hname⟩, fun v hv => ?_⟩
  obtain ⟨w, hw⟩ := hnode step.target ⟨type, htype, .inr ⟨step, hmoves, rfl⟩⟩
  exact ⟨w, hw, (h.stepsTo_iff hv).mpr ⟨step, hstep, hw⟩⟩

/-- **Queries get from a type to another exactly if edges lead from node to node.** -/
theorem hasPath_iff {a b : String} :
    t.HasPath a b ↔ Relation.TransGen (ApiType.Leads types) a b := by
  constructor
  · rintro ⟨u, v, hu, hv, hpath⟩
    rw [h.apiNode?_eq_some_iff] at hu hv
    -- each node on the path stands for a type that queries get to
    have hnamed : ∃ name, t.nodes[v]? = some (name, .supergraph) ∧
        Relation.TransGen (ApiType.Leads types) a name := by
      clear hv
      induction hpath with
      | single hstep =>
        obtain ⟨step, hstep, hw⟩ := (h.stepsTo_iff hu).mp hstep
        exact ⟨step.target, hw, .single ⟨step, hstep, rfl⟩⟩
      | tail _ hlast ih =>
        obtain ⟨name, hname, hleads⟩ := ih
        obtain ⟨step, hstep, hw⟩ := (h.stepsTo_iff hname).mp hlast
        exact ⟨step.target, hw, hleads.tail ⟨step, hstep, rfl⟩⟩
    obtain ⟨name, hname, hleads⟩ := hnamed
    obtain rfl := (Prod.mk.inj (Option.some.inj (hname.symm.trans hv))).1
    exact hleads
  · intro hleads
    simp only [HasPath, h.apiNode?_eq_some_iff]
    induction hleads with
    | single hstep =>
      obtain ⟨⟨u, hu⟩, hnext⟩ := h.exists_stepsTo hstep
      obtain ⟨v, hv, hedge⟩ := hnext u hu
      exact ⟨u, v, hu, hv, .single hedge⟩
    | tail _ hlast ih =>
      obtain ⟨u, v, hu, hv, hpath⟩ := ih
      obtain ⟨w, hw, hedge⟩ := (h.exists_stepsTo hlast).2 v hv
      exact ⟨u, w, hu, hw, hpath.tail hedge⟩

end Holds

end GraphTables

/-! ## Searching the tables -/

namespace GraphTables

open Reachability

/-- The node stands for a type of the name. -/
def isNamed (t : GraphTables) (name : String) (v : NodeId) : Bool :=
  (t.nodes[v]?).any fun subject => subject.1 == name

/-- Discovers the nodes that some edges lead to, unless one of them stands for the target. -/
def followEdges (t : GraphTables) (target : String) :
    List Edge → Frontier NodeId → Option (Frontier NodeId)
  | [], f => some f
  | e :: rest, f =>
    if t.isNamed target e.tail then none else t.followEdges target rest (f.discover e.tail)

variable {t : GraphTables} {target : String}

theorem followEdges_eq (edges : List Edge) (f : Frontier NodeId) :
    t.followEdges target edges f =
      if edges.any (fun e => t.isNamed target e.tail) then none
      else some ((edges.map Edge.tail).foldl Frontier.discover f) := by
  induction edges generalizing f with
  | nil => rfl
  | cons e rest ih =>
    rw [followEdges, ih, List.any_cons, List.map_cons, List.foldl_cons]
    cases t.isNamed target e.tail <;> rfl

/-- What waits, or was not seen yet, stays as much until the target is found. -/
theorem size_followEdges {edges : List Edge} {f f' : Frontier NodeId}
    (h : t.followEdges target edges f = some f') : f'.size = f.size := by
  rw [followEdges_eq] at h
  split at h
  · cases h
  · rw [← Option.some.inj h, Frontier.size_foldl_discover]

/-- Some edge leads to the target, from the nodes in the queue or from those found after them. -/
def searchFrom (t : GraphTables) (target : String) (queue unseen : List NodeId) : Bool :=
  match queue with
  | [] => false
  | v :: rest =>
    match _found : t.followEdges target (t.edges v) { queue := rest, unseen } with
    | none => true
    | some f => t.searchFrom target f.queue f.unseen
termination_by queue.length + unseen.length
decreasing_by
  have := size_followEdges _found
  simp only [Frontier.size] at this
  simp only [List.length_cons]
  omega

/-- Queries get from a type to another. -/
def search (t : GraphTables) (start target : String) : Bool :=
  if start = target then true
  else
    match t.apiNode? start with
    | none => false
    | some v => t.searchFrom target [v] ((List.range t.nodes.length).filter fun u => u ∉ [v])

/-- The nodes that the edges of a node lead to. -/
def successors (t : GraphTables) (v : NodeId) : List NodeId :=
  (t.edges v).map Edge.tail

/-- Some edge of the node leads to the target. -/
def leadsOnTo (t : GraphTables) (target : String) (v : NodeId) : Bool :=
  (t.edges v).any fun e => t.isNamed target e.tail

/-- That the search ends early takes nothing away from it. -/
theorem searchFrom_eq (queue unseen : List NodeId) :
    t.searchFrom target queue unseen =
      (explore t.successors queue unseen).any (t.leadsOnTo target) := by
  fun_induction searchFrom t target queue unseen with
  | case1 unseen => rw [explore, List.any_nil]
  | case2 unseen v rest h =>
    rw [followEdges_eq] at h
    split at h
    · rename_i hfound
      rw [explore, List.any_cons, leadsOnTo, hfound, Bool.true_or]
    · cases h
  | case3 unseen v rest f h ih =>
    rw [followEdges_eq] at h
    split at h
    · cases h
    · -- no edge leads to the target, so all of them are followed, as in the full search
      rename_i hnot
      have hnext : leadsOnTo t target v = false := Bool.eq_false_iff.mpr hnot
      obtain rfl := Option.some.inj h
      rw [explore, List.any_cons, hnext, Bool.false_or, ih]
      rfl

namespace Holds

variable {types : List ApiType} (h : Holds types t)
include h

theorem isNamed_iff {name : String} {v : NodeId} :
    t.isNamed name v = true ↔ t.apiNode? name = some v := by
  rw [h.apiNode?_eq_some_iff, isNamed, Option.any_eq_true]
  constructor
  · rintro ⟨⟨other, source⟩, hv, hname⟩
    obtain rfl : other = name := eq_of_beq hname
    obtain rfl : source = .supergraph := ((h.known _).mp (List.mem_of_getElem? hv)).1
    exact hv
  · intro hv
    exact ⟨_, hv, beq_self_eq_true name⟩

theorem leadsOnTo_iff {v : NodeId} :
    t.leadsOnTo target v = true ↔ ∃ w, t.apiNode? target = some w ∧ t.StepsTo v w := by
  simp only [leadsOnTo, List.any_eq_true, h.isNamed_iff, StepsTo]
  constructor
  · rintro ⟨e, he, hnode⟩
    exact ⟨e.tail, hnode, e, he, rfl⟩
  · rintro ⟨_, hnode, e, he, rfl⟩
    exact ⟨e, he, hnode⟩

/-- A step among the numbers of the nodes is a step along an edge. -/
theorem step_eq : Step t.successors (List.range t.nodes.length) = t.StepsTo := by
  funext v w
  refine propext ⟨fun hstep => List.mem_map.mp hstep.1, fun hstep => ?_⟩
  obtain ⟨e, he, rfl⟩ := hstep
  refine ⟨List.mem_map_of_mem he, List.mem_range.mpr ?_⟩
  exact h.consistent.tail_lt (List.mem_of_mem_filter he)

/-- **The search is right.** It finds a path if and only if there is one. -/
theorem search_iff {start : String} :
    t.search start target = true ↔ start = target ∨ t.HasPath start target := by
  rw [search]
  split
  · rename_i heq
    exact iff_of_true rfl (.inl heq)
  rename_i hne
  rw [or_iff_right hne, HasPath]
  cases hnode : t.apiNode? start with
  | none => simp
  | some u =>
    have hfound : ∀ v, v ∈ Reachability.closure (List.range t.nodes.length) t.successors [u] ↔
        Relation.ReflTransGen t.StepsTo u v := by
      intro v
      rw [Reachability.mem_closure_iff, Reaches, h.step_eq]
      simp only [List.mem_singleton, exists_eq_left]
    have heq : t.searchFrom target [u] ((List.range t.nodes.length).filter fun w => w ∉ [u]) =
        (Reachability.closure (List.range t.nodes.length) t.successors [u]).any
          (t.leadsOnTo target) :=
      searchFrom_eq _ _
    dsimp only
    rw [heq]
    simp only [List.any_eq_true, hfound, h.leadsOnTo_iff, Option.some_inj]
    constructor
    · -- the search looks one edge ahead of the nodes that it finds
      rintro ⟨v, hpath, w, hw, hlast⟩
      exact ⟨u, w, rfl, hw, .tail' hpath hlast⟩
    · rintro ⟨_, w, rfl, hw, hpath⟩
      obtain ⟨v, hpath, hlast⟩ := Relation.TransGen.tail'_iff.mp hpath
      exact ⟨v, hpath, w, hw, hlast⟩

end Holds

end GraphTables

/-! ## Keeping the answers -/

/-- The tables of an API, with the answers that were given. -/
structure ApiView where
  tables : GraphTables
  answers : List ((String × String) × Bool) := []

/-- The view of an API when nothing was asked yet. -/
def ApiGraph.view (g : ApiGraph) : ApiView where
  tables := g.tables

namespace ApiView

/-- Asks whether queries get from a type to another. The search is made for new questions only. -/
def leadsTo (view : ApiView) (start target : String) : Bool × ApiView :=
  match view.answers.lookup (start, target) with
  | some answer => (answer, view)
  | none =>
    let answer := view.tables.search start target
    (answer, { view with answers := ((start, target), answer) :: view.answers })

/-- Asks questions, one after the other. -/
def askAll (view : ApiView) : List (String × String) → List Bool × ApiView
  | [] => ([], view)
  | (start, target) :: rest =>
    let (answer, view) := view.leadsTo start target
    let (answers, view) := view.askAll rest
    (answer :: answers, view)

/-- The view has the tables, and what it keeps are answers of the search. -/
structure Remembers (view : ApiView) (t : GraphTables) : Prop where
  tables : view.tables = t
  answers : ∀ question answer, (question, answer) ∈ view.answers →
    answer = t.search question.1 question.2

namespace Remembers

variable {view : ApiView} {t : GraphTables}

/-- Every answer is that of a search, and what is kept stays so. -/
theorem leadsTo (h : view.Remembers t) (start target : String) :
    (view.leadsTo start target).1 = t.search start target ∧
      (view.leadsTo start target).2.Remembers t := by
  unfold ApiView.leadsTo
  split
  · rename_i answer hfound
    obtain ⟨before, after, heq, -⟩ := List.lookup_eq_some_iff.mp hfound
    have hmem : ((start, target), answer) ∈ view.answers := by
      rw [heq]
      exact List.mem_append_right _ List.mem_cons_self
    exact ⟨h.answers _ _ hmem, h⟩
  · refine ⟨by rw [h.tables], h.tables, fun question answer hmem => ?_⟩
    rcases List.mem_cons.mp hmem with heq | hold
    · obtain ⟨rfl, rfl⟩ := Prod.mk.inj heq
      rw [h.tables]
    · exact h.answers question answer hold

/-- All answers are those of searches, whatever was asked before. -/
theorem askAll (h : view.Remembers t) (questions : List (String × String)) :
    (view.askAll questions).1 = questions.map (fun q => t.search q.1 q.2) ∧
      (view.askAll questions).2.Remembers t := by
  induction questions generalizing view with
  | nil => exact ⟨rfl, h⟩
  | cons question rest ih =>
    obtain ⟨hanswer, hnext⟩ := h.leadsTo question.1 question.2
    obtain ⟨hanswers, hlast⟩ := ih hnext
    exact ⟨congrArg₂ List.cons hanswer hanswers, hlast⟩

end Remembers

end ApiView

/-- Nothing is kept at first. -/
theorem ApiGraph.remembers_view (g : ApiGraph) : g.view.Remembers g.tables where
  tables := rfl
  answers _ _ h := nomatch h

end Federation
