import Federation.QueryGraph.Basic
import Mathlib.Data.List.Nodup
import Mathlib.Logic.Relation

/-!
# Graphs in tables

A query graph can be kept in four tables: the nodes, the edges with the nodes that they leave, the
numbers of the edges that leave each node, and the first node of each type in a source. Calls that
name only nodes and edges that are there keep the tables consistent. A call changes the edges of one
node at most, so a node and its copy go their own ways.
-/

namespace Federation

/-! ## Tables and calls -/

/-- Where the values of a node are: in a subgraph, or in the supergraph. -/
inductive NodeSource where
  | subgraph (id : SubgraphId)
  | supergraph
deriving DecidableEq

/-- An edge with the node that it leaves. -/
structure EdgeRow where
  head : NodeId
  edge : Edge

/-- The tables of a query graph. Nodes and edges go by their numbers. -/
structure GraphTables where
  /-- The type and the source of each node. -/
  nodes : List (String × NodeSource) := []
  rows : List EdgeRow := []
  /-- The numbers of the edges that leave each node. -/
  outgoing : List (List Nat) := []
  /-- The first node of each type in a source. -/
  byType : List ((String × NodeSource) × NodeId) := []

namespace GraphTables

/-- Adds a node without edges. -/
def pushNode (t : GraphTables) (subject : String × NodeSource) : NodeId × GraphTables :=
  (t.nodes.length, { t with nodes := t.nodes ++ [subject], outgoing := t.outgoing ++ [[]] })

/-- The node of a type in a source, which is added on first use. -/
def nodeFor (t : GraphTables) (subject : String × NodeSource) : NodeId × GraphTables :=
  match t.byType.lookup subject with
  | some v => (v, t)
  | none =>
    let (v, t) := t.pushNode subject
    (v, { t with byType := (subject, v) :: t.byType })

/-- Adds an edge to a node. -/
def addEdge (t : GraphTables) (head : NodeId) (move : Move) (tail : NodeId) : Nat × GraphTables :=
  let number := t.rows.length
  (number, { t with
    rows := t.rows ++ [{ head, edge := { move, tail } }]
    outgoing := t.outgoing.modify head (· ++ [number]) })

/-- Changes the edge of a number. -/
def changeEdge (t : GraphTables) (number : Nat) (f : Edge → Edge) : GraphTables :=
  { t with rows := t.rows.modify number fun row => { row with edge := f row.edge } }

/-- From now on the edge is ignored. -/
def ignoreEdge (t : GraphTables) (number : Nat) : GraphTables :=
  t.changeEdge number fun edge => { edge with isIgnored := true }

/-- Lets an edge lead to another node. -/
def setEdgeTail (t : GraphTables) (number : Nat) (tail : NodeId) : GraphTables :=
  t.changeEdge number fun edge => { edge with tail }

/-- The numbers of the edges that leave a node. -/
def numbersAt (t : GraphTables) (v : NodeId) : List Nat :=
  (t.outgoing[v]?).getD []

/-- The edge of a number. -/
def edgeAt? (t : GraphTables) (number : Nat) : Option Edge :=
  (t.rows[number]?).map EdgeRow.edge

/-- All edges that leave a node. -/
def allEdges (t : GraphTables) (v : NodeId) : List Edge :=
  (t.numbersAt v).filterMap t.edgeAt?

/-- The edges that leave a node and are not ignored. -/
def edges (t : GraphTables) (v : NodeId) : List Edge :=
  (t.allEdges v).filter fun e => !e.isIgnored

/-- Adds edges to a node, one after the other. -/
def addEdges (t : GraphTables) (head : NodeId) (edges : List Edge) : GraphTables :=
  edges.foldl (fun t e => (t.addEdge head e.move e.tail).2) t

/-- Adds a copy of a node, with copies of its edges that are not ignored. -/
def duplicateNode (t : GraphTables) (v : NodeId) : NodeId × GraphTables :=
  match t.nodes[v]? with
  | some subject =>
    let (copy, t) := t.pushNode subject
    (copy, t.addEdges copy (t.edges v))
  | none => (v, t)

end GraphTables

/-- A call that builds a graph. Nodes and edges go by the numbers that earlier calls returned. -/
inductive GraphCall where
  | nodeFor (typeName : String) (source : NodeSource)
  | addEdge (head : NodeId) (move : Move) (tail : NodeId)
  | ignoreEdge (number : Nat)
  | setEdgeTail (number : Nat) (tail : NodeId)
  | duplicateNode (node : NodeId)

/-- The call names only nodes and edges among so many. -/
def GraphCall.namesAmong (nodes edges : Nat) : GraphCall → Bool
  | .nodeFor _ _ => true
  | .addEdge head _ tail => decide (head < nodes) && decide (tail < nodes)
  | .ignoreEdge number => decide (number < edges)
  | .setEdgeTail number tail => decide (number < edges) && decide (tail < nodes)
  | .duplicateNode node => decide (node < nodes)

theorem GraphCall.namesAmong_addEdge {nodes edges : Nat} {head tail : NodeId} {move : Move} :
    (addEdge head move tail).namesAmong nodes edges = true ↔ head < nodes ∧ tail < nodes := by
  rw [namesAmong, Bool.and_eq_true, decide_eq_true_iff, decide_eq_true_iff]

theorem GraphCall.namesAmong_setEdgeTail {nodes edges number : Nat} {tail : NodeId} :
    (setEdgeTail number tail).namesAmong nodes edges = true ↔ number < edges ∧ tail < nodes := by
  rw [namesAmong, Bool.and_eq_true, decide_eq_true_iff, decide_eq_true_iff]

/-- The node whose edges a call changes, among the nodes that are there. -/
def GraphCall.changed? (t : GraphTables) : GraphCall → Option NodeId
  | .addEdge head _ _ => some head
  | .ignoreEdge number | .setEdgeTail number _ => (t.rows[number]?).map EdgeRow.head
  | .nodeFor _ _ | .duplicateNode _ => none

namespace GraphTables

/-- The tables after a call. -/
def after (t : GraphTables) : GraphCall → GraphTables
  | .nodeFor typeName source => (t.nodeFor (typeName, source)).2
  | .addEdge head move tail => (t.addEdge head move tail).2
  | .ignoreEdge number => t.ignoreEdge number
  | .setEdgeTail number tail => t.setEdgeTail number tail
  | .duplicateNode node => (t.duplicateNode node).2

/-- The tables after a call that names only nodes and edges that are there. -/
def call? (t : GraphTables) (call : GraphCall) : Option GraphTables :=
  if call.namesAmong t.nodes.length t.rows.length then some (t.after call) else none

/-- The tables after calls that name only nodes and edges that are there. -/
def run? (t : GraphTables) (calls : List GraphCall) : Option GraphTables :=
  calls.foldlM call? t

/-- A call leads to later tables and does not change the edges of a node. -/
def StepsBeside (v : NodeId) (t t' : GraphTables) : Prop :=
  ∃ call, t.call? call = some t' ∧ call.changed? t ≠ some v

end GraphTables

/-! ## Numbers of edges -/

/-- The numbers of the rows of a node, in increasing order. -/
def EdgeRow.numbersOf (rows : List EdgeRow) (v : NodeId) : List Nat :=
  (List.range rows.length).filter fun number => (rows[number]?).any fun row => row.head == v

namespace EdgeRow

/-- The node that the edge leaves, and its move. -/
def origin (row : EdgeRow) : NodeId × Move :=
  (row.head, row.edge.move)

variable {rows : List EdgeRow} {v : NodeId}

theorem mem_numbersOf {number : Nat} :
    number ∈ numbersOf rows v ↔ ∃ row, rows[number]? = some row ∧ row.head = v := by
  rw [numbersOf, List.mem_filter, List.mem_range, Option.any_eq_true]
  simp only [beq_iff_eq]
  constructor
  · exact And.right
  · rintro ⟨row, hrow, hhead⟩
    exact ⟨(List.getElem?_eq_some_iff.mp hrow).1, row, hrow, hhead⟩

theorem nodup_numbersOf (rows : List EdgeRow) (v : NodeId) : (numbersOf rows v).Nodup :=
  List.nodup_range.filter _

/-- No row is of a node that all rows lack. -/
theorem numbersOf_eq_nil (h : ∀ row ∈ rows, row.head ≠ v) : numbersOf rows v = [] := by
  refine List.eq_nil_iff_forall_not_mem.mpr fun number hnumber => ?_
  obtain ⟨row, hrow, hhead⟩ := mem_numbersOf.mp hnumber
  exact h row (List.mem_of_getElem? hrow) hhead

/-- The number of a new row comes last. -/
theorem numbersOf_append (rows : List EdgeRow) (row : EdgeRow) (v : NodeId) :
    numbersOf (rows ++ [row]) v =
      numbersOf rows v ++ if row.head = v then [rows.length] else [] := by
  have hold : ∀ number ∈ List.range rows.length,
      (((rows ++ [row])[number]?).any fun row => row.head == v) =
        (rows[number]?).any fun row => row.head == v := by
    intro number hnumber
    rw [List.getElem?_append_left (List.mem_range.mp hnumber)]
  rw [numbersOf, List.length_append, List.length_singleton, List.range_succ, List.filter_append,
    List.filter_congr hold, List.filter_singleton, List.getElem?_concat_length]
  by_cases hhead : row.head = v
  · simp [numbersOf, hhead]
  · simp [numbersOf, hhead, beq_false_of_ne hhead]

/-- Changes of rows that keep their nodes keep the numbers. -/
theorem numbersOf_congr {rows' : List EdgeRow}
    (h : rows'.map EdgeRow.head = rows.map EdgeRow.head) (v : NodeId) :
    numbersOf rows' v = numbersOf rows v := by
  have hlength : rows'.length = rows.length := by
    simpa using congrArg List.length h
  rw [numbersOf, numbersOf, hlength]
  refine List.filter_congr fun number _ => ?_
  have hhead : (rows'[number]?).map EdgeRow.head = (rows[number]?).map EdgeRow.head := by
    rw [← List.getElem?_map, ← List.getElem?_map, h]
  have hany : ∀ row? : Option EdgeRow,
      (row?.any fun row => row.head == v) = (row?.map EdgeRow.head).any (· == v) := by
    intro row?
    cases row? <;> rfl
  rw [hany, hany, hhead]

end EdgeRow

namespace GraphTables

variable {t t' t'' : GraphTables} {u v : NodeId}

/-! ## Single steps -/

theorem numbersAt_pushNode (t : GraphTables) (subject : String × NodeSource) (v : NodeId) :
    (t.pushNode subject).2.numbersAt v = t.numbersAt v := by
  show ((t.outgoing ++ [[]])[v]?).getD [] = _
  rw [List.getElem?_append, numbersAt]
  split
  · rfl
  · rename_i hv
    rw [List.getElem?_eq_none (Nat.not_lt.mp hv)]
    cases v - t.outgoing.length <;> rfl

/-- Nodes are added without edges. -/
theorem allEdges_pushNode (t : GraphTables) (subject : String × NodeSource) (v : NodeId) :
    (t.pushNode subject).2.allEdges v = t.allEdges v := by
  rw [allEdges, numbersAt_pushNode]
  rfl

theorem edges_pushNode (t : GraphTables) (subject : String × NodeSource) (v : NodeId) :
    (t.pushNode subject).2.edges v = t.edges v := by
  rw [edges, allEdges_pushNode, edges]

theorem lt_length_pushNode (t : GraphTables) (subject : String × NodeSource) :
    t.nodes.length < (t.pushNode subject).2.nodes.length := by
  simp [pushNode]

@[simp] theorem nodes_addEdges (head : NodeId) (edges : List Edge) :
    (t.addEdges head edges).nodes = t.nodes := by
  induction edges generalizing t with
  | nil => rfl
  | cons e others ih => exact ih

theorem length_rows_addEdge (t : GraphTables) (head : NodeId) (move : Move) (tail : NodeId) :
    (t.addEdge head move tail).2.rows.length = t.rows.length + 1 :=
  List.length_append

theorem length_rows_addEdges (head : NodeId) (edges : List Edge) :
    (t.addEdges head edges).rows.length = t.rows.length + edges.length := by
  induction edges generalizing t with
  | nil => rfl
  | cons e others ih =>
    show ((t.addEdge head e.move e.tail).2.addEdges head others).rows.length = _
    rw [ih, length_rows_addEdge, List.length_cons]
    omega

/-- A copy is a new node with the edges that are not ignored. -/
theorem duplicateNode_eq {subject : String × NodeSource} (hv : t.nodes[v]? = some subject) :
    t.duplicateNode v =
      (t.nodes.length, (t.pushNode subject).2.addEdges t.nodes.length (t.edges v)) := by
  rw [← t.edges_pushNode subject v]
  unfold duplicateNode
  rw [hv]
  rfl

theorem nodes_duplicateNode {subject : String × NodeSource} (hv : t.nodes[v]? = some subject) :
    (t.duplicateNode v).2.nodes = t.nodes ++ [subject] := by
  rw [duplicateNode_eq hv, nodes_addEdges]
  rfl

theorem nodeFor_of_some {subject : String × NodeSource} (h : t.byType.lookup subject = some v) :
    t.nodeFor subject = (v, t) := by
  rw [nodeFor, h]

theorem nodeFor_of_none {subject : String × NodeSource} (h : t.byType.lookup subject = none) :
    t.nodeFor subject =
      (t.nodes.length,
        { (t.pushNode subject).2 with byType := (subject, t.nodes.length) :: t.byType }) := by
  rw [nodeFor, h]
  rfl

/-- From then on the node is found by its type. -/
theorem lookup_nodeFor (t : GraphTables) (subject : String × NodeSource) :
    (t.nodeFor subject).2.byType.lookup subject = some (t.nodeFor subject).1 := by
  cases hfound : t.byType.lookup subject with
  | some v => rw [nodeFor_of_some hfound, hfound]
  | none =>
    rw [nodeFor_of_none hfound]
    exact List.lookup_cons_self

theorem getElem?_changeEdge (t : GraphTables) (number : Nat) (f : Edge → Edge) (k : Nat) :
    (t.changeEdge number f).rows[k]? =
      (t.rows[k]?).map fun row => if number = k then { row with edge := f row.edge } else row :=
  List.getElem?_modify _ number t.rows k

/-- What a change of an edge keeps stays the same in all rows. -/
theorem map_changeEdge {α : Type} (t : GraphTables) (number : Nat) {f : Edge → Edge}
    {part : EdgeRow → α} (hpart : ∀ row, part { row with edge := f row.edge } = part row) :
    (t.changeEdge number f).rows.map part = t.rows.map part := by
  refine List.ext_getElem? fun k => ?_
  rw [List.getElem?_map, List.getElem?_map, getElem?_changeEdge, Option.map_map]
  refine Option.map_congr fun row _ => ?_
  rw [Function.comp_apply]
  split
  · exact hpart row
  · rfl

theorem call?_eq_some {call : GraphCall} :
    t.call? call = some t' ↔
      call.namesAmong t.nodes.length t.rows.length = true ∧ t.after call = t' := by
  rw [call?, Option.ite_none_right_eq_some, Option.some_inj]

/-- What calls keep holds after them. -/
theorem of_run? {P : GraphTables → Prop}
    (hcall : ∀ t t' call, P t → t.call? call = some t' → P t') {calls : List GraphCall}
    (h : P t) (hrun : t.run? calls = some t') : P t' := by
  induction calls generalizing t with
  | nil => exact Option.some_inj.mp hrun ▸ h
  | cons call others ih =>
    obtain ⟨next, hnext, hrun⟩ := Option.bind_eq_some_iff.mp hrun
    exact ih (hcall t next call h hnext) hrun

/-! ## Consistency -/

/-- The numbers at a node are those of its edges in increasing order, edges leave and reach nodes
that are there, and the node of a type in a source is the first one. -/
structure IsConsistent (t : GraphTables) : Prop where
  outgoing : t.outgoing = (List.range t.nodes.length).map (EdgeRow.numbersOf t.rows)
  ends : ∀ row ∈ t.rows, row.head < t.nodes.length ∧ row.edge.tail < t.nodes.length
  byType : ∀ subject, t.byType.lookup subject = t.nodes.findIdx? (· == subject)

namespace IsConsistent

theorem empty : IsConsistent {} where
  outgoing := rfl
  ends _ hrow := nomatch hrow
  byType _ := rfl

theorem numbersOf_eq_nil (h : t.IsConsistent) (hv : t.nodes.length ≤ v) :
    EdgeRow.numbersOf t.rows v = [] :=
  EdgeRow.numbersOf_eq_nil fun row hrow heq => Nat.not_lt.mpr hv (heq ▸ (h.ends row hrow).1)

theorem numbersAt_eq (h : t.IsConsistent) (v : NodeId) :
    t.numbersAt v = EdgeRow.numbersOf t.rows v := by
  rw [numbersAt, h.outgoing, List.getElem?_map]
  by_cases hv : v < t.nodes.length
  · rw [List.getElem?_range hv]
    rfl
  · rw [List.getElem?_eq_none (by simpa using hv), h.numbersOf_eq_nil (Nat.not_lt.mp hv)]
    rfl

/-- A node without edges keeps the tables consistent if the first nodes are those of its new
table. -/
theorem pushNode (h : t.IsConsistent) (subject : String × NodeSource)
    {byType : List ((String × NodeSource) × NodeId)}
    (hbyType : ∀ other, byType.lookup other = (t.nodes ++ [subject]).findIdx? (· == other)) :
    IsConsistent { (t.pushNode subject).2 with byType } where
  outgoing := by
    show t.outgoing ++ [[]] =
      (List.range (t.nodes ++ [subject]).length).map (EdgeRow.numbersOf t.rows)
    rw [h.outgoing, List.length_append, List.length_singleton, List.range_succ, List.map_append,
      List.map_singleton, h.numbersOf_eq_nil (Nat.le_refl _)]
  ends row hrow := by
    obtain ⟨hhead, htail⟩ := h.ends row hrow
    show _ < (t.nodes ++ [subject]).length ∧ _ < (t.nodes ++ [subject]).length
    rw [List.length_append]
    exact ⟨Nat.lt_add_right _ hhead, Nat.lt_add_right _ htail⟩
  byType := hbyType

/-- The node of a type in a source is the first one, also when it is new. -/
theorem nodeFor (h : t.IsConsistent) (subject : String × NodeSource) :
    (t.nodeFor subject).2.IsConsistent := by
  cases hfound : t.byType.lookup subject with
  | some v =>
    rw [nodeFor_of_some hfound]
    exact h
  | none =>
    rw [nodeFor_of_none hfound]
    refine h.pushNode subject fun other => ?_
    rw [List.lookup_cons, List.findIdx?_append, ← h.byType other]
    by_cases hother : other = subject
    · rw [hother, hfound]
      simp
    · rw [beq_false_of_ne hother]
      simp [Ne.symm hother]

/-- The number of a new edge comes last at its node. -/
theorem addEdge (h : t.IsConsistent) {head : NodeId} (move : Move) {tail : NodeId}
    (hhead : head < t.nodes.length) (htail : tail < t.nodes.length) :
    (t.addEdge head move tail).2.IsConsistent where
  outgoing := by
    refine List.ext_getElem? fun v => ?_
    show (t.outgoing.modify head _)[v]? =
      ((List.range t.nodes.length).map (EdgeRow.numbersOf (t.rows ++ [_])))[v]?
    rw [List.getElem?_modify, h.outgoing, List.getElem?_map, List.getElem?_map, Option.map_eq_map,
      Option.map_map]
    refine Option.map_congr fun v' hv' => ?_
    obtain rfl : v = v' := by simpa using (List.getElem?_eq_some_iff.mp hv').2
    rw [Function.comp_apply, EdgeRow.numbersOf_append]
    split <;> simp
  ends row hrow := by
    rcases List.mem_append.mp hrow with hold | hnew
    · exact h.ends row hold
    · rw [List.mem_singleton.mp hnew]
      exact ⟨hhead, htail⟩
  byType := h.byType

/-- Edges may change where they lead, but not the node that they leave. -/
theorem changeEdge (h : t.IsConsistent) (number : Nat) (f : Edge → Edge)
    (hf : ∀ edge, edge.tail < t.nodes.length → (f edge).tail < t.nodes.length) :
    (t.changeEdge number f).IsConsistent where
  outgoing := by
    rw [funext (EdgeRow.numbersOf_congr (t.map_changeEdge number fun _ => rfl))]
    exact h.outgoing
  ends row hrow := by
    obtain ⟨k, hk⟩ := List.mem_iff_getElem?.mp hrow
    rw [getElem?_changeEdge, Option.map_eq_some_iff] at hk
    obtain ⟨old, hold, rfl⟩ := hk
    obtain ⟨hhead, htail⟩ := h.ends old (List.mem_of_getElem? hold)
    split
    · exact ⟨hhead, hf _ htail⟩
    · exact ⟨hhead, htail⟩
  byType := h.byType

theorem addEdges (h : t.IsConsistent) {head : NodeId} {edges : List Edge}
    (hhead : head < t.nodes.length) (htails : ∀ e ∈ edges, e.tail < t.nodes.length) :
    (t.addEdges head edges).IsConsistent := by
  induction edges generalizing t with
  | nil => exact h
  | cons e others ih =>
    obtain ⟨htail, htails⟩ := List.forall_mem_cons.mp htails
    exact ih (h.addEdge e.move hhead htail) hhead htails

/-- All edges at a node lead to nodes that are there. -/
theorem tail_lt (h : t.IsConsistent) {e : Edge} (he : e ∈ t.allEdges v) :
    e.tail < t.nodes.length := by
  obtain ⟨number, -, hnumber⟩ := List.mem_filterMap.mp he
  obtain ⟨row, hrow, rfl⟩ := Option.map_eq_some_iff.mp hnumber
  exact (h.ends row (List.mem_of_getElem? hrow)).2

theorem tail_lt_pushNode (h : t.IsConsistent) (subject : String × NodeSource) :
    ∀ e ∈ t.edges v, e.tail < (t.pushNode subject).2.nodes.length := fun _ he =>
  Nat.lt_trans (h.tail_lt (List.mem_filter.mp he).1) (lt_length_pushNode t subject)

/-- A copy has no place in the table of first nodes, as the node that is copied comes before it. -/
theorem pushCopy (h : t.IsConsistent) {subject : String × NodeSource}
    (hv : t.nodes[v]? = some subject) : (t.pushNode subject).2.IsConsistent := by
  refine h.pushNode subject fun other => ?_
  rw [h.byType other, List.findIdx?_append]
  -- the search for the type of the copy ends before it comes to the copy
  by_cases hother : subject = other
  · have hfound : (t.nodes.findIdx? (· == other)).isSome = true := by
      rw [List.findIdx?_isSome, List.any_eq_true]
      exact ⟨subject, List.mem_of_getElem? hv, beq_iff_eq.mpr hother⟩
    obtain ⟨first, hfirst⟩ := Option.isSome_iff_exists.mp hfound
    rw [hfirst]
    rfl
  · rw [List.findIdx?_singleton, beq_false_of_ne hother]
    simp

theorem duplicateNode (h : t.IsConsistent) (hv : v < t.nodes.length) :
    (t.duplicateNode v).2.IsConsistent := by
  have hsubject := List.getElem?_eq_getElem hv
  rw [duplicateNode_eq hsubject]
  exact (h.pushCopy hsubject).addEdges (lt_length_pushNode _ _) (h.tail_lt_pushNode _)

/-- Every call that names only nodes and edges that are there keeps the tables consistent. -/
theorem call? (h : t.IsConsistent) {call : GraphCall} (hcall : t.call? call = some t') :
    t'.IsConsistent := by
  obtain ⟨hnames, rfl⟩ := call?_eq_some.mp hcall
  cases call with
  | nodeFor typeName source => exact h.nodeFor _
  | addEdge head move tail =>
    obtain ⟨hhead, htail⟩ := GraphCall.namesAmong_addEdge.mp hnames
    exact h.addEdge move hhead htail
  | ignoreEdge number =>
    exact h.changeEdge number (fun edge => { edge with isIgnored := true }) fun _ htail => htail
  | setEdgeTail number tail =>
    have htail := (GraphCall.namesAmong_setEdgeTail.mp hnames).2
    exact h.changeEdge number (fun edge => { edge with tail }) fun _ _ => htail
  | duplicateNode node => exact h.duplicateNode (of_decide_eq_true hnames)

theorem run? (h : t.IsConsistent) {calls : List GraphCall} (hrun : t.run? calls = some t') :
    t'.IsConsistent :=
  of_run? (fun _ _ _ h hcall => h.call? hcall) h hrun

/-- The node that the table of first nodes has for a type in a source is the first one. -/
theorem lookup_eq_some (h : t.IsConsistent) {subject : String × NodeSource} :
    t.byType.lookup subject = some v ↔
      t.nodes[v]? = some subject ∧ ∀ u < v, t.nodes[u]? ≠ some subject := by
  rw [h.byType, List.findIdx?_eq_some_iff_getElem]
  simp only [beq_iff_eq]
  constructor
  · rintro ⟨hv, hsubject, hbefore⟩
    refine ⟨List.getElem?_eq_some_iff.mpr ⟨hv, hsubject⟩, fun u hu heq => ?_⟩
    exact hbefore u hu (List.getElem?_eq_some_iff.mp heq).2
  · rintro ⟨hv, hbefore⟩
    obtain ⟨hlt, hsubject⟩ := List.getElem?_eq_some_iff.mp hv
    refine ⟨hlt, hsubject, fun u hu heq => hbefore u hu ?_⟩
    exact List.getElem?_eq_some_iff.mpr ⟨Nat.lt_trans hu hlt, heq⟩

/-- Only nodes have edges. -/
theorem numbersAt_eq_nil (h : t.IsConsistent) (hv : t.nodes.length ≤ v) : t.numbersAt v = [] := by
  rw [h.numbersAt_eq, h.numbersOf_eq_nil hv]

theorem allEdges_eq_nil (h : t.IsConsistent) (hv : t.nodes.length ≤ v) : t.allEdges v = [] := by
  rw [allEdges, h.numbersAt_eq_nil hv, List.filterMap_nil]

/-- The numbers at a node are numbers of rows of this node. -/
theorem mem_numbersAt (h : t.IsConsistent) {number : Nat} :
    number ∈ t.numbersAt v ↔ ∃ row, t.rows[number]? = some row ∧ row.head = v := by
  rw [h.numbersAt_eq, EdgeRow.mem_numbersOf]

theorem lt_of_mem_numbersAt (h : t.IsConsistent) {number : Nat} (hnumber : number ∈ t.numbersAt v) :
    number < t.rows.length := by
  obtain ⟨row, hrow, -⟩ := h.mem_numbersAt.mp hnumber
  exact (List.getElem?_eq_some_iff.mp hrow).1

end IsConsistent

/-! ## Edges at a node -/

theorem edgeAt?_changeEdge (t : GraphTables) (number : Nat) (f : Edge → Edge) (k : Nat) :
    (t.changeEdge number f).edgeAt? k =
      (t.edgeAt? k).map fun e => if number = k then f e else e := by
  rw [edgeAt?, edgeAt?, getElem?_changeEdge, Option.map_map, Option.map_map]
  refine Option.map_congr fun row _ => ?_
  rw [Function.comp_apply, Function.comp_apply]
  split <;> rfl

/-- The edges of other nodes do not change. -/
theorem allEdges_changeEdge_of_notMem {number : Nat} (f : Edge → Edge)
    (hnumber : number ∉ t.numbersAt v) : (t.changeEdge number f).allEdges v = t.allEdges v := by
  refine List.filterMap_congr fun k hk => ?_
  have hne : number ≠ k := fun heq => hnumber (heq ▸ hk)
  rw [edgeAt?_changeEdge]
  simp only [if_neg hne, Option.map_id']

theorem allEdges_nodeFor (t : GraphTables) (subject : String × NodeSource) (v : NodeId) :
    (t.nodeFor subject).2.allEdges v = t.allEdges v := by
  cases hfound : t.byType.lookup subject with
  | some u => rw [nodeFor_of_some hfound]
  | none =>
    rw [nodeFor_of_none hfound]
    exact t.allEdges_pushNode subject v

section

variable (h : t.IsConsistent)
include h

/-- No number at a node is without an edge. -/
theorem map_edgeAt?_numbersAt (v : NodeId) :
    (t.numbersAt v).map t.edgeAt? = (t.allEdges v).map some := by
  have hall : ∀ number ∈ t.numbersAt v, ∃ e, t.edgeAt? number = some e := by
    intro number hnumber
    obtain ⟨row, hrow, -⟩ := h.mem_numbersAt.mp hnumber
    exact ⟨row.edge, by rw [edgeAt?, hrow]; rfl⟩
  unfold allEdges
  generalize t.numbersAt v = numbers at hall ⊢
  induction numbers with
  | nil => rfl
  | cons number others ih =>
    obtain ⟨⟨e, he⟩, hothers⟩ := List.forall_mem_cons.mp hall
    rw [List.filterMap_cons_some he, List.map_cons, List.map_cons, he, ih hothers]

theorem length_allEdges (v : NodeId) : (t.allEdges v).length = (t.numbersAt v).length := by
  simpa using (congrArg List.length (map_edgeAt?_numbersAt h v)).symm

/-- The edge at a position is the one of the number at this position. -/
theorem getElem?_allEdges (v : NodeId) (position : Nat) :
    (t.allEdges v)[position]? = (t.numbersAt v)[position]?.bind t.edgeAt? := by
  have hposition := congrArg (·[position]?) (map_edgeAt?_numbersAt h v)
  simp only [List.getElem?_map] at hposition
  cases hnumber : (t.numbersAt v)[position]? with
  | none =>
    rw [hnumber] at hposition
    exact Option.map_eq_none_iff.mp hposition.symm
  | some number =>
    rw [hnumber] at hposition
    obtain ⟨e, he, hsome⟩ := Option.map_eq_some_iff.mp hposition.symm
    rw [he]
    exact hsome

/-- Only the edge of the number changes at its node. -/
theorem allEdges_changeEdge {number position : Nat} {f : Edge → Edge}
    (hchanged : (t.changeEdge number f).IsConsistent)
    (hposition : (t.numbersAt v)[position]? = some number) :
    (t.changeEdge number f).allEdges v = (t.allEdges v).modify position f := by
  have hdistinct : (t.numbersAt v).Nodup := h.numbersAt_eq v ▸ EdgeRow.nodup_numbersOf t.rows v
  obtain ⟨hlt, -⟩ := List.getElem?_eq_some_iff.mp hposition
  refine List.ext_getElem? fun other => ?_
  rw [getElem?_allEdges hchanged, List.getElem?_modify, getElem?_allEdges h]
  show (t.numbersAt v)[other]?.bind _ = _
  cases hother : (t.numbersAt v)[other]? with
  | none => rfl
  | some k =>
    -- a number has one position at its node
    have hsame : number = k ↔ position = other := by
      rw [← List.getElem?_inj hlt hdistinct, hposition, hother, Option.some_inj]
    rw [Option.bind_some, Option.bind_some, edgeAt?_changeEdge, Option.map_eq_map]
    simp only [hsame]

/-- The number of a new edge comes last at its node. -/
theorem numbersAt_addEdge {head : NodeId} (move : Move) {tail : NodeId}
    (hhead : head < t.nodes.length) (htail : tail < t.nodes.length) (v : NodeId) :
    (t.addEdge head move tail).2.numbersAt v =
      t.numbersAt v ++ if head = v then [t.rows.length] else [] := by
  rw [(h.addEdge move hhead htail).numbersAt_eq, h.numbersAt_eq]
  exact EdgeRow.numbersOf_append t.rows _ v

theorem allEdges_addEdge {head : NodeId} (move : Move) {tail : NodeId}
    (hhead : head < t.nodes.length) (htail : tail < t.nodes.length) (v : NodeId) :
    (t.addEdge head move tail).2.allEdges v =
      t.allEdges v ++ if head = v then [Edge.mk move tail false] else [] := by
  have hold : ∀ number ∈ t.numbersAt v,
      (t.addEdge head move tail).2.edgeAt? number = t.edgeAt? number := by
    intro number hnumber
    show ((t.rows ++ [_])[number]?).map _ = _
    rw [List.getElem?_append_left (h.lt_of_mem_numbersAt hnumber)]
    rfl
  have hnew : (t.addEdge head move tail).2.edgeAt? t.rows.length = some { move, tail } := by
    show ((t.rows ++ [_])[t.rows.length]?).map _ = _
    rw [List.getElem?_concat_length]
    rfl
  rw [allEdges, numbersAt_addEdge h move hhead htail, List.filterMap_append,
    List.filterMap_congr hold]
  split
  · rw [List.filterMap_cons_some hnew]
    rfl
  · rfl

section

variable {head : NodeId} {edges : List Edge}
  (hhead : head < t.nodes.length) (htails : ∀ e ∈ edges, e.tail < t.nodes.length)
include hhead htails

theorem numbersAt_addEdges (v : NodeId) :
    (t.addEdges head edges).numbersAt v =
      t.numbersAt v ++ if head = v then List.range' t.rows.length edges.length else [] := by
  induction edges generalizing t with
  | nil =>
    split <;> exact (List.append_nil _).symm
  | cons e others ih =>
    obtain ⟨htail, htails⟩ := List.forall_mem_cons.mp htails
    show ((t.addEdge head e.move e.tail).2.addEdges head others).numbersAt v = _
    rw [ih (h.addEdge e.move hhead htail) hhead htails, numbersAt_addEdge h e.move hhead htail,
      List.append_assoc, length_rows_addEdge, List.length_cons, List.range'_succ]
    congr 1
    split <;> rfl

/-- New edges come last at their node, in their order. -/
theorem allEdges_addEdges (hactive : ∀ e ∈ edges, e.isIgnored = false) (v : NodeId) :
    (t.addEdges head edges).allEdges v = t.allEdges v ++ if head = v then edges else [] := by
  induction edges generalizing t with
  | nil =>
    split <;> exact (List.append_nil _).symm
  | cons e others ih =>
    obtain ⟨htail, htails⟩ := List.forall_mem_cons.mp htails
    obtain ⟨hfirst, hactive⟩ := List.forall_mem_cons.mp hactive
    show ((t.addEdge head e.move e.tail).2.addEdges head others).allEdges v = _
    rw [ih (h.addEdge e.move hhead htail) hhead htails hactive,
      allEdges_addEdge h e.move hhead htail, List.append_assoc, ← hfirst]
    congr 1
    split <;> rfl

end

/-- A copy gets the edges that are not ignored, and all other nodes keep theirs. -/
theorem allEdges_duplicateNode (hu : u < t.nodes.length) (v : NodeId) :
    (t.duplicateNode u).2.allEdges v =
      t.allEdges v ++ if t.nodes.length = v then t.edges u else [] := by
  have hsubject := List.getElem?_eq_getElem hu
  have hactive : ∀ e ∈ t.edges u, e.isIgnored = false := fun e he => by
    simpa using (List.mem_filter.mp he).2
  rw [duplicateNode_eq hsubject,
    allEdges_addEdges (h.pushCopy hsubject) (lt_length_pushNode _ _) (h.tail_lt_pushNode _)
      hactive, allEdges_pushNode]

theorem numbersAt_duplicateNode (hu : u < t.nodes.length) (v : NodeId) :
    (t.duplicateNode u).2.numbersAt v = t.numbersAt v ++
      if t.nodes.length = v then List.range' t.rows.length (t.edges u).length else [] := by
  have hsubject := List.getElem?_eq_getElem hu
  rw [duplicateNode_eq hsubject,
    numbersAt_addEdges (h.pushCopy hsubject) (lt_length_pushNode _ _) (h.tail_lt_pushNode _),
    numbersAt_pushNode]
  rfl

end

/-! ## Edges beside a change -/

/-- The numbers of the rows of a node are not at another node. -/
theorem IsConsistent.notMem_numbersAt (h : t.IsConsistent) {number : Nat}
    (hother : (t.rows[number]?).map EdgeRow.head ≠ some v) : number ∉ t.numbersAt v := by
  intro hnumber
  obtain ⟨row, hrow, hhead⟩ := h.mem_numbersAt.mp hnumber
  rw [hrow, Option.map_some, hhead] at hother
  exact hother rfl

/-- A call changes the edges of one node at most. -/
theorem allEdges_call? (h : t.IsConsistent) (hv : v < t.nodes.length) {call : GraphCall}
    (hcall : t.call? call = some t') (hbeside : call.changed? t ≠ some v) :
    t'.allEdges v = t.allEdges v := by
  obtain ⟨hnames, rfl⟩ := call?_eq_some.mp hcall
  cases call with
  | nodeFor typeName source => exact t.allEdges_nodeFor _ v
  | addEdge head move tail =>
    obtain ⟨hhead, htail⟩ := GraphCall.namesAmong_addEdge.mp hnames
    have hne : head ≠ v := fun heq => hbeside (congrArg some heq)
    rw [after, allEdges_addEdge h move hhead htail, if_neg hne, List.append_nil]
  | ignoreEdge number => exact allEdges_changeEdge_of_notMem _ (h.notMem_numbersAt hbeside)
  | setEdgeTail number tail => exact allEdges_changeEdge_of_notMem _ (h.notMem_numbersAt hbeside)
  | duplicateNode node =>
    rw [after, allEdges_duplicateNode h (of_decide_eq_true hnames), if_neg (Nat.ne_of_gt hv),
      List.append_nil]

/-! ## Kept nodes and edges -/

/-- Later tables start with the same nodes, and with the same edges but for where they lead and
whether they are ignored. -/
structure IsKeptBy (t t' : GraphTables) : Prop where
  nodes : t.nodes <+: t'.nodes
  rows : t.rows.map EdgeRow.origin <+: t'.rows.map EdgeRow.origin

namespace IsKeptBy

theorem refl (t : GraphTables) : t.IsKeptBy t :=
  ⟨List.prefix_rfl, List.prefix_rfl⟩

theorem trans (h : t.IsKeptBy t') (h' : t'.IsKeptBy t'') : t.IsKeptBy t'' :=
  ⟨h.nodes.trans h'.nodes, h.rows.trans h'.rows⟩

theorem getElem?_nodes (h : t.IsKeptBy t') (hv : v < t.nodes.length) :
    t'.nodes[v]? = t.nodes[v]? :=
  (List.prefix_iff_getElem?.mp h.nodes v hv).trans (List.getElem?_eq_getElem hv).symm

theorem pushNode (t : GraphTables) (subject : String × NodeSource) :
    t.IsKeptBy (t.pushNode subject).2 :=
  ⟨List.prefix_append _ _, List.prefix_rfl⟩

theorem nodeFor (t : GraphTables) (subject : String × NodeSource) :
    t.IsKeptBy (t.nodeFor subject).2 := by
  cases hfound : t.byType.lookup subject with
  | some v =>
    rw [nodeFor_of_some hfound]
    exact .refl t
  | none =>
    rw [nodeFor_of_none hfound]
    exact ⟨List.prefix_append _ _, List.prefix_rfl⟩

theorem addEdge (t : GraphTables) (head : NodeId) (move : Move) (tail : NodeId) :
    t.IsKeptBy (t.addEdge head move tail).2 :=
  ⟨List.prefix_rfl, (List.prefix_append _ _).map _⟩

theorem addEdges (t : GraphTables) (head : NodeId) (edges : List Edge) :
    t.IsKeptBy (t.addEdges head edges) := by
  induction edges generalizing t with
  | nil => exact .refl t
  | cons e others ih => exact (addEdge t head e.move e.tail).trans (ih _)

theorem changeEdge (t : GraphTables) (number : Nat) (f : Edge → Edge)
    (hf : ∀ e, (f e).move = e.move) : t.IsKeptBy (t.changeEdge number f) where
  nodes := List.prefix_rfl
  rows := by
    have horigin : ∀ row : EdgeRow, EdgeRow.origin { row with edge := f row.edge } = row.origin :=
      fun row => congrArg (row.head, ·) (hf row.edge)
    exact t.map_changeEdge number horigin ▸ List.prefix_rfl

theorem duplicateNode (t : GraphTables) (v : NodeId) : t.IsKeptBy (t.duplicateNode v).2 := by
  cases hv : t.nodes[v]? with
  | none =>
    unfold GraphTables.duplicateNode
    rw [hv]
    exact .refl t
  | some subject =>
    rw [duplicateNode_eq hv]
    exact (pushNode t subject).trans (addEdges _ _ _)

theorem call? {call : GraphCall} (hcall : t.call? call = some t') : t.IsKeptBy t' := by
  obtain ⟨-, rfl⟩ := call?_eq_some.mp hcall
  cases call with
  | nodeFor typeName source => exact nodeFor t _
  | addEdge head move tail => exact addEdge t head move tail
  | ignoreEdge number =>
    exact changeEdge t number (fun edge => { edge with isIgnored := true }) fun _ => rfl
  | setEdgeTail number tail =>
    exact changeEdge t number (fun edge => { edge with tail }) fun _ => rfl
  | duplicateNode node => exact duplicateNode t node

theorem run? {calls : List GraphCall} (hrun : t.run? calls = some t') : t.IsKeptBy t' :=
  of_run? (fun _ _ _ h hcall => h.trans (call? hcall)) (.refl t) hrun

end IsKeptBy

/-- The edges of a node stay as they are while only edges of other nodes change. -/
theorem allEdges_of_stepsBeside (h : t.IsConsistent) (hv : v < t.nodes.length)
    (hsteps : Relation.ReflTransGen (StepsBeside v) t t') : t'.allEdges v = t.allEdges v := by
  induction hsteps using Relation.ReflTransGen.head_induction_on with
  | refl => rfl
  | head hstep _ ih =>
    obtain ⟨call, hcall, hbeside⟩ := hstep
    have hlength := (IsKeptBy.call? hcall).nodes.length_le
    rw [ih (h.call? hcall) (Nat.lt_of_lt_of_le hv hlength), allEdges_call? h hv hcall hbeside]

/-! ## Copies -/

/-- Later tables have a copy of a node. From then on the two go their own ways, and the copy is not
found by its type. -/
structure HasCopy (t t' : GraphTables) (node copy : NodeId) : Prop where
  isNew : copy = t.nodes.length
  subject : t'.nodes[copy]? = t.nodes[node]?
  edges : t'.allEdges copy = t.edges node
  original : t'.allEdges node = t.allEdges node
  diverge : ∀ v t'', v = node ∨ v = copy → Relation.ReflTransGen (StepsBeside v) t' t'' →
    t''.allEdges v = t'.allEdges v
  unnamed : ∀ calls t'' subject, t'.run? calls = some t'' → t''.byType.lookup subject ≠ some copy

/-- No table of first nodes has a node that comes after one of the same type in the same source. -/
theorem IsConsistent.lookup_ne (h : t.IsConsistent) (huv : u < v)
    (hsame : t.nodes[v]? = t.nodes[u]?) (subject : String × NodeSource) :
    t.byType.lookup subject ≠ some v := by
  intro hlookup
  obtain ⟨hv, hbefore⟩ := h.lookup_eq_some.mp hlookup
  exact hbefore u huv (hsame.symm.trans hv)

theorem hasCopy_duplicateNode (h : t.IsConsistent) (hv : v < t.nodes.length) :
    t.HasCopy (t.duplicateNode v).2 v (t.duplicateNode v).1 := by
  have hsubject := List.getElem?_eq_getElem hv
  have hcopied := h.duplicateNode hv
  have hnodes := nodes_duplicateNode hsubject
  have hlength : (t.duplicateNode v).2.nodes.length = t.nodes.length + 1 := by
    rw [hnodes, List.length_append, List.length_singleton]
  have hcopy : (t.duplicateNode v).2.nodes[t.nodes.length]? = t.nodes[v]? := by
    rw [hnodes, List.getElem?_concat_length, hsubject]
  rw [show (t.duplicateNode v).1 = t.nodes.length by rw [duplicateNode_eq hsubject]]
  constructor
  case isNew => rfl
  case subject => exact hcopy
  case edges =>
    rw [allEdges_duplicateNode h hv, if_pos rfl, h.allEdges_eq_nil (Nat.le_refl _), List.nil_append]
  case original =>
    rw [allEdges_duplicateNode h hv, if_neg (Nat.ne_of_gt hv), List.append_nil]
  case diverge =>
    intro u t'' hu hsteps
    have hlt : u < (t.duplicateNode v).2.nodes.length := by
      rcases hu with rfl | rfl <;> rw [hlength]
      · exact Nat.lt_succ_of_lt hv
      · exact Nat.lt_succ_self _
    exact allEdges_of_stepsBeside hcopied hlt hsteps
  case unnamed =>
    intro calls t'' subject hrun
    -- the node itself comes before its copy, also later
    have hkept := IsKeptBy.run? hrun
    refine (hcopied.run? hrun).lookup_ne hv ?_ subject
    rw [hkept.getElem?_nodes (hlength ▸ Nat.lt_succ_self _), hcopy,
      ((IsKeptBy.duplicateNode t v).trans hkept).getElem?_nodes hv]

end GraphTables

end Federation
