import Federation.Subgraph.Basic

/-!
# Query graphs

The places a query planner can be at while it resolves a query, and the moves between them. A node
stands for the values of a type in a subgraph. Nodes and edges are only ever added: a node or edge
keeps its place for good, and an edge that must not be taken is ignored instead of removed.
-/

namespace Federation

/-! ## Moves -/

/-- A move is only possible while a label is active, or only while it is not. -/
structure LabelCondition where
  label : String
  active : Bool
deriving DecidableEq, Repr

/-- The condition holds while exactly the labels in a list are active. -/
def LabelCondition.holds (c : LabelCondition) (activeLabels : List String) : Bool :=
  activeLabels.contains c.label == c.active

/-- A move between two nodes. -/
inductive Move where
  /-- Resolves a field. A provided field is there only because the field in front of it provides
  it. -/
  | field (name : String) (condition : Option LabelCondition) (isProvided : Bool)
  /-- Fetches the same object from another subgraph. -/
  | entity (key : Key)
  /-- Fetches what stands in for an interface of the object in another subgraph. -/
  | interfaceObject (key : Key)
  /-- Narrows the value to one of its possible types. -/
  | narrow

namespace Move

/-- The name of the resolved field. -/
def fieldName? : Move → Option String
  | .field name _ _ => some name
  | _ => none

/-- The move fetches the object by a key. -/
def isByKey : Move → Bool
  | .entity _ | .interfaceObject _ => true
  | .field _ _ _ | .narrow => false

/-- The move narrows the value. -/
def isNarrowing : Move → Bool
  | .narrow => true
  | _ => false

end Move

/-! ## Graphs -/

/-- The place of a node in a query graph. -/
abbrev NodeId : Type := Nat

/-- An edge, as part of the node that it leaves. -/
structure Edge where
  move : Move
  tail : NodeId
  isIgnored : Bool := false

/-- An edge resolves a field of a name. -/
def Edge.resolves (e : Edge) (field : String) : Bool :=
  e.move.fieldName? == some field

/-- The values of a type in a subgraph. -/
structure Node where
  typeName : String
  subgraph : SubgraphId
  /-- The edges that leave the node, in the order they were added. -/
  edges : List Edge := []

/-- The node stands for a type in a subgraph. -/
def Node.isOf (n : Node) (typeName : String) (subgraph : SubgraphId) : Bool :=
  n.typeName == typeName && n.subgraph == subgraph

/-- Nodes in the order they were added. The first node of a type in a subgraph is its base node,
later ones are copies. -/
structure QueryGraph where
  nodes : Array Node := #[]

/-- The place of an edge: the node it leaves, and its place among the edges of this node. -/
structure EdgeId where
  head : NodeId
  position : Nat
deriving DecidableEq, Repr

namespace QueryGraph

/-! ## Looking things up -/

/-- The number of nodes. -/
def size (g : QueryGraph) : Nat :=
  g.nodes.size

/-- The places of all nodes. -/
def ids (g : QueryGraph) : List NodeId :=
  List.range g.size

/-- The node at a place. -/
def node? (g : QueryGraph) (id : NodeId) : Option Node :=
  g.nodes[id]?

/-- The type that a node stands for. -/
def typeNameOf (g : QueryGraph) (id : NodeId) : String :=
  ((g.node? id).map Node.typeName).getD ""

/-- All edges that leave a node. -/
def allEdges (g : QueryGraph) (id : NodeId) : List Edge :=
  ((g.node? id).map Node.edges).getD []

/-- The edges that leave a node and are not ignored. -/
def edges (g : QueryGraph) (id : NodeId) : List Edge :=
  (g.allEdges id).filter fun e => !e.isIgnored

/-- The number of all edges. -/
def edgeCount (g : QueryGraph) : Nat :=
  g.ids.foldl (fun n id => n + (g.allEdges id).length) 0

/-- The base node of a type in a subgraph. -/
def base? (g : QueryGraph) (typeName : String) (subgraph : SubgraphId) : Option NodeId :=
  g.nodes.findIdx? fun n => n.isOf typeName subgraph

/-- The edge at a place. -/
def edge? (g : QueryGraph) (e : EdgeId) : Option Edge :=
  (g.allEdges e.head)[e.position]?

/-- The first edge that leaves a node, is not ignored and has a property. -/
def findEdge? (g : QueryGraph) (head : NodeId) (p : Edge → Bool) : Option EdgeId :=
  let position? := (g.allEdges head).findIdx? fun e => !e.isIgnored && p e
  position?.map fun position => { head := head, position := position }

/-! ## Adding nodes and edges -/

/-- Adds a node without edges. -/
def addNode (g : QueryGraph) (n : Node) : NodeId × QueryGraph :=
  (g.size, { nodes := g.nodes.push n })

/-- The base node of a type in a subgraph, which is added if there is none. -/
def baseFor (g : QueryGraph) (typeName : String) (subgraph : SubgraphId) : NodeId × QueryGraph :=
  match g.base? typeName subgraph with
  | some id => (id, g)
  | none => g.addNode { typeName := typeName, subgraph := subgraph }

/-- Changes the edges that leave a node. -/
def modifyEdges (g : QueryGraph) (id : NodeId) (f : List Edge → List Edge) : QueryGraph where
  nodes := g.nodes.modify id fun n => { n with edges := f n.edges }

/-- Adds an edge to a node. -/
def addEdge (g : QueryGraph) (head : NodeId) (move : Move) (tail : NodeId) : EdgeId × QueryGraph :=
  let edge : Edge := { move := move, tail := tail }
  ({ head := head, position := (g.allEdges head).length }, g.modifyEdges head (· ++ [edge]))

/-- Changes the edge at a place. -/
def modifyEdge (g : QueryGraph) (e : EdgeId) (f : Edge → Edge) : QueryGraph :=
  g.modifyEdges e.head fun edges => edges.modify e.position f

/-- From now on the edge is ignored. -/
def ignoreEdge (g : QueryGraph) (e : EdgeId) : QueryGraph :=
  g.modifyEdge e fun edge => { edge with isIgnored := true }

/-- Lets an edge lead to another node. -/
def setTail (g : QueryGraph) (e : EdgeId) (tail : NodeId) : QueryGraph :=
  g.modifyEdge e fun edge => { edge with tail }

/-- Adds a copy of a node, with copies of its edges that are not ignored. Edges that are added later
to one of the two do not show up on the other. -/
def copyNode (g : QueryGraph) (id : NodeId) : NodeId × QueryGraph :=
  match g.node? id with
  | some n => g.addNode { n with edges := g.edges id }
  | none => (id, g)

/-- Lets an edge lead to a copy of the node that it leads to. -/
def splitTail (g : QueryGraph) (e : EdgeId) : NodeId × QueryGraph :=
  match g.edge? e with
  | some edge =>
    let (copy, g) := g.copyNode edge.tail
    (copy, g.setTail e copy)
  | none => (e.head, g)

end QueryGraph

end Federation
