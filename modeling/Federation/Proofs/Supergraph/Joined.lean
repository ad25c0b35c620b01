import Federation.Proofs.TypeRef.Text
import Federation.Supergraph.Emission
import Mathlib.Data.List.Basic

/-!
# Reading join directives

The join directives of a supergraph tell what each subgraph says about the types: which of them
define a type, with which keys and interfaces, and what they say about each field, member and value.
Here is what a reader of a supergraph makes of its join directives, and next to it what the
supergraph was made of. Field sets are told as they are printed, and types as they were declared.
-/

namespace Federation

/-! ## What subgraphs say -/

namespace Joined

/-- A key of a type, as text. -/
structure Key where
  text : String
  isResolvable : Bool

/-- What one subgraph says about an object or interface. -/
structure Definition where
  subgraph : SubgraphId
  keys : List Key
  isExtension : Bool
  isInterfaceObject : Bool
  interfaces : List String

/-- What one subgraph says about an output field. -/
structure Entry where
  subgraph : SubgraphId
  type : TypeRef
  isExternal : Bool := false
  override : Option Override := none
  requires : Option String := none
  provides : Option String := none

/-- An output field with its type as text, and what the subgraphs that define it say. -/
structure Field where
  name : String
  type : String
  entries : List Entry

/-- A member or a value, with the subgraphs that declare it. -/
structure Part where
  name : String
  subgraphs : List SubgraphId

/-- What the subgraphs say about the parts of a type. -/
inductive Body where
  | composite (definitions : List Definition) (fields : List Field)
  | union (subgraphs : List SubgraphId) (members : List Part)
  | enum (subgraphs : List SubgraphId) (values : List Part)
  | other (subgraphs : List SubgraphId)

end Joined

/-- A type, with what the subgraphs say about it. -/
structure JoinedType where
  name : String
  kind : TypeKind
  body : Joined.Body

/-! ## What merged types say -/

namespace Joined

/-- A key of a merged type. -/
def Key.of (k : Federation.Key) : Key where
  text := k.text
  isResolvable := k.isResolvable

/-- An entry of a merged object or interface. -/
def Definition.of (e : SubgraphId × TypeDef) : Definition where
  subgraph := e.1
  keys := e.2.keys.map .of
  isExtension := e.2.isExtension
  isInterfaceObject := e.2.isInterfaceObject
  interfaces := e.2.interfaces

/-- An entry of a merged field. -/
def Entry.of (e : SubgraphId × FieldInGraph) : Entry where
  subgraph := e.1
  type := e.2.type
  isExternal := e.2.isExternal
  override := e.2.override
  requires := e.2.requires.map SelectionSet.text
  provides := e.2.provides.map SelectionSet.text

/-- A merged field. -/
def Field.of (field : MergedField) : Field where
  name := field.name
  type := field.type.text
  entries := field.byGraph.map .of

/-- The parts of a merged type, which a number of subgraphs define. -/
def Body.of (byGraph : ByGraph TypeDef) : MergedBody → Body
  | .object _ fields | .interface _ fields _ => .composite (byGraph.map .of) (fields.map .of)
  | .union members => .union byGraph.ids (members.map fun m => ⟨m.name, m.subgraphs⟩)
  | .enum values => .enum byGraph.ids (values.map fun v => ⟨v.name, v.subgraphs⟩)
  | .scalar | .inputObject _ => .other byGraph.ids

end Joined

/-- What a merged type says about the subgraphs. -/
def MergedType.joined (t : MergedType) : JoinedType where
  name := t.name
  kind := t.kind
  body := .of t.byGraph t.body

/-! ## What supergraphs say -/

namespace Supergraph

namespace Directive

/-- The text of an argument. -/
def text? (d : Directive) (name : String) : Option String :=
  match d.argument? name with
  | some (.string text) => some text
  | _ => none

/-- The truth of an argument, or what holds without the argument. -/
def flag (d : Directive) (name : String) (default : Bool) : Bool :=
  match d.argument? name with
  | some (.boolean value) => value
  | _ => default

/-- The subgraph that the directive is about. -/
def graph? (graphs : List Graph) (d : Directive) : Option SubgraphId :=
  match d.argument? "graph" with
  | some (.enum value) => graphs.findIdx? fun graph => graph.enumValue == value
  | _ => none

end Directive

/-- The directives of a name, each with the subgraph that it is about. -/
def joinsIn (graphs : List Graph) (name : String) (directives : List Directive) :
    List (SubgraphId × Directive) :=
  directives.filterMap fun d =>
    if d.name = name then (d.graph? graphs).map fun id => (id, d) else none

/-- The directives about one subgraph. -/
def directivesOf (id : SubgraphId) (joins : List (SubgraphId × Directive)) : List Directive :=
  (joins.filter fun join => join.1 == id).map Prod.snd

/-- The subgraphs that directives are about, each of them once. -/
def graphsOf (joins : List (SubgraphId × Directive)) : List SubgraphId :=
  (joins.map Prod.fst).eraseDups

/-- The key that a directive names. -/
def keyIn? (d : Directive) : Option Joined.Key :=
  (d.text? "key").map fun text => { text, isResolvable := d.flag "resolvable" true }

/-- What subgraphs say about an object or interface. -/
def definitionsIn (graphs : List Graph) (directives : List Directive) : List Joined.Definition :=
  let types := joinsIn graphs "join__type" directives
  let implementing := joinsIn graphs "join__implements" directives
  (graphsOf types).map fun id =>
    { subgraph := id
      keys := (directivesOf id types).filterMap keyIn?
      isExtension := (directivesOf id types).any fun d => d.flag "extension" false
      isInterfaceObject := (directivesOf id types).any fun d => d.flag "isInterfaceObject" false
      interfaces := (directivesOf id implementing).filterMap fun d => d.text? "interface" }

/-- What one subgraph says about a field of a type, by its directive. -/
def entryIn (type : String) (join : SubgraphId × Directive) : Joined.Entry where
  subgraph := join.1
  type := .ofText ((join.2.text? "type").getD type)
  isExternal := join.2.flag "external" false
  override := (join.2.text? "override").map fun source =>
    { source, label := join.2.text? "overrideLabel" }
  requires := join.2.text? "requires"
  provides := join.2.text? "provides"

/-- What the subgraphs say about a field. Without directives all subgraphs that define the type say
the same. -/
def fieldIn (graphs : List Graph) (subgraphs : List SubgraphId) (field : Field) : Joined.Field where
  name := field.name
  type := field.type
  entries :=
    if field.directives.any fun d => d.name == "join__field" then
      (joinsIn graphs "join__field" field.directives).map (entryIn field.type)
    else subgraphs.map fun id => { subgraph := id, type := .ofText field.type }

/-- The subgraphs that declare a member of a union. -/
def memberIn (graphs : List Graph) (directives : List Directive) (name : String) : Joined.Part where
  name
  subgraphs := ((joinsIn graphs "join__unionMember" directives).filter fun join =>
    join.2.text? "member" == some name).map Prod.fst

/-- The subgraphs that declare a value of an enum type. -/
def valueIn (graphs : List Graph) (value : EnumValue) : Joined.Part where
  name := value.name
  subgraphs := (joinsIn graphs "join__enumValue" value.directives).map Prod.fst

namespace TypeDefinition

/-- The kind of the type. -/
def kind (d : TypeDefinition) : TypeKind :=
  match d.body with
  | .object _ _ => .object
  | .interface _ _ => .interface
  | .union _ => .union
  | .enum _ => .enum
  | .scalar => .scalar
  | .inputObject _ => .inputObject

/-- What the subgraphs say about the parts of the type. -/
def joinedBody (graphs : List Graph) (d : TypeDefinition) : Joined.Body :=
  let definitions := definitionsIn graphs d.directives
  let subgraphs := (joinsIn graphs "join__type" d.directives).map Prod.fst
  match d.body with
  | .object _ fields | .interface _ fields =>
    .composite definitions
      (fields.map (fieldIn graphs (definitions.map Joined.Definition.subgraph)))
  | .union members => .union subgraphs (members.map (memberIn graphs d.directives))
  | .enum values => .enum subgraphs (values.map (valueIn graphs))
  | .scalar | .inputObject _ => .other subgraphs

/-- What the subgraphs say about the type. -/
def joined (graphs : List Graph) (d : TypeDefinition) : JoinedType where
  name := d.name
  kind := d.kind
  body := d.joinedBody graphs

end TypeDefinition

/-- What a supergraph says about its subgraphs. -/
def Model.joined (m : Model) : List JoinedType :=
  m.types.map (TypeDefinition.joined m.graphs)

/-! ## Arguments -/

section

variable {name other : String}

theorem lookup_flagArgument (value : Bool) :
    (flagArgument name value).lookup other =
      if other = name ∧ value = true then some (.boolean true) else none := by
  by_cases hname : other = name
  · cases value <;> simp [flagArgument, hname]
  · cases value <;> simp [flagArgument, hname]

theorem lookup_denialArgument (value : Bool) :
    (denialArgument name value).lookup other =
      if other = name ∧ value = false then some (.boolean false) else none := by
  by_cases hname : other = name
  · cases value <;> simp [denialArgument, hname]
  · cases value <;> simp [denialArgument, hname]

theorem lookup_optionalArgument {α : Type} (toValue : α → Value) (value : Option α) :
    (optionalArgument name toValue value).lookup other =
      if other = name then value.map toValue else none := by
  by_cases hname : other = name
  · cases value <;> simp [optionalArgument, hname]
  · cases value <;> simp [optionalArgument, hname]

end

/-! ## Directives about subgraphs -/

/-- A name stands for a subgraph. -/
def Names (graphs : List Graph) (names : GraphNames) (id : SubgraphId) : Prop :=
  (graphs.findIdx? fun graph => graph.enumValue == names id) = some id

section

variable {graphs : List Graph} {names : GraphNames}

theorem graph?_eq_some {id : SubgraphId} (h : Names graphs names id) {name : String}
    {arguments : List (String × Value)} :
    Directive.graph? graphs { name, arguments := graphArgument names id :: arguments } =
      some id := by
  unfold Directive.graph? Directive.argument? graphArgument
  rw [List.lookup_cons_self]
  exact h

theorem joinsIn_append (name : String) (a b : List Directive) :
    joinsIn graphs name (a ++ b) = joinsIn graphs name a ++ joinsIn graphs name b :=
  List.filterMap_append

/-- Directives of other names tell nothing. -/
theorem joinsIn_eq_nil {name : String} {directives : List Directive}
    (h : ∀ d ∈ directives, d.name ≠ name) : joinsIn graphs name directives = [] := by
  refine List.filterMap_eq_nil_iff.mpr fun d hd => ?_
  rw [if_neg (h d hd)]

/-- Directives that name subgraphs are read with these subgraphs. -/
theorem joinsIn_map {α : Type} {name : String} {directive : α → Directive} {id : α → SubgraphId}
    {items : List α} (hname : ∀ item ∈ items, (directive item).name = name)
    (hid : ∀ item ∈ items, (directive item).graph? graphs = some (id item)) :
    joinsIn graphs name (items.map directive) = items.map fun item => (id item, directive item) := by
  unfold joinsIn
  rw [List.filterMap_map]
  refine List.filterMap_eq_map_iff_forall_eq_some.mpr fun item hitem => ?_
  rw [Function.comp_apply, if_pos (hname item hitem), hid item hitem]
  rfl

/-- The same for directives that come in groups. -/
theorem joinsIn_flatMap {α : Type} {name : String} {group : α → List Directive}
    {id : α → SubgraphId} {items : List α}
    (h : ∀ item ∈ items, ∀ d ∈ group item, d.name = name ∧ d.graph? graphs = some (id item)) :
    joinsIn graphs name (items.flatMap group) =
      items.flatMap fun item => (group item).map fun d => (id item, d) := by
  induction items with
  | nil => rfl
  | cons item items ih =>
    obtain ⟨hitem, hitems⟩ := List.forall_mem_cons.mp h
    have hgroup : joinsIn graphs name (group item) = (group item).map fun d => (id item, d) := by
      have hmap := @joinsIn_map graphs _ name (fun d => d) (fun _ => id item) (group item)
        (fun d hd => (hitem d hd).1) fun d hd => (hitem d hd).2
      rwa [List.map_id'] at hmap
    rw [List.flatMap_cons, List.flatMap_cons, joinsIn_append, hgroup, ih hitems]

end

/-! ## Groups of directives -/

section

variable {α : Type} {entries : List (SubgraphId × α)} {group : SubgraphId × α → List Directive}

/-- Directives in groups, each group with the subgraph of its entry. -/
def tagged (entries : List (SubgraphId × α)) (group : SubgraphId × α → List Directive) :
    List (SubgraphId × Directive) :=
  entries.flatMap fun e => (group e).map fun d => (e.1, d)

theorem directivesOf_append (id : SubgraphId) (a b : List (SubgraphId × Directive)) :
    directivesOf id (a ++ b) = directivesOf id a ++ directivesOf id b := by
  unfold directivesOf
  rw [List.filter_append, List.map_append]

theorem directivesOf_map (id other : SubgraphId) (directives : List Directive) :
    directivesOf id (directives.map fun d => (other, d)) =
      if other = id then directives else [] := by
  unfold directivesOf
  rw [List.filter_map]
  split
  · rename_i heq
    have hall : directives.filter ((fun join : SubgraphId × Directive => join.1 == id) ∘
        fun d => (other, d)) = directives :=
      List.filter_eq_self.mpr fun d _ => beq_iff_eq.mpr heq
    rw [hall, List.map_map]
    exact List.map_id directives
  · rename_i hne
    have hnone : directives.filter ((fun join : SubgraphId × Directive => join.1 == id) ∘
        fun d => (other, d)) = [] :=
      List.filter_eq_nil_iff.mpr fun d _ h => hne (beq_iff_eq.mp h)
    rw [hnone]
    rfl

/-- Groups of other subgraphs tell nothing about a subgraph. -/
theorem directivesOf_tagged_of_notMem {id : SubgraphId} (h : ∀ e ∈ entries, e.1 ≠ id) :
    directivesOf id (tagged entries group) = [] := by
  induction entries with
  | nil => rfl
  | cons e entries ih =>
    obtain ⟨he, hentries⟩ := List.forall_mem_cons.mp h
    rw [tagged, List.flatMap_cons, ← tagged, directivesOf_append, directivesOf_map, if_neg he,
      ih hentries]
    rfl

/-- With one group for each subgraph, the directives about a subgraph are its group. -/
theorem directivesOf_tagged (h : entries.Pairwise fun a b => a.1 ≠ b.1) {e : SubgraphId × α}
    (he : e ∈ entries) : directivesOf e.1 (tagged entries group) = group e := by
  induction entries with
  | nil => cases he
  | cons first others ih =>
    obtain ⟨hfirst, hothers⟩ := List.pairwise_cons.mp h
    rw [tagged, List.flatMap_cons, ← tagged, directivesOf_append, directivesOf_map]
    rcases List.mem_cons.mp he with rfl | he
    · rw [if_pos rfl, directivesOf_tagged_of_notMem fun o ho => (hfirst o ho).symm,
        List.append_nil]
    · rw [if_neg (hfirst e he), List.nil_append, ih hothers he]

/-- The subgraphs of groups that are not empty are those of the entries. -/
theorem graphsOf_tagged (h : entries.Pairwise fun a b => a.1 ≠ b.1)
    (hgroup : ∀ e ∈ entries, group e ≠ []) :
    graphsOf (tagged entries group) = entries.map Prod.fst := by
  induction entries with
  | nil => rfl
  | cons first others ih =>
    obtain ⟨hfirst, hothers⟩ := List.pairwise_cons.mp h
    obtain ⟨hne, hgroups⟩ := List.forall_mem_cons.mp hgroup
    obtain ⟨d, ds, hds⟩ := List.exists_cons_of_ne_nil hne
    have hrest := ih hothers hgroups
    unfold graphsOf at hrest ⊢
    rw [tagged, List.flatMap_cons, ← tagged, hds, List.map_append, List.map_cons, List.map_cons,
      List.cons_append, List.eraseDups_cons, List.map_cons, List.filter_append]
    -- the other directives of the first group are about the same subgraph
    have hsame : (List.map Prod.fst (ds.map fun d => (first.1, d))).filter
        (fun id => !id == first.1) = [] := by
      refine List.filter_eq_nil_iff.mpr fun id hid => ?_
      rw [List.map_map] at hid
      obtain ⟨_, _, rfl⟩ := List.mem_map.mp hid
      simp
    have hothersonly : ((tagged others group).map Prod.fst).filter (fun id => !id == first.1) =
        (tagged others group).map Prod.fst := by
      refine List.filter_eq_self.mpr fun id hid => ?_
      obtain ⟨join, hjoin, rfl⟩ := List.mem_map.mp hid
      obtain ⟨e, he, hmem⟩ := List.mem_flatMap.mp hjoin
      obtain ⟨d', -, rfl⟩ := List.mem_map.mp hmem
      simpa using (hfirst e he).symm
    rw [hsame, List.nil_append, hothersonly, hrest]

end

end Supergraph

end Federation
