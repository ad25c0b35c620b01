import Mathlib
import Federation.Proofs.Ingestion.Evaluation
import Federation.Proofs.QueryGraph.Drafts
import Federation.Proofs.QueryGraph.Lineage
import Federation.Proofs.Validation.FieldSets

/-!
# Occurrences of providing fields

What a field provides can be followed wherever the field leads from the node that stood for its type
before anything was provided. Copies of this node take after it, but each as it was when it was made:
a copy that is made before it is the field's turn leads to where nothing has been provided yet.
-/

namespace Federation

/-! ## Plain selections -/

mutual

/-- A selection on a type without type conditions: it selects fields of objects and interfaces, and
where it goes on below a field, the subgraph defines the field's type. -/
def Subgraph.IsPlainOn (s : Subgraph) (d : TypeDef) : Selection → Prop
  | .field name _ selections => name = "__typename" ∨
      (d.kind = .object ∨ d.kind = .interface) ∧ ∀ field, d.field? name = some field →
        selections ≠ [] → ∃ target, s.typeOf? field = some target ∧
          s.IsPlainOnAll target selections
  | .inlineFragment _ _ => False

/-- Selections on a type without type conditions. -/
def Subgraph.IsPlainOnAll (s : Subgraph) (d : TypeDef) : List Selection → Prop
  | [] => True
  | first :: others => s.IsPlainOn d first ∧ s.IsPlainOnAll d others

end

section

variable {set : SubgraphSet} {m : MergedSchema} {id : SubgraphId} {s : Subgraph}

/-- The merged schema knows what a subgraph says about a field. -/
theorem MergedSchema.fieldIn?_of_mem (hset : set.HasProperNames) (hm : ofSubgraphs set = .ok m)
    (hs : set.subgraph? id = some s) {d : TypeDef} (hd : d ∈ s.definitions)
    (hkind : d.kind = .object ∨ d.kind = .interface) {field : Field} (hfield : field ∈ d.fields) :
    m.fieldIn? d.name field.name id = some (.of s d field) := by
  have he : (⟨id, s, d⟩ : TypeEntry) ∈ set.typeEntries := SubgraphSet.mem_typeEntries.mpr ⟨hs, hd⟩
  obtain ⟨t, merged, ht, -, hmerged, hentry, -⟩ := exists_field?_of_mem hset hm he hkind hfield
  have hunique : merged.byGraph.Pairwise fun a b => a.1 ≠ b.1 := by
    rw [byGraph_of_mem_fields hset hm ht (List.mem_of_find?_eq_some hmerged)]
    exact hset.pairwise_fieldEntriesOf _ _
  rw [fieldIn?, field?, show m.type? d.name = some t from ht, Option.bind_some, hmerged,
    Option.bind_some]
  exact ByGraph.get?_eq_some hunique hentry

mutual

/-- A subgraph declares what it can select without problems. -/
theorem MergedSchema.declares_of_isPlainOn (hset : set.HasProperNames)
    (hm : ofSubgraphs set = .ok m) (hs : set.subgraph? id = some s) {d : TypeDef}
    (hd : d ∈ s.definitions)
    (selection : Selection) (hproblem : Validation.problemOf? s d selection = none)
    (hplain : s.IsPlainOn d selection) : m.Declares id d.name selection := by
  cases selection with
  | field name arguments selections =>
    unfold Subgraph.IsPlainOn at hplain
    rcases hplain with hname | ⟨hkind, hbelow⟩
    · exact .inl hname
    · by_cases hname : name = "__typename"
      · exact .inl hname
      rw [Validation.problemOf?, if_neg hname] at hproblem
      cases hfield : d.field? name with
      | none =>
        rw [hfield] at hproblem
        cases hproblem
      | some field =>
        rw [hfield] at hproblem
        have hfound := MergedSchema.fieldIn?_of_mem hset hm hs hd hkind
          (List.mem_of_find?_eq_some hfield)
        rw [TypeDef.name_of_field? hfield] at hfound
        refine .inr ⟨_, hfound, ?_⟩
        cases selections with
        | nil => trivial
        | cons first others =>
          obtain ⟨target, htarget, hplain⟩ := hbelow field hfield (List.cons_ne_nil _ _)
          dsimp only at hproblem
          rw [htarget] at hproblem
          have hdeclared := declaresAll_of_isPlainOnAll hset hm hs
            (Subgraph.mem_of_definition? htarget) (first :: others) hproblem hplain
          rw [Subgraph.name_of_definition? htarget] at hdeclared
          exact hdeclared
  | inlineFragment condition selections => exact hplain.elim

theorem MergedSchema.declaresAll_of_isPlainOnAll (hset : set.HasProperNames)
    (hm : ofSubgraphs set = .ok m) (hs : set.subgraph? id = some s) {d : TypeDef}
    (hd : d ∈ s.definitions)
    (selections : List Selection) (hproblem : Validation.problemIn? s d selections = none)
    (hplain : s.IsPlainOnAll d selections) : m.DeclaresAll id d.name selections := by
  cases selections with
  | nil => trivial
  | cons first others =>
    obtain ⟨hfirst, hothers⟩ :=
      List.forall_mem_cons.mp (Validation.problemIn?_eq_none_iff.mp hproblem)
    exact ⟨declares_of_isPlainOn hset hm hs hd first hfirst hplain.1,
      declaresAll_of_isPlainOnAll hset hm hs hd others
        (Validation.problemIn?_eq_none_iff.mpr hothers) hplain.2⟩

end

end

namespace QueryGraph

/-! ## Resolving one note -/

section

variable {merged : MergedSchema} {g g' : QueryGraph} {p : Provision} {f : FieldInGraph}

/-- The edge of a field leads to a node of its type. -/
theorem EdgeResolves.exists_tail {id : EdgeId} {subgraph : SubgraphId} (hg : g.IsTyped merged)
    (h : EdgeResolves merged g id subgraph f) : ∃ e w, g.edge? id = some e ∧
      g.node? e.tail = some w ∧ w.typeName = f.type.name ∧ w.subgraph = subgraph := by
  obtain ⟨typeName, name, e, htype, he, hresolves, hf⟩ := h
  obtain ⟨n, hn, rfl, rfl⟩ := subject?_eq_some.mp htype
  obtain ⟨f', w, hf', hw, hname, hsubgraph⟩ := hg.exists_tail he hn hresolves
  obtain rfl := Option.some.inj (hf'.symm.trans hf)
  exact ⟨e, w, he, hw, hname, hsubgraph⟩

/-- Edges of a graph that has grown resolve their fields. -/
theorem EdgeResolves.extends {id : EdgeId} {subgraph : SubgraphId} (hextends : g.Extends g')
    (h : EdgeResolves merged g id subgraph f) : EdgeResolves merged g' id subgraph f := by
  obtain ⟨typeName, name, e, htype, he, hresolves, hf⟩ := h
  obtain ⟨e', he', hmove, -, -⟩ := hextends.edges id e he
  refine ⟨typeName, name, e', hextends.subject? htype, he', ?_, hf⟩
  rw [Edge.resolves, hmove]
  exact hresolves

/-- What happens after the edge has been led to a copy touches the copy and new nodes only, and lets
what has been noted be followed from the copy. -/
theorem resolveProvision_splitTail (hg : g.IsTyped merged)
    (h : EdgeResolves merged g p.edge p.subgraph f) :
    GrowsTo merged g.size (g.splitTail p.edge).2 (resolveProvision merged g p) ∧
      (merged.DeclaresAll p.subgraph f.type.name p.selections →
        (resolveProvision merged g p).followsAll g.size p.selections = true) := by
  obtain ⟨e, w, he, hw, hname, hsubgraph⟩ := h.exists_tail hg
  have hcopy := node?_splitTail_copy he hw (edge?_head_lt he)
  have hsplit := hg.splitTail he hw
  have hcopyid : Node.subgraph { w with edges := g.edges e.tail } = p.subgraph := hsubgraph
  unfold resolveProvision
  dsimp only
  rw [splitTail_fst he hw]
  refine ⟨growsTo_provide hsplit hcopy hcopyid p.selections, fun hdeclared => ?_⟩
  exact followsAll_provide hsplit hcopy hcopyid p.selections (hname ▸ hdeclared)

/-- Resolving a note is a run of steps. -/
theorem growsTo_resolveProvision (hg : g.IsTyped merged)
    (h : EdgeResolves merged g p.edge p.subgraph f) :
    GrowsTo merged 0 g (resolveProvision merged g p) := by
  obtain ⟨e, w, he, hw, -⟩ := h.exists_tail hg
  exact growsTo_splitTail (Nat.zero_le _) he hw (resolveProvision_splitTail hg h).1

/-- Of the edges that were there before, only the noted one leads elsewhere. -/
theorem edge?_resolveProvision (hg : g.IsTyped merged)
    (h : EdgeResolves merged g p.edge p.subgraph f) {other : EdgeId} (hother : other.head < g.size) :
    (resolveProvision merged g p).edge? other =
      (g.edge? other).map fun e => if other = p.edge then { e with tail := g.size } else e := by
  obtain ⟨e, w, he, hw, -⟩ := h.exists_tail hg
  have hsize : other.head < (g.splitTail p.edge).2.size := by
    rw [size_splitTail he hw]
    exact Nat.lt_succ_of_lt hother
  rw [edge?_congr ((resolveProvision_splitTail hg h).1.node?_eq hother hsize),
    edge?_splitTail he hw hother]
  by_cases hsame : other = p.edge
  · rw [if_pos hsame, hsame, he, Option.map_some, if_pos rfl]
  · simp only [if_neg hsame, Option.map_id']

/-- What has been noted can be followed where the edge leads. -/
theorem exists_edge?_resolveProvision (hg : g.IsTyped merged)
    (h : EdgeResolves merged g p.edge p.subgraph f)
    (hdeclared : merged.DeclaresAll p.subgraph f.type.name p.selections) :
    ∃ e, (resolveProvision merged g p).edge? p.edge = some e ∧
      (resolveProvision merged g p).followsAll e.tail p.selections = true := by
  obtain ⟨e, w, he, -⟩ := h.exists_tail hg
  refine ⟨{ e with tail := g.size }, ?_, (resolveProvision_splitTail hg h).2 hdeclared⟩
  rw [edge?_resolveProvision hg h (edge?_head_lt he), he, Option.map_some, if_pos rfl]

end

/-! ## Resolving notes -/

section

variable {merged : MergedSchema} {g : QueryGraph} {provisions : List Provision}

/-- Notes stay right when the graph grows. -/
theorem IsNoted.extends {g' : QueryGraph} {p : Provision} (hextends : g.Extends g')
    (h : IsNoted merged g p) : IsNoted merged g' p := by
  obtain ⟨f, hf, hprovides⟩ := h
  exact ⟨f, hf.extends hextends, hprovides⟩

/-- Resolving notes is a run of steps. -/
theorem growsTo_foldl (hg : g.IsTyped merged) (hnoted : ∀ p ∈ provisions, IsNoted merged g p) :
    GrowsTo merged 0 g (provisions.foldl (resolveProvision merged) g) := by
  induction provisions generalizing g with
  | nil => exact .refl
  | cons p provisions ih =>
    obtain ⟨⟨f, hf, -⟩, hothers⟩ := List.forall_mem_cons.mp hnoted
    have hfirst := growsTo_resolveProvision hg hf
    exact hfirst.trans
      (ih (hfirst.isTyped hg) fun q hq => (hothers q hq).extends hfirst.toExtends)

/-- Nodes that were there before have the edges that they had. -/
theorem exists_edge?_of_foldl (hg : g.IsTyped merged)
    (hnoted : ∀ p ∈ provisions, IsNoted merged g p) {id : EdgeId} (hid : id.head < g.size)
    {e' : Edge} (he' : (provisions.foldl (resolveProvision merged) g).edge? id = some e') :
    ∃ e, g.edge? id = some e ∧ e.move = e'.move ∧ e.isIgnored = e'.isIgnored := by
  induction provisions generalizing g with
  | nil => exact ⟨e', he', rfl, rfl⟩
  | cons p provisions ih =>
    obtain ⟨⟨f, hf, -⟩, hothers⟩ := List.forall_mem_cons.mp hnoted
    have hfirst := growsTo_resolveProvision hg hf
    obtain ⟨n, hn⟩ := exists_node?_of_lt hid
    obtain ⟨n', hn', -⟩ := hfirst.toExtends.nodes _ n hn
    obtain ⟨e₁, he₁, hmove, hignored⟩ := ih (hfirst.isTyped hg)
      (fun q hq => (hothers q hq).extends hfirst.toExtends) (node?_eq_some_lt hn') he'
    rw [edge?_resolveProvision hg hf hid, Option.map_eq_some_iff] at he₁
    obtain ⟨e, he, rfl⟩ := he₁
    refine ⟨e, he, ?_, ?_⟩
    · rw [← hmove]
      split <;> rfl
    · rw [← hignored]
      split <;> rfl

/-- What has been noted can be followed where its edge leads. -/
theorem exists_edge?_foldl (hg : g.IsTyped merged)
    (hnoted : ∀ p ∈ provisions, IsNoted merged g p) {p : Provision} (hp : p ∈ provisions)
    {f : FieldInGraph} (hf : EdgeResolves merged g p.edge p.subgraph f)
    (hdeclared : merged.DeclaresAll p.subgraph f.type.name p.selections) :
    ∃ e, (provisions.foldl (resolveProvision merged) g).edge? p.edge = some e ∧
      (provisions.foldl (resolveProvision merged) g).followsAll e.tail p.selections = true := by
  induction provisions generalizing g with
  | nil => cases hp
  | cons q provisions ih =>
    obtain ⟨⟨f', hf', -⟩, hothers⟩ := List.forall_mem_cons.mp hnoted
    have hfirst := growsTo_resolveProvision hg hf'
    have htyped := hfirst.isTyped hg
    have hrest : ∀ q' ∈ provisions, IsNoted merged (resolveProvision merged g q) q' :=
      fun q' hq' => (hothers q' hq').extends hfirst.toExtends
    rcases List.mem_cons.mp hp with rfl | hp
    · obtain ⟨e, he, hfollows⟩ := exists_edge?_resolveProvision hg hf hdeclared
      obtain ⟨e', he', -, -, hkept⟩ := (growsTo_foldl htyped hrest).toExtends.edges _ e he
      exact ⟨e', he', hkept _ hfollows⟩
    · exact ih htyped hrest hp (hf.extends hfirst.toExtends)

end

/-! ## Turns -/

/-- The subgraphs and the moves between them, before anything is provided. -/
def joined (set : SubgraphSet) (merged : MergedSchema) : QueryGraph :=
  joinSubgraphs set merged (draft set merged).graph

/-- The query graph after the first notes have been resolved. -/
def resolved (set : SubgraphSet) (merged : MergedSchema) (n : Nat) : QueryGraph :=
  ((draft set merged).provisions.take n).foldl (resolveProvision merged) (joined set merged)

/-- The turn of a field at a node is over: no later note is about it. -/
def HadTurn (set : SubgraphSet) (merged : MergedSchema) (n : Nat) (v : NodeId) (field : String) :
    Prop :=
  ∀ p ∈ (draft set merged).provisions.drop n, p.edge.head = v →
    ∀ e, (joined set merged).edge? p.edge = some e → e.resolves field = false

section

variable {set : SubgraphSet} {m : MergedSchema} (hm : MergedSchema.ofSubgraphs set = .ok m)

include hm

theorem growsTo_resolved (n : Nat) : GrowsTo m 0 (joined set m) (resolved set m n) := by
  have hready := isReady_joinSubgraphs hm
  exact growsTo_foldl hready.typed fun p hp => hready.sound p (List.mem_of_mem_take hp)

/-- The notes that are left complete the query graph. -/
theorem growsTo_ofSubgraphs (n : Nat) : GrowsTo m 0 (resolved set m n) (ofSubgraphs set m) := by
  have hready := isReady_joinSubgraphs hm
  have hrun := growsTo_resolved hm n
  have hrest : ∀ p ∈ (draft set m).provisions.drop n, IsNoted m (resolved set m n) p :=
    fun p hp => (hready.sound p (List.mem_of_mem_drop hp)).extends hrun.toExtends
  have hmore := growsTo_foldl (hrun.isTyped hready.typed) hrest
  rw [resolved, ← List.foldl_append, List.take_append_drop] at hmore
  exact hmore

/-- Edges of the query graph lead to nodes of the types of their fields, in the same subgraph. -/
theorem isTyped_ofSubgraphs : (ofSubgraphs set m).IsTyped m := by
  have hstart := (growsTo_resolved hm 0).isTyped (isReady_joinSubgraphs hm).typed
  exact (growsTo_ofSubgraphs hm 0).isTyped hstart

/-- Once a field has had its turn at an original node, it leads from there to where its selections
can be followed. -/
theorem providesAt_resolved {typeName name : String} {id : SubgraphId} {f : FieldInGraph}
    (hf : m.fieldIn? typeName name id = some f) {selections : SelectionSet}
    (hprovides : f.provides = some selections) (hdeclared : m.DeclaresAll id f.type.name selections)
    {original : NodeId} (horiginal : (joined set m).subject? original = some (typeName, id))
    {n : Nat} (hturn : HadTurn set m n original name) :
    (resolved set m n).ProvidesAt original name selections := by
  intro e he hresolves
  by_cases hne : selections = []
  · rw [hne]
    rfl
  have hready := isReady_joinSubgraphs hm
  have hnoted : ∀ p ∈ (draft set m).provisions.take n, IsNoted m (joined set m) p :=
    fun p hp => hready.sound p (List.mem_of_mem_take hp)
  obtain ⟨node, hnode, -⟩ := subject?_eq_some.mp horiginal
  obtain ⟨position, hposition⟩ := exists_edge?_of_mem (mem_edges.mp he).1
  obtain ⟨e₀, he₀, hmove, -⟩ := exists_edge?_of_foldl hready.typed hnoted
    (show (⟨original, position⟩ : EdgeId).head < _ from node?_eq_some_lt hnode) hposition
  have hresolves₀ : e₀.resolves name = true := by
    rw [Edge.resolves, hmove]
    exact hresolves
  have hedge : EdgeResolves m (joined set m) ⟨original, position⟩ id f :=
    ⟨typeName, name, e₀, horiginal, he₀, hresolves₀, hf⟩
  -- the edge has been noted, and this note is not a later one
  obtain ⟨p, hp, hpedge⟩ := hready.complete _ id f selections hedge hprovides hne
  obtain ⟨f', hf', hprovides'⟩ := hready.sound p hp
  rw [← hpedge] at hedge hposition he₀
  obtain ⟨hsubgraph, rfl⟩ := hedge.unique hf'
  obtain rfl := Option.some.inj (hprovides'.symm.trans hprovides)
  have htaken : p ∈ (draft set m).provisions.take n := by
    rw [← List.take_append_drop n (draft set m).provisions] at hp
    rcases List.mem_append.mp hp with hp | hp
    · exact hp
    · have hfalse := hturn p hp (by rw [hpedge]) e₀ he₀
      exact absurd (hfalse.symm.trans hresolves₀) Bool.false_ne_true
  obtain ⟨e', he', hfollows⟩ :=
    exists_edge?_foldl hready.typed hnoted htaken hf' (hsubgraph ▸ hdeclared)
  obtain rfl := Option.some.inj (he'.symm.trans hposition)
  exact hfollows

/-- A field that an original node resolves in the end was resolved by all nodes of the type before
anything was provided. -/
theorem resolves_joined {typeName name : String} {id : SubgraphId} {original : NodeId}
    (horiginal : (joined set m).subject? original = some (typeName, id))
    (hresolves : ∃ e ∈ (ofSubgraphs set m).edges original, e.resolves name = true) :
    (joined set m).Resolves typeName id name := by
  have hready := isReady_joinSubgraphs hm
  refine ⟨⟨original, horiginal⟩, fun v hv => ?_⟩
  obtain rfl := hready.distinct v original _ hv horiginal
  obtain ⟨e, he, hname⟩ := hresolves
  obtain ⟨hmem, hactive⟩ := mem_edges.mp he
  obtain ⟨position, hposition⟩ := exists_edge?_of_mem hmem
  obtain ⟨node, hnode, -⟩ := subject?_eq_some.mp horiginal
  obtain ⟨e₀, he₀, hmove, hignored⟩ := exists_edge?_of_foldl hready.typed hready.sound
    (show (⟨v, position⟩ : EdgeId).head < _ from node?_eq_some_lt hnode) hposition
  refine ⟨e₀, mem_edges.mpr ⟨mem_allEdges_of_edge? he₀, hignored.trans hactive⟩, ?_⟩
  rw [Edge.resolves, hmove]
  exact hname

end

/-! ## Fields that provide -/

/-- What is provided by a field of a valid composition is declared by its subgraph. -/
theorem declaresAll_provides {set : SubgraphSet} (hset : set.HasProperNames) {m : MergedSchema}
    (hm : MergedSchema.ofSubgraphs set = .ok m)
    (hvalid : (Validation.validate { set, merged := m }).anyFatal = false) {id : SubgraphId}
    {s : Subgraph} (hs : set.subgraph? id = some s) {d : TypeDef} (hd : d ∈ s.definitions)
    (hkind : d.kind = .object ∨ d.kind = .interface) {field : Field} (hfield : field ∈ d.fields)
    {selections : SelectionSet} (hprovides : (FieldInGraph.of s d field).provides = some selections)
    {target : TypeDef} (htarget : s.typeOf? field = some target)
    (hplain : s.IsPlainOnAll target selections) :
    m.DeclaresAll id field.type.name selections := by
  obtain ⟨written, hwritten, hpruned⟩ := Option.bind_eq_some_iff.mp hprovides
  have hproblem : Validation.problemIn? s target selections = none := by
    have hnone := Validation.problemIn?_eq_none_iff.mp
      (Validation.problemIn?_provides hset hm hvalid hs hd hkind hfield hwritten htarget)
    refine Validation.problemIn?_eq_none_iff.mpr fun selection hselection => hnone selection ?_
    unfold SelectionSet.pruned? at hpruned
    dsimp only at hpruned
    split at hpruned
    · cases hpruned
    · rw [← Option.some.inj hpruned] at hselection
      exact (List.mem_filter.mp hselection).1
  rw [← Subgraph.name_of_definition? htarget]
  exact MergedSchema.declaresAll_of_isPlainOnAll hset hm hs (Subgraph.mem_of_definition? htarget)
    selections hproblem hplain

/-- **Where provided fields can be followed.** In the query graph of a valid composition, fields lead
to nodes of their types in the same subgraph. From the node of a type that was there before anything
was provided, each field leads to where all that it provides without type conditions can be followed.
And if such a field is resolved there, it does so from all nodes of the type, provided that it did so
from all copies of the node that had been made when the turn of the field was over. -/
theorem provided_fields_are_followed {set : SubgraphSet} (hset : set.Ingested) {m : MergedSchema}
    (hm : MergedSchema.ofSubgraphs set = .ok m)
    (hvalid : (Validation.validate { set, merged := m }).anyFatal = false) {id : SubgraphId}
    {s : Subgraph} (hs : set.subgraph? id = some s) {d : TypeDef} (hd : d ∈ s.definitions)
    (hkind : d.kind = .object ∨ d.kind = .interface) {field : Field} (hfield : field ∈ d.fields)
    {selections : SelectionSet} (hprovides : (FieldInGraph.of s d field).provides = some selections)
    {target : TypeDef} (htarget : s.typeOf? field = some target)
    (hplain : s.IsPlainOnAll target selections) {original : NodeId}
    (horiginal : (joined set m).subject? original = some (d.name, id)) :
    (ofSubgraphs set m).IsTyped m ∧
      (ofSubgraphs set m).ProvidesAt original field.name selections ∧
      ((∃ e ∈ (ofSubgraphs set m).edges original, e.resolves field.name = true) →
        ∀ n, HadTurn set m n original field.name →
          (∀ v ≠ original, (resolved set m n).subject? v = some (d.name, id) →
            (resolved set m n).ProvidesAt v field.name selections) →
          (ofSubgraphs set m).Provides d.name id field.name selections) := by
  have hfound := MergedSchema.fieldIn?_of_mem hset.hasProperNames hm hs hd hkind hfield
  have hdeclared := declaresAll_provides hset.hasProperNames hm hvalid hs hd hkind hfield hprovides
    htarget hplain
  have hturns : ∀ n, HadTurn set m n original field.name →
      (resolved set m n).ProvidesAt original field.name selections := fun n hturn =>
    providesAt_resolved hm hfound hprovides hdeclared horiginal hturn
  refine ⟨isTyped_ofSubgraphs hm, ?_, fun hresolves n hturn hcopies => ?_⟩
  · have hall : resolved set m (draft set m).provisions.length = ofSubgraphs set m := by
      rw [resolved, List.take_length]
      rfl
    rw [← hall]
    refine hturns _ fun p hp => ?_
    rw [List.drop_length] at hp
    cases hp
  · have hprovided : (resolved set m n).Provides d.name id field.name selections := by
      intro v hv
      by_cases hsame : v = original
      · rw [hsame]
        exact hturns n hturn
      · exact hcopies v hsame hv
    have hresolved := (resolves_joined hm horiginal hresolves).growsTo (growsTo_resolved hm n)
    exact (hprovided.growsTo hresolved (growsTo_ofSubgraphs hm n)).2

end QueryGraph

/-! ### Fields that provide in front of each other -/

/-- A schema with fields that provide in front of each other. -/
def SchemaSource.nested : SchemaSource :=
  ⟨"type Query\x7bt:T@provides(fields:\"x\")z:ID@external\x7d" ++
      "type T\x7bx:ID@external u:U@provides(fields:\"y\")\x7d" ++
      "type U\x7by:ID@external q:Query@provides(fields:\"z\")\x7d",
    "a", none⟩

/-- A schema that resolves what the other one provides. -/
def SchemaSource.provided : SchemaSource :=
  ⟨"type Query\x7bz:ID\x7dtype T\x7bx:ID\x7dtype U\x7by:ID\x7d", "b", none⟩

/-- The selections are one field. -/
def SelectionSet.isLeaf (name : String) : SelectionSet → Bool
  | [.field selected _ []] => selected == name
  | _ => false

/-- A field of an object provides one field of an object. -/
def Subgraph.offers (s : Subgraph) (typeName field selected : String) : Bool :=
  (s.definition? typeName).any fun d => d.kind == .object && (d.field? field).any fun f =>
    (FieldInGraph.of s d f).provides.any (SelectionSet.isLeaf selected) &&
      (s.typeOf? f).any fun target => target.kind == .object

/-- What a field offers. -/
theorem Subgraph.exists_of_offers {s : Subgraph} {typeName field selected : String}
    (h : s.offers typeName field selected = true) :
    ∃ d ∈ s.definitions, d.name = typeName ∧ d.kind = .object ∧
      ∃ f ∈ d.fields, f.name = field ∧ ∃ arguments target,
        (FieldInGraph.of s d f).provides = some [.field selected arguments []] ∧
        s.typeOf? f = some target ∧ s.IsPlainOnAll target [.field selected arguments []] := by
  simp only [offers, Option.any_eq_true, Bool.and_eq_true, beq_iff_eq] at h
  obtain ⟨d, hd, hkind, f, hf, ⟨selections, hprovides, hleaf⟩, target, htarget, hobject⟩ := h
  unfold SelectionSet.isLeaf at hleaf
  split at hleaf
  · obtain rfl := beq_iff_eq.mp hleaf
    exact ⟨d, mem_of_definition? hd, name_of_definition? hd, hkind, f, List.mem_of_find?_eq_some hf,
      TypeDef.name_of_field? hf, _, target, hprovides, htarget,
      .inr ⟨.inl hobject, fun _ _ hne => absurd rfl hne⟩, trivial⟩
  · cases hleaf

namespace QueryGraph

/-- In a graph of the two schemas, a later node of the type `T` has an edge of the field `u` from
which the field `y` cannot be followed. -/
def missesNested (g : QueryGraph) : Bool :=
  g.subject? 7 == some ("T", 0) &&
    (g.edges 7).any fun e => e.resolves "u" && !g.followsAll e.tail [.field "y" [] []]

/-- In a graph of the two schemas, there are two nodes of the query type. -/
def hasCopiedQuery (g : QueryGraph) : Bool :=
  (g.edges 0).any (fun e => e.resolves "t") && g.subject? 10 == some ("Query", 0)

/-- A graph of the two schemas has no other node of the query type yet. -/
def hasOneQuery (g : QueryGraph) : Bool :=
  g.ids.all fun v => v == 0 || g.subject? v != some ("Query", 0)

/-- The two schemas pass validation, and their query graph comes about as described. -/
theorem validates_nested :
    ((SubgraphSet.ofSources [.nested, .provided]).toOption.any fun set =>
      (set.subgraph? 0).any (fun s => s.offers "T" "u" "y" && s.offers "Query" "t" "x") &&
        (MergedSchema.ofSubgraphs set).toOption.any fun m =>
          !(Validation.validate { set, merged := m }).anyFatal &&
            (joined set m).subject? 0 == some ("Query", 0) &&
            ((draft set m).provisions.drop 1).all (fun p => p.edge.head != 0) &&
            (resolved set m 1).hasOneQuery && (ofSubgraphs set m).hasCopiedQuery &&
            (ofSubgraphs set m).missesNested) = true := by cbv

/-- What the two schemas make. -/
theorem exists_nested :
    ∃ set m s, SubgraphSet.ofSources [.nested, .provided] = .ok set ∧
      MergedSchema.ofSubgraphs set = .ok m ∧
      (Validation.validate { set, merged := m }).anyFatal = false ∧ set.subgraph? 0 = some s ∧
      s.offers "T" "u" "y" = true ∧ s.offers "Query" "t" "x" = true ∧
      (joined set m).subject? 0 = some ("Query", 0) ∧
      (∀ p ∈ (draft set m).provisions.drop 1, p.edge.head ≠ 0) ∧
      (resolved set m 1).hasOneQuery = true ∧ (ofSubgraphs set m).hasCopiedQuery = true ∧
      (ofSubgraphs set m).missesNested = true := by
  obtain ⟨set, hset, hvalidates⟩ := exists_ok_of_any validates_nested
  rw [Bool.and_eq_true, Option.any_eq_true] at hvalidates
  obtain ⟨⟨s, hs, hoffers⟩, hmerges⟩ := hvalidates
  obtain ⟨m, hm, hmerged⟩ := exists_ok_of_any hmerges
  simp only [Bool.and_eq_true, Bool.not_eq_true', beq_iff_eq, List.all_eq_true, bne_iff_ne]
    at hmerged hoffers
  obtain ⟨⟨⟨⟨⟨hvalid, hjoined⟩, hturn⟩, hone⟩, hcopied⟩, hmisses⟩ := hmerged
  exact ⟨set, m, s, hset, hm, hvalid, hs, hoffers.1, hoffers.2, hjoined, hturn, hone, hcopied,
    hmisses⟩

/-- A copy of a node that is made before it is the turn of a field of its type does not provide what
the field provides: the two schemas pass validation, and the copy of `T` that `Query.t` leads to has
an edge of the field `u` from which `y` cannot be followed. -/
theorem earlier_copies_do_not_provide :
    ∃ set m, SubgraphSet.ofSources [.nested, .provided] = .ok set ∧
      MergedSchema.ofSubgraphs set = .ok m ∧
      (Validation.validate { set, merged := m }).anyFatal = false ∧
      ∃ s, set.subgraph? 0 = some s ∧ ∃ d ∈ s.definitions, d.kind = .object ∧
        ∃ field ∈ d.fields, ∃ selections target,
          (FieldInGraph.of s d field).provides = some selections ∧
          s.typeOf? field = some target ∧ s.IsPlainOnAll target selections ∧
          ¬ (ofSubgraphs set m).Provides d.name 0 field.name selections := by
  obtain ⟨set, m, s, hset, hm, hvalid, hs, hoffers, -, -, -, -, -, hmisses⟩ := exists_nested
  obtain ⟨d, hd, hname, hkind, field, hfield, hfieldname, arguments, target, hprovides, htarget,
    hplain⟩ := Subgraph.exists_of_offers hoffers
  refine ⟨set, m, hset, hm, hvalid, s, hs, d, hd, hkind, field, hfield, _, target, hprovides,
    htarget, hplain, fun hall => ?_⟩
  obtain ⟨hsubject, hedge⟩ := Bool.and_eq_true_iff.mp hmisses
  obtain ⟨e, he, hmissed⟩ := List.any_eq_true.mp hedge
  obtain ⟨hresolves, hnot⟩ := Bool.and_eq_true_iff.mp hmissed
  rw [hname, hfieldname] at hall
  have hfollows := hall 7 (beq_iff_eq.mp hsubject) e he hresolves
  -- the arguments of what is provided make no difference
  rw [followsAll_iff] at hfollows
  have hleaf := hfollows _ List.mem_cons_self
  rw [follows_field_iff] at hleaf
  have hplain : (ofSubgraphs set m).followsAll e.tail [.field "y" [] []] = true := by
    rw [followsAll_iff]
    intro selection hselection
    rw [List.mem_singleton.mp hselection, follows_field_iff]
    exact hleaf
  rw [hplain] at hnot
  cases hnot

/-- The field `t` of the two schemas has its turn before the query type is copied, so that the copy
provides what the original does. -/
theorem provided_fields_are_followed_of_nested :
    ∃ set m, SubgraphSet.ofSources [.nested, .provided] = .ok set ∧
      MergedSchema.ofSubgraphs set = .ok m ∧ ∃ arguments,
        (ofSubgraphs set m).subject? 10 = some ("Query", 0) ∧
        (ofSubgraphs set m).Provides "Query" 0 "t" [.field "x" arguments []] := by
  obtain ⟨set, m, s, hset, hm, hvalid, hs, -, hoffers, hjoined, hturn, hone, hcopied, -⟩ :=
    exists_nested
  obtain ⟨d, hd, hname, hkind, field, hfield, hfieldname, arguments, target, hprovides, htarget,
    hplain⟩ := Subgraph.exists_of_offers hoffers
  obtain ⟨hedge, hsubject⟩ := Bool.and_eq_true_iff.mp hcopied
  rw [← hname] at hjoined
  obtain ⟨-, -, hcopies⟩ := provided_fields_are_followed (SubgraphSet.ingested_ofSources hset) hm
    hvalid hs hd (.inl hkind) hfield hprovides htarget hplain hjoined
  rw [hname, hfieldname] at hcopies
  refine ⟨set, m, hset, hm, arguments, beq_iff_eq.mp hsubject, hcopies ?_ 1 ?_ ?_⟩
  · exact List.any_eq_true.mp hedge
  · exact fun p hp hhead => absurd hhead (hturn p hp)
  · intro v hv hquery
    obtain ⟨n, hn, -⟩ := subject?_eq_some.mp hquery
    have hfirst := List.all_eq_true.mp hone v (List.mem_range.mpr (node?_eq_some_lt hn))
    rcases Bool.or_eq_true_iff.mp hfirst with hzero | hother
    · exact absurd (beq_iff_eq.mp hzero) hv
    · exact absurd hquery (bne_iff_ne.mp hother)

end QueryGraph

end Federation
