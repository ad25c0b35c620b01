import Federation.Proofs.Merge.Tables
import Federation.Proofs.Subgraph.Plain
import Federation.Proofs.TypeRef.Agreement

/-!
# Types of merged fields

The type of a merged field, argument or input field is what its types in the subgraphs compose to,
in the order of the subgraphs, and whatever the subgraphs say about other fields. So it obeys the law
of consensus for outputs, or for inputs, except where a subgraph's type is one list level shallower
than the consensus of those before it.
-/

namespace Federation

/-! ## Tables of typed elements -/

/-- How items `α` of a table by name come to their types: every change `β` adds its own type, to be
composed with the type so far. -/
structure TypedTable (α β : Type) (composeIn? : TypeRef → TypeRef → Option TypeRef) where
  key : α → String
  keyOf : β → String
  fresh : β → α
  step : β → α → α
  consensus : α → TypeRef.Consensus
  typeOf : β → TypeRef
  key_fresh : ∀ b, key (fresh b) = keyOf b
  key_step : ∀ b a, key (step b a) = key a
  consensus_fresh : ∀ b, consensus (fresh b) = { type := typeOf b }
  consensus_step : ∀ b a, consensus (step b a) = (consensus a).absorb composeIn? (typeOf b)

namespace TypedTable

variable {α β : Type} {composeIn? : TypeRef → TypeRef → Option TypeRef}

/-- The table that some changes make. -/
def table (m : TypedTable α β composeIn?) (changes : List β) : List α :=
  upsertAll m.key m.keyOf m.fresh m.step [] changes

/-- The item of a name. -/
def item? (m : TypedTable α β composeIn?) (changes : List β) (name : String) : Option α :=
  (m.table changes).find? fun a => m.key a == name

/-- The types of the changes of a name. -/
def typesOf (m : TypedTable α β composeIn?) (changes : List β) (name : String) : List TypeRef :=
  (changes.filter fun b => m.keyOf b == name).map m.typeOf

theorem consensus_foldl (m : TypedTable α β composeIn?) (a : α) (changes : List β) :
    m.consensus (changes.foldl (fun a b => m.step b a) a) =
      (m.consensus a).absorbAll composeIn? (changes.map m.typeOf) := by
  induction changes generalizing a with
  | nil => rfl
  | cons b changes ih =>
    rw [List.foldl_cons, ih, m.consensus_step, List.map_cons]
    rfl

/-- The item of a name has the consensus of the types of all changes of its name. -/
theorem exists_consensus {winner : Bool} (m : TypedTable α β composeIn?)
    (h : TypeRef.Composes winner composeIn?) {changes : List β} {name : String} {t : TypeRef}
    {ts : List TypeRef} (htypes : m.typesOf changes name = t :: ts) :
    ∃ a, m.item? changes name = some a ∧
      m.consensus a = TypeRef.Consensus.absorbAll composeIn? { type := t } ts := by
  obtain ⟨first, rest, hchanges, rfl, rfl⟩ := List.map_eq_cons_iff.mp htypes
  refine ⟨_, find?_upsertAll_nil m.key_fresh m.key_step hchanges, ?_⟩
  -- the first type is composed with itself, because the item starts out with it
  rw [consensus_foldl, m.consensus_fresh, List.map_cons, TypeRef.Consensus.absorbAll,
    List.foldl_cons, TypeRef.absorb_self h, TypeRef.Consensus.absorbAll]

/-- The item of a name obeys the law of consensus exactly if it is marked as a disagreement, or no
type is one list level shallower than the consensus of those before it. It is marked exactly if some
type neither agrees with the consensus of those before it nor is one list level shallower. -/
theorem exists_isLawful_iff {winner : Bool} (m : TypedTable α β composeIn?)
    (h : TypeRef.Composes winner composeIn?) {changes : List β} {name : String} {t : TypeRef}
    {ts : List TypeRef} (htypes : m.typesOf changes name = t :: ts) :
    ∃ a, m.item? changes name = some a ∧
      ((m.consensus a).disagree = false ↔
        TypeRef.Along composeIn? (fun t u => t.AgreesWith u ∨ t.IsOneLevelDeeper u) t ts) ∧
      ((m.consensus a).IsLawful winner (t :: ts) ↔
        (m.consensus a).disagree = true ∨
          TypeRef.Along composeIn? (fun t u => ¬ t.IsOneLevelDeeper u) t ts) := by
  obtain ⟨a, ha, hconsensus⟩ := m.exists_consensus h htypes
  refine ⟨a, ha, ?_, ?_⟩
  · rw [hconsensus, TypeRef.disagree_absorbAll_eq_false_iff h]
    exact and_iff_right rfl
  · rw [hconsensus]
    exact TypeRef.isLawful_iff h t ts

/-- If the types of an item compose, they all have its named type. -/
theorem name_of_mem_table (m : TypedTable α β composeIn?) (h : TypeRef.KeepsName composeIn?)
    {changes : List β} {a : α} (ha : a ∈ m.table changes) (hagree : (m.consensus a).disagree = false) :
    (∃ b ∈ changes, m.keyOf b = m.key a) ∧
      ∀ b ∈ changes, m.keyOf b = m.key a → (m.typeOf b).name = (m.consensus a).type.name := by
  obtain ⟨first, rest, hchanges, hmade⟩ := exists_of_mem_upsertAll m.key_fresh m.key_step ha
  have hfirst := List.mem_filter.mp (hchanges ▸ List.mem_cons_self)
  rw [hmade, consensus_foldl, m.consensus_fresh] at hagree
  obtain ⟨htype, hall⟩ := TypeRef.name_absorbAll h hagree
  refine ⟨⟨first, hfirst.1, beq_iff_eq.mp hfirst.2⟩, fun b hb hkey => ?_⟩
  have hmem : b ∈ first :: rest := by
    rw [← hchanges]
    exact List.mem_filter.mpr ⟨hb, beq_iff_eq.mpr hkey⟩
  have hconsensus : (m.consensus a).type.name = (m.typeOf first).name := by
    rw [hmade, consensus_foldl, m.consensus_fresh, htype]
  rw [hconsensus, hall _ (List.mem_map_of_mem hmem)]

end TypedTable

/-! ## Fields, arguments and input fields -/

/-- The output fields of a type, as subgraphs add to them. -/
def MergedField.typedTable :
    TypedTable MergedField (SubgraphId × FieldInGraph) TypeRef.composeOutput? where
  key := MergedField.name
  keyOf e := e.2.definition.name
  fresh e := { name := e.2.definition.name, type := e.2.definition.type }
  step e m := m.absorb e.1 e.2
  consensus m := { type := m.type, disagree := m.typesDisagree }
  typeOf e := e.2.type
  key_fresh _ := rfl
  key_step _ _ := rfl
  consensus_fresh _ := rfl
  consensus_step _ _ := rfl

/-- The arguments of a field, or the input fields of a type, as subgraphs add to them. -/
def MergedInput.typedTable :
    TypedTable MergedInput (SubgraphId × InputInGraph) TypeRef.composeInput? where
  key := MergedInput.name
  keyOf e := e.2.name
  fresh e := { name := e.2.name, type := e.2.type }
  step e m := m.absorb e.1 e.2
  consensus m := { type := m.type, disagree := m.typesDisagree }
  typeOf e := e.2.type
  key_fresh _ := rfl
  key_step _ _ := rfl
  consensus_fresh _ := rfl
  consensus_step _ _ := rfl

/-- **The law of consensus for merged types, exactly.** Take all types that subgraphs give to the
output field of a name, in any order and among other fields. The merged field obeys the law of
consensus, in which nullable types win, exactly if it is marked as a disagreement or no type is one
list level shallower than the consensus of those before it; and it is marked exactly if some type
neither agrees with the consensus of those before it nor is one list level shallower. The same holds
of arguments and input fields, where non-null types win. -/
theorem merged_types_lawful_iff (name : String) (t : TypeRef) (ts : List TypeRef) :
    (∀ entries : List (SubgraphId × FieldInGraph),
      ((entries.filter fun e => e.2.definition.name == name).map fun e => e.2.type) = t :: ts →
      ∃ m, ((entries.foldl (fun fields e => MergedField.absorbInto fields e.1 e.2) []).find?
          fun m => m.name == name) = some m ∧
        (m.typesDisagree = false ↔ TypeRef.Along TypeRef.composeOutput?
          (fun t u => t.AgreesWith u ∨ t.IsOneLevelDeeper u) t ts) ∧
        (TypeRef.Consensus.IsLawful false ⟨m.type, m.typesDisagree⟩ (t :: ts) ↔
          m.typesDisagree = true ∨
            TypeRef.Along TypeRef.composeOutput? (fun t u => ¬ t.IsOneLevelDeeper u) t ts)) ∧
    (∀ entries : List (SubgraphId × InputInGraph),
      ((entries.filter fun e => e.2.name == name).map fun e => e.2.type) = t :: ts →
      ∃ m, ((entries.foldl (fun inputs e => MergedInput.absorbInto inputs e.1 e.2) []).find?
          fun m => m.name == name) = some m ∧
        (m.typesDisagree = false ↔ TypeRef.Along TypeRef.composeInput?
          (fun t u => t.AgreesWith u ∨ t.IsOneLevelDeeper u) t ts) ∧
        (TypeRef.Consensus.IsLawful true ⟨m.type, m.typesDisagree⟩ (t :: ts) ↔
          m.typesDisagree = true ∨
            TypeRef.Along TypeRef.composeInput? (fun t u => ¬ t.IsOneLevelDeeper u) t ts)) :=
  ⟨fun _ h => MergedField.typedTable.exists_isLawful_iff TypeRef.composes_composeOutput? h,
    fun _ h => MergedInput.typedTable.exists_isLawful_iff TypeRef.composes_composeInput? h⟩

/-- Two subgraphs have a list `x` of non-null integers, which is non-null in the first only. The
merged list is nullable where it is output, and non-null where it is input. -/
theorem merged_types_lawful_of_lists :
    (∃ m, (([(0, FieldInGraph.plain "x" ⟨"Int", ⟨true, [true]⟩⟩),
          (0, FieldInGraph.plain "y" ⟨"ID", ⟨true, []⟩⟩),
          (1, FieldInGraph.plain "x" ⟨"Int", ⟨true, [false]⟩⟩)].foldl
            (fun fields e => MergedField.absorbInto fields e.1 e.2) []).find?
          fun m => m.name == "x") = some m ∧
        TypeRef.Consensus.IsLawful false ⟨m.type, m.typesDisagree⟩
          [⟨"Int", ⟨true, [true]⟩⟩, ⟨"Int", ⟨true, [false]⟩⟩]) ∧
      ∃ m, (([(0, InputInGraph.plain "x" ⟨"Int", ⟨true, [true]⟩⟩),
          (0, InputInGraph.plain "y" ⟨"ID", ⟨true, []⟩⟩),
          (1, InputInGraph.plain "x" ⟨"Int", ⟨true, [false]⟩⟩)].foldl
            (fun inputs e => MergedInput.absorbInto inputs e.1 e.2) []).find?
          fun m => m.name == "x") = some m ∧
        TypeRef.Consensus.IsLawful true ⟨m.type, m.typesDisagree⟩
          [⟨"Int", ⟨true, [true]⟩⟩, ⟨"Int", ⟨true, [false]⟩⟩] := by
  have h := merged_types_lawful_iff "x" ⟨"Int", ⟨true, [true]⟩⟩ [⟨"Int", ⟨true, [false]⟩⟩]
  constructor
  · obtain ⟨m, hm, -, hlawful⟩ := h.1 [(0, FieldInGraph.plain "x" ⟨"Int", ⟨true, [true]⟩⟩),
      (0, FieldInGraph.plain "y" ⟨"ID", ⟨true, []⟩⟩),
      (1, FieldInGraph.plain "x" ⟨"Int", ⟨true, [false]⟩⟩)] rfl
    exact ⟨m, hm, hlawful.mpr (Or.inr (by decide))⟩
  · obtain ⟨m, hm, -, hlawful⟩ := h.2 [(0, InputInGraph.plain "x" ⟨"Int", ⟨true, [true]⟩⟩),
      (0, InputInGraph.plain "y" ⟨"ID", ⟨true, []⟩⟩),
      (1, InputInGraph.plain "x" ⟨"Int", ⟨true, [false]⟩⟩)] rfl
    exact ⟨m, hm, hlawful.mpr (Or.inr (by decide))⟩

/-- A list of lists in one subgraph and a list in the next are merged without a disagreement, though
they have different numbers of list levels. -/
theorem deeper_list_passes :
    ∃ m, (([(0, FieldInGraph.plain "x" ⟨"Int", ⟨false, [false, false]⟩⟩),
          (1, FieldInGraph.plain "x" ⟨"Int", ⟨false, [false]⟩⟩)].foldl
            (fun fields e => MergedField.absorbInto fields e.1 e.2) []).find?
          fun m => m.name == "x") = some m ∧
      m.typesDisagree = false ∧
      ¬ TypeRef.AllAgree
        [⟨"Int", ⟨false, [false, false]⟩⟩, ⟨"Int", ⟨false, [false]⟩⟩] :=
  ⟨_, rfl, rfl, by decide⟩

end Federation
