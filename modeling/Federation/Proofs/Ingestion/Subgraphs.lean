import Federation.Proofs.Ingestion.Schema
import Mathlib.Data.List.Forall2
import Mathlib.Data.List.Perm.Subperm

/-!
# Sets of ingested subgraphs

A set of subgraphs comes about by adding schema texts one after the other. The names within each of
its subgraphs are proper, and the values of the subgraphs in the enumeration are unique. A text turns
into the same subgraph whatever was added before it, up to the order of the fields and the value in
the enumeration. Every type of a subgraph is marked with how the subgraph uses it; sorting the parts
of types afterwards changes no use.
-/

namespace Federation

/-! ## Completed subgraphs -/

/-- Sorting only changes the order. -/
theorem NameTable.perm_sortBy {α : Type} (t : NameTable) (key : α → String) (items : List α) :
    (t.sortBy key items).Perm items := by
  unfold sortBy
  have hperm := (List.mergeSort_perm
    (items.map fun item => ((t.rank? (key item)).getD t.newestFirst.length, item))
    fun a b => decide (a.1 ≤ b.1)).map Prod.snd
  rw [List.map_map] at hperm
  exact hperm.trans (List.Perm.of_eq (List.map_id items))

namespace Subgraph

/-- Noting the uses of fields and types leaves their names as they are. -/
theorem HasProperNames.withUsages {s : Subgraph} (h : s.HasProperNames) :
    s.withUsages.HasProperNames := by
  refine h.mapDefinitions (fun _ => rfl) fun d hd => ?_
  have hparts := h.parts d hd
  refine ⟨?_, hparts.enumValues, hparts.members, hparts.interfaces, ?_⟩
  · rw [List.map_map]
    exact hparts.fields
  · rw [List.forall_mem_map]
    exact hparts.fieldTypes

mutual

/-- The value in the enumeration has no part in what a selection uses. -/
theorem fieldsUsedBy_withEnumValue (s : Subgraph) (enumValue : String) (usage : FieldUsage)
    (parent : TypeDef) (selection : Selection) :
    fieldsUsedBy { s with enumValue := enumValue } usage parent selection =
      s.fieldsUsedBy usage parent selection := by
  cases selection with
  | field name arguments selections =>
    unfold fieldsUsedBy
    split
    · rfl
    · rename_i field _
      have htype : typeOf? { s with enumValue := enumValue } field = s.typeOf? field := rfl
      simp only [htype, fieldsUsedByAll_withEnumValue s enumValue usage _ selections]
  | inlineFragment condition selections =>
    unfold fieldsUsedBy
    have htype : definition? { s with enumValue := enumValue } condition =
        s.definition? condition := rfl
    simp only [htype, fieldsUsedByAll_withEnumValue s enumValue usage _ selections]

/-- The value in the enumeration has no part in what selections use. -/
theorem fieldsUsedByAll_withEnumValue (s : Subgraph) (enumValue : String) (usage : FieldUsage)
    (parent : TypeDef) (selections : List Selection) :
    fieldsUsedByAll { s with enumValue := enumValue } usage parent selections =
      s.fieldsUsedByAll usage parent selections := by
  cases selections with
  | nil => rfl
  | cons first others =>
    unfold fieldsUsedByAll
    rw [fieldsUsedBy_withEnumValue s enumValue usage parent first,
      fieldsUsedByAll_withEnumValue s enumValue usage parent others]

end

/-- The uses of fields and types do not depend on the value in the enumeration. -/
theorem withUsages_withEnumValue (s : Subgraph) (enumValue : String) :
    withUsages { s with enumValue := enumValue } = { s.withUsages with enumValue := enumValue } := by
  have hused : usedFields { s with enumValue := enumValue } = s.usedFields := by
    have hfield : ∀ d, fieldsUsedByField { s with enumValue := enumValue } d =
        s.fieldsUsedByField d := by
      intro d
      funext field
      simp only [fieldsUsedByField, fieldsUsedByAll_withEnumValue]
      rfl
    have htype : fieldsUsedByType { s with enumValue := enumValue } = s.fieldsUsedByType := by
      funext d
      simp only [fieldsUsedByType, fieldsUsedByAll_withEnumValue, hfield]
    unfold usedFields
    rw [htype]
  unfold withUsages
  rw [hused]
  rfl

/-- Ordering the parts of types keeps their names apart. -/
theorem HasProperNames.sorted {s : Subgraph} (h : s.HasProperNames) (names : NameTable) :
    (s.sorted names).HasProperNames := by
  have hnames : ∀ list : List String, ((s.definitionsIn list).map TypeDef.name).Nodup :=
    fun _ => h.types.sublist (List.filter_sublist.map TypeDef.name)
  refine h.mapDefinitions (fun _ => rfl) fun d hd => ?_
  have hparts := h.parts d hd
  have hperm := names.perm_sortBy Field.name d.fields
  refine ⟨?_, hparts.enumValues, hnames _, hnames _, fun field hfield => ?_⟩
  · exact (hperm.map Field.name).nodup_iff.mpr hparts.fields
  · exact hparts.fieldTypes field (hperm.mem_iff.mp hfield)

end Subgraph

/-! ## Subgraphs up to the order of fields -/

/-- The same type, perhaps with its fields in another order. -/
structure TypeDef.Alike (d d' : TypeDef) : Prop where
  rest : d' = { d with fields := d'.fields }
  fields : d'.fields.Perm d.fields

/-- The same subgraph, perhaps with another value in the enumeration and with the fields of its types
in another order. -/
structure Subgraph.Alike (s s' : Subgraph) : Prop where
  rest : s' = { s with enumValue := s'.enumValue, definitions := s'.definitions }
  definitions : List.Forall₂ TypeDef.Alike s.definitions s'.definitions

/-- Subgraphs that are sorted by different tables are alike. -/
theorem Subgraph.alike_sorted (s : Subgraph) (names names' : NameTable) (enumValue : String) :
    (s.sorted names).Alike (Subgraph.sorted names' { s with enumValue := enumValue }) := by
  refine ⟨rfl, ?_⟩
  show List.Forall₂ TypeDef.Alike (s.definitions.map _) (s.definitions.map _)
  rw [List.forall₂_map_left_iff, List.forall₂_map_right_iff]
  refine List.forall₂_same.mpr fun d _ => ⟨rfl, ?_⟩
  exact (names'.perm_sortBy Field.name d.fields).trans (names.perm_sortBy Field.name d.fields).symm

namespace SubgraphSet

/-! ## Building a subgraph -/

section

variable {schema : Document.Schema} (htypes : schema.HasPlainTypes)

include htypes

theorem name_build (names : NameTable) (empty : Subgraph) :
    (build schema names empty).subgraph.name = empty.name :=
  (lawful_ingestSchema htypes empty { names := names, subgraph := empty } rfl).1

/-- A built subgraph has proper names. -/
theorem hasProperNames_build (names : NameTable) {empty : Subgraph}
    (h : empty.HasProperNames) : (build schema names empty).subgraph.HasProperNames := by
  have hrun := (lawful_ingestSchema htypes empty { names := names, subgraph := empty } rfl).2.1 h
  exact hrun.withUsages.sorted _

/-- What is built under other labels is alike, and has the same limits. -/
theorem alike_build (names names' : NameTable) (empty : Subgraph) (enumValue : String) :
    (build schema names empty).subgraph.Alike
        (build schema names' { empty with enumValue := enumValue }).subgraph ∧
      (build schema names' { empty with enumValue := enumValue }).isBeyondLimit =
        (build schema names empty).isBeyondLimit ∧
      (build schema names' { empty with enumValue := enumValue }).subgraph.enumValue =
        enumValue := by
  let p : Progress := { names := names, subgraph := empty }
  obtain ⟨names'', hrun⟩ := (lawful_ingestSchema htypes empty p rfl).2.2 names' enumValue
  have hbuild : build schema names' { empty with enumValue := enumValue } =
      { ((ingestSchema schema).run p).2.relabel names'' enumValue with
        subgraph := Subgraph.sorted names''
          { ((ingestSchema schema).run p).2.subgraph.withUsages with enumValue := enumValue } } := by
    have hend : ((ingestSchema schema).run (p.relabel names' enumValue)).2 =
        ((ingestSchema schema).run p).2.relabel names'' enumValue := by rw [hrun]
    have hbuilt := congrArg (fun q : Progress =>
      { q with subgraph := q.subgraph.withUsages.sorted q.names }) hend
    rw [← Subgraph.withUsages_withEnumValue]
    exact hbuilt
  rw [hbuild]
  exact ⟨Subgraph.alike_sorted _ _ _ _, rfl, rfl⟩

end

/-! ## Values in the enumeration -/

theorem nodup_enumCandidates (base : String) (bound : Nat) :
    (enumCandidates base bound).Nodup := by
  have hnumbered : ∀ i j : Nat, s!"{base}_{i + 1}" = s!"{base}_{j + 1}" → i = j := by
    intro i j h
    have h' : base ++ "_" ++ (i + 1).repr = base ++ "_" ++ (j + 1).repr := h
    have hdigits := congrArg (fun text => Nat.ofDigitChars 10 text.toList 0)
      ((String.append_right_inj _).mp h')
    simp only [Nat.toList_repr, Nat.ofDigitChars_ten_toDigits] at hdigits
    omega
  refine List.nodup_cons.mpr ⟨fun hmem => ?_, ?_⟩
  · obtain ⟨i, -, hi⟩ := List.mem_map.mp hmem
    have hlength := congrArg String.length hi
    have hcandidate : s!"{base}_{i + 1}" = base ++ "_" ++ (i + 1).repr := rfl
    rw [hcandidate, String.length_append, String.length_append] at hlength
    have hone : "_".length = 1 := rfl
    omega
  · exact List.nodup_range.map fun i j => hnumbered i j

/-- The value that is chosen for a subgraph is not taken: there are more candidates than taken
values. -/
theorem freeEnumValue_notMem (taken : List String) (name : String) :
    freeEnumValue taken name ∉ taken := by
  show ((enumCandidates (enumBase name) taken.length).find? fun value =>
    !taken.contains value).getD (enumBase name) ∉ taken
  cases hfind : (enumCandidates (enumBase name) taken.length).find? fun value =>
      !taken.contains value with
  | some value =>
    have hvalue := List.find?_some hfind
    simpa using hvalue
  | none =>
    have hall : enumCandidates (enumBase name) taken.length ⊆ taken := by
      intro value hvalue
      simpa using List.find?_eq_none.mp hfind value hvalue
    have hle := ((nodup_enumCandidates (enumBase name) taken.length).subperm hall).length_le
    have hlength : (enumCandidates (enumBase name) taken.length).length = taken.length + 1 := by
      simp [enumCandidates]
    omega

/-! ## Sets -/

/-- The set comes about by adding schema texts one after the other. -/
inductive Ingested : SubgraphSet → Prop
  | empty : Ingested {}
  | add {set set' : SubgraphSet} {text name : String} {url : Option String} :
      Ingested set → set.addText text name url = .ok set' → Ingested set'

/-- A subgraph under construction has no types. -/
theorem hasProperNames_start (set : SubgraphSet) (name : String) (url : Option String) :
    (set.start name url).2.HasProperNames :=
  ⟨List.nodup_nil, fun _ hd => absurd hd (List.not_mem_nil)⟩

/-- Adding a schema adds what is built of it, or a subgraph without types if the name is taken. -/
theorem addText_cases {set set' : SubgraphSet} {text name : String} {url : Option String}
    (h : set.addText text name url = .ok set') :
    (∃ diagnostics, set'.names = (set.start name url).1 ∧ set'.subgraphs =
        set.subgraphs ++ [{ (set.start name url).2 with diagnostics := diagnostics }]) ∨
      ∃ schema, Document.Schema.read text = .ok schema ∧
        let p := build schema (set.start name url).1 (set.start name url).2
        set'.names = p.names ∧ set'.subgraphs = set.subgraphs ++ [p.subgraph] := by
  unfold addText at h
  cases hread : Document.Schema.read text with
  | error e =>
    rw [hread] at h
    cases h
  | ok schema =>
    rw [hread] at h
    have hadd : set.add schema name url = .ok set' := h
    unfold add at hadd
    dsimp only at hadd
    split at hadd
    · obtain rfl := Except.ok.inj hadd
      exact .inl ⟨_, rfl, rfl⟩
    · split at hadd
      · cases hadd
      · obtain rfl := Except.ok.inj hadd
        exact .inr ⟨schema, rfl, rfl, rfl⟩

/-- Adding a schema adds one subgraph, with proper names and a value that no other has. -/
theorem exists_of_addText {set set' : SubgraphSet} {text name : String} {url : Option String}
    (h : set.addText text name url = .ok set') :
    ∃ s, set'.subgraphs = set.subgraphs ++ [s] ∧ s.HasProperNames ∧
      s.enumValue ∉ set.subgraphs.map Subgraph.enumValue := by
  have hempty := set.hasProperNames_start name url
  have hfree : (set.start name url).2.enumValue ∉ set.subgraphs.map Subgraph.enumValue :=
    freeEnumValue_notMem _ _
  rcases addText_cases h with ⟨diagnostics, -, hadded⟩ | ⟨schema, hread, -, hadded⟩
  · exact ⟨_, hadded, ⟨hempty.types, hempty.parts⟩, hfree⟩
  · have htypes := Document.Schema.hasPlainTypes_read hread
    refine ⟨_, hadded, hasProperNames_build htypes _ hempty, ?_⟩
    have hvalue := (alike_build htypes (set.start name url).1 (set.start name url).1
      (set.start name url).2 (set.start name url).2.enumValue).2.2
    rw [hvalue]
    exact hfree

/-- The names within ingested subgraphs are proper. -/
theorem Ingested.hasProperNames {set : SubgraphSet} (h : set.Ingested) :
    ∀ s ∈ set.subgraphs, s.HasProperNames := by
  induction h with
  | empty => exact fun _ hs => absurd hs List.not_mem_nil
  | add _ hadd ih =>
    obtain ⟨added, hsubgraphs, hunique, -⟩ := exists_of_addText hadd
    intro s hs
    rw [hsubgraphs] at hs
    rcases List.mem_append.mp hs with hs | hs
    · exact ih s hs
    · rw [List.mem_singleton.mp hs]
      exact hunique

/-- No two subgraphs have the same value in the enumeration. -/
theorem Ingested.nodup_enumValues {set : SubgraphSet} (h : set.Ingested) :
    (set.subgraphs.map Subgraph.enumValue).Nodup := by
  induction h with
  | empty => exact List.nodup_nil
  | add _ hadd ih =>
    obtain ⟨added, hsubgraphs, -, hfree⟩ := exists_of_addText hadd
    rw [hsubgraphs, List.map_append, List.map_singleton, ← List.concat_eq_append]
    exact ih.concat hfree

end SubgraphSet

/-! ## Uses of types -/

namespace Subgraph

/-- Some argument or input field has the type of a name. -/
def UsesAsInput (s : Subgraph) (name : String) : Prop :=
  ∃ d ∈ s.definitions, ∃ field ∈ d.fields,
    d.kind = .inputObject ∧ field.type.name = name ∨ ∃ a ∈ field.arguments, a.type.name = name

/-- Some output field has the type of a name. -/
def UsesAsOutput (s : Subgraph) (name : String) : Prop :=
  ∃ d ∈ s.definitions, d.kind ≠ .inputObject ∧ ∃ field ∈ d.fields, field.type.name = name

/-- Every type is marked with how the subgraph uses it. -/
structure MarksUses (s : Subgraph) : Prop where
  input : ∀ d ∈ s.definitions, (d.isUsedAsInput = true ↔ s.UsesAsInput d.name)
  output : ∀ d ∈ s.definitions, (d.isUsedAsOutput = true ↔ s.UsesAsOutput d.name)

theorem mem_inputTypeNames {s : Subgraph} {name : String} :
    name ∈ s.inputTypeNames ↔ s.UsesAsInput name := by
  unfold inputTypeNames UsesAsInput
  simp only [List.mem_flatMap, List.mem_append, List.mem_map]
  refine exists_congr fun d => and_congr_right fun _ => ?_
  by_cases hkind : d.kind = .inputObject
  · simp only [hkind, beq_self_eq_true, if_true, List.mem_map, true_and, and_or_left, exists_or]
  · simp [hkind]

theorem mem_outputTypeNames {s : Subgraph} {name : String} :
    name ∈ s.outputTypeNames ↔ s.UsesAsOutput name := by
  unfold outputTypeNames UsesAsOutput
  rw [List.mem_flatMap]
  refine exists_congr fun d => and_congr_right fun _ => ?_
  by_cases hkind : d.kind = .inputObject
  · simp [hkind]
  · simp [hkind, List.mem_map]

/-- Marking and sorting change no use as input. -/
theorem usesAsInput_sorted_withUsages (s : Subgraph) (names : NameTable) (name : String) :
    (s.withUsages.sorted names).UsesAsInput name ↔ s.UsesAsInput name := by
  unfold UsesAsInput sorted withUsages
  simp only [List.mem_map, exists_exists_and_eq_and, (names.perm_sortBy _ _).mem_iff]

/-- Marking and sorting change no use as output. -/
theorem usesAsOutput_sorted_withUsages (s : Subgraph) (names : NameTable) (name : String) :
    (s.withUsages.sorted names).UsesAsOutput name ↔ s.UsesAsOutput name := by
  unfold UsesAsOutput sorted withUsages
  simp only [List.mem_map, exists_exists_and_eq_and, (names.perm_sortBy _ _).mem_iff]

/-- Completed subgraphs mark their types with their uses. -/
theorem marksUses_sorted_withUsages (s : Subgraph) (names : NameTable) :
    (s.withUsages.sorted names).MarksUses := by
  constructor
  · intro d hd
    obtain ⟨d', hd', rfl⟩ := List.mem_map.mp hd
    obtain ⟨original, -, rfl⟩ := List.mem_map.mp hd'
    rw [usesAsInput_sorted_withUsages, ← mem_inputTypeNames]
    exact List.contains_iff_mem
  · intro d hd
    obtain ⟨d', hd', rfl⟩ := List.mem_map.mp hd
    obtain ⟨original, -, rfl⟩ := List.mem_map.mp hd'
    rw [usesAsOutput_sorted_withUsages, ← mem_outputTypeNames]
    exact List.contains_iff_mem

end Subgraph

/-- **Ingested subgraphs mark their types with their uses.** -/
theorem SubgraphSet.Ingested.marksUses {set : SubgraphSet} (h : set.Ingested) :
    ∀ s ∈ set.subgraphs, s.MarksUses := by
  induction h with
  | empty => exact fun _ hs => absurd hs List.not_mem_nil
  | @add set set' text name url _ hadd ih =>
    have hlast : ∃ s, set'.subgraphs = set.subgraphs ++ [s] ∧ s.MarksUses := by
      rcases addText_cases hadd with ⟨diagnostics, -, hadded⟩ | ⟨schema, -, -, hadded⟩
      · exact ⟨_, hadded, ⟨fun _ hd => absurd hd List.not_mem_nil,
          fun _ hd => absurd hd List.not_mem_nil⟩⟩
      · exact ⟨_, hadded, Subgraph.marksUses_sorted_withUsages _ _⟩
    obtain ⟨added, hsubgraphs, hmarks⟩ := hlast
    intro s hs
    rw [hsubgraphs] at hs
    rcases List.mem_append.mp hs with hs | hs
    · exact ih s hs
    · rw [List.mem_singleton.mp hs]
      exact hmarks

end Federation
