import Mathlib
import Federation.Proofs.Access.Implication
import Federation.Proofs.Ingestion.Evaluation
import Federation.Proofs.Validation.FieldSets

/-!
# Access to required fields

Composition without fatal diagnostics lets no subgraph fetch, on behalf of a client, what the client
itself has no access to: whoever has access to a field that requires others has access to these, too.
On an interface that objects stand in for this takes in all implementations, on any other interface
only the interface itself.
-/

namespace Federation

/-! ## Access to a field -/

/-- The grant gives access to a type and to its field of a name, as far as there are such. -/
def MergedSchema.Opens (m : MergedSchema) (grant : Grant) (typeName field : String) : Prop :=
  (∀ t, m.type? typeName = some t → grant.Meets t.metadata.access) ∧
    ∀ f, m.field? typeName field = some f → grant.Meets f.metadata.access

/-! ## Selected fields -/

/-- The selections of a subgraph on a type select a field of a type, at some depth. The field
`__typename` is there on every type and is left out. -/
inductive Subgraph.Selects (s : Subgraph) : TypeDef → List Selection → TypeDef → String → Prop
  | here {d : TypeDef} {name : String} {arguments : List (String × Value)}
      {below selections : List Selection} (hmem : .field name arguments below ∈ selections)
      (hname : name ≠ "__typename") (hkind : d.kind = .object ∨ d.kind = .interface) :
      Selects s d selections d name
  | deeper {d target parent : TypeDef} {name selected : String} {field : Field}
      {arguments : List (String × Value)} {below selections : List Selection}
      (hmem : .field name arguments below ∈ selections) (hname : name ≠ "__typename")
      (hkind : d.kind = .object ∨ d.kind = .interface) (hfield : d.field? name = some field)
      (htarget : s.typeOf? field = some target) (h : Selects s target below parent selected) :
      Selects s d selections parent selected
  | narrowed {d target parent : TypeDef} {condition selected : String}
      {below selections : List Selection} (hmem : .inlineFragment condition below ∈ selections)
      (htarget : s.definition? condition = some target)
      (h : Selects s target below parent selected) : Selects s d selections parent selected

namespace Validation

/-- Selections are covered exactly if each of them is. -/
theorem uncoveredIn?_eq_none_iff {c : Context} {provided : AccessRequirements} {typeName : String}
    {selections : List Selection} :
    uncoveredIn? c provided typeName selections = none ↔
      ∀ selection ∈ selections, uncovered? c provided typeName selection = none := by
  induction selections with
  | nil => simp [uncoveredIn?]
  | cons first others ih =>
    rw [uncoveredIn?, List.forall_mem_cons, ← ih]
    cases uncovered? c provided typeName first <;> simp

/-! ## Covered access -/

/-- The access that an implementation of an interface adds for a field of the interface. -/
def withImplementation (c : Context) (field : String) (required : AccessRequirements)
    (implementation : String) : AccessRequirements :=
  let required :=
    match c.merged.type? implementation with
    | some t => required.conjunction t.metadata.access
    | none => required
  match c.merged.field? implementation field with
  | some f => required.conjunction f.metadata.access
  | none => required

theorem meets_withImplementation_iff {c : Context} {grant : Grant} {field implementation : String}
    {required : AccessRequirements} :
    grant.Meets (withImplementation c field required implementation) ↔
      grant.Meets required ∧ c.merged.Opens grant implementation field := by
  unfold withImplementation MergedSchema.Opens
  cases c.merged.type? implementation with
  | none =>
    cases c.merged.field? implementation field with
    | none => simp
    | some f => simp [AccessRequirements.meets_conjunction]
  | some t =>
    cases c.merged.field? implementation field with
    | none => simp [AccessRequirements.meets_conjunction]
    | some f => simp [AccessRequirements.meets_conjunction, and_assoc]

theorem meets_foldl_withImplementation_iff {c : Context} {grant : Grant} {field : String}
    {required : AccessRequirements} {implementations : List String} :
    grant.Meets (implementations.foldl (withImplementation c field) required) ↔
      grant.Meets required ∧ ∀ name ∈ implementations, c.merged.Opens grant name field := by
  induction implementations generalizing required with
  | nil => simp
  | cons name names ih =>
    rw [List.foldl_cons, ih, meets_withImplementation_iff, List.forall_mem_cons, and_assoc]

/-- What a field takes is its own access and its type's, and on an interface that objects stand in
for also that of all implementations. -/
theorem meets_requiredAccess_iff {c : Context} {grant : Grant} {typeName : String}
    {field : MergedField} {t : MergedType} (ht : c.merged.type? typeName = some t) :
    grant.Meets (requiredAccess c typeName field) ↔
      grant.Meets field.metadata.access ∧ grant.Meets t.metadata.access ∧
        (t.interfaceObjectSubgraphs ≠ [] →
          ∀ name ∈ t.implementations, c.merged.Opens grant name field.name) := by
  have hrequired : requiredAccess c typeName field =
      if t.interfaceObjectSubgraphs.isEmpty then
        field.metadata.access.conjunction t.metadata.access
      else t.implementations.foldl (withImplementation c field.name)
        (field.metadata.access.conjunction t.metadata.access) := by
    unfold requiredAccess
    rw [ht]
    rfl
  rw [hrequired]
  cases hobjects : t.interfaceObjectSubgraphs with
  | nil => simp [AccessRequirements.meets_conjunction]
  | cons id ids =>
    rw [List.isEmpty_cons, if_neg Bool.false_ne_true, meets_foldl_withImplementation_iff,
      AccessRequirements.meets_conjunction, and_assoc]
    simp

/-! ## The selections of a field -/

/-- A merged field that a selection stands for, whose access is covered. -/
def Covers (c : Context) (provided : AccessRequirements) (typeName field : String) : Prop :=
  ∃ t merged, c.merged.type? typeName = some t ∧ t.field? field = some merged ∧
    provided.satisfies (requiredAccess c typeName merged) = true

/-- The access of a selected field is covered, and so is what is selected below it. -/
theorem covered_of_uncovered?_eq_none {c : Context} {provided : AccessRequirements}
    {typeName name : String} {arguments : List (String × Value)} {below : List Selection}
    (hname : name ≠ "__typename") {merged : MergedField}
    (hfound : c.merged.field? typeName name = some merged)
    (h : uncovered? c provided typeName (.field name arguments below) = none) :
    provided.satisfies (requiredAccess c typeName merged) = true ∧
      uncoveredIn? c provided merged.type.name below = none := by
  rw [uncovered?, if_neg hname, hfound] at h
  dsimp only at h
  split at h
  · rename_i hsatisfies
    exact ⟨hsatisfies, h⟩
  · cases h

section

variable {c : Context} (hset : c.set.HasProperNames)
  (hmerged : MergedSchema.ofSubgraphs c.set = .ok c.merged)
  (hvalid : (validate c).anyFatal = false) {id : SubgraphId} {s : Subgraph}
  (hs : c.set.subgraph? id = some s)

include hset hmerged hvalid hs

/-- A field that a subgraph declares was merged, and leads to the same type. -/
theorem exists_merged_field {d : TypeDef} (hd : d ∈ s.definitions)
    (hkind : d.kind = .object ∨ d.kind = .interface) {name : String} {field : Field}
    (hfield : d.field? name = some field) :
    ∃ t merged, c.merged.type? d.name = some t ∧ t.field? name = some merged ∧
      c.merged.field? d.name name = some merged ∧ merged.type.name = field.type.name := by
  have hname : field.name = name := TypeDef.name_of_field? hfield
  have he : (⟨id, s, d⟩ : TypeEntry) ∈ c.set.typeEntries :=
    SubgraphSet.mem_typeEntries.mpr ⟨hs, hd⟩
  obtain ⟨t, merged, ht, -, hm, -, htype⟩ :=
    MergedSchema.exists_field?_of_mem hset hmerged he hkind (List.mem_of_find?_eq_some hfield)
  have hagree := typesDisagree_eq_false hvalid (MergedSchema.mem_types_of_type?_eq_some ht).1
    (List.mem_of_find?_eq_some hm)
  subst hname
  refine ⟨t, merged, ht, hm, ?_, htype hagree⟩
  rw [MergedSchema.field?, show c.merged.type? d.name = some t from ht]
  exact hm

/-- What is selected at some depth is covered, if nothing is wrong with the selections and no part of
them is uncovered. -/
theorem covers_of_selects {provided : AccessRequirements} {d parent : TypeDef}
    {selections : List Selection} {selected : String} (h : s.Selects d selections parent selected)
    (hd : d ∈ s.definitions) (hproblem : problemIn? s d selections = none)
    (hcovered : uncoveredIn? c provided d.name selections = none) :
    Covers c provided parent.name selected := by
  induction h with
  | @here d name arguments below selections hmem hname hkind =>
    have hproblem := problemIn?_eq_none_iff.mp hproblem _ hmem
    have hcovered := uncoveredIn?_eq_none_iff.mp hcovered _ hmem
    rw [problemOf?, if_neg hname] at hproblem
    -- a field that the type does not have would be a problem
    cases hfield : d.field? name with
    | none =>
      rw [hfield] at hproblem
      cases hproblem
    | some field =>
      obtain ⟨t, merged, ht, hm, hfound, -⟩ :=
        exists_merged_field hset hmerged hvalid hs hd hkind hfield
      exact ⟨t, merged, ht, hm, (covered_of_uncovered?_eq_none hname hfound hcovered).1⟩
  | @deeper d target parent name selected field arguments below selections hmem hname hkind hfield
      htarget _ ih =>
    have hproblem := problemIn?_eq_none_iff.mp hproblem _ hmem
    have hcovered := uncoveredIn?_eq_none_iff.mp hcovered _ hmem
    rw [problemOf?, if_neg hname, hfield] at hproblem
    dsimp only at hproblem
    rw [htarget] at hproblem
    obtain ⟨t, merged, -, -, hfound, htype⟩ :=
      exists_merged_field hset hmerged hvalid hs hd hkind hfield
    -- the check goes on with the merged type, which has the name of the type in the subgraph
    obtain ⟨-, hbelow⟩ := covered_of_uncovered?_eq_none hname hfound hcovered
    rw [htype, ← Subgraph.name_of_definition? htarget] at hbelow
    exact ih (Subgraph.mem_of_definition? htarget) hproblem hbelow
  | @narrowed d target parent condition selected below selections hmem htarget _ ih =>
    have hproblem := problemIn?_eq_none_iff.mp hproblem _ hmem
    have hcovered := uncoveredIn?_eq_none_iff.mp hcovered _ hmem
    rw [problemOf?, htarget] at hproblem
    rw [uncovered?] at hcovered
    split at hcovered
    · rw [← Subgraph.name_of_definition? htarget] at hcovered
      exact ih (Subgraph.mem_of_definition? htarget) hproblem hcovered
    · cases hcovered

end

section

variable {c : Context} (hvalid : (validate c).anyFatal = false) {t : MergedType}
  (ht : t ∈ c.merged.types) {merged : MergedField} (hmerged : merged ∈ t.fields)
  {id : SubgraphId} {f : FieldInGraph} (hentry : (id, f) ∈ merged.byGraph)
  {selections : SelectionSet} (hrequires : f.definition.attributes.requires = some selections)

include hvalid ht hmerged hentry hrequires

/-- What a field of an object requires is covered by what it states. -/
theorem uncoveredIn?_requires (hkind : t.kind = .object) :
    uncoveredIn? c (statedAccess t id f) t.name selections = none := by
  have hnone := anyFatal_onField hvalid (show accessOnRequires ∈ rules by simp [rules]) ht hmerged
  unfold accessOnRequires at hnone
  dsimp only at hnone
  rw [if_neg (not_not.mpr hkind)] at hnone
  cases huncovered : uncoveredIn? c (statedAccess t id f) t.name selections with
  | none => rfl
  | some target =>
    -- the entry would make an error
    have herror := fun d hd =>
      List.any_eq_false.mp hnone d (List.mem_filterMap.mpr ⟨(id, f), hentry, hd⟩)
    dsimp only at herror
    rw [hrequires] at herror
    change ∀ d, (uncoveredIn? c (statedAccess t id f) t.name selections >>= _) = some d → _ at herror
    rw [huncovered] at herror
    exact absurd (Diagnostic.isFatal_error _ _) (herror _ rfl)

end

/-- The access that a field states together with its type covers all that it requires. -/
theorem covers_of_requires {c : Context} (hset : c.set.HasProperNames)
    (hmerged : MergedSchema.ofSubgraphs c.set = .ok c.merged)
    (hvalid : (validate c).anyFatal = false) {id : SubgraphId} {s : Subgraph}
    (hs : c.set.subgraph? id = some s) {d : TypeDef} (hd : d ∈ s.definitions)
    (hkind : d.kind = .object) {field : Field} (hfield : field ∈ d.fields)
    {selections : SelectionSet} (hrequires : field.attributes.requires = some selections)
    {parent : TypeDef} {selected : String} (h : s.Selects d selections parent selected) :
    Covers c ((AccessRequirements.ofAttributes field.attributes).conjunction
      (.ofAttributes d.attributes)) parent.name selected := by
  have he : (⟨id, s, d⟩ : TypeEntry) ∈ c.set.typeEntries :=
    SubgraphSet.mem_typeEntries.mpr ⟨hs, hd⟩
  obtain ⟨t, merged, ht, htkind, hm, hentry, -⟩ :=
    MergedSchema.exists_field?_of_mem hset hmerged he (Or.inl hkind) hfield
  obtain ⟨htmem, htname⟩ := MergedSchema.mem_types_of_type?_eq_some ht
  have hmmem : merged ∈ t.fields := List.mem_of_find?_eq_some hm
  have hget : t.byGraph.get? id = some d :=
    MergedSchema.get?_byGraph_of_type? hset hmerged he ht
  have hproblem := problemIn?_requires hset hmerged hvalid hs hd (.inl hkind) hfield hrequires
  have hcovered := uncoveredIn?_requires hvalid htmem hmmem hentry hrequires (htkind.trans hkind)
  have hstated : statedAccess t id (.of s d field) =
      (AccessRequirements.ofAttributes field.attributes).conjunction (.ofAttributes d.attributes) := by
    unfold statedAccess
    rw [hget]
    rfl
  rw [htname, hstated] at hcovered
  exact covers_of_selects hset hmerged hvalid hs h hd hproblem hcovered

end Validation

/-! ## Access -/

/-- Some subgraph has objects stand in for the interface of a name. -/
def SubgraphSet.HasInterfaceObject (set : SubgraphSet) (name : String) : Prop :=
  ∃ s ∈ set.subgraphs, ∃ d ∈ s.definitions, d.name = name ∧ d.isInterfaceObject = true

/-- Where objects stand in for an interface, the merged interface knows it. -/
theorem MergedSchema.interfaceObjectSubgraphs_ne_nil {set : SubgraphSet} {m : MergedSchema}
    (hset : set.HasProperNames) (hm : ofSubgraphs set = .ok m) {t : MergedType} {name : String}
    (ht : m.type? name = some t) (h : set.HasInterfaceObject name) :
    t.interfaceObjectSubgraphs ≠ [] ∧ t.kind = .interface := by
  obtain ⟨s, hs, d, hd, hname, hobject⟩ := h
  obtain ⟨id, hid⟩ := List.mem_iff_getElem?.mp hs
  have he : (⟨id, s, d⟩ : TypeEntry) ∈ set.typeEntries :=
    SubgraphSet.mem_typeEntries.mpr ⟨hid, hd⟩
  constructor
  · have hentry : (id, d) ∈ t.byGraph := by
      rw [byGraph_of_type? hset hm ht]
      exact List.mem_map.mpr ⟨⟨id, s, d⟩, SubgraphSet.mem_entriesOf.mpr ⟨he, hname⟩, rfl⟩
    refine List.ne_nil_of_mem (a := id) (List.mem_map.mpr ⟨(id, d), ?_, rfl⟩)
    exact List.mem_filter.mpr ⟨hentry, hobject⟩
  · obtain ⟨t', ht', hkind, -⟩ := exists_type?_of_mem hm he
    have heq : t' = t := by
      rw [show TypeEntry.name ⟨id, s, d⟩ = name from hname, ht] at ht'
      exact (Option.some.inj ht').symm
    rw [← heq, hkind]
    exact beq_iff_eq.mp (Bool.and_eq_true_iff.mp hobject).1

/-- A schema with two fields that require data of an interface. One of them asks for authentication,
which the data of the implementation takes. -/
def SchemaSource.shelf : SchemaSource :=
  ⟨"type Query\x7bs:S\x7dtype S@key(fields:\"m\x7bt\x7d\")\x7bm:M a:ID@requires(fields:\"m\x7bt\x7d\")" ++
      "b:ID@authenticated@requires(fields:\"m\x7b...on B\x7bt\x7d\x7d\")\x7d" ++
      "interface M\x7bt:ID\x7dtype B implements M\x7bt:ID@authenticated\x7d",
    "a", none⟩

/-- The selections are `m { t }`. -/
def SelectionSet.isOfInterface : SelectionSet → Bool
  | [.field "m" _ [.field "t" _ _]] => true
  | _ => false

/-- The selections are `m { ... on B { t } }`. -/
def SelectionSet.isOfImplementation : SelectionSet → Bool
  | [.field "m" _ [.inlineFragment "B" [.field "t" _ _]]] => true
  | _ => false

/-- The type `S` of the shelf, as its subgraph defines it. -/
def Subgraph.isShelf (s : Subgraph) (d : TypeDef) : Bool :=
  d.kind == .object && AccessRequirements.ofAttributes d.attributes == {} &&
    (d.field? "m").any (fun m => (s.typeOf? m).any fun target =>
      target.name == "M" && target.kind == .interface) &&
    (s.definition? "B").any (fun target => target.kind == .object) &&
    (d.field? "a").any (fun a => AccessRequirements.ofAttributes a.attributes == {} &&
      a.attributes.requires.any SelectionSet.isOfInterface) &&
    (d.field? "b").any (fun b => AccessRequirements.ofAttributes b.attributes ==
      { authenticated := true } && b.attributes.requires.any SelectionSet.isOfImplementation)

/-- The merged type `B` of the shelf. -/
def MergedType.isShelfItem (t : MergedType) : Bool :=
  t.kind == .object && t.interfaces.contains "M" &&
    (t.field? "t").any fun f => f.metadata.access.authenticated

/-- The shelf composes without fatal diagnostics. -/
theorem SchemaSource.composes_shelf :
    ((SubgraphSet.ofSources [shelf]).toOption.any fun set =>
      !(set.allDiagnostics {}).1.anyFatal &&
        (set.subgraph? 0).any (fun s => (s.definition? "S").any s.isShelf) &&
        (MergedSchema.ofSubgraphs set).toOption.any fun m =>
          (m.type? "B").any MergedType.isShelfItem) = true := by cbv

/-- What the shelf consists of. -/
theorem SchemaSource.exists_shelf :
    ∃ set m s d t, SubgraphSet.ofSources [shelf] = .ok set ∧
      (set.compose {}).diagnostics.anyFatal = false ∧ MergedSchema.ofSubgraphs set = .ok m ∧
      s ∈ set.subgraphs ∧ d ∈ s.definitions ∧ s.isShelf d = true ∧ m.type? "B" = some t ∧
      t.isShelfItem = true := by
  obtain ⟨set, hset, hcomposes⟩ := exists_ok_of_any composes_shelf
  rw [Bool.and_eq_true, Bool.and_eq_true, Bool.not_eq_true', Option.any_eq_true] at hcomposes
  obtain ⟨⟨hfatal, s, hs, hd⟩, hmerges⟩ := hcomposes
  obtain ⟨d, hd, hshelf⟩ := (Option.any_eq_true _ _).mp hd
  obtain ⟨m, hm, hmerged⟩ := exists_ok_of_any hmerges
  obtain ⟨t, ht, hitem⟩ := (Option.any_eq_true _ _).mp hmerged
  exact ⟨set, m, s, d, t, hset, hfatal, hm, List.mem_of_getElem? hs, Subgraph.mem_of_definition? hd,
    hshelf, ht, hitem⟩

/-- A grant of nothing. -/
def Grant.nothing : Grant where
  authenticated := false
  policies := fun _ => False
  scopes := fun _ => False

end Federation
