import Federation.Proofs.Ingestion.Evaluation
import Federation.Proofs.Ingestion.Reflection
import Federation.Proofs.Validation.FieldSets

/-!
# What field sets select

Validation follows a field set into the types of the fields that it selects, as long as the subgraph
defines them. All that it comes across exists if nothing fatal was found. It does not look at whether
fields have selections where their types call for them, and it looks for arguments of key fields at
the top only.
-/

namespace Federation

/-! ## Selections at any depth -/

/-- The selections of a subgraph on a type contain a selection on a type, at some depth, as far as
they lead to types that the subgraph defines. Nothing below `__typename` counts. -/
inductive Subgraph.Contains (s : Subgraph) :
    TypeDef → List Selection → TypeDef → Selection → Prop where
  | here {d : TypeDef} {selections : List Selection} {selection : Selection}
      (hmem : selection ∈ selections) : Contains s d selections d selection
  | ofField {d target parent : TypeDef} {selections below : List Selection} {name : String}
      {arguments : List (String × Value)} {field : Field} {selection : Selection}
      (hmem : .field name arguments below ∈ selections) (hname : name ≠ "__typename")
      (hfield : d.field? name = some field) (htarget : s.typeOf? field = some target)
      (h : Contains s target below parent selection) : Contains s d selections parent selection
  | ofFragment {d target parent : TypeDef} {selections below : List Selection}
      {condition : String} {selection : Selection}
      (hmem : .inlineFragment condition below ∈ selections)
      (htarget : s.definition? condition = some target)
      (h : Contains s target below parent selection) : Contains s d selections parent selection

/-- What the selections of a subgraph on a type lead to exists. -/
structure Subgraph.CanSelect (s : Subgraph) (d : TypeDef) (selections : List Selection) : Prop where
  fields : ∀ {parent name arguments below},
    s.Contains d selections parent (.field name arguments below) → name ≠ "__typename" →
      (∃ field, parent.field? name = some field) ∧
        (parent.kind = .object ∨ parent.kind = .interface ∨ parent.kind = .inputObject)
  fragments : ∀ {parent condition below},
    s.Contains d selections parent (.inlineFragment condition below) →
      ∃ target, s.definition? condition = some target

namespace Validation

/-- Nothing is wrong with what selections contain if nothing is wrong with them. -/
theorem problemOf?_of_contains {s : Subgraph} {d parent : TypeDef} {selections : List Selection}
    {selection : Selection} (h : s.Contains d selections parent selection)
    (hnone : problemIn? s d selections = none) : problemOf? s parent selection = none := by
  induction h with
  | here hmem => exact problemIn?_eq_none_iff.mp hnone _ hmem
  | ofField hmem hname hfield htarget _ ih =>
    have hfirst := problemIn?_eq_none_iff.mp hnone _ hmem
    rw [problemOf?, if_neg hname, hfield] at hfirst
    dsimp only at hfirst
    rw [htarget] at hfirst
    exact ih hfirst
  | ofFragment hmem htarget _ ih =>
    have hfirst := problemIn?_eq_none_iff.mp hnone _ hmem
    rw [problemOf?, htarget] at hfirst
    exact ih hfirst

end Validation

/-- Selections lead from a type of a subgraph to types of the subgraph. -/
theorem Subgraph.Contains.mem_definitions {s : Subgraph} {d parent : TypeDef}
    {selections : List Selection} {selection : Selection}
    (h : s.Contains d selections parent selection) (hd : d ∈ s.definitions) :
    parent ∈ s.definitions := by
  induction h with
  | here => exact hd
  | ofField _ _ _ htarget _ ih => exact ih (mem_of_definition? htarget)
  | ofFragment _ htarget _ ih => exact ih (mem_of_definition? htarget)

open Validation in
/-- If nothing is wrong with selections, what they lead to exists. -/
theorem SubgraphSet.Ingested.canSelect {set : SubgraphSet} (hset : set.Ingested) {s : Subgraph}
    (hs : s ∈ set.subgraphs) (hquiet : s.diagnostics.anyFatal = false) {d : TypeDef}
    (hd : d ∈ s.definitions) {selections : List Selection}
    (hnone : problemIn? s d selections = none) : s.CanSelect d selections where
  fields := by
    intro parent name arguments below h hname
    have hproblem := problemOf?_of_contains h hnone
    rw [problemOf?, if_neg hname] at hproblem
    cases hfield : parent.field? name with
    | none =>
      rw [hfield] at hproblem
      cases hproblem
    | some field =>
      have hmem : field ∈ parent.fields := List.mem_of_find?_eq_some hfield
      exact ⟨⟨field, rfl⟩, hset.kind_of_mem_fields hs hquiet (h.mem_definitions hd) hmem⟩
  fragments := by
    intro parent condition below h
    have hproblem := problemOf?_of_contains h hnone
    rw [problemOf?] at hproblem
    cases htarget : s.definition? condition with
    | none =>
      rw [htarget] at hproblem
      cases hproblem
    | some target => exact ⟨target, rfl⟩

/-! ## The main result -/

open Validation in
/-- **Accepted field sets select what exists**, at any depth. This goes for keys of objects and
interfaces and for what their fields require and provide. Key fields at the top take no arguments,
and something is provided only where there is something to select from. -/
theorem accepted_field_sets_select_what_exists {set : SubgraphSet} (hset : set.Ingested)
    {options : CompositionOptions}
    (hvalid : (set.compose options).diagnostics.anyFatal = false) {s : Subgraph}
    (hs : s ∈ set.subgraphs) {d : TypeDef} (hd : d ∈ s.definitions)
    (hkind : d.kind = .object ∨ d.kind = .interface) :
    (∀ key ∈ d.keys, s.CanSelect d key.selections ∧
      ∀ name arguments below, .field name arguments below ∈ key.selections →
        ∀ field, d.field? name = some field → field.arguments = []) ∧
      ∀ field ∈ d.fields,
        (∀ selections, field.attributes.requires = some selections → s.CanSelect d selections) ∧
          ∀ selections, field.attributes.provides = some selections →
            ∃ target, s.typeOf? field = some target ∧ target.kind.isComposite = true ∧
              s.CanSelect target selections := by
  have hquiet := SubgraphSet.anyFatal_diagnostics (SubgraphSet.anyFatal_baseDiagnostics hvalid) hs
  obtain ⟨m, hm, hrules⟩ := SubgraphSet.exists_merged_of_compose hvalid
  obtain ⟨id, hid⟩ := List.mem_iff_getElem?.mp hs
  have hproper : set.HasProperNames := hset.hasProperNames
  refine ⟨fun key hkey => ⟨?_, fun name arguments below hmem field hfield => ?_⟩,
    fun field hfield => ⟨fun selections hrequires => ?_, fun selections hprovides => ?_⟩⟩
  · exact hset.canSelect hs hquiet hd
      (problemIn?_key (c := ⟨set, m⟩) hproper hm hrules hid hd hkind hkey)
  · refine arguments_of_mem_topFields (c := ⟨set, m⟩) hproper hm hrules hid hd hkind hkey ?_
    exact List.mem_filterMap.mpr ⟨_, hmem, hfield⟩
  · exact hset.canSelect hs hquiet hd
      (problemIn?_requires (c := ⟨set, m⟩) hproper hm hrules hid hd hkind hfield hrequires)
  · obtain ⟨target, htarget, hcomposite⟩ :=
      exists_composite_of_provides (c := ⟨set, m⟩) hproper hm hrules hid hd hkind hfield hprovides
    refine ⟨target, htarget, hcomposite, hset.canSelect hs hquiet
      (Subgraph.mem_of_definition? htarget) ?_⟩
    exact problemIn?_provides (c := ⟨set, m⟩) hproper hm hrules hid hd hkind hfield hprovides htarget

/-! ## What is not looked at -/

namespace Subgraph

variable {s : Subgraph} {d : TypeDef} {selections : List Selection}

/-- All fields that selections on a type contain have a property, together with what is selected of
them. -/
def AllSelected (s : Subgraph) (d : TypeDef) (selections : List Selection)
    (P : Field → List Selection → Prop) : Prop :=
  ∀ {parent name arguments below field},
    s.Contains d selections parent (.field name arguments below) → name ≠ "__typename" →
      parent.field? name = some field → P field below

/-- Some field that is selected at the top has a property, together with what is selected of it. -/
def selectsSome (d : TypeDef) (selections : List Selection) (p : Field → List Selection → Bool) :
    Bool :=
  selections.any fun
    | .field name _ below => name != "__typename" && (d.field? name).any fun field => p field below
    | .inlineFragment _ _ => false

theorem exists_of_selectsSome {p : Field → List Selection → Bool}
    (h : selectsSome d selections p = true) : ∃ name arguments below field,
      .field name arguments below ∈ selections ∧ name ≠ "__typename" ∧
        d.field? name = some field ∧ p field below = true := by
  obtain ⟨selection, hmem, hp⟩ := List.any_eq_true.mp h
  cases selection with
  | field name arguments below =>
    rw [Bool.and_eq_true, bne_iff_ne, Option.any_eq_true] at hp
    obtain ⟨hname, field, hfield, hp⟩ := hp
    exact ⟨name, arguments, below, field, hmem, hname, hfield, hp⟩
  | inlineFragment condition below => cases hp

/-- A field at the top is one of those that are contained. -/
theorem not_allSelected {P : Field → List Selection → Prop} {p : Field → List Selection → Bool}
    (h : selectsSome d selections p = true) (hp : ∀ field below, p field below = true →
      ¬ P field below) : ¬ s.AllSelected d selections P := by
  obtain ⟨name, arguments, below, field, hmem, hname, hfield, hfails⟩ := exists_of_selectsSome h
  exact fun hall => hp field below hfails (hall (.here hmem) hname hfield)

/-- So is a field below the top. -/
theorem not_allSelected_below {P : Field → List Selection → Prop}
    {p : Field → List Selection → Bool}
    (h : selectsSome d selections (fun field below =>
      (s.typeOf? field).any fun target => selectsSome target below p) = true)
    (hp : ∀ field below, p field below = true → ¬ P field below) :
    ¬ s.AllSelected d selections P := by
  obtain ⟨name, arguments, below, field, hmem, hname, hfield, hbelow⟩ := exists_of_selectsSome h
  rw [Option.any_eq_true] at hbelow
  obtain ⟨target, htarget, hbelow⟩ := hbelow
  intro hall
  have htop : s.AllSelected target below P := fun hcontains =>
    hall (.ofField hmem hname hfield htarget hcontains)
  exact not_allSelected hbelow hp htop

/-- The key of some type has a property. -/
def anyKey (s : Subgraph) (p : TypeDef → List Selection → Bool) : Bool :=
  s.definitions.any fun d => d.keys.any fun key => p d key.selections

end Subgraph

/-- All keys have a property, if they are keys of types of compositions without fatal diagnostics. -/
def AcceptedKeysSatisfy (P : Subgraph → TypeDef → List Selection → Prop) : Prop :=
  ∀ set : SubgraphSet, set.Ingested → ∀ options,
    (set.compose options).diagnostics.anyFatal = false →
      ∀ s ∈ set.subgraphs, ∀ d ∈ s.definitions, ∀ key ∈ d.keys, P s d key.selections

/-- A key that is accepted has all properties that accepted keys have. -/
theorem not_acceptedKeysSatisfy {set : SubgraphSet} (hset : set.Ingested)
    {options : CompositionOptions} (hvalid : (set.compose options).diagnostics.anyFatal = false)
    {s : Subgraph} (hs : s ∈ set.subgraphs) {p : TypeDef → List Selection → Bool}
    (h : s.anyKey p = true) {P : Subgraph → TypeDef → List Selection → Prop}
    (hp : ∀ d selections, p d selections = true → ¬ P s d selections) :
    ¬ AcceptedKeysSatisfy P := by
  obtain ⟨d, hd, h⟩ := List.any_eq_true.mp h
  obtain ⟨key, hkey, hfails⟩ := List.any_eq_true.mp h
  exact fun hall => hp d key.selections hfails (hall set hset options hvalid s hs d hd key hkey)

/-- A schema with keys that are no selection sets of it. -/
def SchemaSource.loose : SchemaSource :=
  ⟨"type Query\x7bt:T\x7dtype T@key(fields:\"u\")@key(fields:\"e\x7b__typename\x7d\")" ++
    "@key(fields:\"id\x7bx\x7d\")@key(fields:\"u\x7bn\x7d\")\x7bid:ID e:E u:U\x7d" ++
    "type U\x7bn(a:Int):Int\x7denum E\x7bA\x7dunion V@key(fields:\"no\")=T", "a", none⟩

theorem SchemaSource.accepts_loose :
    ((SubgraphSet.ofSources [loose]).toOption.any fun set =>
      !(set.compose { runSatisfiability := false }).diagnostics.anyFatal &&
        set.subgraphs.any fun s =>
          (s.definitions.any fun d => d.kind == .object && !d.keys.isEmpty) &&
          s.anyKey (fun d selections => Subgraph.selectsSome d selections fun field below =>
            below.isEmpty && (s.typeOf? field).any fun target => target.kind.isComposite) &&
          s.anyKey (fun d selections => Subgraph.selectsSome d selections fun field below =>
            !below.isEmpty && (s.typeOf? field).all fun target => !target.kind.isComposite) &&
          s.anyKey (fun d selections => Subgraph.selectsSome d selections fun field below =>
            (s.typeOf? field).isNone && below.any fun selection =>
              selection.fieldName?.any (· != "__typename")) &&
          s.anyKey (fun d selections => Subgraph.selectsSome d selections fun field below =>
            (s.typeOf? field).any fun target =>
              Subgraph.selectsSome target below fun field _ => !field.arguments.isEmpty) &&
          s.anyKey (fun d selections => selections.any fun
            | .field name _ _ => name != "__typename" && (d.field? name).isNone
            | .inlineFragment _ _ => false)) = true := by
  rw [SubgraphSet.ofSources_eq_foldlM_insertSource]
  decide +kernel

/-- The keys of the object type in the schema select what exists. -/
theorem accepted_field_sets_select_what_exists_of_loose :
    ∃ set s d, SubgraphSet.ofSources [.loose] = .ok set ∧ s ∈ set.subgraphs ∧
      d ∈ s.definitions ∧ d.keys ≠ [] ∧ ∀ key ∈ d.keys, s.CanSelect d key.selections := by
  obtain ⟨set, hset, haccepted⟩ := exists_ok_of_any SchemaSource.accepts_loose
  rw [Bool.and_eq_true, Bool.not_eq_true'] at haccepted
  obtain ⟨hvalid, haccepted⟩ := haccepted
  obtain ⟨s, hs, hkeys⟩ := List.any_eq_true.mp haccepted
  simp only [Bool.and_eq_true] at hkeys
  obtain ⟨d, hd, hobject⟩ := List.any_eq_true.mp hkeys.1.1.1.1.1
  rw [Bool.and_eq_true, beq_iff_eq, Bool.not_eq_true', List.isEmpty_eq_false_iff] at hobject
  have hselect := accepted_field_sets_select_what_exists (SubgraphSet.ingested_ofSources hset)
    hvalid hs hd (.inl hobject.1)
  exact ⟨set, s, d, hset, hs, hd, hobject.2, fun key hkey => (hselect.1 key hkey).1⟩

/-- Accepted keys need not be selection sets: fields of composite types may be selected whole, other
fields in part, and fields below the top may take arguments. Keys of unions are not looked at. -/
theorem accepted_keys_need_not_be_selection_sets :
    ¬ AcceptedKeysSatisfy (fun s d selections => s.AllSelected d selections fun field below =>
      (∃ target, s.typeOf? field = some target ∧ target.kind.isComposite = true) → below ≠ []) ∧
    ¬ AcceptedKeysSatisfy (fun s d selections => s.AllSelected d selections fun field below =>
      below ≠ [] → ∃ target, s.typeOf? field = some target ∧ target.kind.isComposite = true) ∧
    ¬ AcceptedKeysSatisfy (fun s d selections => s.AllSelected d selections fun field below =>
      s.typeOf? field = none → ∀ selection ∈ below, ∀ name ∈ selection.fieldName?,
        name = "__typename") ∧
    ¬ AcceptedKeysSatisfy (fun s d selections => s.AllSelected d selections fun field _ =>
      field.arguments = []) ∧
    ¬ AcceptedKeysSatisfy fun s d selections => s.CanSelect d selections := by
  obtain ⟨set, hset, haccepted⟩ := exists_ok_of_any SchemaSource.accepts_loose
  have hingested := SubgraphSet.ingested_ofSources hset
  rw [Bool.and_eq_true, Bool.not_eq_true'] at haccepted
  obtain ⟨hvalid, haccepted⟩ := haccepted
  obtain ⟨s, hs, hkeys⟩ := List.any_eq_true.mp haccepted
  simp only [Bool.and_eq_true] at hkeys
  obtain ⟨⟨⟨⟨⟨-, hwhole⟩, hpart⟩, hundefined⟩, harguments⟩, hunion⟩ := hkeys
  refine ⟨?_, ?_, ?_, ?_, ?_⟩
  · refine not_acceptedKeysSatisfy hingested hvalid hs hwhole fun d selections hsome => ?_
    refine Subgraph.not_allSelected hsome fun field below hfails hall => ?_
    simp only [Bool.and_eq_true, List.isEmpty_iff, Option.any_eq_true] at hfails
    exact hall hfails.2 hfails.1
  · refine not_acceptedKeysSatisfy hingested hvalid hs hpart fun d selections hsome => ?_
    refine Subgraph.not_allSelected hsome fun field below hfails hall => ?_
    simp only [Bool.and_eq_true, Bool.not_eq_true', List.isEmpty_eq_false_iff, Option.all_eq_true]
      at hfails
    obtain ⟨target, htarget, hcomposite⟩ := hall hfails.1
    have hplain := hfails.2 target htarget
    rw [hcomposite] at hplain
    cases hplain
  · refine not_acceptedKeysSatisfy hingested hvalid hs hundefined fun d selections hsome => ?_
    refine Subgraph.not_allSelected hsome fun field below hfails hall => ?_
    simp only [Bool.and_eq_true, Option.isNone_iff_eq_none, List.any_eq_true, Option.any_eq_true,
      bne_iff_ne] at hfails
    obtain ⟨hnone, selection, hselection, name, hname, hne⟩ := hfails
    exact hne (hall hnone selection hselection name hname)
  · refine not_acceptedKeysSatisfy hingested hvalid hs harguments fun d selections hsome => ?_
    refine Subgraph.not_allSelected_below hsome fun field below hfails hall => ?_
    rw [hall] at hfails
    cases hfails
  · refine not_acceptedKeysSatisfy hingested hvalid hs hunion fun d selections hsome hall => ?_
    obtain ⟨selection, hmem, hfails⟩ := List.any_eq_true.mp hsome
    cases selection with
    | field name arguments below =>
      rw [Bool.and_eq_true, bne_iff_ne, Option.isNone_iff_eq_none] at hfails
      obtain ⟨⟨field, hfield⟩, -⟩ := hall.fields (.here hmem) hfails.1
      rw [hfails.2] at hfield
      cases hfield
    | inlineFragment condition below => cases hfails

end Federation
