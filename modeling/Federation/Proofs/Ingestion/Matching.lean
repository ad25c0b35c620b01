import Federation.Proofs.Ingestion.Subgraphs
import Federation.Proofs.Ingestion.Summaries
import Federation.Proofs.Merge.Tables
import Federation.Proofs.Shuffled

/-!
# Matching subgraphs

Subgraphs match if they have the same types in any order, and the same was found in any order. The
fields of a type, its members and its interfaces may come in another order too, and fields may stand
in other blocks. Subgraphs of the same summary are completed to matching ones.
-/

namespace Federation

/-! ## Matching -/

/-- The types are the same up to the order of fields, members and interfaces and up to the blocks in
which fields stand. -/
structure TypeDef.Matches (d d' : TypeDef) : Prop where
  rest : d' = { d with fields := d'.fields, members := d'.members, interfaces := d'.interfaces }
  fields : (d'.fields.map Field.placeless).Perm (d.fields.map Field.placeless)
  members : d'.members.Perm d.members
  interfaces : d'.interfaces.Perm d.interfaces

/-- The subgraphs are the same up to the order of types, of their parts and of what was found. -/
structure Subgraph.Matches (s s' : Subgraph) : Prop where
  rest : s' = { s with definitions := s'.definitions, diagnostics := s'.diagnostics }
  definitions : Shuffled TypeDef.Matches s.definitions s'.definitions
  diagnostics : s'.diagnostics.Perm s.diagnostics

theorem TypeDef.matches_self (d : TypeDef) : d.Matches d :=
  ⟨rfl, .refl _, .refl _, .refl _⟩

theorem Subgraph.matches_self (s : Subgraph) : s.Matches s :=
  ⟨rfl, .of_forall₂ (List.forall₂_same.mpr fun d _ => d.matches_self), .refl _⟩

namespace Subgraph.Matches

variable {s s' : Subgraph} (h : s.Matches s')

include h

/-- What is found in matching subgraphs is fatal in both or in none. -/
theorem anyFatal_eq : s'.diagnostics.anyFatal = s.diagnostics.anyFatal :=
  h.diagnostics.any_eq

/-- In matching subgraphs a block serves federation itself, or in none. -/
theorem isMachinery_eq (block : Document.TypeBlock) :
    isMachinery s' block = isMachinery s block := by
  rw [h.rest]
  rfl

/-- In matching subgraphs a block is of the same kind. -/
theorem kindOf_eq (block : Document.TypeBlock) : kindOf s' block = kindOf s block := by
  rw [h.rest]
  rfl

end Subgraph.Matches

/-! ## Types of the same names -/

namespace TypeDef

variable {d d' : TypeDef} (h : d.placeless = d'.placeless)

include h

theorem name_eq_of_placeless : d.name = d'.name :=
  (congrArg TypeDef.name h :)

theorem kind_eq_of_placeless : d.kind = d'.kind :=
  (congrArg TypeDef.kind h :)

theorem fields_eq_of_placeless : d.fields.map Field.placeless = d'.fields.map Field.placeless :=
  (congrArg TypeDef.fields h :)

/-- Fields of the same name differ in their places only. -/
theorem field?_eq_of_placeless (name : String) :
    (d.field? name).map Field.placeless = (d'.field? name).map Field.placeless := by
  rw [← field?_placeless, ← field?_placeless, h]

end TypeDef

/-- A table without places finds the types of the same names in both subgraphs. -/
def Subgraph.FindsAlike (s s' : Subgraph) : Prop :=
  ∀ name, (s.definition? name).map TypeDef.placeless = (s'.definition? name).map TypeDef.placeless

namespace Subgraph.FindsAlike

variable {s s' : Subgraph}

section

variable (h : s.FindsAlike s')

include h

/-- What is found by a name is found in both subgraphs or in none. -/
theorem definition?_cases (name : String) :
    (s.definition? name = none ∧ s'.definition? name = none) ∨
      ∃ d d', s.definition? name = some d ∧ s'.definition? name = some d' ∧
        d.placeless = d'.placeless := by
  have hname := h name
  cases hd : s.definition? name with
  | none =>
    rw [hd, Option.map_none, eq_comm, Option.map_eq_none_iff] at hname
    exact .inl ⟨rfl, hname⟩
  | some d =>
    rw [hd, Option.map_some, eq_comm, Option.map_eq_some_iff] at hname
    obtain ⟨d', hd', hplaceless⟩ := hname
    exact .inr ⟨d, d', rfl, hd', hplaceless.symm⟩

/-- The subgraphs have the same types, in some order, if their types have different names. -/
theorem shuffled (hs : (s.definitions.map TypeDef.name).Nodup)
    (hs' : (s'.definitions.map TypeDef.name).Nodup) :
    Shuffled (fun d d' => d.placeless = d'.placeless) s.definitions s'.definitions := by
  have hnodup : ∀ {t : Subgraph}, (t.definitions.map TypeDef.name).Nodup →
      (t.definitions.map TypeDef.placeless).Nodup := by
    intro t ht
    refine List.Nodup.of_map TypeDef.name ?_
    rw [List.map_map]
    exact ht
  have hfound : ∀ {t : Subgraph}, (t.definitions.map TypeDef.name).Nodup → ∀ e : TypeDef,
      e ∈ t.definitions.map TypeDef.placeless ↔
        (t.definition? e.name).map TypeDef.placeless = some e := by
    intro t ht e
    rw [List.mem_map, Option.map_eq_some_iff]
    refine exists_congr fun d => and_congr_left fun heq => ?_
    have hname : d.name = e.name := (congrArg TypeDef.name heq :)
    rw [← hname]
    exact ⟨find?_key_eq_some ht, mem_of_definition?⟩
  have hperm :
      (s.definitions.map TypeDef.placeless).Perm (s'.definitions.map TypeDef.placeless) := by
    refine (List.perm_ext_iff_of_nodup (hnodup hs) (hnodup hs')).mpr fun e => ?_
    rw [hfound hs, hfound hs', h e.name]
  exact Shuffled.of_map (Shuffled.of_perm hperm)

/-! ### Uses of fields -/

/-- The types of fields that differ in their places only are found in both subgraphs or in none. -/
theorem typeOf?_cases {f f' : Field} (hf : f.placeless = f'.placeless) :
    (s.typeOf? f = none ∧ s'.typeOf? f' = none) ∨
      ∃ d d', s.typeOf? f = some d ∧ s'.typeOf? f' = some d' ∧ d.placeless = d'.placeless := by
  have htype : f.type = f'.type := (congrArg Field.type hf :)
  unfold typeOf?
  rw [htype]
  exact h.definition?_cases f'.type.name

end

mutual

/-- A selection uses the same fields. -/
theorem fieldsUsedBy_eq (h : s.FindsAlike s') (usage : FieldUsage) {parent parent' : TypeDef}
    (hparent : parent.placeless = parent'.placeless) (selection : Selection) :
    s.fieldsUsedBy usage parent selection = s'.fieldsUsedBy usage parent' selection := by
  cases selection with
  | field name arguments selections =>
    have hfield := TypeDef.field?_eq_of_placeless hparent name
    unfold fieldsUsedBy
    cases hf : parent.field? name with
    | none =>
      rw [hf, Option.map_none, eq_comm, Option.map_eq_none_iff] at hfield
      rw [hfield]
    | some f =>
      rw [hf, Option.map_some, eq_comm, Option.map_eq_some_iff] at hfield
      obtain ⟨f', hf', hplaceless⟩ := hfield
      rw [hf', TypeDef.name_eq_of_placeless hparent]
      dsimp only
      rcases h.typeOf?_cases hplaceless.symm with ⟨hnone, hnone'⟩ | ⟨d, d', hd, hd', htarget⟩
      · rw [hnone, hnone']
      · rw [hd, hd']
        exact congrArg _ (fieldsUsedByAll_eq h usage htarget selections)
  | inlineFragment condition selections =>
    unfold fieldsUsedBy
    rcases h.definition?_cases condition with ⟨hnone, hnone'⟩ | ⟨d, d', hd, hd', htarget⟩
    · rw [hnone, hnone']
    · rw [hd, hd']
      exact fieldsUsedByAll_eq h usage htarget selections

/-- Selections use the same fields. -/
theorem fieldsUsedByAll_eq (h : s.FindsAlike s') (usage : FieldUsage) {parent parent' : TypeDef}
    (hparent : parent.placeless = parent'.placeless) (selections : List Selection) :
    s.fieldsUsedByAll usage parent selections = s'.fieldsUsedByAll usage parent' selections := by
  cases selections with
  | nil => rfl
  | cons first others =>
    unfold fieldsUsedByAll
    rw [fieldsUsedBy_eq h usage hparent first, fieldsUsedByAll_eq h usage hparent others]

end

variable (h : s.FindsAlike s')

include h

/-- The directives of a field use the same fields. -/
theorem fieldsUsedByField_eq {d d' : TypeDef} (hd : d.placeless = d'.placeless) (f : Field) :
    s.fieldsUsedByField d f = s'.fieldsUsedByField d' f := by
  unfold fieldsUsedByField
  rcases h.typeOf?_cases (f := f) rfl with ⟨hnone, hnone'⟩ | ⟨target, target', ht, ht', htarget⟩
  · rw [hnone, hnone']
    simp only [h.fieldsUsedByAll_eq _ hd]
    cases f.attributes.provides <;> rfl
  · rw [ht, ht']
    simp only [h.fieldsUsedByAll_eq _ hd]
    cases f.attributes.provides with
    | none => rfl
    | some selections => exact congrArg _ (h.fieldsUsedByAll_eq _ htarget selections)

/-- Types that differ in places only use the same fields. -/
theorem fieldsUsedByType_eq {d d' : TypeDef} (hd : d.placeless = d'.placeless) :
    s.fieldsUsedByType d = s'.fieldsUsedByType d' := by
  have hkeys : d.keys = d'.keys := (congrArg TypeDef.keys hd :)
  -- no use of a field depends on its place
  have hplaceless : ∀ (t : Subgraph) (e : TypeDef), e.fields.flatMap (t.fieldsUsedByField e) =
      (e.fields.map Field.placeless).flatMap (t.fieldsUsedByField e) := by
    intro t e
    rw [List.flatMap_map]
    rfl
  have hfield : s.fieldsUsedByField d = s'.fieldsUsedByField d' :=
    funext (h.fieldsUsedByField_eq hd)
  unfold fieldsUsedByType
  rw [hplaceless, hplaceless s', ← TypeDef.fields_eq_of_placeless hd, hkeys, hfield]
  simp only [h.fieldsUsedByAll_eq _ hd]

end Subgraph.FindsAlike

/-! ## Completion -/

theorem FieldUsage.union_right_comm (a b c : FieldUsage) :
    (a.union b).union c = (a.union c).union b := by
  simp only [union, Bool.or_right_comm]

namespace Subgraph

/-- The order in which the uses of a field are found makes no difference. -/
theorem usageIn_perm {used used' : List UsedField} (h : used.Perm used')
    (typeName fieldName : String) :
    usageIn used typeName fieldName = usageIn used' typeName fieldName := by
  refine h.foldl_eq' (fun u _ v _ usage => ?_) _
  split
  · split
    · exact FieldUsage.union_right_comm _ _ _
    · rfl
  · rfl

/-- Whatever is collected from the types is the same up to order, if no place counts. -/
theorem perm_flatMap_of_shuffled {α : Type} {f g : TypeDef → List α}
    (hfg : ∀ d d' : TypeDef, d.placeless = d'.placeless → f d = g d') {l l' : List TypeDef}
    (h : Shuffled (fun d d' => d.placeless = d'.placeless) l l') :
    (l.flatMap f).Perm (l'.flatMap g) :=
  (h.flatMap fun d d' hd => hfg d d' hd ▸ .of_perm (.refl (f d))).perm

/-- The names of the types in a list, in the order in which the subgraph defines them. -/
theorem map_name_definitionsIn (s : Subgraph) (names : List String) :
    (s.definitionsIn names).map TypeDef.name =
      (s.definitions.map TypeDef.name).filter fun name => names.contains name := by
  rw [List.filter_map]
  rfl

/-- Noting uses leaves the names of types as they are. -/
theorem map_name_withUsages (s : Subgraph) :
    s.withUsages.definitions.map TypeDef.name = s.definitions.map TypeDef.name :=
  List.map_map

theorem inputTypeNames_eq (s : Subgraph) : s.inputTypeNames = s.definitions.flatMap fun d =>
    (if d.kind == .inputObject then (d.fields.map Field.placeless).map (·.type.name) else []) ++
      (d.fields.map Field.placeless).flatMap fun field => field.arguments.map (·.type.name) := by
  unfold inputTypeNames
  simp only [List.map_map, List.flatMap_map]
  rfl

theorem outputTypeNames_eq (s : Subgraph) : s.outputTypeNames = s.definitions.flatMap fun d =>
    if d.kind == .inputObject then [] else (d.fields.map Field.placeless).map (·.type.name) := by
  unfold outputTypeNames
  simp only [List.map_map]
  rfl

variable {s s' : Subgraph} (h : s.FindsAlike s') (hs : (s.definitions.map TypeDef.name).Nodup)
  (hs' : (s'.definitions.map TypeDef.name).Nodup)

include h hs hs'

/-- Completed types match. -/
theorem shuffled_sorted_withUsages (names names' : NameTable) :
    Shuffled TypeDef.Matches (s.withUsages.sorted names).definitions
      (s'.withUsages.sorted names').definitions := by
  have hshuffled := h.shuffled hs hs'
  have hnames : (s.definitions.map TypeDef.name).Perm (s'.definitions.map TypeDef.name) :=
    (hshuffled.map fun d d' hd => TypeDef.name_eq_of_placeless hd).perm
  have hused : s.usedFields.Perm s'.usedFields :=
    perm_flatMap_of_shuffled (fun _ _ => h.fieldsUsedByType_eq) hshuffled
  have hinputs : s.inputTypeNames.Perm s'.inputTypeNames := by
    rw [inputTypeNames_eq, inputTypeNames_eq]
    refine perm_flatMap_of_shuffled (fun d d' hd => ?_) hshuffled
    rw [TypeDef.fields_eq_of_placeless hd, TypeDef.kind_eq_of_placeless hd]
  have houtputs : s.outputTypeNames.Perm s'.outputTypeNames := by
    rw [outputTypeNames_eq, outputTypeNames_eq]
    refine perm_flatMap_of_shuffled (fun d d' hd => ?_) hshuffled
    rw [TypeDef.fields_eq_of_placeless hd, TypeDef.kind_eq_of_placeless hd]
  have hdefined : ∀ list : List String,
      ((s'.withUsages.definitionsIn list).map TypeDef.name).Perm
        ((s.withUsages.definitionsIn list).map TypeDef.name) := by
    intro list
    rw [map_name_definitionsIn, map_name_definitionsIn, map_name_withUsages, map_name_withUsages]
    exact hnames.symm.filter _
  show Shuffled TypeDef.Matches ((s.definitions.map _).map _) ((s'.definitions.map _).map _)
  rw [List.map_map, List.map_map]
  refine hshuffled.map fun d d' hd => ?_
  obtain ⟨fields, rfl⟩ : ∃ fields, d' = { d with fields := fields } :=
    ⟨d'.fields, (congrArg (fun e : TypeDef => { e with fields := d'.fields }) hd :).symm⟩
  have hfields := TypeDef.fields_eq_of_placeless hd
  constructor
  · dsimp only [Function.comp_apply]
    rw [hinputs.contains_eq, houtputs.contains_eq]
  · -- sorting and noting uses have nothing to do with places
    refine ((names'.perm_sortBy Field.name _).map Field.placeless).trans
      (.trans ?_ ((names.perm_sortBy Field.name _).map Field.placeless).symm)
    have hnoted : ∀ (used : List UsedField) (l : List Field),
        (l.map fun f => { f with usage := usageIn used d.name f.name }).map Field.placeless =
          (l.map Field.placeless).map fun f => { f with usage := usageIn used d.name f.name } := by
      intro used l
      rw [List.map_map, List.map_map]
      rfl
    rw [hnoted, hnoted, ← hfields]
    refine .of_eq (List.map_congr_left fun f _ => ?_)
    rw [usageIn_perm hused]
  · exact hdefined d.members
  · exact hdefined d.interfaces

end Subgraph

/-- Roots are told by the types that are registered for them. -/
theorem RootTypes.ext_get {r r' : RootTypes} (h : r.get = r'.get) : r = r' := by
  have hquery : r.query = r'.query := congrFun h .query
  have hmutation : r.mutation = r'.mutation := congrFun h .mutation
  have hsubscription : r.subscription = r'.subscription := congrFun h .subscription
  cases r
  cases r'
  dsimp only at hquery hmutation hsubscription
  rw [hquery, hmutation, hsubscription]

/-- **States of the same summary are completed to matching subgraphs.** -/
theorem Progress.matches_of_summary_eq {p q : Progress} (h : p.summary = q.summary)
    (hp : (p.subgraph.definitions.map TypeDef.name).Nodup)
    (hq : (q.subgraph.definitions.map TypeDef.name).Nodup) :
    (p.subgraph.withUsages.sorted p.names).Matches (q.subgraph.withUsages.sorted q.names) := by
  have hdiagnostics : (p.subgraph.diagnostics : Multiset Diagnostic) = q.subgraph.diagnostics :=
    congrArg Summary.diagnostics h
  have htypes : p.subgraph.FindsAlike q.subgraph := congrFun (congrArg Summary.types h)
  refine ⟨?_, Subgraph.shuffled_sorted_withUsages htypes hp hq _ _,
    (Multiset.coe_eq_coe.mp hdiagnostics).symm⟩
  -- all but types and diagnostics is in the context, the roots or the features
  have hrest : q.subgraph = { p.subgraph with
      definitions := q.subgraph.definitions, diagnostics := q.subgraph.diagnostics } :=
    calc
      q.subgraph = { q.subgraph.context with
          roots := q.subgraph.roots, features := q.subgraph.features,
          definitions := q.subgraph.definitions, diagnostics := q.subgraph.diagnostics } := rfl
      _ = { p.subgraph.context with
          roots := p.subgraph.roots, features := p.subgraph.features,
          definitions := q.subgraph.definitions, diagnostics := q.subgraph.diagnostics } := by
        rw [show p.subgraph.context = q.subgraph.context from congrArg Summary.context h,
          show p.subgraph.features = q.subgraph.features from congrArg Summary.features h,
          RootTypes.ext_get (congrArg Summary.roots h : p.subgraph.roots.get = _)]
      _ = { p.subgraph with
          definitions := q.subgraph.definitions, diagnostics := q.subgraph.diagnostics } := rfl
  exact congrArg (fun s : Subgraph => { s with
    definitions := (q.subgraph.withUsages.sorted q.names).definitions }) hrest

end Federation
