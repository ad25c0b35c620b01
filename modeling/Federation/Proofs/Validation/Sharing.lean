import Federation.Proofs.Ingestion.Evaluation
import Federation.Proofs.QueryGraph.FieldMoves
import Federation.Proofs.Supergraph.Arguments
import Federation.Satisfiability.Check

/-!
# Shared fields

Several subgraphs may resolve a field only if all of them share it. The rule looks at the subgraphs
from which no other one takes the field over. The planner also uses a subgraph from which the field
moves by a label, as long as the label is inactive; this is the only way for it to get past the rule.
-/

namespace Federation

/-! ## Subgraphs by name -/

namespace SubgraphSet

/-- The subgraph that is added has its name, and has types only if the name was not taken. -/
theorem exists_named_of_addText {set set' : SubgraphSet} {text name : String} {url : Option String}
    (h : set.addText text name url = .ok set') :
    ∃ s, set'.subgraphs = set.subgraphs ++ [s] ∧
      (s.definitions ≠ [] → s.name = name ∧ set.hasName name = false) := by
  unfold addText at h
  cases hread : Document.Schema.read text with
  | error e =>
    rw [hread] at h
    cases h
  | ok schema =>
    rw [hread] at h
    have hadd : set.add schema name url = .ok set' := h
    unfold add at hadd
    dsimp only at hadd
    split at hadd
    · obtain rfl := Except.ok.inj hadd
      exact ⟨_, rfl, fun htypes => absurd rfl htypes⟩
    · rename_i hnew
      split at hadd
      · cases hadd
      · obtain rfl := Except.ok.inj hadd
        refine ⟨_, rfl, fun _ => ⟨?_, Bool.not_eq_true _ ▸ hnew⟩⟩
        exact name_build (Document.Schema.hasPlainTypes_read hread) _ _

/-- A subgraph with types is the first of its name. -/
theorem Ingested.idOfName?_eq_some {set : SubgraphSet} (h : set.Ingested) {id : SubgraphId}
    {s : Subgraph} (hs : set.subgraph? id = some s) (htypes : s.definitions ≠ []) :
    set.idOfName? s.name = some id := by
  induction h generalizing id with
  | empty => cases hs
  | @add set set' text name url hset hadd ih =>
    obtain ⟨added, hsubgraphs, hnew⟩ := exists_named_of_addText hadd
    unfold subgraph? at hs
    unfold idOfName?
    rw [hsubgraphs] at hs ⊢
    rw [List.findIdx?_append]
    rcases Nat.lt_or_ge id set.subgraphs.length with hlt | hge
    · rw [List.getElem?_append_left hlt] at hs
      rw [show set.subgraphs.findIdx? _ = some id from ih hs]
      rfl
    · rw [List.getElem?_append_right hge, List.getElem?_singleton] at hs
      split at hs
      · obtain rfl := Option.some.inj hs
        obtain ⟨rfl, hfree⟩ := hnew htypes
        have hnone : set.subgraphs.findIdx? (fun other => other.name == added.name) = none :=
          List.findIdx?_eq_none_iff.mpr fun other hother => by
            simpa using List.any_eq_false.mp hfree other hother
        have hid : set.subgraphs.length = id := by omega
        rw [hnone]
        simpa using hid
      · cases hs

end SubgraphSet

/-! ## The planner -/

/-- A field can be taken from the base node of its type in a subgraph, requirements apart. -/
def Planner.canTakeAtBase (p : Planner) (typeName field : String) (id : SubgraphId) : Bool :=
  (p.graph.base? typeName id).any fun node =>
    (p.graph.edges node).any (p.canTake (fun _ _ => true) node field)

/-- A field can be taken from a base node by an edge that is possible with the active labels. -/
theorem Planner.canTakeAtBase_iff {p : Planner} {typeName field : String} {id : SubgraphId} :
    p.canTakeAtBase typeName field id = true ↔ ∃ condition isProvided, p.allows condition = true ∧
      ∃ v, p.graph.base? typeName id = some v ∧
        ∃ e ∈ p.graph.edges v, e.move = .field field condition isProvided := by
  unfold canTakeAtBase
  rw [Option.any_eq_true]
  constructor
  · rintro ⟨v, hv, htaken⟩
    obtain ⟨e, he, htakes⟩ := List.any_eq_true.mp htaken
    unfold canTake at htakes
    split at htakes
    · rename_i name condition isProvided hmove
      simp only [Bool.or_true, Bool.and_true, Bool.and_eq_true, beq_iff_eq] at htakes
      obtain ⟨rfl, hallowed⟩ := htakes
      exact ⟨condition, isProvided, hallowed, v, hv, e, he, hmove⟩
    · cases htakes
  · rintro ⟨condition, isProvided, hallowed, v, hv, e, he, hmove⟩
    refine ⟨v, hv, List.any_eq_true.mpr ⟨e, he, ?_⟩⟩
    simp [canTake, hmove, hallowed]

/-- What takes a field over from a subgraph is an entry with an override. -/
theorem MergedField.overrider?_eq_some {field : MergedField} {name : String}
    {e : SubgraphId × FieldInGraph} (h : field.overrider? name = some e) :
    e ∈ field.byGraph ∧ ∃ o, e.2.override = some o ∧ o.source = name := by
  unfold overrider? at h
  have hoverrides := List.find?_some h
  obtain ⟨o, ho, hsource⟩ := (Option.any_eq_true _ _).mp hoverrides
  exact ⟨List.mem_of_find?_eq_some h, o, ho, beq_iff_eq.mp hsource⟩

/-- The plan of a field that a subgraph defines without `@external`. -/
theorem FieldPlan.exists_of? (nameOf : SubgraphId → String) {id : SubgraphId} {field : MergedField}
    {f : FieldInGraph} (hget : field.byGraph.get? id = some f) (hf : f.isExternal = false) :
    ∃ plan, of? nameOf id field = some plan ∧ plan.name = field.name ∧
      plan.condition = conditionOf f ((field.overrider? (nameOf id)).map Prod.snd) ∧
      plan.isOverridden = ((field.overrider? (nameOf id)).isSome && plan.condition.isNone) := by
  unfold of?
  rw [hget, Option.bind_eq_bind, Option.bind_some, hf, Bool.false_and, if_neg Bool.false_ne_true]
  exact ⟨_, rfl, rfl, rfl, congrArg (· && _) Option.isSome_map⟩

/-- A plan is for a field that the subgraph defines. -/
theorem FieldPlan.of?_eq_some {nameOf : SubgraphId → String} {id : SubgraphId} {field : MergedField}
    {plan : FieldPlan} (h : of? nameOf id field = some plan) :
    field.byGraph ≠ [] ∧ plan.name = field.name := by
  unfold of? at h
  obtain ⟨f, hget, h⟩ := Option.bind_eq_some_iff.mp h
  refine ⟨fun hnil => ?_, ?_⟩
  · rw [hnil] at hget
    cases hget
  · split at h
    · cases h
    · rw [← Option.some.inj h]

namespace MergedSchema

variable {set : SubgraphSet} {m : MergedSchema} (hm : ofSubgraphs set = .ok m)

include hm

/-- The plans of one type have different names. -/
theorem fieldPlans_unique {nameOf : SubgraphId → String} {id : SubgraphId} {typeName : String}
    {plan other : FieldPlan} (hplan : plan ∈ m.fieldPlans nameOf id typeName)
    (hother : other ∈ m.fieldPlans nameOf id typeName) (hname : other.name = plan.name) :
    other = plan := by
  unfold fieldPlans at hplan hother
  cases ht : m.type? typeName with
  | none =>
    rw [ht] at hplan
    cases hplan
  | some t =>
    rw [ht] at hplan hother
    obtain ⟨field, hfield, hof⟩ := List.mem_filterMap.mp hplan
    obtain ⟨field', hfield', hof'⟩ := List.mem_filterMap.mp hother
    obtain ⟨hdefined, hplanname⟩ := FieldPlan.of?_eq_some hof
    obtain ⟨hdefined', hothername⟩ := FieldPlan.of?_eq_some hof'
    have hfirst := field?_of_mem hm ht hfield hdefined
    rw [← hplanname, ← hname, hothername, field?_of_mem hm ht hfield' hdefined'] at hfirst
    rw [Option.some.inj hfirst] at hof'
    exact Option.some.inj (hof'.symm.trans hof)

/-- A merged field has one entry for each subgraph. -/
theorem get?_byGraph_of_mem (hset : set.HasProperNames) {t : MergedType} (ht : t ∈ m.types)
    {field : MergedField} (hfield : field ∈ t.fields) {id : SubgraphId} {f : FieldInGraph}
    (hentry : (id, f) ∈ field.byGraph) : field.byGraph.get? id = some f := by
  have hfound := (hasUniqueNames_of_ofSubgraphs hm).type?_eq_some ht
  refine ByGraph.get?_eq_some ?_ hentry
  rw [byGraph_of_mem_fields hset hm hfound hfield]
  exact hset.pairwise_fieldEntriesOf t.name field.name

/-- A subgraph that defines a field without `@external` may resolve it under one condition, unless the
field has moved elsewhere for good. -/
theorem mayResolveBy_iff (hset : set.HasProperNames) {t : MergedType} (ht : t ∈ m.types)
    {field : MergedField} (hfield : field ∈ t.fields) {id : SubgraphId} {f : FieldInGraph}
    (hentry : (id, f) ∈ field.byGraph) (hf : f.isExternal = false)
    {condition : Option LabelCondition} :
    set.MayResolveBy m (t.name, id) (.field field.name condition false) ↔
      condition = FieldPlan.conditionOf f ((field.overrider? (set.nameOf id)).map Prod.snd) ∧
        ((field.overrider? (set.nameOf id)).isSome && condition.isNone) = false := by
  have hfound := (hasUniqueNames_of_ofSubgraphs hm).type?_eq_some ht
  have hget := get?_byGraph_of_mem hm hset ht hfield hentry
  obtain ⟨plan, hof, hname, hcondition, hplace⟩ := FieldPlan.exists_of? set.nameOf hget hf
  have hplan : plan ∈ m.fieldPlans set.nameOf id t.name := by
    unfold fieldPlans
    rw [hfound]
    exact List.mem_filterMap.mpr ⟨field, hfield, hof⟩
  constructor
  · rintro ⟨other, hother, hstays, hmove⟩
    obtain ⟨hothername, rfl, -⟩ := Move.field.inj hmove
    obtain rfl := fieldPlans_unique hm hplan hother (hothername.trans hname.symm)
    exact ⟨hcondition, hplace ▸ hstays⟩
  · rintro ⟨rfl, hstays⟩
    rw [← hcondition] at hstays ⊢
    exact ⟨plan, hplan, hplace.trans hstays, by rw [FieldPlan.move, hname]⟩

end MergedSchema

/-! ## The rules -/

namespace Validation

/-- Resolvers that are added do not take the place of others. -/
theorem sublist_addResolver (resolvers : List Resolver) (r : Resolver) :
    resolvers.Sublist (addResolver resolvers r) := by
  unfold addResolver
  split
  · exact List.Sublist.refl _
  · exact List.sublist_append_left _ _

theorem sublist_objectResolvers (c : Context) (t : MergedType) (field : MergedField) :
    (ownResolvers c field).Sublist (objectResolvers c t field) := by
  refine List.foldlRecOn (c.interfacesIn t.interfaces) _
    (motive := fun resolvers => (ownResolvers c field).Sublist resolvers)
    (List.Sublist.refl _) fun resolvers hresolvers interface _ => ?_
  split
  · exact hresolvers
  · exact List.foldlRecOn _ addResolver
      (motive := fun resolvers => (ownResolvers c field).Sublist resolvers) hresolvers
      fun others hothers r _ => hothers.trans (sublist_addResolver others r)

section

variable {c : Context} (hvalid : (validate c).anyFatal = false) {t : MergedType}
  (ht : t ∈ c.merged.types) (hkind : t.kind = .object) {field : MergedField}
  (hfield : field ∈ t.fields)

include hvalid ht hkind hfield

/-- Of two subgraphs that define a field without `@external`, and that no other subgraph takes the
field over from, both share it. -/
theorem shares_of_two_resolvers (hname : t.name ≠ RootOperation.subscription.typeName)
    {id id' : SubgraphId} (hne : id ≠ id') {f f' : FieldInGraph} (hf : (id, f) ∈ field.byGraph)
    (hf' : (id', f') ∈ field.byGraph) (hresolved : f.isExternal = false)
    (hresolved' : f'.isExternal = false) (hstays : field.overrider? (c.nameOf id) = none)
    (hstays' : field.overrider? (c.nameOf id') = none) :
    f.isShareable = true ∨ f.isUsedAsKey = true := by
  have hown : ∀ {id : SubgraphId} {f : FieldInGraph}, (id, f) ∈ field.byGraph →
      f.isExternal = false → field.overrider? (c.nameOf id) = none →
        Resolver.of id f ∈ resolversOf c t field := by
    intro id f hmem hresolved hstays
    unfold resolversOf
    rw [hkind]
    refine (sublist_objectResolvers c t field).subset (List.mem_map.mpr ⟨(id, f), ?_, rfl⟩)
    exact List.mem_filter.mpr ⟨hmem, by simp [hresolved, hstays]⟩
  have hmem := hown hf hresolved hstays
  have hmem' := hown hf' hresolved' hstays'
  have hseveral : ¬ (resolversOf c t field).length < 2 := by
    have hdistinct : Resolver.of id f ≠ Resolver.of id' f' := fun h => hne (congrArg Resolver.id h)
    have hsub : [Resolver.of id f, Resolver.of id' f'].Subperm (resolversOf c t field) :=
      List.subperm_of_subset (by simpa using hdistinct) (by simp [hmem, hmem'])
    exact Nat.not_lt.mpr hsub.length_le
  have hnone := anyFatal_onField hvalid (show invalidFieldSharing ∈ rules by simp [rules]) ht hfield
  unfold invalidFieldSharing at hnone
  dsimp only at hnone
  rw [if_neg hseveral, if_neg hname] at hnone
  split at hnone
  · rename_i hshared
    have hall := List.filter_eq_nil_iff.mp (List.map_eq_nil_iff.mp (List.isEmpty_iff.mp hshared))
    have hshareable : (Resolver.of id f).isShareable = true := by simpa using hall _ hmem
    exact Bool.or_eq_true_iff.mp hshareable
  · cases hnone

/-- A field is taken over from another subgraph only by one that resolves it, and only if the other
one does not take it over itself. -/
theorem override_of_anyFatal {id id' : SubgraphId} {f f' : FieldInGraph} {o : Override}
    (hf' : (id', f') ∈ field.byGraph) (ho : f'.override = some o)
    (hsource : c.set.idOfName? o.source = some id) (hget : field.byGraph.get? id = some f) :
    o.source ≠ c.nameOf id' ∧ f'.isExternal = false ∧ f.override = none := by
  have hnone := anyFatal_onField hvalid (show overrideRules ∈ rules by simp [rules]) ht hfield
  unfold overrideRules at hnone
  dsimp only at hnone
  rw [if_neg (not_not.mpr hkind)] at hnone
  have hproblems : (overrideProblems c (t.coordinate field.name) field id' f' o).anyFatal = false := by
    refine Diagnostics.anyFatal_eq_false_of_subset (fun d hd => ?_) hnone
    refine List.mem_flatMap.mpr ⟨(id', f'), hf', ?_⟩
    dsimp only
    rw [ho]
    exact List.mem_append_right _ hd
  unfold overrideProblems at hproblems
  dsimp only at hproblems
  split at hproblems
  · cases hproblems
  rename_i hother
  split at hproblems
  · cases hproblems
  rename_i hexternal
  rw [hsource] at hproblems
  dsimp only at hproblems
  rw [hget] at hproblems
  dsimp only at hproblems
  refine ⟨hother, Bool.not_eq_true _ ▸ hexternal, ?_⟩
  cases hoverride : f.override with
  | none => rfl
  | some other =>
    unfold sourceProblems at hproblems
    rw [hoverride] at hproblems
    cases hproblems

end

end Validation

/-! ## Both sides -/

/-- The planner for some subgraphs while exactly some labels are active. -/
def SubgraphSet.plannerWith (set : SubgraphSet) (merged : MergedSchema) (labels : List String) :
    Planner :=
  ((Satisfiability.Problem.of set merged).walker labels).planner

namespace SubgraphSet

variable (set : SubgraphSet) (typeName fieldName : String) (id : SubgraphId)

/-- A subgraph defines a field of an object type. -/
structure Defines (s : Subgraph) (d : TypeDef) (field : Field) : Prop where
  subgraph : set.subgraph? id = some s
  type : s.definition? typeName = some d
  kind : d.kind = .object
  mem : field ∈ d.fields
  name : field.name = fieldName

/-- The subgraph defines the field without `@external`, and the planner can take it from the base node
of the type while exactly some labels are active. -/
def ResolvesUnder (merged : MergedSchema) (labels : List String) : Prop :=
  (∃ s d field, set.Defines typeName fieldName id s d field ∧ s.isExternal d field = false) ∧
    (set.plannerWith merged labels).canTakeAtBase typeName fieldName id = true

/-- The field of the subgraph can be shared, or is part of a key. -/
def Shares : Prop :=
  ∃ s d field, set.Defines typeName fieldName id s d field ∧
    (s.isShareable d field = true ∨ field.usage.inKey = true)

/-- The subgraph defines the field in some way. -/
def definesWith (p : Subgraph → TypeDef → Field → Bool) : Bool :=
  (set.subgraph? id).any fun s => (s.definition? typeName).any fun d => d.kind == .object &&
    d.fields.any fun field => field.name == fieldName && p s d field

/-- Another subgraph takes the field over from the subgraph, but by a label that is inactive. -/
def IsLeftUnder (labels : List String) : Prop :=
  ∃ id' s d field o label, id' ≠ id ∧ set.Defines typeName fieldName id' s d field ∧
    field.attributes.override = some o ∧ o.source = set.nameOf id ∧ o.label = some label ∧
      label ∉ labels

variable {set typeName fieldName id}

theorem definesWith_iff {p : Subgraph → TypeDef → Field → Bool} :
    set.definesWith typeName fieldName id p = true ↔
      ∃ s d field, set.Defines typeName fieldName id s d field ∧ p s d field = true := by
  simp only [definesWith, Option.any_eq_true, Bool.and_eq_true, List.any_eq_true, beq_iff_eq]
  constructor
  · rintro ⟨s, hs, d, hd, hkind, field, hmem, hname, hp⟩
    exact ⟨s, d, field, ⟨hs, hd, hkind, hmem, hname⟩, hp⟩
  · rintro ⟨s, d, field, ⟨hs, hd, hkind, hmem, hname⟩, hp⟩
    exact ⟨s, hs, d, hd, hkind, field, hmem, hname, hp⟩

theorem shares_iff : set.Shares typeName fieldName id ↔ set.definesWith typeName fieldName id
    (fun s d field => s.isShareable d field || field.usage.inKey) = true := by
  simp only [Shares, definesWith_iff, Bool.or_eq_true]

theorem resolvesUnder_iff {merged : MergedSchema} {labels : List String} :
    set.ResolvesUnder typeName fieldName id merged labels ↔
      set.definesWith typeName fieldName id (fun s d field => !s.isExternal d field) = true ∧
        (set.plannerWith merged labels).canTakeAtBase typeName fieldName id = true := by
  simp only [ResolvesUnder, definesWith_iff, Bool.not_eq_true']

end SubgraphSet

namespace FieldPlan

variable {f : FieldInGraph}

/-- A field that has an override has its condition. -/
theorem conditionOf_of_override_eq_some {o : Override} (h : f.override = some o)
    (overrider? : Option FieldInGraph) :
    conditionOf f overrider? = o.label.map fun label => { label, active := true } := by
  unfold conditionOf
  rw [h]

/-- Another field has the condition of the one that takes it over. -/
theorem conditionOf_of_override_eq_none (h : f.override = none) (overrider? : Option FieldInGraph) :
    conditionOf f overrider? = ((overrider?.bind FieldInGraph.override).bind Override.label).map
      fun label => { label, active := false } := by
  unfold conditionOf
  rw [h]
  cases overrider? <;> rfl

end FieldPlan

section

variable {set : SubgraphSet} {m : MergedSchema} {typeName fieldName : String} {id id' : SubgraphId}
  {labels : List String}

/-- What a subgraph defines is an entry of the merged field. -/
theorem SubgraphSet.Defines.exists_entry (hset : set.HasProperNames)
    (hm : MergedSchema.ofSubgraphs set = .ok m) {s : Subgraph} {d : TypeDef} {field : Field}
    (h : set.Defines typeName fieldName id s d field) :
    ∃ t ∈ m.types, t.name = typeName ∧ t.kind = .object ∧ ∃ merged ∈ t.fields,
      t.field? fieldName = some merged ∧ merged.name = fieldName ∧
        (id, FieldInGraph.of s d field) ∈ merged.byGraph := by
  have hd := Subgraph.mem_of_definition? h.type
  have he : (⟨id, s, d⟩ : TypeEntry) ∈ set.typeEntries :=
    SubgraphSet.mem_typeEntries.mpr ⟨h.subgraph, hd⟩
  obtain ⟨t, merged, ht, hkind, hfound, hmem, -⟩ :=
    MergedSchema.exists_field?_of_mem hset hm he (.inl h.kind) h.mem
  obtain ⟨htmem, htname⟩ := MergedSchema.mem_types_of_type?_eq_some ht
  rw [h.name] at hfound
  exact ⟨t, htmem, htname.trans (Subgraph.name_of_definition? h.type), hkind.trans h.kind, merged,
    List.mem_of_find?_eq_some hfound, hfound, by simpa using List.find?_some hfound, hmem⟩

/-- An entry of the merged field is what a subgraph defines. -/
theorem exists_defines_of_mem_byGraph (hset : set.HasProperNames)
    (hm : MergedSchema.ofSubgraphs set = .ok m) {t : MergedType} (ht : t ∈ m.types)
    (hkind : t.kind = .object) {merged : MergedField} (hmerged : merged ∈ t.fields)
    {f : FieldInGraph} (hf : (id, f) ∈ merged.byGraph) :
    ∃ s d field, set.Defines t.name merged.name id s d field ∧ f = .of s d field := by
  obtain ⟨s, hs, d, hd, field, hfield, hname, hentry⟩ :=
    (MergedSchema.mem_byGraph_of_mem_fields hset hm ht hmerged).mp hf
  have hobject : d.kind = .object :=
    (MergedSchema.kind_of_mem_byGraph hset hm ht
      ((MergedSchema.mem_byGraph_iff hset hm ht).mpr ⟨s, hs, hd⟩)).trans hkind
  exact ⟨s, d, field, ⟨hs, hd, hobject, hfield, hname⟩, hentry⟩

/-- A field that a subgraph defines without `@external` can be taken from the base node of its type
exactly if it has not moved elsewhere for good, and the labels allow its one condition. -/
theorem canTakeAtBase_iff_conditionOf (hset : set.HasProperNames)
    (hm : MergedSchema.ofSubgraphs set = .ok m) {t : MergedType} (ht : t ∈ m.types)
    {merged : MergedField} (hmerged : merged ∈ t.fields) {s : Subgraph} {d : TypeDef} {field : Field}
    (h : set.Defines t.name merged.name id s d field) (hresolved : s.isExternal d field = false)
    (hentry : (id, FieldInGraph.of s d field) ∈ merged.byGraph)
    {condition : Option LabelCondition}
    (hcondition : FieldPlan.conditionOf (FieldInGraph.of s d field)
      ((merged.overrider? (set.nameOf id)).map Prod.snd) = condition) :
    (set.plannerWith m labels).canTakeAtBase t.name merged.name id = true ↔
      (set.plannerWith m labels).allows condition = true ∧
        ((merged.overrider? (set.nameOf id)).isSome && condition.isNone) = false := by
  have hd := Subgraph.mem_of_definition? h.type
  have hname := Subgraph.name_of_definition? h.type
  rw [Planner.canTakeAtBase_iff]
  constructor
  · rintro ⟨condition', isProvided, hallowed, v, hv, e, he, hmove⟩
    have hedge : set.MayResolveBy m (t.name, id) (.field merged.name condition' isProvided) := by
      rw [← hname]
      refine (QueryGraph.exists_field_edge_iff hm hset h.subgraph hd (.inl h.kind) rfl).mp ?_
      exact ⟨v, hname.symm ▸ hv, e, he, hmove⟩
    obtain rfl : isProvided = false := by
      obtain ⟨plan, -, -, hplan⟩ := hedge
      exact (Move.field.inj hplan).2.2.symm
    obtain ⟨rfl, hstays⟩ :=
      (MergedSchema.mayResolveBy_iff hm hset ht hmerged hentry hresolved).mp hedge
    exact ⟨hcondition ▸ hallowed, hcondition ▸ hstays⟩
  · rintro ⟨hallowed, hstays⟩
    have hedge := (MergedSchema.mayResolveBy_iff hm hset ht hmerged hentry hresolved).mpr
      ⟨hcondition.symm, hstays⟩
    rw [← hname] at hedge ⊢
    obtain ⟨v, hv, e, he, hmove⟩ :=
      (QueryGraph.exists_field_edge_iff hm hset h.subgraph hd (.inl h.kind) rfl).mpr hedge
    exact ⟨condition, false, hallowed, v, hv, e, he, hmove⟩

/-- A field can be taken from the base node of its type only if the override on it is active, and a
subgraph that takes it over does so by an inactive label. -/
theorem conditions_of_canTakeAtBase (hset : set.HasProperNames)
    (hm : MergedSchema.ofSubgraphs set = .ok m) {t : MergedType} (ht : t ∈ m.types)
    {merged : MergedField} (hmerged : merged ∈ t.fields) {s : Subgraph} {d : TypeDef} {field : Field}
    (h : set.Defines t.name merged.name id s d field) (hresolved : s.isExternal d field = false)
    (hentry : (id, FieldInGraph.of s d field) ∈ merged.byGraph)
    (htake : (set.plannerWith m labels).canTakeAtBase t.name merged.name id = true) :
    (∀ o label, field.attributes.override = some o → o.label = some label → label ∈ labels) ∧
      (field.attributes.override = none → ∀ e, merged.overrider? (set.nameOf id) = some e →
        ∃ o label, e.2.override = some o ∧ o.label = some label ∧ label ∉ labels) := by
  obtain ⟨hallowed, hstays⟩ :=
    (canTakeAtBase_iff_conditionOf hset hm ht hmerged h hresolved hentry rfl).mp htake
  constructor
  · intro o label ho hlabel
    have hcondition : FieldPlan.conditionOf (FieldInGraph.of s d field)
        ((merged.overrider? (set.nameOf id)).map Prod.snd) = some { label, active := true } := by
      rw [FieldPlan.conditionOf_of_override_eq_some (f := .of s d field) ho, hlabel]
      rfl
    rw [hcondition] at hallowed
    show label ∈ (set.plannerWith m labels).activeLabels
    simpa [Planner.allows, LabelCondition.holds] using hallowed
  · intro hnone e he
    have hcondition : FieldPlan.conditionOf (FieldInGraph.of s d field)
        ((merged.overrider? (set.nameOf id)).map Prod.snd) =
          (e.2.override.bind Override.label).map fun label => { label, active := false } := by
      rw [FieldPlan.conditionOf_of_override_eq_none (f := .of s d field) hnone, he]
      rfl
    rw [hcondition] at hallowed hstays
    rw [he] at hstays
    cases hlabel : e.2.override.bind Override.label with
    | none =>
      rw [hlabel] at hstays
      cases hstays
    | some label =>
      obtain ⟨o, ho, hlabel'⟩ := Option.bind_eq_some_iff.mp hlabel
      refine ⟨o, label, ho, hlabel', ?_⟩
      rw [hlabel] at hallowed
      show label ∉ (set.plannerWith m labels).activeLabels
      simpa [Planner.allows, LabelCondition.holds] using hallowed

/-- A subgraph that takes the field over from another one resolves the field itself, no other takes it
over from there, and the other one does not take it over from anywhere. -/
theorem taken_over (hset : set.Ingested) (hm : MergedSchema.ofSubgraphs set = .ok m)
    (hvalid : (Validation.validate { set, merged := m }).anyFatal = false) {t : MergedType}
    (ht : t ∈ m.types) (hkind : t.kind = .object) {merged : MergedField} (hmerged : merged ∈ t.fields)
    {f : FieldInGraph} (hf : (id, f) ∈ merged.byGraph) {e : SubgraphId × FieldInGraph}
    (he : merged.overrider? (set.nameOf id) = some e) :
    e ∈ merged.byGraph ∧ e.1 ≠ id ∧ e.2.isExternal = false ∧ f.override = none ∧
      ∃ o, e.2.override = some o ∧ o.source = set.nameOf id := by
  have hproper := hset.hasProperNames
  have hget := MergedSchema.get?_byGraph_of_mem hm hproper ht hmerged hf
  obtain ⟨s, hs, d, hd, -⟩ := (MergedSchema.mem_byGraph_of_mem_fields hproper hm ht hmerged).mp hf
  have hname : set.nameOf id = s.name := by
    rw [SubgraphSet.nameOf, hs]
    rfl
  have hid : set.idOfName? (set.nameOf id) = some id := by
    rw [hname]
    exact hset.idOfName?_eq_some hs (List.ne_nil_of_mem (Subgraph.mem_of_definition? hd))
  obtain ⟨hmem, o, ho, hsource⟩ := MergedField.overrider?_eq_some he
  rw [← hsource] at hid
  obtain ⟨hother, hresolved, hnone⟩ :=
    Validation.override_of_anyFatal hvalid ht hkind hmerged hmem ho hid hget
  refine ⟨hmem, fun hsame => hother ?_, hresolved, hnone, o, ho, hsource⟩
  rw [hsource, hsame]
  rfl

/-- **Of two subgraphs that resolve a field of an object type at the same time, each shares it, unless
another subgraph takes the field over from it by a label that is inactive.** -/
theorem shares_or_isLeftUnder (hset : set.Ingested) (hm : MergedSchema.ofSubgraphs set = .ok m)
    (hvalid : (Validation.validate { set, merged := m }).anyFatal = false)
    (hname : typeName ≠ RootOperation.subscription.typeName) (hne : id ≠ id')
    (h : set.ResolvesUnder typeName fieldName id m labels)
    (h' : set.ResolvesUnder typeName fieldName id' m labels) :
    set.Shares typeName fieldName id ∨ set.IsLeftUnder typeName fieldName id labels := by
  have hproper := hset.hasProperNames
  obtain ⟨⟨s, d, g, hdefines, hresolved⟩, htake⟩ := h
  obtain ⟨⟨s', d', g', hdefines', hresolved'⟩, htake'⟩ := h'
  obtain ⟨t, ht, rfl, hkind, merged, hmerged, hfound, rfl, hf⟩ := hdefines.exists_entry hproper hm
  obtain ⟨t', ht', htname, -, merged', -, hfound', hmname, hf'⟩ := hdefines'.exists_entry hproper hm
  obtain rfl : t' = t :=
    List.inj_on_of_nodup_map (MergedSchema.hasUniqueNames_of_ofSubgraphs hm) ht' ht htname
  obtain rfl : merged' = merged := Option.some.inj (hfound'.symm.trans hfound)
  obtain ⟨hactive, hleft⟩ :=
    conditions_of_canTakeAtBase hproper hm ht hmerged hdefines hresolved hf htake
  have hshares : ∀ {id' : SubgraphId} {f' : FieldInGraph}, id ≠ id' → (id', f') ∈ merged'.byGraph →
      f'.isExternal = false → merged'.overrider? (set.nameOf id') = none →
      merged'.overrider? (set.nameOf id) = none → set.Shares t'.name merged'.name id := by
    intro id' f' hne hf' hresolved' hstays' hstays
    have hshared := Validation.shares_of_two_resolvers hvalid ht hkind hmerged hname hne hf hf'
      hresolved hresolved' hstays hstays'
    exact ⟨s, d, g, hdefines, hshared⟩
  cases hover : merged'.overrider? (set.nameOf id) with
  | some e =>
    -- the field is taken over from the first subgraph
    right
    obtain ⟨hmem, hother, -, hnone, o, ho, hsource⟩ :=
      taken_over hset hm hvalid ht hkind hmerged hf hover
    obtain ⟨o', label, ho', hlabel, hinactive⟩ := hleft hnone e hover
    obtain rfl := Option.some.inj (ho.symm.trans ho')
    obtain ⟨s₁, d₁, g₁, hdefines₁, hentry⟩ :=
      exists_defines_of_mem_byGraph hproper hm ht hkind hmerged hmem
    rw [hentry] at ho
    exact ⟨e.1, s₁, d₁, g₁, o, label, hother, hdefines₁, ho, hsource, hlabel, hinactive⟩
  | none =>
    left
    cases hover' : merged'.overrider? (set.nameOf id') with
    | none => exact hshares hne hf' hresolved' hover' hover
    | some e =>
      -- the field is taken over from the second subgraph, by one that shares it with the first
      obtain ⟨hmem, -, heresolved, hnone, o, ho, -⟩ :=
        taken_over hset hm hvalid ht hkind hmerged hf' hover'
      obtain ⟨-, hleft'⟩ :=
        conditions_of_canTakeAtBase hproper hm ht hmerged hdefines' hresolved' hf' htake'
      obtain ⟨o', label, ho', hlabel, hinactive⟩ := hleft' hnone e hover'
      have hdistinct : id ≠ e.1 := by
        rintro rfl
        have hsame : e.2 = FieldInGraph.of s d g := by
          have hget := MergedSchema.get?_byGraph_of_mem hm hproper ht hmerged hmem
          rw [MergedSchema.get?_byGraph_of_mem hm hproper ht hmerged hf] at hget
          exact (Option.some.inj hget).symm
        rw [hsame] at ho'
        exact hinactive (hactive o' label ho' hlabel)
      refine hshares hdistinct hmem heresolved ?_ hover
      cases hagain : merged'.overrider? (set.nameOf e.1) with
      | none => rfl
      | some e' =>
        obtain ⟨-, -, -, hnone', -⟩ := taken_over hset hm hvalid ht hkind hmerged hmem hagain
        rw [ho] at hnone'
        cases hnone'

/-- **Sharing is checked wherever no label decides.** If two subgraphs resolve a field of an object type
while exactly some labels are active, and validation has found nothing fatal, then both share the field
exactly if those of the two share it from which another subgraph takes it over by an inactive label. -/
theorem resolvers_share_iff_left_ones_do (hset : set.Ingested)
    (hm : MergedSchema.ofSubgraphs set = .ok m)
    (hvalid : (Validation.validate { set, merged := m }).anyFatal = false)
    (hname : typeName ≠ RootOperation.subscription.typeName) (hne : id ≠ id')
    (h : set.ResolvesUnder typeName fieldName id m labels)
    (h' : set.ResolvesUnder typeName fieldName id' m labels) :
    (set.Shares typeName fieldName id ∧ set.Shares typeName fieldName id') ↔
      (set.IsLeftUnder typeName fieldName id labels → set.Shares typeName fieldName id) ∧
        (set.IsLeftUnder typeName fieldName id' labels → set.Shares typeName fieldName id') := by
  have hfirst := shares_or_isLeftUnder hset hm hvalid hname hne h h'
  have hsecond := shares_or_isLeftUnder hset hm hvalid hname hne.symm h' h
  constructor
  · exact fun hshares => ⟨fun _ => hshares.1, fun _ => hshares.2⟩
  · exact fun hleft => ⟨hfirst.elim (fun h => h) hleft.1, hsecond.elim (fun h => h) hleft.2⟩

end

/-- A schema that does not share its field. -/
def SchemaSource.leaving : SchemaSource :=
  ⟨"extend type Query\x7bx:Int\x7d", "a", none⟩

/-- A schema that takes the field over by a label. -/
def SchemaSource.taking : SchemaSource :=
  ⟨"type Query\x7bx:Int@override(from:\"a\",label:\"l\")\x7d", "b", none⟩

/-- A schema that shares the field. -/
def SchemaSource.sharing : SchemaSource :=
  ⟨"type Query\x7bx:Int\x7d", "c", none⟩

/-- The three schemas. The first one is left by a label. -/
def sharingSources : List SchemaSource :=
  [.leaving, .taking, .sharing]

theorem validates_sharing :
    ((SubgraphSet.ofSources sharingSources).toOption.any fun set =>
      (MergedSchema.ofSubgraphs set).toOption.any fun merged =>
        !(Validation.validate { set, merged }).anyFatal) = true := by
  decide +kernel

theorem takes_sharing :
    ((SubgraphSet.ofSources sharingSources).toOption.any fun set =>
      (MergedSchema.ofSubgraphs set).toOption.any fun merged =>
        (set.definesWith "Query" "x" 0 (fun s d field => !s.isExternal d field) &&
            (set.plannerWith merged []).canTakeAtBase "Query" "x" 0) &&
          (set.definesWith "Query" "x" 2 (fun s d field => !s.isExternal d field) &&
            (set.plannerWith merged []).canTakeAtBase "Query" "x" 2) &&
          !set.definesWith "Query" "x" 0 fun s d field =>
            s.isShareable d field || field.usage.inKey) = true := by
  cbv

/-- What the three schemas make: two subgraphs resolve the field while no label is active, and one of
them does not share it. -/
theorem exists_sharing :
    ∃ set merged, SubgraphSet.ofSources sharingSources = .ok set ∧
      MergedSchema.ofSubgraphs set = .ok merged ∧
      (Validation.validate { set, merged }).anyFatal = false ∧
      set.ResolvesUnder "Query" "x" 0 merged [] ∧ set.ResolvesUnder "Query" "x" 2 merged [] ∧
      ¬ set.Shares "Query" "x" 0 := by
  obtain ⟨set, hset, hmerges⟩ := exists_ok_of_any validates_sharing
  obtain ⟨merged, hm, hvalid⟩ := exists_ok_of_any hmerges
  obtain ⟨set', hset', htakes⟩ := exists_ok_of_any takes_sharing
  obtain rfl := Except.ok.inj (hset'.symm.trans hset)
  obtain ⟨merged', hm', htakes⟩ := exists_ok_of_any htakes
  obtain rfl := Except.ok.inj (hm'.symm.trans hm)
  simp only [Bool.and_eq_true, Bool.not_eq_true', ← SubgraphSet.resolvesUnder_iff] at htakes hvalid
  obtain ⟨⟨hfirst, hlast⟩, hunshared⟩ := htakes
  refine ⟨set', merged', hset, hm, hvalid, hfirst, hlast, fun hshares => ?_⟩
  rw [SubgraphSet.shares_iff, hunshared] at hshares
  cases hshares

/-- The third schema shares its field, and the first one would have to. -/
theorem resolvers_share_iff_left_ones_do_of_sharing :
    ∃ set merged, SubgraphSet.ofSources sharingSources = .ok set ∧
      MergedSchema.ofSubgraphs set = .ok merged ∧ set.ResolvesUnder "Query" "x" 0 merged [] ∧
      set.ResolvesUnder "Query" "x" 2 merged [] ∧
      ((set.Shares "Query" "x" 0 ∧ set.Shares "Query" "x" 2) ↔
        (set.IsLeftUnder "Query" "x" 0 [] → set.Shares "Query" "x" 0) ∧
          (set.IsLeftUnder "Query" "x" 2 [] → set.Shares "Query" "x" 2)) := by
  obtain ⟨set, merged, hset, hm, hvalid, hfirst, hlast, -⟩ := exists_sharing
  exact ⟨set, merged, hset, hm, hfirst, hlast, resolvers_share_iff_left_ones_do
    (SubgraphSet.ingested_ofSources hset) hm hvalid (by decide) (by decide) hfirst hlast⟩

/-- Two subgraphs may resolve a field at the same time, though one of them does not share it. -/
theorem left_resolver_need_not_share :
    ¬ ∀ set : SubgraphSet, set.Ingested → ∀ merged, MergedSchema.ofSubgraphs set = .ok merged →
      (Validation.validate { set, merged }).anyFatal = false →
        ∀ typeName fieldName labels, typeName ≠ RootOperation.subscription.typeName →
          ∀ id id', id ≠ id' → set.ResolvesUnder typeName fieldName id merged labels →
            set.ResolvesUnder typeName fieldName id' merged labels →
              set.Shares typeName fieldName id ∧ set.Shares typeName fieldName id' := by
  intro hall
  obtain ⟨set, merged, hset, hm, hvalid, hfirst, hlast, hunshared⟩ := exists_sharing
  exact hunshared (hall set (SubgraphSet.ingested_ofSources hset) merged hm hvalid "Query" "x" []
    (by decide) 0 2 (by decide) hfirst hlast).1

end Federation
