import Federation.Proofs.Merge.Types
import Federation.Proofs.Subgraph.FieldSets

/-!
# Merging rewritten field sets

Merging looks at field sets only to tell what a field requires and provides besides the leaves of
keys. Apart from that, rewriting field sets makes the same difference before merging and after it.
-/

namespace Federation

/-! ## Results -/

/-- Results that look the same through maps are the same error, or values that look the same. -/
theorem errors_or_values_of_map_eq {ε α β γ : Type} {f : α → γ} {g : β → γ} {x : Except ε α}
    {y : Except ε β} (h : x.map f = y.map g) :
    (∃ e, x = .error e ∧ y = .error e) ∨ ∃ a b, x = .ok a ∧ y = .ok b ∧ f a = g b := by
  cases x with
  | error e =>
    cases y with
    | error e' => exact .inl ⟨e, rfl, congrArg Except.error (Except.error.inj h).symm⟩
    | ok b => cases h
  | ok a =>
    cases y with
    | error e' => cases h
    | ok b => exact .inr ⟨a, b, rfl, rfl, Except.ok.inj h⟩

/-! ## Tables -/

/-- A change of an item by name, seen through a map. -/
theorem map_upsert {α β : Type} {φ : α → β} {isRight : α → Bool} {isRight' : β → Bool} {fresh : α}
    {fresh' : β} {g : α → α} {g' : β → β} (hright : ∀ a, isRight' (φ a) = isRight a)
    (hfresh : φ fresh = fresh') (hg : ∀ a, φ (g a) = g' (φ a)) (items : List α) :
    (upsert isRight fresh g items).map φ = upsert isRight' fresh' g' (items.map φ) := by
  induction items with
  | nil => simp [upsert, hg, hfresh]
  | cons first others ih =>
    rw [upsert, List.map_cons, upsert, hright]
    split
    · rw [List.map_cons, hg]
    · rw [List.map_cons, ih]

namespace ByGraph

theorem mem_of_get?_eq_some {α : Type} {entries : ByGraph α} {id : SubgraphId} {a : α}
    (h : entries.get? id = some a) : (id, a) ∈ entries := by
  obtain ⟨before, after, rfl, -⟩ := List.lookup_eq_some_iff.mp h
  exact List.mem_append_right _ List.mem_cons_self

variable {α β : Type} (entries : ByGraph α) (g : SubgraphId → α → β)

/-- Maps the entry of each subgraph. -/
def mapEntries : ByGraph β :=
  entries.map fun e => (e.1, g e.1 e.2)

@[simp] theorem ids_mapEntries : (entries.mapEntries g).ids = entries.ids := by
  simp [mapEntries, ids, Function.comp_def]

@[simp] theorem has_mapEntries (id : SubgraphId) :
    (entries.mapEntries g).has id = entries.has id := by
  simp [mapEntries, has, Function.comp_def]

@[simp] theorem get?_mapEntries (id : SubgraphId) :
    (entries.mapEntries g).get? id = (entries.get? id).map (g id) := by
  induction entries with
  | nil => rfl
  | cons e entries ih =>
    obtain ⟨id', a⟩ := e
    simp only [get?, mapEntries, List.map_cons, List.lookup_cons] at ih ⊢
    cases hid : id == id' with
    | true => rw [eq_of_beq hid]; rfl
    | false => exact ih

@[simp] theorem isEmpty_mapEntries :
    List.isEmpty (entries.mapEntries g) = List.isEmpty entries :=
  List.isEmpty_map

@[simp] theorem any_mapEntries (p : SubgraphId × β → Bool) :
    List.any (entries.mapEntries g) p = List.any entries fun e => p (e.1, g e.1 e.2) :=
  List.any_map

@[simp] theorem all_mapEntries (p : SubgraphId × β → Bool) :
    List.all (entries.mapEntries g) p = List.all entries fun e => p (e.1, g e.1 e.2) :=
  List.all_map

@[simp] theorem find?_mapEntries (p : SubgraphId × β → Bool) :
    List.find? p (entries.mapEntries g) =
      (List.find? (fun e => p (e.1, g e.1 e.2)) entries).map fun e => (e.1, g e.1 e.2) :=
  List.find?_map

@[simp] theorem filter_mapEntries (p : SubgraphId × β → Bool) :
    List.filter p (entries.mapEntries g) =
      mapEntries (List.filter (fun e => p (e.1, g e.1 e.2)) entries) g :=
  List.filter_map

variable {γ : Type}

@[simp] theorem map_mapEntries (h : SubgraphId × β → γ) :
    List.map h (entries.mapEntries g) = List.map (fun e => h (e.1, g e.1 e.2)) entries :=
  List.map_map

@[simp] theorem filterMap_mapEntries (h : SubgraphId × β → Option γ) :
    List.filterMap h (entries.mapEntries g) =
      List.filterMap (fun e => h (e.1, g e.1 e.2)) entries :=
  List.filterMap_map

@[simp] theorem flatMap_mapEntries (h : SubgraphId × β → List γ) :
    List.flatMap h (entries.mapEntries g) = List.flatMap (fun e => h (e.1, g e.1 e.2)) entries :=
  List.flatMap_map _ _ _

theorem mapEntries_set (id : SubgraphId) (a : α) :
    (entries.set id a).mapEntries g = (entries.mapEntries g).set id (g id a) := by
  rw [set, set, has_mapEntries]
  split
  · simp only [mapEntries, List.map_map]
    refine List.map_congr_left fun e _ => ?_
    simp only [Function.comp]
    split <;> rfl
  · simp [mapEntries]

end ByGraph

/-! ## Merged schemas -/

/-- Rewrites what a field requires, and forgets what it requires and provides besides the leaves of
keys. -/
def FieldInGraph.mapFieldSets (f : FieldSetRewriting) (x : FieldInGraph) : FieldInGraph :=
  { x with
    definition := x.definition.mapRequires (f (some x.definition.name))
    requires := none
    provides := none }

/-- Rewrites what a field requires in each subgraph. -/
def MergedField.mapFieldSets (f : SubgraphId → FieldSetRewriting) (m : MergedField) : MergedField :=
  { m with byGraph := m.byGraph.mapEntries fun id => FieldInGraph.mapFieldSets (f id) }

/-- Rewrites what the output fields of a type require. -/
def MergedBody.mapFieldSets (f : SubgraphId → FieldSetRewriting) : MergedBody → MergedBody
  | .object interfaces fields => .object interfaces (fields.map (MergedField.mapFieldSets f))
  | .interface interfaces fields implementations =>
    .interface interfaces (fields.map (MergedField.mapFieldSets f)) implementations
  | body => body

/-- Rewrites the field sets of a type. -/
def MergedType.mapFieldSets (f : SubgraphId → String → FieldSetRewriting) (t : MergedType) :
    MergedType :=
  { t with
    byGraph := t.byGraph.mapEntries fun id => TypeDef.mapFieldSets (f id t.name)
    body := t.body.mapFieldSets fun id => f id t.name }

/-- Rewrites the field sets of all types. -/
def MergedSchema.mapFieldSets (f : SubgraphId → String → FieldSetRewriting) (m : MergedSchema) :
    MergedSchema where
  types := m.types.map (MergedType.mapFieldSets f)

/-- Rewrites the field sets of a type and of its subgraph. -/
def TypeEntry.mapFieldSets (f : SubgraphId → String → FieldSetRewriting) (e : TypeEntry) :
    TypeEntry where
  id := e.id
  subgraph := e.subgraph.mapFieldSets (f e.id)
  definition := e.definition.mapFieldSets (f e.id e.name)

@[simp] theorem TypeEntry.mapFieldSets_none (e : TypeEntry) : e.mapFieldSets .none = e := by
  simp [mapFieldSets]

theorem SubgraphSet.typeEntries_mapFieldSets (f : SubgraphId → String → FieldSetRewriting)
    (set : SubgraphSet) :
    (set.mapFieldSets f).typeEntries = set.typeEntries.map (TypeEntry.mapFieldSets f) := by
  simp only [typeEntries, enumerated_mapFieldSets, List.flatMap_map, List.map_flatMap,
    Subgraph.mapFieldSets, TypeEntry.mapFieldSets, List.map_map, Function.comp_def]
  rfl

/-! ## Fields -/

namespace FieldInGraph

variable (f : FieldSetRewriting) (x : FieldInGraph)

@[simp] theorem definition_mapFieldSets :
    (x.mapFieldSets f).definition = x.definition.mapRequires (f (some x.definition.name)) := rfl

@[simp] theorem isExternal_mapFieldSets : (x.mapFieldSets f).isExternal = x.isExternal := rfl

@[simp] theorem isShareable_mapFieldSets : (x.mapFieldSets f).isShareable = x.isShareable := rfl

@[simp] theorem type_mapFieldSets : (x.mapFieldSets f).type = x.type := rfl

@[simp] theorem override_mapFieldSets : (x.mapFieldSets f).override = x.override := rfl

@[simp] theorem isUsedAsKey_mapFieldSets : (x.mapFieldSets f).isUsedAsKey = x.isUsedAsKey := rfl

end FieldInGraph

namespace MergedField

variable (f : SubgraphId → FieldSetRewriting) (m : MergedField)

@[simp] theorem name_mapFieldSets : (m.mapFieldSets f).name = m.name := rfl

@[simp] theorem type_mapFieldSets : (m.mapFieldSets f).type = m.type := rfl

@[simp] theorem metadata_mapFieldSets : (m.mapFieldSets f).metadata = m.metadata := rfl

@[simp] theorem arguments_mapFieldSets : (m.mapFieldSets f).arguments = m.arguments := rfl

@[simp] theorem typesDisagree_mapFieldSets :
    (m.mapFieldSets f).typesDisagree = m.typesDisagree := rfl

@[simp] theorem byGraph_mapFieldSets : (m.mapFieldSets f).byGraph =
    m.byGraph.mapEntries fun id => FieldInGraph.mapFieldSets (f id) := by
  rw [mapFieldSets]

theorem mapFieldSets_absorb (id : SubgraphId) (x : FieldInGraph) :
    (m.absorb id x).mapFieldSets f = (m.mapFieldSets f).absorb id (x.mapFieldSets (f id)) := by
  simp only [mapFieldSets, absorb, ByGraph.mapEntries_set]
  rfl

theorem map_absorbInto (fields : List MergedField) (id : SubgraphId) (x : FieldInGraph) :
    (absorbInto fields id x).map (mapFieldSets f) =
      absorbInto (fields.map (mapFieldSets f)) id (x.mapFieldSets (f id)) := by
  refine map_upsert ?_ ?_ (fun m => m.mapFieldSets_absorb f id x) fields
  · exact fun _ => rfl
  · rfl

end MergedField

/-- What a field requires and provides besides the leaves of keys is all that merging makes of field
sets. -/
theorem FieldInGraph.mapFieldSets_of (f : String → FieldSetRewriting) (s : Subgraph) (d : TypeDef)
    (field : Field) :
    (FieldInGraph.of (s.mapFieldSets f) (d.mapFieldSets (f d.name))
        (field.mapRequires (f d.name (some field.name)))).mapFieldSets
          (fun _ selections => selections) =
      (FieldInGraph.of s d field).mapFieldSets (f d.name) := by
  simp only [mapFieldSets, of, Subgraph.isExternal_mapFieldSets, Subgraph.isShareable_mapFieldSets]
  congr 1
  exact Field.mapRequires_id _

@[simp] theorem FieldInGraph.mapFieldSets_mapFieldSets (f : FieldSetRewriting) (x : FieldInGraph) :
    (x.mapFieldSets f).mapFieldSets (fun _ selections => selections) = x.mapFieldSets f := by
  simp only [mapFieldSets]
  congr 1
  exact Field.mapRequires_id _

@[simp] theorem MergedField.mapFieldSets_mapFieldSets (f : SubgraphId → FieldSetRewriting)
    (m : MergedField) :
    (m.mapFieldSets f).mapFieldSets (fun _ _ selections => selections) = m.mapFieldSets f := by
  simp [mapFieldSets, ByGraph.mapEntries]

/-- The output fields that a type adds. -/
theorem map_foldl_absorbInto (f : SubgraphId → String → FieldSetRewriting) (s : Subgraph)
    (id : SubgraphId) (d : TypeDef) (added : List Field) {fields fields' : List MergedField}
    (h : fields'.map (MergedField.mapFieldSets fun _ _ selections => selections) =
      fields.map (MergedField.mapFieldSets fun id => f id d.name)) :
    ((added.map fun field => field.mapRequires (f id d.name (some field.name))).foldl
        (fun fields field => MergedField.absorbInto fields id
          (.of (s.mapFieldSets (f id)) (d.mapFieldSets (f id d.name)) field)) fields').map
        (MergedField.mapFieldSets fun _ _ selections => selections) =
      (added.foldl (fun fields field => MergedField.absorbInto fields id (.of s d field))
        fields).map (MergedField.mapFieldSets fun id => f id d.name) := by
  induction added generalizing fields fields' with
  | nil => exact h
  | cons field added ih =>
    refine ih ?_
    rw [MergedField.map_absorbInto, MergedField.map_absorbInto, h,
      FieldInGraph.mapFieldSets_of (f id)]

@[simp] theorem MergedField.listSize_mapFieldSets (f : SubgraphId → FieldSetRewriting)
    (m : MergedField) : (m.mapFieldSets f).listSize = m.listSize := by
  have hsizes : (m.mapFieldSets f).listSizes = m.listSizes := by
    simp only [listSizes, byGraph_mapFieldSets, ByGraph.filterMap_mapEntries]
    rfl
  have hargument : (m.mapFieldSets f).hasArgumentEverywhere = m.hasArgumentEverywhere := by
    funext name
    simp only [hasArgumentEverywhere, byGraph_mapFieldSets, ByGraph.all_mapEntries]
    rfl
  rw [listSize, listSize, hsizes, hargument]

/-! ## Types -/

namespace MergedBody

@[simp] theorem kind_mapFieldSets (f : SubgraphId → FieldSetRewriting) (body : MergedBody) :
    (body.mapFieldSets f).kind = body.kind := by
  cases body <;> rfl

@[simp] theorem mapFieldSets_empty (f : SubgraphId → FieldSetRewriting) (kind : TypeKind) :
    (MergedBody.empty kind).mapFieldSets f = .empty kind := by
  cases kind <;> rfl

/-- What a type adds to the body of a merged type. -/
theorem mapFieldSets_absorb (f : SubgraphId → String → FieldSetRewriting) (s : Subgraph)
    (id : SubgraphId) (d : TypeDef) (body : MergedBody) :
    ((body.mapFieldSets fun id => f id d.name).absorb (s.mapFieldSets (f id)) id
        (d.mapFieldSets (f id d.name))).mapFieldSets (fun _ _ selections => selections) =
      (body.absorb s id d).mapFieldSets fun id => f id d.name := by
  have hfields : ∀ fields : List MergedField,
      (absorbFields (s.mapFieldSets (f id)) id (d.mapFieldSets (f id d.name))
          (fields.map (MergedField.mapFieldSets fun id => f id d.name))).map
          (MergedField.mapFieldSets fun _ _ selections => selections) =
        (absorbFields s id d fields).map (MergedField.mapFieldSets fun id => f id d.name) :=
    fun fields => map_foldl_absorbInto f s id d d.fields (by simp)
  cases body with
  | object interfaces fields => exact congrArg (MergedBody.object _) (hfields fields)
  | interface interfaces fields implementations =>
    exact congrArg (MergedBody.interface _ · implementations) (hfields fields)
  | union members => rfl
  | enum values => rfl
  | scalar => rfl
  | inputObject fields =>
    refine congrArg MergedBody.inputObject ?_
    exact List.foldl_map

end MergedBody

namespace MergedType

variable (f : SubgraphId → String → FieldSetRewriting) (t : MergedType)

@[simp] theorem name_mapFieldSets : (t.mapFieldSets f).name = t.name := rfl

@[simp] theorem metadata_mapFieldSets : (t.mapFieldSets f).metadata = t.metadata := rfl

@[simp] theorem coordinate_mapFieldSets : (t.mapFieldSets f).coordinate = t.coordinate := rfl

@[simp] theorem byGraph_mapFieldSets : (t.mapFieldSets f).byGraph =
    t.byGraph.mapEntries fun id => TypeDef.mapFieldSets (f id t.name) := by
  rw [mapFieldSets]

@[simp] theorem kind_mapFieldSets : (t.mapFieldSets f).kind = t.kind :=
  t.body.kind_mapFieldSets _

@[simp] theorem interfaces_mapFieldSets : (t.mapFieldSets f).interfaces = t.interfaces := by
  obtain ⟨name, metadata, byGraph, body⟩ := t
  cases body <;> rfl

@[simp] theorem implementations_mapFieldSets :
    (t.mapFieldSets f).implementations = t.implementations := by
  obtain ⟨name, metadata, byGraph, body⟩ := t
  cases body <;> rfl

theorem fields_mapFieldSets : (t.mapFieldSets f).fields =
    t.fields.map (MergedField.mapFieldSets fun id => f id t.name) := by
  obtain ⟨name, metadata, byGraph, body⟩ := t
  cases body <;> rfl

theorem field?_mapFieldSets (name : String) : (t.mapFieldSets f).field? name =
    (t.field? name).map (MergedField.mapFieldSets fun id => f id t.name) := by
  rw [field?, field?, fields_mapFieldSets, List.find?_map]
  rfl

@[simp] theorem interfaceObjectSubgraphs_mapFieldSets :
    (t.mapFieldSets f).interfaceObjectSubgraphs = t.interfaceObjectSubgraphs := by
  simp [interfaceObjectSubgraphs, mapFieldSets, ByGraph.mapEntries, List.filter_map,
    Function.comp_def]

@[simp] theorem isUsedAsInput_mapFieldSets :
    (t.mapFieldSets f).isUsedAsInput = t.isUsedAsInput := by
  simp [isUsedAsInput]

@[simp] theorem isUsedAsOutput_mapFieldSets :
    (t.mapFieldSets f).isUsedAsOutput = t.isUsedAsOutput := by
  simp [isUsedAsOutput]

@[simp] theorem enumStrategy_mapFieldSets : (t.mapFieldSets f).enumStrategy = t.enumStrategy := by
  simp [enumStrategy]

@[simp] theorem isDefinedEverywhere_mapFieldSets :
    (t.mapFieldSets f).isDefinedEverywhere = t.isDefinedEverywhere := by
  funext value
  simp [isDefinedEverywhere]

@[simp] theorem mapFieldSets_mapFieldSets : (t.mapFieldSets f).mapFieldSets .none =
    t.mapFieldSets f := by
  obtain ⟨name, metadata, byGraph, body⟩ := t
  cases body <;> simp [mapFieldSets, MergedBody.mapFieldSets, ByGraph.mapEntries,
    Function.comp_def]

/-- What a type adds to a merged type. -/
theorem mapFieldSets_absorb (s : Subgraph) (id : SubgraphId) (d : TypeDef) (h : t.name = d.name) :
    ((t.mapFieldSets f).absorb (s.mapFieldSets (f id)) id
        (d.mapFieldSets (f id d.name))).mapFieldSets .none =
      (t.absorb s id d).mapFieldSets f := by
  simp only [absorb, mapFieldSets, h]
  congr 1
  · rw [ByGraph.mapEntries_set, ByGraph.mapEntries_set]
    simp [ByGraph.mapEntries, Function.comp_def]
  · exact t.body.mapFieldSets_absorb f s id d

end MergedType

namespace MergedSchema

variable (f : SubgraphId → String → FieldSetRewriting) (m : MergedSchema)

theorem type?_mapFieldSets (name : String) : (m.mapFieldSets f).type? name =
    (m.type? name).map (MergedType.mapFieldSets f) := by
  rw [type?, type?, mapFieldSets, List.find?_map]
  rfl

theorem field?_mapFieldSets (typeName name : String) :
    (m.mapFieldSets f).field? typeName name =
      (m.field? typeName name).map (MergedField.mapFieldSets fun id => f id typeName) := by
  rw [field?, field?, type?_mapFieldSets]
  cases ht : m.type? typeName with
  | none => rfl
  | some t =>
    rw [← (mem_types_of_type?_eq_some ht).2]
    exact t.field?_mapFieldSets f name

theorem object?_mapFieldSets (name : String) : (m.mapFieldSets f).object? name =
    (m.object? name).map (MergedType.mapFieldSets f) := by
  simp [object?, type?_mapFieldSets, Option.filter_map, Function.comp_def]

theorem interface?_mapFieldSets (name : String) : (m.mapFieldSets f).interface? name =
    (m.interface? name).map (MergedType.mapFieldSets f) := by
  simp [interface?, type?_mapFieldSets, Option.filter_map, Function.comp_def]

/-! ## Adding types -/

/-- Adding a type. -/
theorem addEntry_mapFieldSets (nameOf : SubgraphId → String) (e : TypeEntry) :
    (addEntry nameOf (m.mapFieldSets f) (e.mapFieldSets f)).map (mapFieldSets .none) =
      (addEntry nameOf m e).map (mapFieldSets f) := by
  have habsorb : ∀ t : MergedType, t.name = e.name →
      ((t.mapFieldSets f).absorb (e.mapFieldSets f).subgraph e.id
          (e.mapFieldSets f).definition).mapFieldSets .none =
        (t.absorb e.subgraph e.id e.definition).mapFieldSets f :=
    fun t ht => t.mapFieldSets_absorb f e.subgraph e.id e.definition ht
  have hname : (e.mapFieldSets f).definition.name = e.definition.name := rfl
  have hkind : (e.mapFieldSets f).definition.kind = e.definition.kind := rfl
  unfold addEntry addType
  rw [type?_mapFieldSets, hname, hkind]
  cases m.type? e.definition.name with
  | none =>
    -- a new type starts empty, with no field sets to rewrite
    have hfresh : e.fresh.mapFieldSets f = e.fresh := by
      simp [MergedType.mapFieldSets, TypeEntry.fresh, ByGraph.mapEntries]
    have hadded := habsorb e.fresh rfl
    rw [hfresh] at hadded
    refine congrArg (fun types => Except.ok (MergedSchema.mk types)) ?_
    simp only [mapFieldSets, List.map_append, List.map_map, List.map_singleton]
    refine congr (congrArg _ ?_) (congrArg (fun t => [t]) hadded)
    exact List.map_congr_left fun t _ => t.mapFieldSets_mapFieldSets f
  | some existing =>
    by_cases heq : existing.kind = e.definition.kind
    · simp only [Option.map_some, MergedType.kind_mapFieldSets, if_pos heq]
      refine congrArg (fun types => Except.ok (MergedSchema.mk types)) ?_
      simp only [mapFieldSets, List.map_map]
      refine List.map_congr_left fun t _ => ?_
      have hsame : ((t.mapFieldSets f).name == e.definition.name) = (t.name == e.definition.name) :=
        rfl
      simp only [Function.comp]
      by_cases hright : t.name = e.definition.name
      · have hbeq : (t.name == e.definition.name) = true := beq_iff_eq.mpr hright
        rw [if_pos hbeq, if_pos (hsame.trans hbeq)]
        exact habsorb t hright
      · have hbeq : ¬ (t.name == e.definition.name) = true := mt eq_of_beq hright
        rw [if_neg hbeq, if_neg (mt hsame.symm.trans hbeq)]
        exact t.mapFieldSets_mapFieldSets f
    · have hids : (existing.mapFieldSets f).byGraph.ids = existing.byGraph.ids :=
        existing.byGraph.ids_mapEntries fun id => TypeDef.mapFieldSets (f id existing.name)
      simp only [Option.map_some, MergedType.kind_mapFieldSets, if_neg heq, hids]
      rfl

/-- Adding many types, from schemas that differ in field sets only. -/
theorem foldlM_addEntry_mapFieldSets (nameOf : SubgraphId → String) (entries : List TypeEntry)
    {m m' : MergedSchema} (h : m'.mapFieldSets .none = m.mapFieldSets f) :
    ((entries.map (TypeEntry.mapFieldSets f)).foldlM (addEntry nameOf) m').map
        (mapFieldSets .none) =
      (entries.foldlM (addEntry nameOf) m).map (mapFieldSets f) := by
  induction entries generalizing m m' with
  | nil => exact congrArg Except.ok h
  | cons e entries ih =>
    -- both schemas look the same after forgetting, so a step from either looks like the other's
    have hstep : (addEntry nameOf m' (e.mapFieldSets f)).map (mapFieldSets .none) =
        (addEntry nameOf m e).map (mapFieldSets f) := by
      rw [← addEntry_mapFieldSets .none m', h, TypeEntry.mapFieldSets_none,
        addEntry_mapFieldSets f m]
    rw [List.map_cons, List.foldlM_cons, List.foldlM_cons]
    rcases errors_or_values_of_map_eq hstep with ⟨err, hadd', hadd⟩ |
      ⟨next', next, hadd', hadd, hnext⟩
    · rw [hadd', hadd]
      rfl
    · rw [hadd', hadd]
      exact ih hnext

/-! ## Interfaces -/

@[simp] theorem implementersOf_mapFieldSets (interface : String) :
    (m.mapFieldSets f).implementersOf interface = m.implementersOf interface := by
  simp [implementersOf, mapFieldSets, List.filter_map, Function.comp_def]

theorem withImplementations_mapFieldSets : (m.mapFieldSets f).withImplementations =
    m.withImplementations.mapFieldSets f := by
  have hsame := m.implementersOf_mapFieldSets f
  unfold withImplementations
  generalize (m.mapFieldSets f).implementersOf = implementersOf at hsame ⊢
  rw [funext hsame]
  simp only [mapFieldSets, List.map_map]
  congr 1
  refine List.map_congr_left fun t _ => ?_
  obtain ⟨name, metadata, byGraph, body⟩ := t
  cases body <;> rfl

/-- The copies of a field do not keep what the field requires. -/
theorem foldl_copyField_map_copyOf (copies : List (String × MergedField)) :
    (copies.map fun copy => (copy.1, copyOf copy.2)).foldl copyField m =
      copies.foldl copyField m :=
  List.foldl_map

theorem interfaceObjectFields_mapFieldSets (t : MergedType) :
    interfaceObjectFields (t.mapFieldSets f) =
      (interfaceObjectFields t).map (MergedField.mapFieldSets fun id => f id t.name) := by
  simp [interfaceObjectFields, MergedType.fields_mapFieldSets, List.filter_map,
    MergedField.mapFieldSets, ByGraph.mapEntries, Function.comp_def]

theorem map_copyOf_copies : ((m.mapFieldSets f).copies.map fun copy => (copy.1, copyOf copy.2)) =
    m.copies.map fun copy => (copy.1, copyOf copy.2) := by
  simp only [copies, mapFieldSets, List.filter_map, List.map_flatMap, List.flatMap_map,
    List.map_map, interfaceObjectFields_mapFieldSets, MergedType.kind_mapFieldSets,
    MergedType.implementations_mapFieldSets, Function.comp_def]
  rfl

theorem mapFieldSets_copyField (copy : String × MergedField) :
    (m.copyField copy).mapFieldSets f = (m.mapFieldSets f).copyField copy := by
  simp only [copyField, mapFieldSets, List.map_map]
  congr 1
  refine List.map_congr_left fun t _ => ?_
  obtain ⟨name, metadata, byGraph, body⟩ := t
  cases body with
  | object interfaces fields =>
    have hany : ((fields.map (MergedField.mapFieldSets fun id => f id name)).any fun field =>
        field.name == copy.2.name) = fields.any fun field => field.name == copy.2.name := by
      rw [List.any_map]
      rfl
    simp only [Function.comp, MergedType.mapFieldSets, MergedBody.mapFieldSets, hany]
    split
    · refine congrArg (fun fields => MergedType.mk name metadata _ (.object interfaces fields)) ?_
      exact List.map_append
    · rfl
  | _ => rfl

theorem finish_mapFieldSets : (m.mapFieldSets f).finish = m.finish.mapFieldSets f := by
  have hcopies : ∀ (copies : List (String × MergedField)) (m : MergedSchema),
      copies.foldl copyField (m.mapFieldSets f) = (copies.foldl copyField m).mapFieldSets f := by
    intro copies
    induction copies with
    | nil => exact fun _ => rfl
    | cons copy copies ih =>
      intro m
      rw [List.foldl_cons, List.foldl_cons, ← mapFieldSets_copyField, ih]
  rw [finish, finish, withImplementations_mapFieldSets, withCopiedFields, withCopiedFields,
    ← foldl_copyField_map_copyOf, map_copyOf_copies, foldl_copyField_map_copyOf, hcopies]

/-! ## Whole schemas -/

/-- Rewriting field sets makes the same difference before merging and after it, apart from what fields
require and provide besides the leaves of keys. -/
theorem ofSubgraphs_mapFieldSets (set : SubgraphSet) :
    (ofSubgraphs (set.mapFieldSets f)).map (mapFieldSets .none) =
      (ofSubgraphs set).map (mapFieldSets f) := by
  have hempty : ({} : MergedSchema).mapFieldSets .none = mapFieldSets f {} := rfl
  have hadded := foldlM_addEntry_mapFieldSets f set.nameOf set.typeEntries hempty
  unfold ofSubgraphs
  rw [SubgraphSet.nameOf_mapFieldSets, foldlM_addSubgraph, foldlM_addSubgraph,
    ← SubgraphSet.typeEntries, ← SubgraphSet.typeEntries, SubgraphSet.typeEntries_mapFieldSets]
  rcases errors_or_values_of_map_eq hadded with ⟨err, hmerged', hmerged⟩ |
    ⟨merged', merged, hmerged', hmerged, hsame⟩
  · rw [hmerged', hmerged]
    rfl
  · rw [hmerged', hmerged]
    refine congrArg Except.ok ?_
    rw [← finish_mapFieldSets, hsame, finish_mapFieldSets]

end MergedSchema

end Federation
