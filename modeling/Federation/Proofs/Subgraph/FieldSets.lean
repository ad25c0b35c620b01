import Federation.Merge.Field

/-!
# Rewriting field sets

The field sets of subgraphs can be rewritten without touching anything else: the selections of keys
by the type that they stand on, and what fields require by type and field. Nothing that looks at types
by name or at attributes of fields notices, apart from the field sets themselves.
-/

namespace Federation

/-- What to make of field sets, by the field that they stand on; keys stand on none. -/
abbrev FieldSetRewriting : Type := Option String → SelectionSet → SelectionSet

/-- All field sets of subgraphs stay as they are. -/
abbrev FieldSetRewriting.none : SubgraphId → String → FieldSetRewriting :=
  fun _ _ _ selections => selections

/-- Rewrites the selections of a key. -/
def Key.mapSelections (f : SelectionSet → SelectionSet) (key : Key) : Key :=
  { key with selections := f key.selections }

/-- Rewrites what a field requires. -/
def Field.mapRequires (f : SelectionSet → SelectionSet) (field : Field) : Field :=
  { field with attributes := { field.attributes with requires := field.attributes.requires.map f } }

/-- Rewrites the keys of a type, and what its fields require. -/
def TypeDef.mapFieldSets (f : FieldSetRewriting) (d : TypeDef) : TypeDef :=
  { d with
    keys := d.keys.map (Key.mapSelections (f none))
    fields := d.fields.map fun field => field.mapRequires (f (some field.name)) }

/-- Rewrites the field sets of all types, by their names. -/
def Subgraph.mapFieldSets (f : String → FieldSetRewriting) (s : Subgraph) : Subgraph :=
  { s with definitions := s.definitions.map fun d => d.mapFieldSets (f d.name) }

/-- Rewrites the field sets of all subgraphs, by their places. -/
def SubgraphSet.mapFieldSets (f : SubgraphId → String → FieldSetRewriting) (set : SubgraphSet) :
    SubgraphSet :=
  { set with subgraphs := set.subgraphs.mapIdx fun id s => s.mapFieldSets (f id) }

/-! ## Fields -/

namespace Field

variable (f : SelectionSet → SelectionSet) (field : Field)

@[simp] theorem name_mapRequires : (field.mapRequires f).name = field.name := rfl

@[simp] theorem type_mapRequires : (field.mapRequires f).type = field.type := rfl

@[simp] theorem arguments_mapRequires : (field.mapRequires f).arguments = field.arguments := rfl

@[simp] theorem usage_mapRequires : (field.mapRequires f).usage = field.usage := rfl

@[simp] theorem requires_mapRequires :
    (field.mapRequires f).attributes.requires = field.attributes.requires.map f := rfl

@[simp] theorem provides_mapRequires :
    (field.mapRequires f).attributes.provides = field.attributes.provides := rfl

@[simp] theorem mapRequires_id : field.mapRequires id = field := by
  simp [mapRequires]

end Field

/-! ## Types -/

namespace TypeDef

variable (f : FieldSetRewriting) (d : TypeDef)

@[simp] theorem name_mapFieldSets : (d.mapFieldSets f).name = d.name := rfl

@[simp] theorem kind_mapFieldSets : (d.mapFieldSets f).kind = d.kind := rfl

@[simp] theorem attributes_mapFieldSets : (d.mapFieldSets f).attributes = d.attributes := rfl

@[simp] theorem interfaces_mapFieldSets : (d.mapFieldSets f).interfaces = d.interfaces := rfl

@[simp] theorem isExtension_mapFieldSets : (d.mapFieldSets f).isExtension = d.isExtension := rfl

@[simp] theorem isUsedAsInput_mapFieldSets :
    (d.mapFieldSets f).isUsedAsInput = d.isUsedAsInput := rfl

@[simp] theorem isUsedAsOutput_mapFieldSets :
    (d.mapFieldSets f).isUsedAsOutput = d.isUsedAsOutput := rfl

@[simp] theorem isInterfaceObject_mapFieldSets :
    (d.mapFieldSets f).isInterfaceObject = d.isInterfaceObject := rfl

theorem keys_mapFieldSets :
    (d.mapFieldSets f).keys = d.keys.map (Key.mapSelections (f none)) := by
  rw [mapFieldSets]

theorem resolvableKeys_mapFieldSets : (d.mapFieldSets f).resolvableKeys =
    d.resolvableKeys.map (Key.mapSelections (f none)) := by
  rw [resolvableKeys, keys_mapFieldSets, List.filter_map]
  rfl

@[simp] theorem mapFieldSets_id : d.mapFieldSets (fun _ selections => selections) = d := by
  have hkeys : d.keys.map (Key.mapSelections fun selections => selections) = d.keys :=
    List.map_id _
  have hfields : d.fields.map (fun field => field.mapRequires fun selections => selections) =
      d.fields := by
    refine (List.map_congr_left fun field _ => field.mapRequires_id).trans (List.map_id _)
  rw [mapFieldSets, hkeys, hfields]

theorem field?_mapFieldSets (name : String) : (d.mapFieldSets f).field? name =
    (d.field? name).map fun field => field.mapRequires (f (some field.name)) := by
  rw [field?, field?, mapFieldSets, List.find?_map]
  rfl

end TypeDef

/-! ## Subgraphs -/

namespace Subgraph

variable (f : String → FieldSetRewriting) (s : Subgraph)

@[simp] theorem mapFieldSets_id : s.mapFieldSets (fun _ _ selections => selections) = s := by
  have hdefinitions : s.definitions.map (fun d => d.mapFieldSets fun _ selections => selections) =
      s.definitions := by
    refine (List.map_congr_left fun d _ => d.mapFieldSets_id).trans (List.map_id _)
  rw [mapFieldSets, hdefinitions]

theorem definition?_mapFieldSets (name : String) : (s.mapFieldSets f).definition? name =
    (s.definition? name).map fun d => d.mapFieldSets (f d.name) := by
  rw [definition?, definition?, mapFieldSets, List.find?_map]
  rfl

theorem typeOf?_mapFieldSets (g : SelectionSet → SelectionSet) (field : Field) :
    (s.mapFieldSets f).typeOf? (field.mapRequires g) =
      (s.typeOf? field).map fun d => d.mapFieldSets (f d.name) :=
  s.definition?_mapFieldSets f field.type.name

@[simp] theorem isExternal_mapFieldSets (g : FieldSetRewriting) (h : SelectionSet → SelectionSet)
    (d : TypeDef) (field : Field) :
    (s.mapFieldSets f).isExternal (d.mapFieldSets g) (field.mapRequires h) =
      s.isExternal d field := rfl

@[simp] theorem isShareable_mapFieldSets (g : FieldSetRewriting) (h : SelectionSet → SelectionSet)
    (d : TypeDef) (field : Field) :
    (s.mapFieldSets f).isShareable (d.mapFieldSets g) (field.mapRequires h) =
      s.isShareable d field := rfl

@[simp] theorem defines_mapFieldSets (name : String) :
    (s.mapFieldSets f).defines name = s.defines name := by
  rw [defines, defines, mapFieldSets, List.any_map]
  rfl

theorem definitionsIn_mapFieldSets (names : List String) :
    (s.mapFieldSets f).definitionsIn names =
      (s.definitionsIn names).map fun d => d.mapFieldSets (f d.name) := by
  rw [definitionsIn, definitionsIn, mapFieldSets, List.filter_map]
  rfl

theorem implementers_mapFieldSets (name : String) :
    (s.mapFieldSets f).implementers name =
      (s.implementers name).map fun d => d.mapFieldSets (f d.name) := by
  rw [implementers, implementers, mapFieldSets, List.filter_map]
  rfl

end Subgraph

/-! ## Sets of subgraphs -/

namespace SubgraphSet

variable (f : SubgraphId → String → FieldSetRewriting) (set : SubgraphSet)

@[simp] theorem mapFieldSets_none : set.mapFieldSets .none = set := by
  have hsubgraphs : set.subgraphs.mapIdx (fun id s => s.mapFieldSets (.none id)) =
      set.subgraphs := by
    refine List.ext_getElem? fun i => ?_
    simp
  rw [mapFieldSets, hsubgraphs]

theorem subgraph?_mapFieldSets (id : SubgraphId) : (set.mapFieldSets f).subgraph? id =
    (set.subgraph? id).map fun s => s.mapFieldSets (f id) := by
  rw [subgraph?, subgraph?, mapFieldSets, List.getElem?_mapIdx]

@[simp] theorem nameOf_mapFieldSets : (set.mapFieldSets f).nameOf = set.nameOf := by
  funext id
  rw [nameOf, nameOf, subgraph?_mapFieldSets, Option.map_map]
  rfl

theorem enumerated_mapFieldSets : (set.mapFieldSets f).enumerated =
    set.enumerated.map fun e => (e.1, e.2.mapFieldSets (f e.1)) := by
  refine List.ext_getElem? fun i => ?_
  simp [enumerated, mapFieldSets, Function.comp_def]

/-- What does not look at field sets is the same for all subgraphs. -/
theorem map_subgraphs_mapFieldSets {α : Type} {g : Subgraph → α}
    (hg : ∀ f s, g (Subgraph.mapFieldSets f s) = g s) :
    (set.mapFieldSets f).subgraphs.map g = set.subgraphs.map g := by
  refine List.ext_getElem? fun i => ?_
  simp [mapFieldSets, hg, Function.comp_def]

@[simp] theorem idOfName?_mapFieldSets : (set.mapFieldSets f).idOfName? = set.idOfName? := by
  funext name
  have hnames : ∀ set : SubgraphSet,
      set.idOfName? name = (set.subgraphs.map Subgraph.name).findIdx? (· == name) := fun set => by
    rw [List.findIdx?_map]
    rfl
  rw [hnames, hnames, map_subgraphs_mapFieldSets f set fun _ _ => rfl]

@[simp] theorem diagnostics_mapFieldSets : (set.mapFieldSets f).diagnostics = set.diagnostics := by
  rw [diagnostics, diagnostics, List.flatMap_def, List.flatMap_def,
    map_subgraphs_mapFieldSets f set fun _ _ => rfl]

end SubgraphSet

end Federation
