import Federation.Proofs.Merge.EnumValues
import Federation.Proofs.Merge.NamedTypes
import Federation.Proofs.Validation.Rules

/-!
# Implementations of entity interfaces

Objects that are fetched by the key of an interface have to be known where the interface is. Two rules
share this: one asks for the keys of an interface on the types that implement it in the same subgraph,
the other for the definition of each object that implements it in any subgraph. An object that is
defined in the subgraph without implementing the interface there escapes both.
-/

namespace Federation

/-! ## Interfaces and their implementations -/

/-- The subgraph defines an interface that no object stands in for. -/
structure Subgraph.HasInterface (s : Subgraph) (name : String) (d : TypeDef) : Prop where
  defined : s.definition? name = some d
  kind : d.kind = .interface
  isInterfaceObject : d.isInterfaceObject = false

theorem TypeDef.kind_of_isInterfaceObject {d : TypeDef} (h : d.isInterfaceObject = true) :
    d.kind = .interface :=
  beq_iff_eq.mp (Bool.and_eq_true_iff.mp h).1

namespace SubgraphSet

/-- Some subgraph has an object type that implements an interface. -/
def HasImplementation (set : SubgraphSet) (interface name : String) : Prop :=
  ∃ s ∈ set.subgraphs, ∃ d, s.definition? name = some d ∧ d.kind = .object ∧
    interface ∈ d.interfaces

/-- In some subgraph, a type that implements an interface lacks a resolvable key of it. -/
def LacksKey (set : SubgraphSet) (interface : String) : Prop :=
  ∃ s ∈ set.subgraphs, ∃ d, s.HasInterface interface d ∧ ∃ key ∈ d.resolvableKeys,
    ∃ o ∈ s.implementers interface, ∀ other ∈ o.keys, other.text ≠ key.text

/-- Some subgraph with a resolvable key of an interface does not define an object that implements the
interface. -/
def LacksImplementation (set : SubgraphSet) (interface : String) : Prop :=
  ∃ s ∈ set.subgraphs, ∃ d, s.HasInterface interface d ∧ d.resolvableKeys ≠ [] ∧
    ∃ name, set.HasImplementation interface name ∧ s.definition? name = none

end SubgraphSet

theorem Subgraph.mem_implementers {s : Subgraph} {name : String} {d : TypeDef} :
    d ∈ s.implementers name ↔ d ∈ s.definitions ∧ name ∈ d.interfaces := by
  rw [implementers, List.mem_filter, List.contains_iff_mem]

/-! ## Merged interfaces -/

namespace MergedSchema

variable {set : SubgraphSet} {m : MergedSchema} (hset : set.HasProperNames)
  (h : ofSubgraphs set = .ok m)

include hset h

/-- What a subgraph defines is merged. -/
theorem exists_entry_of_definition? {s : Subgraph} (hs : s ∈ set.subgraphs) {name : String}
    {d : TypeDef} (hd : s.definition? name = some d) :
    ∃ t ∈ m.types, t.name = name ∧ t.kind = d.kind ∧
      ∃ id, set.subgraph? id = some s ∧ (id, d) ∈ t.byGraph := by
  obtain ⟨id, hid⟩ := List.mem_iff_getElem?.mp hs
  obtain ⟨t, hfound, hkind, -⟩ := exists_type?_of_mem h (e := ⟨id, s, d⟩)
    (SubgraphSet.mem_typeEntries.mpr ⟨hid, Subgraph.mem_of_definition? hd⟩)
  obtain ⟨ht, htname⟩ := mem_types_of_type?_eq_some hfound
  have hname : t.name = name := htname.trans (Subgraph.name_of_definition? hd)
  exact ⟨t, ht, hname, hkind, id, hid, (mem_byGraph_iff hset h ht).mpr ⟨s, hid, hname ▸ hd⟩⟩

variable {t : MergedType} (ht : t ∈ m.types)

include ht

/-- The definitions of a name are of one kind. -/
theorem kind_of_definition? {s : Subgraph} (hs : s ∈ set.subgraphs) {d : TypeDef}
    (hd : s.definition? t.name = some d) : d.kind = t.kind := by
  obtain ⟨id, hid⟩ := List.mem_iff_getElem?.mp hs
  exact kind_of_mem_byGraph hset h ht ((mem_byGraph_iff hset h ht).mpr ⟨s, hid, hd⟩)

/-- The entries of a merged type are the definitions of its name. -/
theorem exists_entry_iff {p : Subgraph → TypeDef → Prop} :
    (∃ entry ∈ t.byGraph, p ((set.subgraph? entry.1).getD default) entry.2) ↔
      ∃ s ∈ set.subgraphs, ∃ d, s.definition? t.name = some d ∧ p s d := by
  constructor
  · rintro ⟨⟨id, d⟩, hentry, hp⟩
    obtain ⟨s, hs, hd⟩ := (mem_byGraph_iff hset h ht).mp hentry
    dsimp only at hp
    rw [hs, Option.getD_some] at hp
    exact ⟨s, List.mem_of_getElem? hs, d, hd, hp⟩
  · rintro ⟨s, hs, d, hd, hp⟩
    obtain ⟨id, hid⟩ := List.mem_iff_getElem?.mp hs
    have hfound : set.subgraph? id = some s := hid
    refine ⟨(id, d), (mem_byGraph_iff hset h ht).mpr ⟨s, hfound, hd⟩, ?_⟩
    dsimp only
    rw [hfound]
    exact hp

/-- An interface and its entries that are interfaces themselves. -/
theorem exists_interface_entry_iff {p : Subgraph → TypeDef → Prop} :
    (t.kind = .interface ∧ ∃ entry ∈ t.byGraph, entry.2.isInterfaceObject = false ∧
        p ((set.subgraph? entry.1).getD default) entry.2) ↔
      ∃ s ∈ set.subgraphs, ∃ d, s.HasInterface t.name d ∧ p s d := by
  have hentries := exists_entry_iff hset h ht
    (p := fun s d => d.kind = .interface ∧ d.isInterfaceObject = false ∧ p s d)
  constructor
  · rintro ⟨hkind, entry, hentry, hreal, hp⟩
    obtain ⟨s, hs, d, hd, hdkind, hdreal, hp⟩ := hentries.mp
      ⟨entry, hentry, (kind_of_mem_byGraph hset h ht hentry).trans hkind, hreal, hp⟩
    exact ⟨s, hs, d, ⟨hd, hdkind, hdreal⟩, hp⟩
  · rintro ⟨s, hs, d, ⟨hd, hkind, hreal⟩, hp⟩
    obtain ⟨entry, hentry, hekind, hereal, hp⟩ := hentries.mpr ⟨s, hs, d, hd, hkind, hreal, hp⟩
    exact ⟨(kind_of_mem_byGraph hset h ht hentry).symm.trans hekind, entry, hentry, hereal, hp⟩

/-- The objects among the implementations of an interface are those that some subgraph defines. -/
theorem mem_object_implementations_iff (hkind : t.kind = .interface) {name : String} :
    name ∈ t.implementations ∧ (m.object? name).isSome ↔ set.HasImplementation t.name name := by
  have hunique := hasUniqueNames_of_ofSubgraphs h
  rw [implementations_of_ofSubgraphs h ht hkind, implementersOf, List.mem_map]
  constructor
  · rintro ⟨⟨o, ho, rfl⟩, hobject⟩
    obtain ⟨hmem, hdeclares⟩ := List.mem_filter.mp ho
    rw [object?, hunique.type?_eq_some hmem, Option.isSome_filter, Option.any_some, beq_iff_eq]
      at hobject
    obtain ⟨-, s, hs, d, hd, hinterface⟩ :=
      (mem_interfaces_iff h hmem hset).mp (List.contains_iff_mem.mp hdeclares)
    exact ⟨s, hs, d, hd, (kind_of_definition? hset h hmem hs hd).trans hobject, hinterface⟩
  · rintro ⟨s, hs, d, hd, hobject, hinterface⟩
    obtain ⟨o, ho, rfl, hokind, -⟩ := exists_entry_of_definition? hset h hs hd
    have hokind := hokind.trans hobject
    refine ⟨⟨o, List.mem_filter.mpr ⟨ho, ?_⟩, rfl⟩, ?_⟩
    · exact List.contains_iff_mem.mpr
        ((mem_interfaces_iff h ho hset).mpr ⟨.inl hokind, s, hs, d, hd, hinterface⟩)
    · rw [object?, hunique.type?_eq_some ho, Option.isSome_filter, Option.any_some, hokind]
      rfl

end MergedSchema

/-! ## What the rules find -/

namespace Validation

theorem missingKeys_ne_nil_iff {s : Subgraph} {d : TypeDef} :
    missingKeys s d ≠ [] ↔ ∃ key ∈ d.resolvableKeys, ∃ o ∈ s.implementers d.name,
      ∀ other ∈ o.keys, other.text ≠ key.text := by
  simp [missingKeys, List.flatMap_eq_nil_iff]

variable {set : SubgraphSet} {m : MergedSchema} (hset : set.HasProperNames)
  (h : MergedSchema.ofSubgraphs set = .ok m) {t : MergedType} (ht : t ∈ m.types)

include hset h ht

/-- Missing keys are found exactly in interfaces that miss one. -/
theorem interfaceKeyNotOnImplementation_ne_nil_iff :
    interfaceKeyNotOnImplementation.onType { set := set, merged := m } t ≠ [] ↔
      set.LacksKey t.name := by
  have hentries := MergedSchema.exists_interface_entry_iff hset h ht
    (p := fun s d => missingKeys s d ≠ [])
  have hfound : interfaceKeyNotOnImplementation.onType { set := set, merged := m } t ≠ [] ↔
      t.kind = .interface ∧ ∃ entry ∈ t.byGraph, entry.2.isInterfaceObject = false ∧
        missingKeys ((set.subgraph? entry.1).getD default) entry.2 ≠ [] := by
    unfold interfaceKeyNotOnImplementation
    by_cases hkind : t.kind = .interface
    · simp [hkind, List.flatMap_eq_nil_iff, Context.subgraph]
    · simp [hkind]
  rw [hfound, hentries, SubgraphSet.LacksKey]
  refine exists_congr fun s => and_congr_right fun _ => exists_congr fun d =>
    and_congr_right fun hd => ?_
  rw [missingKeys_ne_nil_iff, Subgraph.name_of_definition? hd.defined]

/-- A subgraph misses implementations of an interface if it does not define one of its objects. -/
theorem undefinedImplementations_ne_nil_iff (hkind : t.kind = .interface) {s : Subgraph} :
    undefinedImplementations { set := set, merged := m } t s ≠ [] ↔
      ∃ name, set.HasImplementation t.name name ∧ s.definition? name = none := by
  rw [undefinedImplementations, ← List.isEmpty_eq_false_iff, List.isEmpty_eq_false_iff_exists_mem]
  refine exists_congr fun name => ?_
  rw [List.mem_filter, Bool.and_eq_true, ← and_assoc,
    MergedSchema.mem_object_implementations_iff hset h ht hkind, Bool.not_eq_true',
    ← Bool.not_eq_true, Subgraph.defines_iff, ← Option.isSome_iff_exists, Bool.not_eq_true,
    Option.isSome_eq_false_iff, Option.isNone_iff_eq_none]

/-- Missing implementations are found exactly in interfaces that miss one. -/
theorem missingImplementations_ne_nil_iff (hkind : t.kind = .interface) :
    missingImplementations { set := set, merged := m } t ≠ [] ↔ set.LacksImplementation t.name := by
  have hentries := MergedSchema.exists_interface_entry_iff hset h ht
    (p := fun s d => d.resolvableKeys ≠ [] ∧
      undefinedImplementations { set := set, merged := m } t s ≠ [])
  have hfound : missingImplementations { set := set, merged := m } t ≠ [] ↔
      t.kind = .interface ∧ ∃ entry ∈ t.byGraph, entry.2.isInterfaceObject = false ∧
        entry.2.resolvableKeys ≠ [] ∧ undefinedImplementations { set := set, merged := m } t
          ((set.subgraph? entry.1).getD default) ≠ [] := by
    rw [missingImplementations, ne_eq, List.filterMap_eq_nil_iff, not_forall₂,
      and_iff_right hkind]
    refine exists_congr fun ⟨id, d⟩ => exists_prop.trans (and_congr_right fun _ => ?_)
    -- each guard of the rule is one of the conditions
    dsimp only [Context.subgraph]
    cases d.isInterfaceObject <;> cases d.resolvableKeys <;>
      cases undefinedImplementations { set := set, merged := m } t
        ((set.subgraph? id).getD default) <;>
      simp [guard, Option.bind_eq_bind]
  rw [hfound, hentries, SubgraphSet.LacksImplementation]
  refine exists_congr fun s => and_congr_right fun _ => exists_congr fun d =>
    and_congr_right fun _ => and_congr_right fun _ => ?_
  exact undefinedImplementations_ne_nil_iff hset h ht hkind

omit hset h ht in
/-- Only an empty list of fatal diagnostics has nothing fatal in it. -/
theorem eq_nil_of_forall_isFatal {ds : Diagnostics} (hall : ∀ d ∈ ds, d.isFatal = true)
    (hnone : ds.anyFatal = false) : ds = [] :=
  List.eq_nil_iff_forall_not_mem.mpr fun d hd => List.any_eq_false.mp hnone d hd (hall d hd)

omit hset h ht in
theorem isFatal_of_mem_interfaceKeyNotOnImplementation {c : Context} {t : MergedType} {d : Diagnostic}
    (hd : d ∈ interfaceKeyNotOnImplementation.onType c t) : d.isFatal = true := by
  unfold interfaceKeyNotOnImplementation at hd
  dsimp only at hd
  split at hd
  · cases hd
  · obtain ⟨⟨id, definition⟩, -, hd⟩ := List.mem_flatMap.mp hd
    dsimp only at hd
    split at hd
    · cases hd
    · obtain ⟨key, -, hd⟩ := List.mem_flatMap.mp hd
      obtain ⟨o, -, rfl⟩ := List.mem_map.mp hd
      exact Diagnostic.isFatal_error _ _

omit hset h ht in
theorem isFatal_of_mem_missingImplementations {c : Context} {t : MergedType} {d : Diagnostic}
    (hd : d ∈ missingImplementations c t) : d.isFatal = true := by
  obtain ⟨⟨id, definition⟩, -, hd⟩ := List.mem_filterMap.mp hd
  simp only [Option.bind_eq_bind, Option.bind_eq_some_iff] at hd
  obtain ⟨-, -, key, -, -, -, hd⟩ := hd
  obtain rfl := Option.some.inj hd
  exact Diagnostic.isFatal_error _ _

variable (hvalid : (validate { set := set, merged := m }).anyFatal = false)

include hvalid

/-- If nothing fatal was found, implementations have the keys of their interfaces. -/
theorem not_lacksKey : ¬ set.LacksKey t.name := by
  have hrule : interfaceKeyNotOnImplementation ∈ rules := by simp [rules]
  rw [← interfaceKeyNotOnImplementation_ne_nil_iff hset h ht, not_not]
  exact eq_nil_of_forall_isFatal (fun _ hd => isFatal_of_mem_interfaceKeyNotOnImplementation hd)
    (anyFatal_onType hvalid hrule ht)

/-- If nothing fatal was found, entity interfaces are where their implementations are. -/
theorem not_lacksImplementation (hkind : t.kind = .interface) :
    ¬ set.LacksImplementation t.name := by
  have hrule : interfaceObjectUsage ∈ rules := by simp [rules]
  have hnone := anyFatal_onType hvalid hrule ht
  unfold interfaceObjectUsage at hnone
  dsimp only at hnone
  rw [if_neg (not_not.mpr hkind)] at hnone
  rw [← missingImplementations_ne_nil_iff hset h ht hkind, not_not]
  exact eq_nil_of_forall_isFatal (fun _ hd => isFatal_of_mem_missingImplementations hd)
    (Diagnostics.anyFatal_eq_false_of_subset (List.subset_append_right _ _) hnone)

end Validation

/-! ## Known implementations -/

/-- A subgraph implements an interface in an object type: the type declares it and has each of its
resolvable keys. -/
structure TypeDef.ImplementsEntity (o i : TypeDef) : Prop where
  declares : i.name ∈ o.interfaces
  keys : ∀ key ∈ i.resolvableKeys, ∃ other ∈ o.keys, other.text = key.text

/-- **A subgraph knows all objects of its entity interfaces, but they need not implement them there.**
If nothing fatal is found in a composition, a subgraph that has an interface with a resolvable key
defines every object type that implements the interface in any subgraph. Such an object has the keys of
the interface if the subgraph declares that it implements the interface, and this is not looked at. -/
theorem known_objects_implement_iff_declared {set : SubgraphSet} (hset : set.Ingested)
    {options : CompositionOptions} (h : (set.compose options).diagnostics.anyFatal = false)
    {s : Subgraph} (hs : s ∈ set.subgraphs) {interface : String} {i : TypeDef}
    (hi : s.HasInterface interface i) (hkey : i.resolvableKeys ≠ []) {name : String}
    (hname : set.HasImplementation interface name) :
    ∃ o, s.definition? name = some o ∧ o.kind = .object ∧
      (o.ImplementsEntity i ↔ interface ∈ o.interfaces) := by
  obtain ⟨m, hm, hvalid⟩ := SubgraphSet.exists_merged_of_compose h
  have hproper := hset.hasProperNames
  obtain ⟨t, ht, rfl, hkind, -⟩ :=
    MergedSchema.exists_entry_of_definition? hproper hm hs hi.defined
  have hknown := Validation.not_lacksImplementation hproper hm ht hvalid (hkind.trans hi.kind)
  have hkeys := Validation.not_lacksKey hproper hm ht hvalid
  cases ho : s.definition? name with
  | none => exact absurd ⟨s, hs, i, hi, hkey, name, hname, ho⟩ hknown
  | some o =>
    refine ⟨o, rfl, ?_, ?_⟩
    · -- the type of the name is an object in some subgraph, so it is one here
      obtain ⟨s', hs', o', ho', hobject, -⟩ := hname
      obtain ⟨u, hu, rfl, hukind, -⟩ :=
        MergedSchema.exists_entry_of_definition? hproper hm hs' ho'
      exact (MergedSchema.kind_of_definition? hproper hm hu hs ho).trans (hukind.trans hobject)
    · have hiname : i.name = t.name := Subgraph.name_of_definition? hi.defined
      constructor
      · intro himplements
        exact hiname ▸ himplements.declares
      · intro hdeclares
        refine ⟨hiname.symm ▸ hdeclares, fun key hkey => ?_⟩
        by_contra hlacks
        have himplementer := Subgraph.mem_implementers.mpr
          ⟨Subgraph.mem_of_definition? ho, hdeclares⟩
        exact hkeys ⟨s, hs, i, hi, key, hkey, o, himplementer, fun other hother htext =>
          hlacks ⟨other, hother, htext⟩⟩

/-- A schema with an entity interface, and an object that does not implement it. -/
def SchemaSource.looseEntity : SchemaSource :=
  ⟨"type Query\x7bx:Int\x7dinterface I@key(fields:\"id\")\x7bid:ID\x7d" ++
    "type O@key(fields:\"id\")\x7bid:ID\x7d", "a", none⟩

/-- A schema in which the object implements the interface. -/
def SchemaSource.implementedEntity : SchemaSource :=
  ⟨"interface I\x7bid:ID\x7dtype O implements I@key(fields:\"id\")\x7bid:ID\x7d", "b", none⟩

theorem SchemaSource.composes_entities :
    ((SubgraphSet.ofSources [looseEntity, implementedEntity]).toOption.any fun set =>
      !(set.compose { runSatisfiability := false }).diagnostics.anyFatal &&
        ((set.subgraphs.any fun s =>
            ((s.definition? "I").any fun i => i.kind == .interface && !i.isInterfaceObject &&
              !i.resolvableKeys.isEmpty) &&
            (s.definition? "O").any fun o => !o.interfaces.contains "I") &&
          set.subgraphs.any fun s => (s.definition? "O").any fun o =>
            o.kind == .object && o.interfaces.contains "I")) = true := by
  rw [SubgraphSet.ofSources_eq_foldlM_insertSource]
  decide +kernel

/-- The schemas compose although the first one does not declare that its object implements its
interface. -/
theorem SubgraphSet.exists_composed_entities :
    ∃ set, SubgraphSet.ofSources [.looseEntity, .implementedEntity] = .ok set ∧ set.Ingested ∧
      (set.compose { runSatisfiability := false }).diagnostics.anyFatal = false ∧
      set.HasImplementation "I" "O" ∧
      ∃ s ∈ set.subgraphs, ∃ i, s.HasInterface "I" i ∧ i.resolvableKeys ≠ [] ∧
        ∃ o, s.definition? "O" = some o ∧ "I" ∉ o.interfaces := by
  obtain ⟨set, hset, hcomposes⟩ := exists_ok_of_any SchemaSource.composes_entities
  simp only [Bool.and_eq_true, Bool.not_eq_true', List.any_eq_true, Option.any_eq_true, beq_iff_eq,
    List.isEmpty_eq_false_iff, List.contains_eq_mem, decide_eq_true_eq, decide_eq_false_iff_not]
    at hcomposes
  obtain ⟨hvalid, ⟨s, hs, ⟨i, hi, ⟨hkind, hreal⟩, hkeys⟩, o, ho, hundeclared⟩, s', hs', o', ho',
    hobject, hdeclared⟩ := hcomposes
  exact ⟨set, hset, ingested_ofSources hset, hvalid, ⟨s', hs', o', ho', hobject, hdeclared⟩, s, hs,
    i, ⟨hi, hkind, hreal⟩, hkeys, o, ho, hundeclared⟩

/-- The first schema knows the object, which does not implement the interface there. -/
theorem known_objects_implement_iff_declared_of_entities :
    ∃ set, SubgraphSet.ofSources [.looseEntity, .implementedEntity] = .ok set ∧ set.Ingested ∧
      (set.compose { runSatisfiability := false }).diagnostics.anyFatal = false ∧
      set.HasImplementation "I" "O" ∧
      ∃ s ∈ set.subgraphs, ∃ i, s.HasInterface "I" i ∧ i.resolvableKeys ≠ [] ∧
        ∃ o, s.definition? "O" = some o ∧ o.kind = .object ∧ ¬ o.ImplementsEntity i := by
  obtain ⟨set, hset, hingested, hvalid, hname, s, hs, i, hi, hkeys, o, ho, hundeclared⟩ :=
    SubgraphSet.exists_composed_entities
  obtain ⟨o', ho', hobject, hlaw⟩ :=
    known_objects_implement_iff_declared hingested hvalid hs hi hkeys hname
  obtain rfl : o = o' := Option.some.inj (ho.symm.trans ho')
  exact ⟨set, hset, hingested, hvalid, hname, s, hs, i, hi, hkeys, o, ho, hobject,
    fun himplements => hundeclared (hlaw.mp himplements)⟩

/-- A composition may accept an entity interface with an object that does not implement it. -/
theorem composition_accepts_undeclared_implementation :
    ¬ ∀ set : SubgraphSet, set.Ingested → ∀ options : CompositionOptions,
      (set.compose options).diagnostics.anyFatal = false → ∀ s ∈ set.subgraphs, ∀ interface i,
        s.HasInterface interface i → i.resolvableKeys ≠ [] →
          ∀ name, set.HasImplementation interface name →
            ∃ o, s.definition? name = some o ∧ o.ImplementsEntity i := by
  intro hlaw
  obtain ⟨set, -, hingested, hvalid, hname, s, hs, i, hi, hkeys, o, ho, hundeclared⟩ :=
    SubgraphSet.exists_composed_entities
  obtain ⟨o', ho', himplements⟩ := hlaw set hingested _ hvalid s hs "I" i hi hkeys "O" hname
  obtain rfl : o = o' := Option.some.inj (ho.symm.trans ho')
  have hiname : i.name = "I" := Subgraph.name_of_definition? hi.defined
  exact hundeclared (hiname ▸ himplements.declares)

end Federation
