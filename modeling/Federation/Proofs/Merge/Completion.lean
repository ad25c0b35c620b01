import Federation.Proofs.Merge.Contributions

/-!
# Completion

After all subgraphs have been added, merging completes the schema. An interface gets to know its
implementations, and an object gets what is missing of the fields that objects standing in for its
interfaces add. Everything else stays as it was: this module says, type by type, what the last steps
make of a merged schema.
-/

namespace Federation

/-! ## What the last steps do -/

namespace MergedSchema

/-- A type of the schema is declared to implement an interface. -/
def HasImplementer (m : MergedSchema) (interface name : String) : Prop :=
  ∃ t ∈ m.types, t.name = name ∧ (t.kind = .object ∨ t.kind = .interface) ∧ interface ∈ t.interfaces

/-- An interface of the schema that a type is declared to implement, with a field that objects add to
it. -/
def PassesDown (m : MergedSchema) (t i : MergedType) (field : MergedField) : Prop :=
  i ∈ m.types ∧ i.kind = .interface ∧ i.name ∈ t.interfaces ∧ i.IsAddedByObjects field

/-- The fields that an object is missing: those that objects add to its interfaces, as far as it has
no fields of these names. -/
structure IsMissingFrom (m : MergedSchema) (t : MergedType) (added : List MergedField) : Prop where
  nodup : (added.map MergedField.name).Nodup
  new : ∀ field ∈ added, field.name ∉ t.fields.map MergedField.name
  origin : ∀ field ∈ added, ∃ i original, m.PassesDown t i original ∧
    field = { original with byGraph := [], isFromInterfaceObject := true }
  complete : ∀ i original, m.PassesDown t i original →
    original.name ∈ (t.fields ++ added).map MergedField.name

/-- What the last steps make of a type of the schema. -/
inductive Completes (m : MergedSchema) (t : MergedType) : MergedType → Prop
  | interface {interfaces : List String} {fields : List MergedField}
      {before implementations : List String} (hbody : t.body = .interface interfaces fields before)
      (hnodup : implementations.Nodup)
      (himplementations : ∀ name, name ∈ implementations ↔ m.HasImplementer t.name name) :
      Completes m t { t with body := .interface interfaces fields implementations }
  | object {interfaces : List String} {fields added : List MergedField}
      (hbody : t.body = .object interfaces fields) (hadded : m.IsMissingFrom t added) :
      Completes m t { t with body := .object interfaces (fields ++ added) }
  | other (hinterface : t.kind ≠ .interface) (hobject : t.kind ≠ .object) : Completes m t t

end MergedSchema

/-! ## Implementations -/

namespace MergedType

/-- The type with its implementations, if it is an interface. -/
def withImplementers (t : MergedType) (names : List String) : MergedType :=
  match t.body with
  | .interface interfaces fields _ => { t with body := .interface interfaces fields names }
  | _ => t

theorem withImplementers_of_kind_ne {t : MergedType} (h : t.kind ≠ .interface)
    (names : List String) : t.withImplementers names = t := by
  unfold withImplementers
  split
  · rename_i hbody
    exact absurd (by rw [kind, hbody]; rfl) h
  · rfl

theorem withImplementers_of_body {t : MergedType} {interfaces before : List String}
    {fields : List MergedField} (hbody : t.body = .interface interfaces fields before)
    (names : List String) :
    t.withImplementers names = { t with body := .interface interfaces fields names } := by
  unfold withImplementers
  rw [hbody]

/-- Only the implementations change. -/
theorem frame_withImplementers (t : MergedType) (names : List String) :
    (t.withImplementers names).name = t.name ∧ (t.withImplementers names).kind = t.kind ∧
      (t.withImplementers names).fields = t.fields ∧
        (t.withImplementers names).byGraph = t.byGraph := by
  unfold withImplementers
  split
  · rename_i hbody
    refine ⟨rfl, ?_, ?_, rfl⟩
    · rw [kind, kind, hbody]
      rfl
    · rw [fields, fields, hbody]
  · exact ⟨rfl, rfl, rfl, rfl⟩

theorem isAddedByObjects_withImplementers {t : MergedType} {names : List String}
    {field : MergedField} :
    (t.withImplementers names).IsAddedByObjects field ↔ t.IsAddedByObjects field := by
  obtain ⟨-, -, hfields, hgraph⟩ := t.frame_withImplementers names
  rw [IsAddedByObjects, IsAddedByObjects, hfields, hgraph]

theorem implementations_withImplementers {t : MergedType} (h : t.kind = .interface)
    (names : List String) : (t.withImplementers names).implementations = names := by
  unfold kind at h
  cases hbody : t.body with
  | interface => rw [withImplementers_of_body hbody, implementations]
  | object | union | enum | scalar | inputObject =>
    rw [hbody] at h
    cases h

end MergedType

/-! ## Copies -/

/-- The copies that an object gets stand behind its fields. No name is there twice. -/
theorem MergedType.exists_foldl_withCopy {t : MergedType} {interfaces : List String}
    {fields : List MergedField} (hbody : t.body = .object interfaces fields)
    (copies : List (String × MergedField)) :
    ∃ added, copies.foldl withCopy t = { t with body := .object interfaces (fields ++ added) } ∧
      (added.map MergedField.name).Nodup ∧
        ∀ field ∈ added, field.name ∉ fields.map MergedField.name := by
  -- the last copy meets an object that has the earlier ones
  induction copies using List.reverseRecOn with
  | nil =>
    refine ⟨[], ?_, List.nodup_nil, fun _ h => absurd h List.not_mem_nil⟩
    rw [List.append_nil, ← hbody]
    rfl
  | append_singleton copies copy ih =>
    obtain ⟨added, heq, hnodup, hnew⟩ := ih
    rw [List.foldl_append, heq]
    show ∃ added', withCopy { t with body := .object interfaces (fields ++ added) } copy = _ ∧ _
    by_cases hcopied : (t.name == copy.1 &&
        !((fields ++ added).any fun field => field.name == copy.2.name)) = true
    · have hname : copy.2.name ∉ (fields ++ added).map MergedField.name := by
        simpa using (Bool.and_eq_true_iff.mp hcopied).2
      rw [List.map_append, List.mem_append, not_or] at hname
      refine ⟨added ++ [MergedSchema.copyOf copy.2], ?_, ?_, ?_⟩
      · rw [← List.append_assoc]
        exact if_pos hcopied
      · rw [List.map_append, List.map_singleton, ← List.concat_eq_append]
        exact hnodup.concat hname.2
      · intro field hfield
        rcases List.mem_append.mp hfield with hfield | hfield
        · exact hnew field hfield
        · rw [List.mem_singleton.mp hfield]
          exact hname.1
    · exact ⟨added, if_neg hcopied, hnodup, hnew⟩

namespace MergedSchema

variable {m : MergedSchema}

/-- The implementations of an interface are objects and interfaces. -/
theorem mem_implementersOf {interface name : String} :
    name ∈ m.implementersOf interface ↔ m.HasImplementer interface name := by
  simp only [implementersOf, List.mem_map, List.mem_filter, List.contains_iff_mem, HasImplementer]
  constructor
  · rintro ⟨t, ⟨ht, hmem⟩, rfl⟩
    exact ⟨t, ht, rfl, MergedType.kind_of_mem_interfaces hmem, hmem⟩
  · rintro ⟨t, ht, rfl, -, hmem⟩
    exact ⟨t, ⟨ht, hmem⟩, rfl⟩

/-- An interface knows an implementation once. -/
theorem HasUniqueNames.nodup_implementersOf (h : m.HasUniqueNames) (interface : String) :
    (m.implementersOf interface).Nodup :=
  List.Nodup.sublist (List.filter_sublist.map MergedType.name) h

/-- A type is passed the fields that objects add to its interfaces. -/
theorem HasUniqueNames.mem_copies (h : m.HasUniqueNames) {t : MergedType} (ht : t ∈ m.types)
    {field : MergedField} :
    (t.name, field) ∈ m.withImplementations.copies ↔ ∃ i, m.PassesDown t i field := by
  rw [MergedSchema.mem_copies]
  constructor
  · rintro ⟨i, hi, hkind, hadded, hname⟩
    obtain ⟨u, hu, rfl⟩ := List.mem_map.mp hi
    change (u.withImplementers _).kind = _ at hkind
    change (u.withImplementers _).IsAddedByObjects _ at hadded
    change _ ∈ (u.withImplementers _).implementations at hname
    rw [(u.frame_withImplementers _).2.1] at hkind
    rw [MergedType.isAddedByObjects_withImplementers] at hadded
    rw [MergedType.implementations_withImplementers hkind, h.name_mem_implementersOf ht] at hname
    exact ⟨u, hu, hkind, hname, hadded⟩
  · rintro ⟨i, hi, hkind, hname, hadded⟩
    refine ⟨i.withImplementers (m.implementersOf i.name), List.mem_map_of_mem hi, ?_, ?_, ?_⟩
    · rw [(i.frame_withImplementers _).2.1, hkind]
    · exact MergedType.isAddedByObjects_withImplementers.mpr hadded
    · rwa [MergedType.implementations_withImplementers hkind, h.name_mem_implementersOf ht]

/-- The copies that an object gets are the fields that it is missing. -/
theorem HasUniqueNames.completes_object (h : m.HasUniqueNames) {t : MergedType} (ht : t ∈ m.types)
    {interfaces : List String} {fields : List MergedField}
    (hbody : t.body = .object interfaces fields) :
    m.Completes t (m.withImplementations.copies.foldl MergedType.withCopy t) := by
  have hkind : t.kind = .object := by rw [MergedType.kind, hbody]; rfl
  have hfields : t.fields = fields := by rw [MergedType.fields, hbody]
  obtain ⟨added, heq, hnodup, hnew⟩ :=
    MergedType.exists_foldl_withCopy hbody m.withImplementations.copies
  have hall : (m.withImplementations.copies.foldl MergedType.withCopy t).fields = fields ++ added := by
    rw [heq, MergedType.fields]
  rw [heq]
  refine .object hbody ⟨hnodup, fun field hfield => hfields ▸ hnew field hfield, ?_, ?_⟩
  · intro field hfield
    have hmem := MergedType.mem_fields_foldl_withCopy
      (hall ▸ List.mem_append_right fields hfield)
    rcases hmem with hown | ⟨-, original, hcopy, rfl⟩
    · exact absurd (List.mem_map_of_mem (hfields ▸ hown)) (hnew field hfield)
    · obtain ⟨i, hpasses⟩ := (h.mem_copies ht).mp hcopy
      exact ⟨i, original, hpasses, rfl⟩
  · intro i original hpasses
    have hcopy := (h.mem_copies ht).mpr ⟨i, hpasses⟩
    rw [hfields, ← hall]
    exact MergedType.name_mem_foldl_withCopy hkind (.inr ⟨original, hcopy, rfl⟩)

/-! ## Completed schemas -/

/-- The last steps go type by type. -/
theorem types_finish (m : MergedSchema) : m.finish.types = m.types.map fun t =>
    m.withImplementations.copies.foldl MergedType.withCopy
      (t.withImplementers (m.implementersOf t.name)) := by
  rw [finish, withCopiedFields, foldl_copyField]
  exact List.map_map

/-- The last steps complete every type of a schema whose types have different names. -/
theorem HasUniqueNames.completes_finish (h : m.HasUniqueNames) :
    List.Forall₂ m.Completes m.types m.finish.types := by
  rw [types_finish]
  refine List.forall₂_map_right_iff.mpr (List.forall₂_same.mpr fun t ht => ?_)
  cases hbody : t.body with
  | object interfaces fields =>
    rw [MergedType.withImplementers_of_kind_ne (by simp [MergedType.kind, hbody, MergedBody.kind])]
    exact h.completes_object ht hbody
  | interface interfaces fields before =>
    rw [MergedType.foldl_withCopy_of_kind_ne, MergedType.withImplementers_of_body hbody]
    · exact .interface hbody (h.nodup_implementersOf t.name) fun _ => mem_implementersOf
    · rw [(t.frame_withImplementers _).2.1]
      simp [MergedType.kind, hbody, MergedBody.kind]
  | union | enum | scalar | inputObject =>
    have hinterface : t.kind ≠ .interface := by simp [MergedType.kind, hbody, MergedBody.kind]
    have hobject : t.kind ≠ .object := by simp [MergedType.kind, hbody, MergedBody.kind]
    rw [MergedType.withImplementers_of_kind_ne hinterface,
      MergedType.foldl_withCopy_of_kind_ne hobject]
    exact .other hinterface hobject

/-- **The last steps add exactly what is missing.** Of all that the subgraphs add up to, they change
interfaces and objects only. An interface gets to know the objects and interfaces that are declared
to implement it. An object keeps its fields and gets, behind them, the fields of its interfaces that
some subgraph has objects define, each name once and none that it has already; such a field comes
from no subgraph and is marked as added. -/
theorem completes_types_of_foldlM {set : SubgraphSet}
    (h : set.enumerated.foldlM (addSubgraph set.nameOf) {} = .ok m) :
    List.Forall₂ m.Completes m.types m.finish.types := by
  have hempty : HasUniqueNames {} := List.nodup_nil
  have hunique : m.HasUniqueNames :=
    invariant_foldlM HasUniqueNames (fun _ _ _ hm hadd => hm.addSubgraph hadd) hempty h
  exact hunique.completes_finish

end MergedSchema

theorem SchemaSource.completes_contributions :
    ((SubgraphSet.ofSources [twoInterfaces, twoContributions]).toOption.any fun set =>
      (set.enumerated.foldlM (MergedSchema.addSubgraph set.nameOf) {}).toOption.any fun m =>
        (m.type? "T").map (fun t => t.fields.map MergedField.name) == some ["i"] &&
          (m.finish.type? "T").map (fun t => t.fields.map MergedField.name) ==
            some ["i", "f"]) = true := by
  rw [SubgraphSet.ofSources_eq_foldlM_insertSource]
  decide +kernel

/-- Two interfaces add a field of one name to an object. It gets one of them. -/
theorem MergedSchema.completes_types_of_twoContributions :
    ∃ set m, SubgraphSet.ofSources [.twoInterfaces, .twoContributions] = .ok set ∧
      set.enumerated.foldlM (addSubgraph set.nameOf) {} = .ok m ∧
      (m.type? "T").map (fun t => t.fields.map MergedField.name) = some ["i"] ∧
      (m.finish.type? "T").map (fun t => t.fields.map MergedField.name) = some ["i", "f"] ∧
      List.Forall₂ m.Completes m.types m.finish.types := by
  obtain ⟨set, hset, hmerges⟩ := exists_ok_of_any SchemaSource.completes_contributions
  obtain ⟨m, hm, hfields⟩ := exists_ok_of_any hmerges
  rw [Bool.and_eq_true, beq_iff_eq, beq_iff_eq] at hfields
  exact ⟨set, m, hset, hm, hfields.1, hfields.2, completes_types_of_foldlM hm⟩

end Federation
