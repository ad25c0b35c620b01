import Federation.Proofs.Merge.Names
import Federation.Satisfiability.ApiGraph

/-!
# Types and steps of the API

The API has steps only from types that clients can select from, and every step to such a type leads
to a type of the API.
-/

namespace Federation

/-- Steps leave a type of the graph. -/
theorem ApiGraph.exists_type_of_mem_moves {g : ApiGraph} {name : String} {move : ApiMove}
    (h : move ∈ g.moves name) : ∃ t ∈ g.types, t.name = name ∧ move ∈ t.moves := by
  unfold moves at h
  cases hfound : g.types.find? fun t => t.name == name with
  | none => simp [hfound] at h
  | some t =>
    rw [hfound] at h
    have hname := List.find?_some hfound
    exact ⟨t, List.mem_of_find?_eq_some hfound, eq_of_beq hname, h⟩

/-- A type that steps leave is a type of the graph. -/
theorem ApiGraph.mem_names_of_mem_moves {g : ApiGraph} {name : String} {move : ApiMove}
    (h : move ∈ g.moves name) : name ∈ g.names := by
  obtain ⟨t, ht, rfl, -⟩ := exists_type_of_mem_moves h
  exact List.mem_map_of_mem ht

namespace MergedSchema

variable {m : MergedSchema} {name : String}

/-- The types of the API are the composite types that clients can see. -/
theorem mem_names_apiGraph :
    name ∈ m.apiGraph.names ↔
      ∃ t ∈ m.types, t.name = name ∧ t.kind.isComposite = true ∧
        t.metadata.isInaccessible = false := by
  rw [ApiGraph.names, apiGraph, List.map_map, List.mem_map]
  constructor
  · rintro ⟨t, ht, hname⟩
    obtain ⟨hmem, hkind⟩ := List.mem_filter.mp ht
    rw [Bool.and_eq_true, Bool.not_eq_true'] at hkind
    exact ⟨t, hmem, hname, hkind.1, hkind.2⟩
  · rintro ⟨t, ht, hname, hkind, hvisible⟩
    refine ⟨t, List.mem_filter.mpr ⟨ht, ?_⟩, hname⟩
    rw [hkind, hvisible]
    rfl

/-- An object type that clients can see is a type of the API. -/
theorem mem_names_of_object {t : MergedType} (ht : t ∈ m.types) (hkind : t.kind = .object)
    (hvisible : t.metadata.isInaccessible = false) : t.name ∈ m.apiGraph.names := by
  refine mem_names_apiGraph.mpr ⟨t, ht, rfl, ?_, hvisible⟩
  rw [hkind]
  rfl

/-- Clients can select from every type of the API. -/
theorem isComposite_of_mem_names (h : m.HasUniqueNames) (hname : name ∈ m.apiGraph.names) :
    m.isComposite name = true := by
  obtain ⟨t, ht, rfl, hkind, -⟩ := mem_names_apiGraph.mp hname
  rw [isComposite, h.type?_eq_some ht]
  exact hkind

/-- A composite type that clients can see is a type of the API. -/
theorem mem_names_of_isComposite (hcomposite : m.isComposite name = true)
    (hvisible : m.isAccessible name = true) : name ∈ m.apiGraph.names := by
  unfold isComposite at hcomposite
  unfold isAccessible at hvisible
  cases htype : m.type? name with
  | none => simp [htype] at hcomposite
  | some t =>
    rw [htype] at hcomposite hvisible
    obtain ⟨hmem, hname⟩ := mem_types_of_type?_eq_some htype
    exact mem_names_apiGraph.mpr ⟨t, hmem, hname, hcomposite, by simpa using hvisible⟩

/-- Clients can see what the steps of a type lead to. -/
theorem isAccessible_target {t : MergedType} {move : ApiMove} (h : move ∈ (m.apiType t).moves) :
    m.isAccessible move.target = true := by
  rcases List.mem_append.mp h with hfield | hnarrow
  · obtain ⟨field, -, hmove⟩ := List.mem_filterMap.mp hfield
    unfold apiField? at hmove
    split at hmove
    · cases hmove
    · rename_i hvisible
      obtain rfl := Option.some.inj hmove
      rw [Bool.not_eq_true, Bool.or_eq_false_iff, Bool.not_eq_false'] at hvisible
      exact hvisible.2
  · obtain ⟨possible, hpossible, rfl⟩ := List.mem_map.mp hnarrow
    exact (List.mem_filter.mp hpossible).2

/-- A step to a composite type leads to a type of the API. -/
theorem mem_names_target {move : ApiMove} (h : move ∈ m.apiGraph.moves name)
    (hcomposite : m.isComposite move.target = true) : move.target ∈ m.apiGraph.names := by
  refine mem_names_of_isComposite hcomposite ?_
  obtain ⟨api, hapi, -, hmove⟩ := ApiGraph.exists_type_of_mem_moves h
  obtain ⟨t, -, rfl⟩ := List.mem_map.mp hapi
  exact isAccessible_target hmove

end MergedSchema

end Federation
