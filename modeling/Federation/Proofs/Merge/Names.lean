import Federation.Merge.Merge
import Mathlib.Data.List.Nodup
import Mathlib.Logic.Basic

/-!
# Names of merged types

A merged schema has one type for each name. A definition in a subgraph either adds to the type of its
name or, if there is none, adds a type; and the last steps leave all names as they are.
-/

namespace Federation.MergedSchema

/-- The names of all types. -/
def names (m : MergedSchema) : List String :=
  m.types.map MergedType.name

/-- No two types have the same name. -/
def HasUniqueNames (m : MergedSchema) : Prop :=
  m.names.Nodup

/-! ## Looking types up -/

/-- A type that is found by name is a type of the schema, and it has the name. -/
theorem mem_types_of_type?_eq_some {m : MergedSchema} {name : String} {t : MergedType}
    (h : m.type? name = some t) : t ∈ m.types ∧ t.name = name := by
  refine ⟨List.mem_of_find?_eq_some h, ?_⟩
  have hname := List.find?_some h
  simpa using hname

/-- A name that is not found is not the name of a type. -/
theorem notMem_names_of_type?_eq_none {m : MergedSchema} {name : String}
    (h : m.type? name = none) : name ∉ m.names := by
  intro hmem
  obtain ⟨t, ht, hname⟩ := List.mem_map.mp hmem
  have hnot := List.find?_eq_none.mp h t ht
  exact hnot (by simpa using hname)

/-- If names are unique, each type is the one that is found by its name. -/
theorem HasUniqueNames.type?_eq_some {m : MergedSchema} (h : m.HasUniqueNames) {t : MergedType}
    (ht : t ∈ m.types) : m.type? t.name = some t := by
  cases hfound : m.type? t.name with
  | none => exact absurd (List.mem_map_of_mem ht) (notMem_names_of_type?_eq_none hfound)
  | some found =>
    -- the type that is found has the same name, so it is the same type
    obtain ⟨hmem, hname⟩ := mem_types_of_type?_eq_some hfound
    rw [List.inj_on_of_nodup_map h hmem ht hname]

/-! ## Adding types -/

/-- A change of types that leaves their names alone leaves the names of the schema alone. -/
theorem names_map {m : MergedSchema} {f : MergedType → MergedType}
    (hf : ∀ t, (f t).name = t.name) : names { types := m.types.map f } = m.names := by
  rw [names, names, List.map_map]
  exact List.map_congr_left fun t _ => hf t

/-- A definition adds to the type of its name, or adds a type of a new name. -/
theorem names_of_addType {nameOf : SubgraphId → String} {s : Subgraph} {id : SubgraphId}
    {m m' : MergedSchema} {d : TypeDef} (h : addType nameOf s id m d = .ok m') :
    m'.names = m.names ∨ d.name ∉ m.names ∧ m'.names = m.names ++ [d.name] := by
  unfold addType at h
  split at h
  · rename_i hnone
    right
    obtain rfl := Except.ok.inj h
    refine ⟨notMem_names_of_type?_eq_none hnone, ?_⟩
    rw [names, List.map_append]
    rfl
  · split at h
    · left
      obtain rfl := Except.ok.inj h
      refine names_map fun t => ?_
      split
      · rfl
      · rfl
    · cases h

/-- Adding a definition keeps names unique. -/
theorem HasUniqueNames.addType {nameOf : SubgraphId → String} {s : Subgraph} {id : SubgraphId}
    {m m' : MergedSchema} {d : TypeDef} (hm : m.HasUniqueNames)
    (h : addType nameOf s id m d = .ok m') : m'.HasUniqueNames := by
  unfold HasUniqueNames at *
  rcases names_of_addType h with hsame | ⟨hnew, hadded⟩
  · rw [hsame]
    exact hm
  · rw [hadded, ← List.concat_eq_append]
    exact hm.concat hnew

/-- What every step of a fallible fold preserves holds at its end. -/
theorem invariant_foldlM {α β ε : Type} {step : α → β → Except ε α} (P : α → Prop)
    (hstep : ∀ a b a', P a → step a b = .ok a' → P a') {items : List β} {a a' : α} (ha : P a)
    (h : items.foldlM step a = .ok a') : P a' := by
  induction items generalizing a with
  | nil =>
    obtain rfl := Except.ok.inj h
    exact ha
  | cons b items ih =>
    rw [List.foldlM_cons] at h
    cases hb : step a b with
    | error e =>
      rw [hb] at h
      cases h
    | ok next =>
      rw [hb] at h
      exact ih (hstep a b next ha hb) h

/-- Adding a subgraph keeps names unique. -/
theorem HasUniqueNames.addSubgraph {nameOf : SubgraphId → String} {m m' : MergedSchema}
    {entry : SubgraphId × Subgraph} (hm : m.HasUniqueNames)
    (h : addSubgraph nameOf m entry = .ok m') : m'.HasUniqueNames :=
  invariant_foldlM HasUniqueNames (fun _ _ _ hm h => hm.addType h) hm h

/-! ## The last steps -/

theorem names_withImplementations (m : MergedSchema) : m.withImplementations.names = m.names := by
  refine names_map fun t => ?_
  split
  · rfl
  · rfl

theorem names_copyField (m : MergedSchema) (copy : String × MergedField) :
    (m.copyField copy).names = m.names := by
  refine names_map fun t => ?_
  split
  · split
    · rfl
    · rfl
  · rfl

theorem names_foldl_copyField (copies : List (String × MergedField)) (m : MergedSchema) :
    (copies.foldl copyField m).names = m.names := by
  induction copies generalizing m with
  | nil => rfl
  | cons copy copies ih => rw [List.foldl_cons, ih, names_copyField]

/-- The last steps change no names. -/
theorem names_finish (m : MergedSchema) : m.finish.names = m.names := by
  rw [finish, withCopiedFields, names_foldl_copyField, names_withImplementations]

/-- **A merged schema has one type for each name.** -/
theorem hasUniqueNames_of_ofSubgraphs {set : SubgraphSet} {m : MergedSchema}
    (h : ofSubgraphs set = .ok m) : m.HasUniqueNames := by
  unfold ofSubgraphs at h
  cases hmerged : set.enumerated.foldlM (addSubgraph set.nameOf) ({} : MergedSchema) with
  | error e =>
    rw [hmerged] at h
    cases h
  | ok merged =>
    rw [hmerged] at h
    obtain rfl := Except.ok.inj h
    have hempty : HasUniqueNames {} := List.nodup_nil
    have hunique := invariant_foldlM HasUniqueNames (fun _ _ _ hm h => hm.addSubgraph h) hempty
      hmerged
    rw [HasUniqueNames, names_finish]
    exact hunique

end Federation.MergedSchema
