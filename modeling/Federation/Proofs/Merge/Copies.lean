import Federation.Proofs.Merge.Origins

/-!
# Copied fields

Objects that stand in for an interface add fields to it, and the objects that implement the interface
get copies of these fields, unless they have fields of these names. Copying goes type by type, so it
is enough to see what all copies make of one object.
-/

namespace Federation

/-! ## Copies to one type -/

namespace MergedType

/-- Copies a field to the type, if it is the object that gets it and does not have it. -/
def withCopy (t : MergedType) (copy : String × MergedField) : MergedType :=
  match t.body with
  | .object interfaces fields =>
    if t.name == copy.1 && !(fields.any fun field => field.name == copy.2.name) then
      { t with body := .object interfaces (fields ++ [MergedSchema.copyOf copy.2]) }
    else t
  | _ => t

theorem withCopy_of_kind_ne {t : MergedType} (h : t.kind ≠ .object) (copy : String × MergedField) :
    t.withCopy copy = t := by
  unfold withCopy
  split
  · rename_i hbody
    exact absurd (by rw [kind, hbody]; rfl) h
  · rfl

theorem foldl_withCopy_of_kind_ne {t : MergedType} (h : t.kind ≠ .object)
    (copies : List (String × MergedField)) : copies.foldl withCopy t = t := by
  induction copies with
  | nil => rfl
  | cons copy copies ih => rw [List.foldl_cons, withCopy_of_kind_ne h, ih]

@[simp] theorem name_withCopy (t : MergedType) (copy : String × MergedField) :
    (t.withCopy copy).name = t.name := by
  unfold withCopy
  split
  · split
    · rfl
    · rfl
  · rfl

@[simp] theorem kind_withCopy (t : MergedType) (copy : String × MergedField) :
    (t.withCopy copy).kind = t.kind := by
  unfold withCopy
  split
  · rename_i hbody
    split
    · rw [kind, kind, hbody]
      rfl
    · rfl
  · rfl

@[simp] theorem name_foldl_withCopy (t : MergedType) (copies : List (String × MergedField)) :
    (copies.foldl withCopy t).name = t.name := by
  induction copies generalizing t with
  | nil => rfl
  | cons copy copies ih => rw [List.foldl_cons, ih, name_withCopy]

@[simp] theorem kind_foldl_withCopy (t : MergedType) (copies : List (String × MergedField)) :
    (copies.foldl withCopy t).kind = t.kind := by
  induction copies generalizing t with
  | nil => rfl
  | cons copy copies ih => rw [List.foldl_cons, ih, kind_withCopy]

/-- An object gets a copy of a field of a new name. -/
theorem fields_withCopy {t : MergedType} (h : t.kind = .object) (copy : String × MergedField) :
    (t.withCopy copy).fields =
      if t.name = copy.1 ∧ copy.2.name ∉ t.fields.map MergedField.name then
        t.fields ++ [MergedSchema.copyOf copy.2] else t.fields := by
  unfold withCopy
  unfold kind at h
  cases hbody : t.body with
  | object interfaces fields =>
    have hfields : t.fields = fields := by rw [MergedType.fields, hbody]
    have hcond : (t.name == copy.1 && !(fields.any fun field => field.name == copy.2.name)) = true ↔
        t.name = copy.1 ∧ copy.2.name ∉ t.fields.map MergedField.name := by
      rw [hfields]
      simp
    dsimp only
    by_cases hcopy : t.name = copy.1 ∧ copy.2.name ∉ t.fields.map MergedField.name
    · rw [if_pos hcopy, if_pos (hcond.mpr hcopy), hfields]
      rfl
    · rw [if_neg hcopy, if_neg fun htrue => hcopy (hcond.mp htrue)]
  | interface | union | enum | scalar | inputObject =>
    rw [hbody] at h
    cases h

/-- Copies keep field names unique. -/
theorem nodup_foldl_withCopy {t : MergedType} (h : (t.fields.map MergedField.name).Nodup)
    (copies : List (String × MergedField)) :
    ((copies.foldl withCopy t).fields.map MergedField.name).Nodup := by
  by_cases hkind : t.kind = .object
  · induction copies generalizing t with
    | nil => exact h
    | cons copy copies ih =>
      rw [List.foldl_cons]
      refine ih ?_ (by rw [kind_withCopy, hkind])
      rw [fields_withCopy hkind]
      split
      · rename_i hcopy
        rw [List.map_append, List.map_singleton, ← List.concat_eq_append]
        exact h.concat hcopy.2
      · exact h
  · rw [foldl_withCopy_of_kind_ne hkind]
    exact h

/-- The fields of a type after all copies are its fields before, and copies that an object gets. -/
theorem mem_fields_foldl_withCopy {t : MergedType} {copies : List (String × MergedField)}
    {field : MergedField} (h : field ∈ (copies.foldl withCopy t).fields) :
    field ∈ t.fields ∨ t.kind = .object ∧
      ∃ original, (t.name, original) ∈ copies ∧ field = MergedSchema.copyOf original := by
  by_cases hkind : t.kind = .object
  · induction copies generalizing t with
    | nil => exact .inl h
    | cons copy copies ih =>
      rw [List.foldl_cons] at h
      rcases ih h (by rw [kind_withCopy, hkind]) with hbefore | ⟨-, original, hmem, heq⟩
      · rw [fields_withCopy hkind] at hbefore
        split at hbefore
        · rename_i hcopy
          rcases List.mem_append.mp hbefore with hbefore | hcopied
          · exact .inl hbefore
          · refine .inr ⟨hkind, copy.2, ?_, List.mem_singleton.mp hcopied⟩
            rw [hcopy.1]
            exact List.mem_cons_self
        · exact .inl hbefore
      · rw [name_withCopy] at hmem
        exact .inr ⟨hkind, original, List.mem_cons_of_mem _ hmem, heq⟩
  · rw [foldl_withCopy_of_kind_ne hkind] at h
    exact .inl h

/-- An object has all fields that are copied to it. -/
theorem name_mem_foldl_withCopy {t : MergedType} (hkind : t.kind = .object) {name : String}
    {copies : List (String × MergedField)}
    (h : name ∈ t.fields.map MergedField.name ∨
      ∃ original, (t.name, original) ∈ copies ∧ original.name = name) :
    name ∈ (copies.foldl withCopy t).fields.map MergedField.name := by
  induction copies generalizing t with
  | nil => exact h.resolve_right fun ⟨_, hmem, _⟩ => absurd hmem List.not_mem_nil
  | cons copy copies ih =>
    rw [List.foldl_cons]
    refine ih (by rw [kind_withCopy, hkind]) ?_
    rw [fields_withCopy hkind, name_withCopy]
    rcases h with hbefore | ⟨original, hmem, rfl⟩
    · refine .inl ?_
      split
      · rw [List.map_append]
        exact List.mem_append_left _ hbefore
      · exact hbefore
    · rcases List.mem_cons.mp hmem with rfl | hmem
      · refine .inl ?_
        split
        · simp [MergedSchema.copyOf]
        · rename_i hnot
          exact not_not.mp fun hnew => hnot ⟨rfl, hnew⟩
      · exact .inr ⟨original, hmem, rfl⟩

/-- In some subgraph, objects that stand in for the interface have the field. -/
def IsAddedByObjects (i : MergedType) (field : MergedField) : Prop :=
  field ∈ i.fields ∧
    ∃ id ∈ field.byGraph.ids, ∃ d, (id, d) ∈ i.byGraph ∧ d.isInterfaceObject = true

theorem mem_interfaceObjectFields {i : MergedType} {field : MergedField} :
    field ∈ MergedSchema.interfaceObjectFields i ↔ i.IsAddedByObjects field := by
  simp [MergedSchema.interfaceObjectFields, interfaceObjectSubgraphs, IsAddedByObjects, ByGraph.ids]

end MergedType

/-! ## Copies in merged schemas -/

namespace MergedSchema

theorem foldl_copyField (copies : List (String × MergedField)) (m : MergedSchema) :
    copies.foldl copyField m = ⟨m.types.map fun t => copies.foldl MergedType.withCopy t⟩ := by
  induction copies generalizing m with
  | nil => exact congrArg MergedSchema.mk (List.map_id _).symm
  | cons copy copies ih =>
    rw [List.foldl_cons, ih]
    show MergedSchema.mk ((m.types.map fun t => t.withCopy copy).map _) = _
    rw [List.map_map]
    rfl

theorem mem_copies {m : MergedSchema} {name : String} {field : MergedField} :
    (name, field) ∈ m.copies ↔ ∃ i ∈ m.types, i.kind = .interface ∧ i.IsAddedByObjects field ∧
      name ∈ i.implementations := by
  simp only [copies, List.mem_flatMap, List.mem_filter, beq_iff_eq, List.mem_map, Prod.mk.injEq,
    MergedType.mem_interfaceObjectFields]
  constructor
  · rintro ⟨i, ⟨hi, hkind⟩, original, horiginal, implementation, hname, rfl, rfl⟩
    exact ⟨i, hi, hkind, horiginal, hname⟩
  · rintro ⟨i, hi, hkind, horiginal, hname⟩
    exact ⟨i, ⟨hi, hkind⟩, field, horiginal, name, hname, rfl, rfl⟩

/-- A type implements what it is declared to implement. -/
theorem HasUniqueNames.name_mem_implementersOf {m : MergedSchema} (h : m.HasUniqueNames)
    {t : MergedType} (ht : t ∈ m.types) {interface : String} :
    t.name ∈ m.implementersOf interface ↔ interface ∈ t.interfaces := by
  rw [implementersOf, List.mem_map]
  constructor
  · rintro ⟨t', ht', hname⟩
    obtain ⟨hmem, hcontains⟩ := List.mem_filter.mp ht'
    rw [← List.inj_on_of_nodup_map h hmem ht hname]
    exact List.contains_iff_mem.mp hcontains
  · intro hmem
    exact ⟨t, List.mem_filter.mpr ⟨ht, List.contains_iff_mem.mpr hmem⟩, rfl⟩

/-- The fields of a type are those that subgraphs define in it, and copies: an object has all fields
that objects add to its interfaces, and has nothing else that is copied. -/
structure CopiesTo (m : MergedSchema) (t : MergedType) : Prop where
  nodup_names : (t.fields.map MergedField.name).Nodup
  copied : ∀ field ∈ t.fields, field.isFromInterfaceObject = true → t.kind = .object ∧
    ∃ i ∈ m.types, i.kind = .interface ∧ i.name ∈ t.interfaces ∧
      ∃ original, i.IsAddedByObjects original ∧ field = copyOf original
  added : t.kind = .object → ∀ i ∈ m.types, i.kind = .interface → i.name ∈ t.interfaces →
    ∀ original, i.IsAddedByObjects original → original.name ∈ t.fields.map MergedField.name

/-- What a merged schema is made of: the types of the subgraphs, added one after the other. -/
theorem exists_merged_of_ofSubgraphs {set : SubgraphSet} {m : MergedSchema}
    (h : ofSubgraphs set = .ok m) :
    ∃ merged, set.typeEntries.foldlM (addEntry set.nameOf) {} = .ok merged ∧ m = merged.finish := by
  unfold ofSubgraphs at h
  rw [foldlM_addSubgraph] at h
  change (set.typeEntries.foldlM (addEntry set.nameOf) {} >>= _) = Except.ok m at h
  cases hmerged : set.typeEntries.foldlM (addEntry set.nameOf) {} with
  | error e =>
    rw [hmerged] at h
    cases h
  | ok merged =>
    rw [hmerged] at h
    exact ⟨merged, rfl, (Except.ok.inj h).symm⟩

/-- The fields of a type that the subgraphs' types add up to are a table. -/
theorem exists_table_of_mem_types {set : SubgraphSet} {merged : MergedSchema}
    (h : set.typeEntries.foldlM (addEntry set.nameOf) {} = .ok merged) {t : MergedType}
    (ht : t ∈ merged.types) : ∃ changes, t.fields = MergedField.typedTable.table changes := by
  have hempty : HasUniqueNames {} := List.nodup_nil
  have hunique := invariant_foldlM HasUniqueNames (fun _ _ _ hm hadd => hm.addType hadd) hempty h
  have hfound := type?_of_foldlM_addEntry h t.name
  rw [hunique.type?_eq_some ht, ← SubgraphSet.entriesOf] at hfound
  cases hentries : set.entriesOf t.name with
  | nil =>
    rw [hentries] at hfound
    cases hfound
  | cons e rest =>
    rw [hentries, show type? {} t.name = none from rfl, MergedType.addEntries_none_cons] at hfound
    by_cases hkind : e.kind = .object ∨ e.kind = .interface
    · rw [Option.some.inj hfound]
      exact ⟨_, MergedType.fields_ofEntries _ _ hkind⟩
    · refine ⟨[], MergedType.fields_eq_nil ?_⟩
      rw [Option.some.inj hfound, MergedType.kind_ofEntries]
      exact hkind

theorem fields_withImplementations {m : MergedSchema} {t : MergedType}
    (ht : t ∈ m.withImplementations.types) : ∃ u ∈ m.types, t.fields = u.fields := by
  obtain ⟨u, hu, rfl⟩ := List.mem_map.mp ht
  refine ⟨u, hu, ?_⟩
  split
  · rename_i hbody
    rw [MergedType.fields, MergedType.fields, hbody]
  · rfl

section

variable {set : SubgraphSet} {m : MergedSchema}

/-- The types of a merged schema come of types without copies, which are collected in tables; and the
interfaces are among them. -/
theorem exists_before_copies (h : ofSubgraphs set = .ok m) :
    ∃ before : MergedSchema,
      m.types = before.types.map (fun t => before.copies.foldl MergedType.withCopy t) ∧
      (∀ i, i.kind = .interface → (i ∈ before.types ↔ i ∈ m.types)) ∧
      ∀ t ∈ before.types, ∃ changes, t.fields = MergedField.typedTable.table changes := by
  obtain ⟨merged, hmerged, hfinish⟩ := exists_merged_of_ofSubgraphs h
  have htypes : m.types = merged.withImplementations.types.map fun t =>
      merged.withImplementations.copies.foldl MergedType.withCopy t := by
    rw [hfinish]
    exact congrArg MergedSchema.types (foldl_copyField _ _)
  refine ⟨merged.withImplementations, htypes, fun i hkind => ⟨fun hi => ?_, fun hi => ?_⟩,
    fun t ht => ?_⟩
  · rw [htypes]
    refine List.mem_map.mpr ⟨i, hi, MergedType.foldl_withCopy_of_kind_ne ?_ _⟩
    rw [hkind]
    decide
  · rw [hfinish] at hi
    exact mem_of_mem_foldl_copyField hi hkind
  · obtain ⟨u, hu, hfields⟩ := fields_withImplementations ht
    rw [hfields]
    exact exists_table_of_mem_types hmerged hu

/-- A field is copied to a type exactly if objects add it to an interface of the type. -/
theorem mem_copies_iff (h : ofSubgraphs set = .ok m) {before : MergedSchema}
    (hinterfaces : ∀ i, i.kind = .interface → (i ∈ before.types ↔ i ∈ m.types)) {t : MergedType}
    (ht : t ∈ m.types) {original : MergedField} :
    (t.name, original) ∈ before.copies ↔ ∃ i ∈ m.types, i.kind = .interface ∧
      i.name ∈ t.interfaces ∧ i.IsAddedByObjects original := by
  have himplements : ∀ i ∈ m.types, i.kind = .interface →
      (t.name ∈ i.implementations ↔ i.name ∈ t.interfaces) := by
    intro i hi hkind
    rw [implementations_of_ofSubgraphs h hi hkind]
    exact (hasUniqueNames_of_ofSubgraphs h).name_mem_implementersOf ht
  rw [mem_copies]
  constructor
  · rintro ⟨i, hi, hkind, horiginal, hname⟩
    have hi' := (hinterfaces i hkind).mp hi
    exact ⟨i, hi', hkind, (himplements i hi' hkind).mp hname, horiginal⟩
  · rintro ⟨i, hi, hkind, hname, horiginal⟩
    exact ⟨i, (hinterfaces i hkind).mpr hi, hkind, horiginal, (himplements i hi hkind).mpr hname⟩

/-- **Only what objects add to interfaces is copied**, and it is copied to all objects that implement
them. -/
theorem copiesTo_of_ofSubgraphs (h : ofSubgraphs set = .ok m) {t : MergedType} (ht : t ∈ m.types) :
    m.CopiesTo t := by
  obtain ⟨before, htypes, hinterfaces, htables⟩ := exists_before_copies h
  have hcopies := fun original => @mem_copies_iff set m h before hinterfaces _ ht original
  rw [htypes] at ht
  obtain ⟨u, hu, rfl⟩ := List.mem_map.mp ht
  obtain ⟨changes, hfields⟩ := htables u hu
  simp only [MergedType.name_foldl_withCopy] at hcopies
  constructor
  · refine MergedType.nodup_foldl_withCopy ?_ _
    rw [hfields]
    exact nodup_upsertAll MergedField.typedTable.key_fresh MergedField.typedTable.key_step
      (by exact List.nodup_nil) changes
  · intro field hfield hcopied
    rcases MergedType.mem_fields_foldl_withCopy hfield with hown | ⟨hobject, original, hmem, heq⟩
    · rw [hfields] at hown
      rw [MergedField.isFromInterfaceObject_of_mem_table hown] at hcopied
      cases hcopied
    · obtain ⟨i, hi, hinterface, himplements, horiginal⟩ := (hcopies original).mp hmem
      refine ⟨?_, i, hi, hinterface, himplements, original, horiginal, heq⟩
      rw [MergedType.kind_foldl_withCopy, hobject]
  · intro hobject i hi hinterface himplements original horiginal
    rw [MergedType.kind_foldl_withCopy] at hobject
    have hmem := (hcopies original).mpr ⟨i, hi, hinterface, himplements, horiginal⟩
    exact MergedType.name_mem_foldl_withCopy hobject (.inr ⟨original, hmem, rfl⟩)

end

end MergedSchema

end Federation
