import Federation.Ingestion.Ingest
import Federation.Proofs.TypeRef.Text
import Mathlib.Data.List.Nodup
import Mathlib.Logic.Basic

/-!
# What every step of ingestion keeps

A schema is taken in by many small steps. Each of them keeps the name of the subgraph, and keeps the
names within it unique and free of marks. None of them looks at the texts that were mentioned before,
or at the value that stands for the subgraph in the enumeration of all subgraphs. So what a schema
turns into does not depend on the subgraphs that were taken in before it.
-/

namespace Federation

/-! ## Proper names -/

/-- The parts of a type have different names, and the types of its fields are named without marks. -/
structure TypeDef.HasProperNames (d : TypeDef) : Prop where
  fields : (d.fields.map Field.name).Nodup
  enumValues : (d.enumValues.map EnumValue.name).Nodup
  members : d.members.Nodup
  interfaces : d.interfaces.Nodup
  fieldTypes : ∀ field ∈ d.fields, field.type.HasPlainName

/-- The types of a subgraph have different names, and the names within each of them are proper. -/
structure Subgraph.HasProperNames (s : Subgraph) : Prop where
  types : (s.definitions.map TypeDef.name).Nodup
  parts : ∀ d ∈ s.definitions, d.HasProperNames

/-- A field of a new name. -/
theorem TypeDef.HasProperNames.addField {d : TypeDef} (h : d.HasProperNames) {field : Field}
    (hnew : d.field? field.name = none) (htype : field.type.HasPlainName) :
    TypeDef.HasProperNames { d with fields := d.fields ++ [field] } where
  fields := by
    rw [List.map_append, List.map_singleton, ← List.concat_eq_append]
    refine h.fields.concat fun hmem => ?_
    obtain ⟨other, hother, hname⟩ := List.mem_map.mp hmem
    exact List.find?_eq_none.mp hnew other hother (by simpa using hname)
  enumValues := h.enumValues
  members := h.members
  interfaces := h.interfaces
  fieldTypes := by
    rw [List.forall_mem_append, List.forall_mem_singleton]
    exact ⟨h.fieldTypes, htype⟩

/-- A value of a new name. -/
theorem TypeDef.HasProperNames.addEnumValue {d : TypeDef} (h : d.HasProperNames)
    {value : EnumValue} (hnew : (d.enumValues.any fun other => other.name == value.name) = false) :
    TypeDef.HasProperNames { d with enumValues := d.enumValues ++ [value] } where
  fields := h.fields
  enumValues := by
    rw [List.map_append, List.map_singleton, ← List.concat_eq_append]
    refine h.enumValues.concat fun hmem => ?_
    obtain ⟨other, hother, hname⟩ := List.mem_map.mp hmem
    exact List.any_eq_false.mp hnew other hother (by simpa using hname)
  members := h.members
  interfaces := h.interfaces
  fieldTypes := h.fieldTypes

/-- Adding an item that is new keeps the items of a list different. -/
theorem Attributes.nodup_addNew {α : Type} [BEq α] [LawfulBEq α] {items : List α}
    (h : items.Nodup) (item : α) : (addNew items item).Nodup := by
  unfold addNew
  split
  · exact h
  · rename_i hnew
    rw [← List.concat_eq_append]
    exact h.concat fun hmem => hnew (List.contains_iff_mem.mpr hmem)

namespace Subgraph

/-- In a subgraph with proper names every type is the one that is found by its name. -/
theorem HasProperNames.definition?_eq_some {s : Subgraph} (h : s.HasProperNames) {d : TypeDef}
    (hd : d ∈ s.definitions) : s.definition? d.name = some d := by
  cases hfound : s.definition? d.name with
  | none => exact absurd (List.find?_eq_none.mp hfound d hd) (by simp)
  | some found =>
    have hmem := mem_of_definition? hfound
    rw [List.inj_on_of_nodup_map h.types hmem hd (name_of_definition? hfound)]

/-- A type of a new name, without parts. -/
theorem HasProperNames.addDefinition {s : Subgraph} (h : s.HasProperNames) {d : TypeDef}
    (hnew : s.definition? d.name = none) (hd : d.HasProperNames) :
    HasProperNames { s with definitions := s.definitions ++ [d] } where
  types := by
    rw [List.map_append, List.map_singleton, ← List.concat_eq_append]
    refine h.types.concat fun hmem => ?_
    obtain ⟨other, hother, hname⟩ := List.mem_map.mp hmem
    exact List.find?_eq_none.mp hnew other hother (by simpa using hname)
  parts := by
    intro other hother
    rcases List.mem_append.mp hother with hother | hother
    · exact h.parts other hother
    · rw [List.mem_singleton.mp hother]
      exact hd

/-- A change of types that keeps their names and keeps their parts apart. -/
theorem HasProperNames.mapDefinitions {s : Subgraph} (h : s.HasProperNames)
    {f : TypeDef → TypeDef} (hname : ∀ d, (f d).name = d.name)
    (hf : ∀ d ∈ s.definitions, (f d).HasProperNames) :
    HasProperNames { s with definitions := s.definitions.map f } where
  types := by
    rw [List.map_map, show TypeDef.name ∘ f = TypeDef.name from funext hname]
    exact h.types
  parts := by
    intro other hother
    obtain ⟨d, hd, rfl⟩ := List.mem_map.mp hother
    exact hf d hd

/-- A change of the type of a name. -/
theorem HasProperNames.modifyDefinition {s : Subgraph} (h : s.HasProperNames) {name : String}
    {f : TypeDef → TypeDef} (hname : ∀ d, (f d).name = d.name)
    (hf : ∀ d, s.definition? name = some d → (f d).HasProperNames) :
    (s.modifyDefinition name f).HasProperNames := by
  refine h.mapDefinitions (fun d => ?_) (fun d hd => ?_)
  · split
    · exact hname d
    · rfl
  · split
    · rename_i heq
      refine hf d ?_
      rw [← show d.name = name by simpa using heq]
      exact h.definition?_eq_some hd
    · exact h.parts d hd

end Subgraph

/-! ## Lawful steps -/

/-- The same state with another table of texts and another value in the enumeration. -/
def Progress.relabel (p : Progress) (names : NameTable) (enumValue : String) : Progress :=
  { p with names := names, subgraph := { p.subgraph with enumValue := enumValue } }

namespace Ingestion

variable {α β : Type}

/-- From a subgraph on, a step keeps the subgraph's name and keeps the names within it proper; and it
gives the same answer and the same subgraph under any other labels. -/
def LawfulAt (s : Subgraph) (x : Ingestion α) : Prop :=
  ∀ p : Progress, p.subgraph = s →
    (x.run p).2.subgraph.name = s.name ∧
    (s.HasProperNames → (x.run p).2.subgraph.HasProperNames) ∧
    ∀ names enumValue, ∃ names',
      x.run (p.relabel names enumValue) = ((x.run p).1, (x.run p).2.relabel names' enumValue)

/-- A step that is lawful from every subgraph on. -/
def Lawful (x : Ingestion α) : Prop :=
  ∀ s, LawfulAt s x

theorem lawful_pure (a : α) : Lawful (pure a : Ingestion α) := by
  rintro s p rfl
  exact ⟨rfl, id, fun names _ => ⟨names, rfl⟩⟩

theorem LawfulAt.bind {s : Subgraph} {x : Ingestion α} {k : α → Ingestion β} (hx : LawfulAt s x)
    (hk : ∀ a, Lawful (k a)) : LawfulAt s (x >>= k) := by
  rintro p rfl
  obtain ⟨hname, hunique, hlabels⟩ := hx p rfl
  obtain ⟨hname', hunique', hlabels'⟩ := hk (x.run p).1 _ (x.run p).2 rfl
  refine ⟨hname'.trans hname, fun h => hunique' (hunique h), fun names enumValue => ?_⟩
  obtain ⟨names', h⟩ := hlabels names enumValue
  obtain ⟨names'', h'⟩ := hlabels' names' enumValue
  refine ⟨names'', ?_⟩
  rw [StateT.run_bind, h]
  exact h'

theorem Lawful.bind {x : Ingestion α} {k : α → Ingestion β} (hx : Lawful x)
    (hk : ∀ a, Lawful (k a)) : Lawful (x >>= k) :=
  fun s => (hx s).bind hk

/-- A step that looks at the subgraph, but not at its value in the enumeration. -/
theorem lawful_subgraph_bind {k : Subgraph → Ingestion β} (hk : ∀ s, LawfulAt s (k s))
    (hlabels : ∀ s enumValue, k { s with enumValue := enumValue } = k s) :
    Lawful (subgraph >>= k) := by
  rintro s p rfl
  obtain ⟨hname, hunique, hrelabel⟩ := hk p.subgraph p rfl
  refine ⟨hname, hunique, fun names enumValue => ?_⟩
  obtain ⟨names', h⟩ := hrelabel names enumValue
  refine ⟨names', ?_⟩
  have hrun : (subgraph >>= k).run (p.relabel names enumValue) =
      (k { p.subgraph with enumValue := enumValue }).run (p.relabel names enumValue) := rfl
  rw [hrun, hlabels]
  exact h

/-- A change of the subgraph that does not depend on its value in the enumeration. -/
theorem lawfulAt_modifySubgraph {s : Subgraph} {f : Subgraph → Subgraph}
    (hname : (f s).name = s.name)
    (hunique : s.HasProperNames → (f s).HasProperNames)
    (hlabels : ∀ enumValue,
      f { s with enumValue := enumValue } = { f s with enumValue := enumValue }) :
    LawfulAt s (modifySubgraph f) := by
  rintro p rfl
  refine ⟨hname, hunique, fun names enumValue => ⟨names, ?_⟩⟩
  have hrun : (modifySubgraph f).run (p.relabel names enumValue) =
      ((), { p.relabel names enumValue with
        subgraph := f { p.subgraph with enumValue := enumValue } }) := rfl
  rw [hrun, hlabels]
  rfl

/-- A change that leaves the types alone. -/
theorem lawful_modifySubgraph {f : Subgraph → Subgraph} (hname : ∀ s, (f s).name = s.name)
    (hdefinitions : ∀ s, (f s).definitions = s.definitions)
    (hlabels : ∀ s enumValue,
      f { s with enumValue := enumValue } = { f s with enumValue := enumValue }) :
    Lawful (modifySubgraph f) := by
  intro s
  refine lawfulAt_modifySubgraph (hname s) (fun h => ⟨?_, ?_⟩) (hlabels s)
  · rw [hdefinitions]
    exact h.types
  · rw [hdefinitions]
    exact h.parts

/-- A change of a type. -/
theorem lawfulAt_modifyDefinition {s : Subgraph} {name : String} {f : TypeDef → TypeDef}
    (hname : ∀ d, (f d).name = d.name)
    (hf : ∀ d, s.definition? name = some d → d.HasProperNames → (f d).HasProperNames) :
    LawfulAt s (modifyDefinition name f) := by
  refine lawfulAt_modifySubgraph rfl (fun h => ?_) fun _ => rfl
  exact h.modifyDefinition hname fun d hd => hf d hd (h.parts d (Subgraph.mem_of_definition? hd))

/-- A change of a type that keeps its parts apart in any case. -/
theorem lawful_modifyDefinition {name : String} {f : TypeDef → TypeDef}
    (hname : ∀ d, (f d).name = d.name)
    (hf : ∀ d, d.HasProperNames → (f d).HasProperNames) :
    Lawful (modifyDefinition name f) :=
  fun _ => lawfulAt_modifyDefinition hname fun d _ => hf d

/-! ### Repetition -/

theorem lawful_forM {items : List α} {step : α → Ingestion Unit}
    (h : ∀ a ∈ items, Lawful (step a)) : Lawful (items.forM step) := by
  induction items with
  | nil => exact lawful_pure ()
  | cons first others ih =>
    obtain ⟨hfirst, hothers⟩ := List.forall_mem_cons.mp h
    exact hfirst.bind fun _ => ih hothers

theorem lawful_foldlM {items : List α} {step : β → α → Ingestion β}
    (h : ∀ b a, Lawful (step b a)) (b : β) : Lawful (items.foldlM step b) := by
  induction items generalizing b with
  | nil => exact lawful_pure b
  | cons first others ih =>
    rw [List.foldlM_cons]
    exact (h b first).bind ih

theorem lawful_mapM {items : List α} {step : α → Ingestion β} (h : ∀ a, Lawful (step a)) :
    Lawful (items.mapM step) := by
  induction items with
  | nil =>
    rw [List.mapM_nil]
    exact lawful_pure []
  | cons first others ih =>
    rw [List.mapM_cons]
    exact (h first).bind fun _ => ih.bind fun _ => lawful_pure _

/-! ### Texts, reports and limits -/

theorem lawful_mention (text : String) : Lawful (mention text) := by
  rintro s p rfl
  exact ⟨rfl, id, fun names _ => ⟨names.mention text, rfl⟩⟩

theorem lawful_mentionAll (texts : List String) : Lawful (mentionAll texts) := by
  rintro s p rfl
  exact ⟨rfl, id, fun names _ => ⟨names.mentionAll texts, rfl⟩⟩

theorem lawful_mentionOptional (text : Option String) : Lawful (mentionOptional text) := by
  cases text with
  | none => exact lawful_pure ()
  | some text => exact lawful_mention text

theorem lawful_report (code : ErrorCode) (message : String) : Lawful (report code message) :=
  lawful_modifySubgraph (fun _ => rfl) (fun _ => rfl) fun _ _ => rfl

theorem lawful_useFeatures (features : Features) : Lawful (useFeatures features) :=
  lawful_modifySubgraph (fun _ => rfl) (fun _ => rfl) fun _ _ => rfl

theorem lawful_passLimit : Lawful passLimit := by
  rintro s p rfl
  exact ⟨rfl, id, fun names _ => ⟨names, rfl⟩⟩

theorem lawful_describe (description : Option Document.Description) :
    Lawful (describe description) := by
  unfold describe
  split
  · exact lawful_pure none
  · split
    · exact lawful_passLimit.bind fun _ => lawful_pure none
    · exact (lawful_mention _).bind fun _ => lawful_pure _

theorem lawful_mentionType (type : TypeRef) : Lawful (mentionType type) := by
  unfold mentionType
  split
  · exact lawful_passLimit.bind fun _ => lawful_mention _
  · exact lawful_mention _

end Ingestion

end Federation
