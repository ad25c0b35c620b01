import Federation.Proofs.Ingestion.Steps
import Federation.Proofs.Merge.FieldTypes
import Federation.Proofs.Merge.Names
import Federation.Proofs.Shuffled
import Mathlib.Data.List.Induction
import Mathlib.Data.List.Pairwise

/-!
# Types of merged schemas

Merging goes through the types that the subgraphs define, one after the other. It succeeds exactly if
types of one name are of one kind, and then each merged type consists of what the types of its name
add to it, in their order. The last steps only tell interfaces their implementations and give objects
copies of fields.
-/

namespace Federation

/-! ## Entries -/

/-- A type that a subgraph defines. -/
structure TypeEntry where
  id : SubgraphId
  subgraph : Subgraph
  definition : TypeDef

namespace TypeEntry

/-- The name of the type. -/
def name (e : TypeEntry) : String :=
  e.definition.name

/-- The kind of the type. -/
def kind (e : TypeEntry) : TypeKind :=
  e.definition.kind

/-- The type before any subgraph has added to it. -/
def fresh (e : TypeEntry) : MergedType where
  name := e.name
  body := .empty e.kind

/-- The output fields of the type, as its subgraph adds them. -/
def fields (e : TypeEntry) : List (SubgraphId × FieldInGraph) :=
  e.definition.fields.map fun field => (e.id, .of e.subgraph e.definition field)

/-- The input fields of the type. -/
def inputFields (e : TypeEntry) : List (SubgraphId × InputInGraph) :=
  e.definition.fields.map fun field => (e.id, .ofField field)

/-- The values of the type. -/
def enumValues (e : TypeEntry) : List (SubgraphId × EnumValue) :=
  e.definition.enumValues.map fun value => (e.id, value)

/-- The members of the type. -/
def members (e : TypeEntry) : List (SubgraphId × String) :=
  e.definition.members.map fun name => (e.id, name)

end TypeEntry

namespace SubgraphSet

/-- All types that the subgraphs define, in the order in which they are merged. -/
def typeEntries (set : SubgraphSet) : List TypeEntry :=
  set.enumerated.flatMap fun entry => entry.2.definitions.map fun d => ⟨entry.1, entry.2, d⟩

/-- The types of a name. -/
def entriesOf (set : SubgraphSet) (name : String) : List TypeEntry :=
  set.typeEntries.filter fun e => e.name == name

/-- The names within each subgraph are proper. -/
def HasProperNames (set : SubgraphSet) : Prop :=
  ∀ s ∈ set.subgraphs, s.HasProperNames

theorem mem_enumerated {set : SubgraphSet} {id : SubgraphId} {s : Subgraph} :
    (id, s) ∈ set.enumerated ↔ set.subgraph? id = some s := by
  rw [enumerated, List.mem_mapIdx, subgraph?, List.getElem?_eq_some_iff]
  constructor
  · rintro ⟨i, hi, heq⟩
    obtain ⟨rfl, rfl⟩ := Prod.mk.inj heq
    exact ⟨hi, rfl⟩
  · rintro ⟨hi, rfl⟩
    exact ⟨id, hi, rfl⟩

theorem mem_typeEntries {set : SubgraphSet} {e : TypeEntry} :
    e ∈ set.typeEntries ↔
      set.subgraph? e.id = some e.subgraph ∧ e.definition ∈ e.subgraph.definitions := by
  rw [typeEntries, List.mem_flatMap]
  constructor
  · rintro ⟨⟨id, s⟩, hentry, he⟩
    obtain ⟨d, hd, rfl⟩ := List.mem_map.mp he
    exact ⟨mem_enumerated.mp hentry, hd⟩
  · rintro ⟨hs, hd⟩
    exact ⟨(e.id, e.subgraph), mem_enumerated.mpr hs, List.mem_map.mpr ⟨e.definition, hd, rfl⟩⟩

theorem mem_entriesOf {set : SubgraphSet} {name : String} {e : TypeEntry} :
    e ∈ set.entriesOf name ↔ e ∈ set.typeEntries ∧ e.name = name := by
  rw [entriesOf, List.mem_filter, beq_iff_eq]

/-- The subgraphs are taken in the order of their places. -/
theorem pairwise_lt_enumerated (set : SubgraphSet) :
    set.enumerated.Pairwise fun a b => a.1 < b.1 := by
  rw [enumerated, List.pairwise_iff_getElem]
  intro i j hi hj hlt
  rw [List.getElem_mapIdx, List.getElem_mapIdx]
  exact hlt

/-- Different subgraphs have different places. -/
theorem pairwise_enumerated (set : SubgraphSet) :
    set.enumerated.Pairwise fun a b => a.1 ≠ b.1 :=
  set.pairwise_lt_enumerated.imp Nat.ne_of_lt

/-- No subgraph defines two types of one name. -/
theorem HasProperNames.pairwise_typeEntries {set : SubgraphSet} (h : set.HasProperNames) :
    set.typeEntries.Pairwise fun e e' => e.name = e'.name → e.id ≠ e'.id := by
  rw [typeEntries, List.pairwise_flatMap]
  constructor
  · intro entry hentry
    have hs : entry.2 ∈ set.subgraphs :=
      List.mem_of_getElem? (mem_enumerated.mp hentry)
    rw [List.pairwise_map]
    exact (List.pairwise_map.mp (h entry.2 hs).types).imp fun hne heq => absurd heq hne
  · refine set.pairwise_enumerated.imp fun hne x hx y hy _ => ?_
    obtain ⟨d, -, rfl⟩ := List.mem_map.mp hx
    obtain ⟨d', -, rfl⟩ := List.mem_map.mp hy
    exact hne

/-- The types of a name are of different subgraphs. -/
theorem HasProperNames.pairwise_entriesOf {set : SubgraphSet} (h : set.HasProperNames)
    (name : String) : (set.entriesOf name).Pairwise fun e e' => e.id ≠ e'.id := by
  have hpairs := h.pairwise_typeEntries.filter fun e => e.name == name
  refine hpairs.imp_of_mem fun he he' hne => hne ?_
  rw [(mem_entriesOf.mp he).2, (mem_entriesOf.mp he').2]

end SubgraphSet

/-! ## Adding entries -/

/-- Adds what many subgraphs say about an element: its directives and its description. -/
def Metadata.absorbAll (m : Metadata) (statements : List (Attributes × Option String)) : Metadata :=
  statements.foldl (fun m statement => m.absorb statement.1 statement.2) m

/-- The metadata of what goes through many steps, each of which adds to it. -/
theorem metadata_foldl {α β : Type} (metadata : α → Metadata) (step : α → β → α)
    (attributes : β → Attributes) (description : β → Option String)
    (hstep : ∀ a b, metadata (step a b) = (metadata a).absorb (attributes b) (description b)) (a : α)
    (items : List β) :
    metadata (items.foldl step a) =
      (metadata a).absorbAll (items.map fun b => (attributes b, description b)) := by
  induction items generalizing a with
  | nil => rfl
  | cons b items ih =>
    rw [List.foldl_cons, ih, hstep]
    rfl

/-- Adds a type that a subgraph defines. -/
def MergedType.addEntry (t : MergedType) (e : TypeEntry) : MergedType :=
  t.absorb e.subgraph e.id e.definition

/-- The type that some entries add up to, from the type that there is. -/
def MergedType.addEntries (t? : Option MergedType) (entries : List TypeEntry) :
    Option MergedType :=
  entries.foldl (fun t? e => some ((t?.getD e.fresh).addEntry e)) t?

@[simp] theorem MergedBody.kind_absorb (s : Subgraph) (id : SubgraphId) (d : TypeDef)
    (body : MergedBody) : (body.absorb s id d).kind = body.kind := by
  cases body <;> rfl

@[simp] theorem MergedType.name_addEntry (t : MergedType) (e : TypeEntry) :
    (t.addEntry e).name = t.name := rfl

@[simp] theorem MergedType.kind_addEntry (t : MergedType) (e : TypeEntry) :
    (t.addEntry e).kind = t.kind :=
  MergedBody.kind_absorb _ _ _ t.body

@[simp] theorem TypeEntry.kind_fresh (e : TypeEntry) : e.fresh.kind = e.kind :=
  MergedBody.kind_empty e.kind

namespace MergedSchema

/-- Adds a type that a subgraph defines, with the names of all subgraphs at hand. -/
def addEntry (nameOf : SubgraphId → String) (m : MergedSchema) (e : TypeEntry) :
    Except MergeError MergedSchema :=
  addType nameOf e.subgraph e.id m e.definition

/-- Merging adds the types of all subgraphs. -/
theorem foldlM_addSubgraph (nameOf : SubgraphId → String)
    (entries : List (SubgraphId × Subgraph)) (m : MergedSchema) :
    entries.foldlM (addSubgraph nameOf) m =
      (entries.flatMap fun entry =>
        entry.2.definitions.map fun d => (⟨entry.1, entry.2, d⟩ : TypeEntry)).foldlM
          (addEntry nameOf) m := by
  induction entries generalizing m with
  | nil => rfl
  | cons entry entries ih =>
    rw [List.foldlM_cons, List.flatMap_cons, List.foldlM_append, List.foldlM_map]
    exact congrArg _ (funext fun m' => ih m')

/-- A type can be added exactly if the type of its name is of the same kind. -/
theorem addEntry_ok_iff {nameOf : SubgraphId → String} {m : MergedSchema} {e : TypeEntry} :
    (∃ m', addEntry nameOf m e = .ok m') ↔ ∀ t, m.type? e.name = some t → t.kind = e.kind := by
  unfold addEntry addType
  rw [← TypeEntry.name]
  cases ht : m.type? e.name with
  | none => exact ⟨fun _ t h => (by cases h), fun _ => ⟨_, rfl⟩⟩
  | some t =>
    by_cases hkind : t.kind = e.definition.kind
    · dsimp only
      rw [if_pos hkind]
      exact ⟨fun _ u hu => Option.some.inj hu ▸ hkind, fun _ => ⟨_, rfl⟩⟩
    · dsimp only
      rw [if_neg hkind]
      constructor
      · rintro ⟨m', hm'⟩
        cases hm'
      · intro h
        exact absurd (h t rfl) hkind

/-- Adding a type changes the type of its name only. -/
theorem type?_of_addEntry {nameOf : SubgraphId → String} {m m' : MergedSchema} {e : TypeEntry}
    (h : addEntry nameOf m e = .ok m') (n : String) :
    m'.type? n =
      if n = e.name then some (((m.type? n).getD e.fresh).addEntry e) else m.type? n := by
  unfold addEntry addType at h
  split at h
  · rename_i hnone
    obtain rfl := Except.ok.inj h
    have hnone' : m.type? e.name = none := hnone
    by_cases hn : n = e.name
    · subst hn
      rw [if_pos rfl, hnone']
      unfold type? at hnone' ⊢
      rw [List.find?_append, hnone']
      simp [MergedType.absorb, TypeEntry.name, MergedType.addEntry, TypeEntry.fresh,
        TypeEntry.kind]
    · rw [if_neg hn]
      unfold type?
      rw [List.find?_append]
      have hfresh : e.name ≠ n := fun heq => hn heq.symm
      cases hfound : m.types.find? fun type => type.name == n with
      | some t => rfl
      | none => simpa [MergedType.absorb, TypeEntry.name] using hfresh
  · rename_i existing hsome
    split at h
    · obtain rfl := Except.ok.inj h
      have hsome' : m.type? e.name = some existing := hsome
      have hmap : type? ⟨m.types.map fun t =>
          if t.name == e.definition.name then t.absorb e.subgraph e.id e.definition else t⟩ n =
          (m.type? n).map fun t =>
            if t.name == e.definition.name then t.absorb e.subgraph e.id e.definition else t := by
        unfold type?
        rw [List.find?_map]
        congr 2
        funext t
        show ((if t.name == e.definition.name then _ else t : MergedType).name == n) = _
        split <;> rfl
      rw [hmap]
      cases ht : m.type? n with
      | none =>
        have hne : n ≠ e.name := by
          rintro rfl
          rw [ht] at hsome'
          cases hsome'
        rw [if_neg hne]
        rfl
      | some t =>
        have htname := (mem_types_of_type?_eq_some ht).2
        by_cases hn : n = e.name
        · have heq : t.name = e.definition.name := htname.trans hn
          rw [if_pos hn, Option.map_some, if_pos (by simpa using heq)]
          rfl
        · have hne : t.name ≠ e.definition.name := fun heq => hn (htname ▸ heq)
          rw [if_neg hn, Option.map_some, if_neg (by simpa using hne)]
    · cases h

/-- After many types have been added, the type of a name has gone through those of its name. -/
theorem type?_of_foldlM_addEntry {nameOf : SubgraphId → String} {entries : List TypeEntry}
    {m m' : MergedSchema} (h : entries.foldlM (addEntry nameOf) m = .ok m') (n : String) :
    m'.type? n = MergedType.addEntries (m.type? n) (entries.filter fun e => e.name == n) := by
  induction entries generalizing m with
  | nil =>
    obtain rfl := Except.ok.inj h
    rfl
  | cons e entries ih =>
    rw [List.foldlM_cons] at h
    cases hadd : addEntry nameOf m e with
    | error _ =>
      rw [hadd] at h
      cases h
    | ok next =>
      rw [hadd] at h
      rw [ih h, type?_of_addEntry hadd]
      by_cases hn : n = e.name
      · rw [if_pos hn, List.filter_cons_of_pos (by simpa using hn.symm)]
        rfl
      · rw [if_neg hn, List.filter_cons_of_neg (by simpa using Ne.symm hn)]

/-- After a type has been added, another one fits exactly if it did before and agrees with the one
that has been added. -/
theorem fits_of_addEntry {nameOf : SubgraphId → String} {m m' : MergedSchema} {e : TypeEntry}
    (h : addEntry nameOf m e = .ok m') (e' : TypeEntry) :
    (∀ t, m'.type? e'.name = some t → t.kind = e'.kind) ↔
      (∀ t, m.type? e'.name = some t → t.kind = e'.kind) ∧
        (e.name = e'.name → e.kind = e'.kind) := by
  rw [type?_of_addEntry h]
  by_cases hn : e'.name = e.name
  · have hkind := addEntry_ok_iff.mp ⟨m', h⟩
    rw [if_pos hn, hn]
    cases ht : m.type? e.name with
    | none => simp
    | some t => simp [hkind t ht]
  · rw [if_neg hn]
    exact ⟨fun hfits => ⟨hfits, fun heq => absurd heq.symm hn⟩, And.left⟩

/-- Types can be added exactly if those of one name are of one kind. -/
theorem foldlM_addEntry_ok_iff {nameOf : SubgraphId → String} {entries : List TypeEntry}
    {m : MergedSchema} :
    (∃ m', entries.foldlM (addEntry nameOf) m = .ok m') ↔
      (∀ e ∈ entries, ∀ t, m.type? e.name = some t → t.kind = e.kind) ∧
        entries.Pairwise fun e e' => e.name = e'.name → e.kind = e'.kind := by
  induction entries generalizing m with
  | nil => simp [pure, Except.pure]
  | cons e entries ih =>
    rw [List.foldlM_cons, List.forall_mem_cons, List.pairwise_cons]
    cases hadd : addEntry nameOf m e with
    | error _ =>
      have hnot : ¬ ∀ t, m.type? e.name = some t → t.kind = e.kind := by
        rw [← @addEntry_ok_iff nameOf, hadd]
        rintro ⟨m', hm'⟩
        cases hm'
      exact ⟨fun ⟨m', hm'⟩ => (by cases hm'), fun hfits => absurd hfits.1.1 hnot⟩
    | ok next =>
      have hfits : ∀ t, m.type? e.name = some t → t.kind = e.kind := addEntry_ok_iff.mp ⟨_, hadd⟩
      show (∃ m', entries.foldlM (addEntry nameOf) next = .ok m') ↔ _
      rw [ih]
      simp only [fits_of_addEntry hadd, forall_and]
      tauto

end MergedSchema

/-! ## What types consist of -/

namespace MergedType

/-- The type that entries of one name and kind add up to. -/
def ofEntries (name : String) (kind : TypeKind) (entries : List TypeEntry) : MergedType :=
  entries.foldl addEntry { name := name, body := .empty kind }

/-- The members of a union. -/
def members (t : MergedType) : List MergedMember :=
  match t.body with
  | .union members => members
  | _ => []

/-- The values of an enum type. -/
def enumValues (t : MergedType) : List MergedEnumValue :=
  match t.body with
  | .enum values => values
  | _ => []

/-- The fields of an input object. -/
def inputFields (t : MergedType) : List MergedInput :=
  match t.body with
  | .inputObject fields => fields
  | _ => []

theorem addEntries_some (t : MergedType) (entries : List TypeEntry) :
    addEntries (some t) entries = some (entries.foldl addEntry t) :=
  foldl_some TypeEntry.fresh (fun e t => t.addEntry e) t entries

/-- Entries add up to a type exactly if there are any. -/
theorem addEntries_none_cons (e : TypeEntry) (entries : List TypeEntry) :
    addEntries none (e :: entries) = some (ofEntries e.name e.kind (e :: entries)) :=
  addEntries_some (e.fresh.addEntry e) entries

@[simp] theorem name_ofEntries (name : String) (kind : TypeKind) (entries : List TypeEntry) :
    (ofEntries name kind entries).name = name := by
  induction entries using List.reverseRecOn with
  | nil => rfl
  | append_singleton entries e ih =>
    rw [ofEntries, List.foldl_concat, name_addEntry, ← ofEntries, ih]

@[simp] theorem kind_ofEntries (name : String) (kind : TypeKind) (entries : List TypeEntry) :
    (ofEntries name kind entries).kind = kind := by
  induction entries using List.reverseRecOn with
  | nil => exact MergedBody.kind_empty kind
  | append_singleton entries e ih =>
    rw [ofEntries, List.foldl_concat, kind_addEntry, ← ofEntries, ih]

/-- Every subgraph adds to the metadata in turn. -/
theorem metadata_ofEntries (name : String) (kind : TypeKind) (entries : List TypeEntry) :
    (ofEntries name kind entries).metadata = Metadata.absorbAll {}
      (entries.map fun e => (e.definition.attributes, e.definition.description)) :=
  metadata_foldl _ _ _ _ (fun _ _ => rfl) _ _

end MergedType

/-- The interfaces that entries declare. -/
def TypeEntry.interfacesOf (entries : List TypeEntry) : List String :=
  entries.foldl (fun interfaces e => absorbInterfaces e.definition interfaces) []

/-- The members that entries declare, with their subgraphs. -/
def MergedMember.table (changes : List (SubgraphId × String)) : List MergedMember :=
  upsertAll MergedMember.name Prod.snd (fun c => { name := c.2 })
    (fun c m => { m with subgraphs := Attributes.addNew m.subgraphs c.1 }) [] changes

/-- The enum values that entries define, with their subgraphs. -/
def MergedEnumValue.table (changes : List (SubgraphId × EnumValue)) : List MergedEnumValue :=
  upsertAll MergedEnumValue.name (fun c => c.2.name) (fun c => { name := c.2.name })
    (fun c m => { m with
      metadata := m.metadata.absorb c.2.attributes c.2.description
      subgraphs := Attributes.addNew m.subgraphs c.1 }) [] changes

/-- What a type of a kind consists of, once entries have been added. -/
def MergedBody.ofEntries (kind : TypeKind) (entries : List TypeEntry) : MergedBody :=
  match kind with
  | .object => .object (TypeEntry.interfacesOf entries)
      (MergedField.typedTable.table (entries.flatMap TypeEntry.fields))
  | .interface => .interface (TypeEntry.interfacesOf entries)
      (MergedField.typedTable.table (entries.flatMap TypeEntry.fields)) []
  | .union => .union (MergedMember.table (entries.flatMap TypeEntry.members))
  | .enum => .enum (MergedEnumValue.table (entries.flatMap TypeEntry.enumValues))
  | .scalar => .scalar
  | .inputObject => .inputObject
      (MergedInput.typedTable.table (entries.flatMap TypeEntry.inputFields))

/-- Each kind of type consists of tables of what the entries define. -/
theorem MergedType.body_ofEntries (name : String) (kind : TypeKind) (entries : List TypeEntry) :
    (MergedType.ofEntries name kind entries).body = .ofEntries kind entries := by
  induction entries using List.reverseRecOn with
  | nil => cases kind <;> rfl
  | append_singleton entries e ih =>
    rw [MergedType.ofEntries, List.foldl_concat, ← MergedType.ofEntries]
    show MergedBody.absorb _ _ _ (MergedType.ofEntries name kind entries).body = _
    rw [ih]
    unfold MergedBody.ofEntries TypeEntry.interfacesOf MergedMember.table MergedEnumValue.table
      TypedTable.table
    cases kind with
    | object =>
      simp only [List.flatMap_append, List.flatMap_singleton, upsertAll_append, List.foldl_concat]
      simp only [MergedBody.absorb, absorbFields, TypeEntry.fields, upsertAll, List.foldl_map]
      rfl
    | interface =>
      simp only [List.flatMap_append, List.flatMap_singleton, upsertAll_append, List.foldl_concat]
      simp only [MergedBody.absorb, absorbFields, TypeEntry.fields, upsertAll, List.foldl_map]
      rfl
    | union =>
      simp only [List.flatMap_append, List.flatMap_singleton, upsertAll_append]
      simp only [MergedBody.absorb, TypeEntry.members, upsertAll, List.foldl_map]
      rfl
    | enum =>
      simp only [List.flatMap_append, List.flatMap_singleton, upsertAll_append]
      simp only [MergedBody.absorb, TypeEntry.enumValues, upsertAll, List.foldl_map]
      rfl
    | scalar => rfl
    | inputObject =>
      simp only [List.flatMap_append, List.flatMap_singleton, upsertAll_append]
      simp only [MergedBody.absorb, TypeEntry.inputFields, upsertAll, List.foldl_map]
      rfl

/-! ## The last steps -/

/-- What the last steps may change: an interface gets to know its implementations, and an object gets
copies of fields, of names that it does not have. -/
inductive MergedBody.Finishes : MergedBody → MergedBody → Prop
  | same (body : MergedBody) : Finishes body body
  | implementations (interfaces : List String) (fields : List MergedField)
      (before after : List String) :
      Finishes (.interface interfaces fields before) (.interface interfaces fields after)
  | copies (interfaces : List String) (fields copied : List MergedField)
      (hcopied : ∀ field ∈ copied, field.isFromInterfaceObject = true ∧ field.byGraph = [])
      (hnames : ∀ field ∈ copied, field.name ∉ fields.map MergedField.name) :
      Finishes (.object interfaces fields) (.object interfaces (fields ++ copied))

/-- The type up to what the last steps may change. -/
structure MergedType.Finishes (t t' : MergedType) : Prop where
  rest : t' = { t with body := t'.body }
  body : t.body.Finishes t'.body

namespace MergedBody.Finishes

theorem trans {a b c : MergedBody} (hab : a.Finishes b) (hbc : b.Finishes c) : a.Finishes c := by
  cases hab with
  | same => exact hbc
  | implementations interfaces fields before after =>
    cases hbc with
    | same => exact .implementations _ _ _ _
    | implementations => exact .implementations _ _ _ _
  | copies interfaces fields copied hcopied hnames =>
    cases hbc with
    | same => exact .copies _ _ _ hcopied hnames
    | copies _ _ more hmore hmorenames =>
      rw [List.append_assoc]
      refine .copies _ _ _ (fun field hfield => ?_) fun field hfield => ?_
      · exact (List.mem_append.mp hfield).elim (hcopied field) (hmore field)
      · rcases List.mem_append.mp hfield with hfield | hfield
        · exact hnames field hfield
        · intro hmem
          refine hmorenames field hfield ?_
          rw [List.map_append]
          exact List.mem_append_left _ hmem

theorem kind_eq {a b : MergedBody} (h : a.Finishes b) : b.kind = a.kind := by
  cases h <;> rfl

end MergedBody.Finishes

namespace MergedType.Finishes

variable {t t' t'' : MergedType}

theorem refl (t : MergedType) : t.Finishes t :=
  ⟨rfl, .same _⟩

theorem trans (h : t.Finishes t') (h' : t'.Finishes t'') : t.Finishes t'' :=
  ⟨by rw [h'.rest, h.rest], h.body.trans h'.body⟩

theorem name_eq (h : t.Finishes t') : t'.name = t.name := by
  rw [h.rest]

theorem metadata_eq (h : t.Finishes t') : t'.metadata = t.metadata := by
  rw [h.rest]

theorem byGraph_eq (h : t.Finishes t') : t'.byGraph = t.byGraph := by
  rw [h.rest]

theorem kind_eq (h : t.Finishes t') : t'.kind = t.kind :=
  h.body.kind_eq

end MergedType.Finishes

namespace MergedSchema

/-- Interfaces get to know their implementations. -/
theorem finishes_withImplementations (m : MergedSchema) :
    List.Forall₂ MergedType.Finishes m.types m.withImplementations.types := by
  refine List.forall₂_map_right_iff.mpr (List.forall₂_same.mpr fun t _ => ?_)
  split
  · rename_i interfaces fields implementations hbody
    refine ⟨rfl, ?_⟩
    rw [hbody]
    exact .implementations _ _ _ _
  · exact .refl t

/-- An object gets a copy of a field of a new name. -/
theorem finishes_copyField (m : MergedSchema) (copy : String × MergedField) :
    List.Forall₂ MergedType.Finishes m.types (m.copyField copy).types := by
  refine List.forall₂_map_right_iff.mpr (List.forall₂_same.mpr fun t _ => ?_)
  split
  · rename_i interfaces fields hbody
    split
    · rename_i hcopy
      refine ⟨rfl, ?_⟩
      rw [hbody]
      refine .copies _ _ _ (fun field hfield => ?_) fun field hfield hmem => ?_
      · rw [List.mem_singleton.mp hfield]
        exact ⟨rfl, rfl⟩
      · rw [List.mem_singleton.mp hfield] at hmem
        obtain ⟨other, hother, hname⟩ := List.mem_map.mp hmem
        have hfree := (Bool.and_eq_true_iff.mp hcopy).2
        rw [Bool.not_eq_true', List.any_eq_false] at hfree
        exact hfree other hother (by simpa [copyOf] using hname)
    · exact .refl t
  · exact .refl t

/-- The last steps take every type to its completion. -/
theorem finishes_finish (m : MergedSchema) :
    List.Forall₂ MergedType.Finishes m.types m.finish.types := by
  refine forall₂_trans (fun _ _ _ => .trans) m.finishes_withImplementations ?_
  show List.Forall₂ _ _ (m.withImplementations.copies.foldl copyField m.withImplementations).types
  generalize m.withImplementations = m'
  generalize m'.copies = copies
  induction copies generalizing m' with
  | nil => exact List.forall₂_same.mpr fun t _ => .refl t
  | cons copy copies ih =>
    exact forall₂_trans (fun _ _ _ => .trans) (m'.finishes_copyField copy) (ih _)

/-- The type of a name is taken to the type of the name. -/
theorem type?_of_forall₂_finishes {types types' : List MergedType}
    (h : List.Forall₂ MergedType.Finishes types types') (name : String) :
    Option.Rel MergedType.Finishes (type? ⟨types⟩ name) (type? ⟨types'⟩ name) := by
  unfold type?
  induction h with
  | nil => exact .none
  | @cons t t' types types' hfirst _ ih =>
    by_cases hname : t.name = name
    · rw [List.find?_cons_of_pos (by simpa using hname),
        List.find?_cons_of_pos (by simpa [hfirst.name_eq] using hname)]
      exact .some hfirst
    · rw [List.find?_cons_of_neg (by simpa using hname),
        List.find?_cons_of_neg (by simpa [hfirst.name_eq] using hname)]
      exact ih

/-! ## Whole schemas -/

/-- Merging succeeds exactly if types of one name are of one kind. -/
theorem ofSubgraphs_ok_iff {set : SubgraphSet} :
    (∃ m, ofSubgraphs set = .ok m) ↔
      set.typeEntries.Pairwise fun e e' => e.name = e'.name → e.kind = e'.kind := by
  have hempty : ∀ e ∈ set.typeEntries, ∀ t, type? {} e.name = some t → t.kind = e.kind := by
    intro e _ t ht
    cases ht
  refine Iff.trans ?_ ((@foldlM_addEntry_ok_iff set.nameOf _ _).trans (and_iff_right hempty))
  unfold ofSubgraphs
  rw [foldlM_addSubgraph]
  show (∃ m, (set.typeEntries.foldlM (addEntry set.nameOf) {} >>= _) = Except.ok m) ↔ _
  cases set.typeEntries.foldlM (addEntry set.nameOf) {} with
  | error e => exact ⟨fun ⟨m, hm⟩ => (by cases hm), fun ⟨m, hm⟩ => (by cases hm)⟩
  | ok m => exact ⟨fun _ => ⟨m, rfl⟩, fun _ => ⟨m.finish, rfl⟩⟩

/-- The types of one name are of one kind, if the subgraphs can be merged. -/
theorem kind_eq_of_ofSubgraphs {set : SubgraphSet} {m : MergedSchema} (h : ofSubgraphs set = .ok m)
    {name : String} {e e' : TypeEntry} (he : e ∈ set.entriesOf name)
    (he' : e' ∈ set.entriesOf name) : e.kind = e'.kind := by
  obtain ⟨hmem, hname⟩ := SubgraphSet.mem_entriesOf.mp he
  obtain ⟨hmem', hname'⟩ := SubgraphSet.mem_entriesOf.mp he'
  have hpairs := ofSubgraphs_ok_iff.mp ⟨m, h⟩
  have hsymm : Std.Symm fun e e' : TypeEntry => e.name = e'.name → e.kind = e'.kind :=
    ⟨fun _ _ hab heq => (hab heq.symm).symm⟩
  have hall := hpairs.forall_of_forall fun _ _ _ => rfl
  exact hall hmem hmem' (hname.trans hname'.symm)

/-- The type of a name is what the entries of the name add up to, up to the last steps. -/
theorem type?_of_ofSubgraphs {set : SubgraphSet} {m : MergedSchema} (h : ofSubgraphs set = .ok m)
    (name : String) :
    Option.Rel MergedType.Finishes (MergedType.addEntries none (set.entriesOf name))
      (m.type? name) := by
  unfold ofSubgraphs at h
  rw [foldlM_addSubgraph] at h
  change (set.typeEntries.foldlM (addEntry set.nameOf) {} >>= _) = Except.ok m at h
  cases hmerged : set.typeEntries.foldlM (addEntry set.nameOf) {} with
  | error e =>
    rw [hmerged] at h
    cases h
  | ok merged =>
    rw [hmerged] at h
    obtain rfl := Except.ok.inj h
    have htype := type?_of_foldlM_addEntry hmerged name
    have hfinishes := type?_of_forall₂_finishes merged.finishes_finish name
    rw [SubgraphSet.entriesOf, show (none : Option MergedType) = type? {} name from rfl, ← htype]
    exact hfinishes

end MergedSchema

end Federation
