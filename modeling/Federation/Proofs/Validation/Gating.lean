import Federation.Proofs.Validation.Sharing

/-!
# Fields that are taken over

A subgraph resolves a field unless another one takes it over, for good or while a label is active.
Several subgraphs may take over the same field from the same subgraph, and every one that is in force
should keep the planner from it. The planner asks the first of them only.
-/

namespace Federation

/-! ## Takeovers -/

/-- The override is in force while exactly some labels are active: it has no label, or an active one. -/
def Override.IsInForce (o : Override) (labels : List String) : Prop :=
  ∀ label, o.label = some label → label ∈ labels

namespace SubgraphSet

variable (set : SubgraphSet) (typeName fieldName : String) (id id' : SubgraphId) (o : Override)

/-- Another subgraph takes a field of an object type over from a subgraph. -/
structure TakesOver : Prop where
  other : id' ≠ id
  source : o.source = set.nameOf id
  defined : ∃ s d field, set.Defines typeName fieldName id' s d field ∧
    field.attributes.override = some o

/-- The first subgraph that takes the field over. -/
structure FirstTakesOver : Prop where
  takes : set.TakesOver typeName fieldName id id' o
  first : ∀ later o', set.TakesOver typeName fieldName id later o' → id' ≤ later

/-- Overrides decide about a field of a subgraph: the planner takes it from the base node of the type
exactly if the field's own override is in force, and none that takes it over from there. -/
def IsGatedByOverrides (merged : MergedSchema) (field : Field) (labels : List String) : Prop :=
  (set.plannerWith merged labels).canTakeAtBase typeName fieldName id = true ↔
    (∀ o, field.attributes.override = some o → o.IsInForce labels) ∧
      ∀ id' o, set.TakesOver typeName fieldName id id' o → ¬ o.IsInForce labels

end SubgraphSet

/-- An override is in force exactly if the labels allow what it brings. -/
theorem Override.allows_active_iff {set : SubgraphSet} {m : MergedSchema} {labels : List String}
    {o : Override} :
    (set.plannerWith m labels).allows (o.label.map fun label => { label, active := true }) = true ↔
      o.IsInForce labels := by
  show (Option.all (fun c => LabelCondition.holds c labels) _) = true ↔ _
  unfold IsInForce
  cases o.label <;> simp [LabelCondition.holds]

/-- An override is not in force exactly if it has a label, and the labels allow what it takes away. -/
theorem Override.allows_inactive_iff {set : SubgraphSet} {m : MergedSchema} {labels : List String}
    {o : Override} :
    (set.plannerWith m labels).allows (o.label.map fun label => { label, active := false }) = true ∧
        (o.label.map fun label => ({ label, active := false } : LabelCondition)).isNone = false ↔
      ¬ o.IsInForce labels := by
  show (Option.all (fun c => LabelCondition.holds c labels) _) = true ∧ _ ↔ _
  unfold IsInForce
  cases o.label <;> simp [LabelCondition.holds]

/-! ## The first one -/

/-- What is found first is the smallest of what could have been found, if a list is in order. -/
theorem le_of_find?_eq_some {α : Type} {key : α → Nat} {p : α → Bool} {items : List α} {a b : α}
    (horder : items.Pairwise fun x y => key x ≤ key y) (h : items.find? p = some a) (hb : b ∈ items)
    (hp : p b = true) : key a ≤ key b := by
  obtain ⟨-, front, back, rfl, hfront⟩ := List.find?_eq_some_iff_append.mp h
  rcases List.mem_append.mp hb with hb | hb
  · exact absurd hp (by simpa using hfront b hb)
  · rcases List.mem_cons.mp hb with rfl | hb
    · exact Nat.le_refl _
    · exact (List.pairwise_cons.mp (List.pairwise_append.mp horder).2.1).1 b hb

namespace SubgraphSet

/-- The types of the subgraphs are merged in the order of the subgraphs. -/
theorem pairwise_le_typeEntries (set : SubgraphSet) :
    set.typeEntries.Pairwise fun e e' => e.id ≤ e'.id := by
  rw [typeEntries, List.pairwise_flatMap]
  constructor
  · intro entry _
    rw [List.pairwise_map]
    exact List.pairwise_of_forall fun _ _ => Nat.le_refl _
  · refine List.Pairwise.imp (fun hlt x hx y hy => ?_) set.pairwise_lt_enumerated
    obtain ⟨d, -, rfl⟩ := List.mem_map.mp hx
    obtain ⟨d', -, rfl⟩ := List.mem_map.mp hy
    exact Nat.le_of_lt hlt

/-- So are the fields of a name. -/
theorem pairwise_le_fieldEntriesOf (set : SubgraphSet) (typeName name : String) :
    (set.fieldEntriesOf typeName name).Pairwise fun e e' => e.1 ≤ e'.1 := by
  refine List.Pairwise.filter _ ?_
  rw [fieldsOf, List.pairwise_flatMap]
  constructor
  · intro e _
    rw [TypeEntry.fields, List.pairwise_map]
    exact List.pairwise_of_forall fun _ _ => Nat.le_refl _
  · refine List.Pairwise.imp (fun hle x hx y hy => ?_) (set.pairwise_le_typeEntries.filter _)
    obtain ⟨field, -, rfl⟩ := List.mem_map.mp hx
    obtain ⟨field', -, rfl⟩ := List.mem_map.mp hy
    exact hle

variable {set : SubgraphSet} {typeName fieldName : String} {id id' : SubgraphId} {o o' : Override}

/-- A subgraph takes a field over by one override. -/
theorem TakesOver.unique (hset : set.HasProperNames)
    (h : set.TakesOver typeName fieldName id id' o)
    (h' : set.TakesOver typeName fieldName id id' o') : o' = o := by
  obtain ⟨-, -, s, d, field, hdefines, ho⟩ := h
  obtain ⟨-, -, s', d', field', hdefines', ho'⟩ := h'
  obtain rfl : s' = s := Option.some.inj (hdefines'.subgraph.symm.trans hdefines.subgraph)
  obtain rfl : d' = d := Option.some.inj (hdefines'.type.symm.trans hdefines.type)
  have hparts := (hset s' (List.mem_of_getElem? hdefines.subgraph)).parts d'
    (Subgraph.mem_of_definition? hdefines.type)
  obtain rfl : field' = field := List.inj_on_of_nodup_map hparts.fields hdefines'.mem hdefines.mem
    (hdefines'.name.trans hdefines.name.symm)
  exact Option.some.inj (ho'.symm.trans ho)

/-- There is one first takeover. -/
theorem FirstTakesOver.unique (hset : set.HasProperNames) {later : SubgraphId}
    (h : set.FirstTakesOver typeName fieldName id id' o)
    (h' : set.FirstTakesOver typeName fieldName id later o') : o' = o := by
  obtain rfl : later = id' := Nat.le_antisymm (h'.first id' o h.takes) (h.first later o' h'.takes)
  exact h.takes.unique hset h'.takes

end SubgraphSet

section

variable {set : SubgraphSet} {m : MergedSchema} {typeName fieldName : String} {id id' : SubgraphId}
  {labels : List String} {o : Override}

section

variable (hset : set.Ingested) (hm : MergedSchema.ofSubgraphs set = .ok m) {t : MergedType}
  (ht : t ∈ m.types) (hkind : t.kind = .object) {merged : MergedField} (hmerged : merged ∈ t.fields)

include hset hm ht hkind hmerged

/-- Takeovers are entries of the merged field. -/
theorem takesOver_iff_exists_entry :
    set.TakesOver t.name merged.name id id' o ↔
      id' ≠ id ∧ o.source = set.nameOf id ∧ ∃ f, (id', f) ∈ merged.byGraph ∧ f.override = some o := by
  have hproper := hset.hasProperNames
  constructor
  · rintro ⟨hother, hsource, s, d, field, hdefines, ho⟩
    refine ⟨hother, hsource, .of s d field, ?_, ho⟩
    exact (MergedSchema.mem_byGraph_of_mem_fields hproper hm ht hmerged).mpr
      ⟨s, hdefines.subgraph, d, hdefines.type, field, hdefines.mem, hdefines.name, rfl⟩
  · rintro ⟨hother, hsource, f, hf, ho⟩
    obtain ⟨s, d, field, hdefines, rfl⟩ :=
      exists_defines_of_mem_byGraph hproper hm ht hkind hmerged hf
    exact ⟨hother, hsource, s, d, field, hdefines, ho⟩

/-- Where nothing is found that takes the field over, there is nothing. -/
theorem not_takesOver_of_overrider?_eq_none (h : merged.overrider? (set.nameOf id) = none) :
    ¬ set.TakesOver t.name merged.name id id' o := by
  intro htakes
  obtain ⟨-, hsource, f, hf, ho⟩ := (takesOver_iff_exists_entry hset hm ht hkind hmerged).mp htakes
  have hnone := List.find?_eq_none.mp h (id', f) hf
  simp [ho, hsource] at hnone

variable (hvalid : (Validation.validate { set, merged := m }).anyFatal = false) {f : FieldInGraph}
  (hf : (id, f) ∈ merged.byGraph)

include hvalid hf

/-- What the planner finds is the first subgraph that takes the field over. -/
theorem firstTakesOver_of_overrider?_eq_some {e : SubgraphId × FieldInGraph}
    (he : merged.overrider? (set.nameOf id) = some e) (ho : e.2.override = some o) :
    set.FirstTakesOver t.name merged.name id e.1 o := by
  obtain ⟨hmem, hother, -, -, o', ho', hsource⟩ := taken_over hset hm hvalid ht hkind hmerged hf he
  obtain rfl : o' = o := Option.some.inj (ho'.symm.trans ho)
  refine ⟨?_, fun later o'' hlater => ?_⟩
  · exact (takesOver_iff_exists_entry hset hm ht hkind hmerged).mpr
      ⟨hother, hsource, e.2, hmem, ho⟩
  · obtain ⟨-, hsource', f', hf', ho''⟩ :=
      (takesOver_iff_exists_entry hset hm ht hkind hmerged).mp hlater
    have hfound := (MergedSchema.hasUniqueNames_of_ofSubgraphs hm).type?_eq_some ht
    have horder := set.pairwise_le_fieldEntriesOf t.name merged.name
    rw [← MergedSchema.byGraph_of_mem_fields hset.hasProperNames hm hfound hmerged] at horder
    exact le_of_find?_eq_some horder he hf' (by simp [ho'', hsource'])

/-- A field that is taken over has no override of its own. -/
theorem override_eq_none_of_takesOver (h : set.TakesOver t.name merged.name id id' o) :
    f.override = none := by
  cases hover : merged.overrider? (set.nameOf id) with
  | none => exact absurd h (not_takesOver_of_overrider?_eq_none hset hm ht hkind hmerged hover)
  | some e => exact (taken_over hset hm hvalid ht hkind hmerged hf hover).2.2.2.1

section

variable {s : Subgraph} {d : TypeDef} {field : Field}
  (hdefines : set.Defines t.name merged.name id s d field)
  (hresolved : s.isExternal d field = false) (hentry : f = .of s d field)

include hdefines hresolved hentry

omit hvalid hkind in
/-- Where nothing takes the field over, only its own override counts. -/
theorem canTakeAtBase_iff_own (hnone : merged.overrider? (set.nameOf id) = none) :
    (set.plannerWith m labels).canTakeAtBase t.name merged.name id = true ↔
      ∀ o, field.attributes.override = some o → o.IsInForce labels := by
  subst hentry
  have htake := fun condition => @canTakeAtBase_iff_conditionOf set m id labels hset.hasProperNames
    hm t ht merged hmerged s d field hdefines hresolved hf condition
  rw [hnone] at htake
  change _ ↔ ∀ o, (FieldInGraph.of s d field).override = some o → _
  cases hown : (FieldInGraph.of s d field).override with
  | none =>
    refine iff_of_true ((htake none ?_).mpr ⟨rfl, rfl⟩) fun _ h => nomatch h
    exact FieldPlan.conditionOf_of_override_eq_none hown none
  | some o =>
    rw [htake _ (FieldPlan.conditionOf_of_override_eq_some hown none), Override.allows_active_iff,
      Option.isSome_none, Bool.false_and, and_iff_left rfl]
    exact ⟨fun h _ heq => Option.some.inj heq ▸ h, fun h => h o rfl⟩

/-- Where the field is taken over, it has no override of its own, and what the planner finds counts. -/
theorem canTakeAtBase_iff_taken {e : SubgraphId × FieldInGraph}
    (he : merged.overrider? (set.nameOf id) = some e) (ho : e.2.override = some o) :
    (set.plannerWith m labels).canTakeAtBase t.name merged.name id = true ↔
      ¬ o.IsInForce labels := by
  have hown := (taken_over hset hm hvalid ht hkind hmerged hf he).2.2.2.1
  subst hentry
  have hcondition : FieldPlan.conditionOf (.of s d field)
      ((merged.overrider? (set.nameOf id)).map Prod.snd) =
        o.label.map fun label => { label, active := false } := by
    rw [FieldPlan.conditionOf_of_override_eq_none hown, he]
    show (e.2.override.bind Override.label).map _ = _
    rw [ho]
    rfl
  rw [canTakeAtBase_iff_conditionOf hset.hasProperNames hm ht hmerged hdefines hresolved hf hcondition,
    he, Option.isSome_some, Bool.true_and, Override.allows_inactive_iff]

/-- The planner takes the field from the base node exactly if the field's own override is in force,
and the first one is not that takes the field over. -/
theorem canTakeAtBase_iff_first :
    (set.plannerWith m labels).canTakeAtBase t.name merged.name id = true ↔
      (∀ o, field.attributes.override = some o → o.IsInForce labels) ∧
        ∀ id' o, set.FirstTakesOver t.name merged.name id id' o → ¬ o.IsInForce labels := by
  cases hover : merged.overrider? (set.nameOf id) with
  | none =>
    rw [canTakeAtBase_iff_own hset hm ht hmerged hf hdefines hresolved hentry hover]
    refine (and_iff_left fun _ _ hfirst => absurd hfirst.takes ?_).symm
    exact not_takesOver_of_overrider?_eq_none hset hm ht hkind hmerged hover
  | some e =>
    obtain ⟨-, -, -, hown, o, ho, -⟩ := taken_over hset hm hvalid ht hkind hmerged hf hover
    have hfirst := firstTakesOver_of_overrider?_eq_some hset hm ht hkind hmerged hvalid hf hover ho
    rw [canTakeAtBase_iff_taken hset hm ht hkind hmerged hvalid hf hdefines hresolved hentry hover ho]
    constructor
    · intro hinactive
      refine ⟨fun _ h => absurd ((hentry ▸ hown).symm.trans h) (by simp), fun later o' hlater => ?_⟩
      rwa [hfirst.unique hset.hasProperNames hlater]
    · exact fun h => h.2 e.1 o hfirst

/-- Overrides decide about the field exactly if the first takeover is in force whenever one is. -/
theorem isGatedByOverrides_iff :
    set.IsGatedByOverrides t.name merged.name id m field labels ↔
      ((∃ id' o, set.TakesOver t.name merged.name id id' o ∧ o.IsInForce labels) →
        ∃ id' o, set.FirstTakesOver t.name merged.name id id' o ∧ o.IsInForce labels) := by
  rw [SubgraphSet.IsGatedByOverrides, canTakeAtBase_iff_first hset hm ht hkind hmerged hvalid hf
    hdefines hresolved hentry, and_congr_right_iff]
  constructor
  · rintro hsame ⟨id', o, htakes, hforce⟩
    have hown := override_eq_none_of_takesOver hset hm ht hkind hmerged hvalid hf htakes
    by_contra hnone
    refine (hsame fun _ h => ?_).mp (fun id' o hfirst hforce => ?_) id' o htakes hforce
    · exact absurd ((hentry ▸ hown).symm.trans h) (by simp)
    · exact hnone ⟨id', o, hfirst, hforce⟩
  · refine fun hforced _ => ⟨fun hnone id' o htakes hforce => ?_, fun hnone id' o hfirst => ?_⟩
    · obtain ⟨first, o', hfirst, hforce'⟩ := hforced ⟨id', o, htakes, hforce⟩
      exact hnone first o' hfirst hforce'
    · exact hnone id' o hfirst.takes

end

end

/-- **The first takeover decides.** If validation has found nothing fatal, the planner takes a field
that a subgraph defines without `@external` from the base node of its type exactly if the field's own
override is in force, and the first takeover of the field is not. So overrides decide about the field
as they should, unless the first takeover is out of force while another one is in force. -/
theorem gated_by_overrides_iff_first_in_force (hset : set.Ingested)
    (hm : MergedSchema.ofSubgraphs set = .ok m)
    (hvalid : (Validation.validate { set, merged := m }).anyFatal = false) {s : Subgraph}
    {d : TypeDef} {field : Field} (h : set.Defines typeName fieldName id s d field)
    (hresolved : s.isExternal d field = false) (labels : List String) :
    ((set.plannerWith m labels).canTakeAtBase typeName fieldName id = true ↔
        (∀ o, field.attributes.override = some o → o.IsInForce labels) ∧
          ∀ id' o, set.FirstTakesOver typeName fieldName id id' o → ¬ o.IsInForce labels) ∧
      (set.IsGatedByOverrides typeName fieldName id m field labels ↔
        ((∃ id' o, set.TakesOver typeName fieldName id id' o ∧ o.IsInForce labels) →
          ∃ id' o, set.FirstTakesOver typeName fieldName id id' o ∧ o.IsInForce labels)) := by
  obtain ⟨t, ht, rfl, hkind, merged, hmerged, -, rfl, hf⟩ := h.exists_entry hset.hasProperNames hm
  constructor
  · exact canTakeAtBase_iff_first hset hm ht hkind hmerged hvalid hf h hresolved rfl
  · exact isGatedByOverrides_iff hset hm ht hkind hmerged hvalid hf h hresolved rfl

end

/-- A schema with a field that two others take over. -/
def SchemaSource.takenOver : SchemaSource :=
  ⟨"type Query\x7bt:T\x7dtype T@key(fields:\"id\")\x7bid:ID f:Int\x7d", "a", none⟩

/-- A schema that takes the field over by a label. -/
def SchemaSource.takingByLabel : SchemaSource :=
  ⟨"type T@key(fields:\"id\")\x7bid:ID f:Int@override(from:\"a\",label:\"x\")\x7d", "b", none⟩

/-- A schema that takes the field over for good. -/
def SchemaSource.takingForGood : SchemaSource :=
  ⟨"type T\x7bf:Int@override(from:\"a\")\x7d", "c", none⟩

/-- The three schemas. The first takeover is by a label. -/
def takeoverSources : List SchemaSource :=
  [.takenOver, .takingByLabel, .takingForGood]

theorem validates_takeover :
    ((SubgraphSet.ofSources takeoverSources).toOption.any fun set =>
      (MergedSchema.ofSubgraphs set).toOption.any fun merged =>
        (set.nameOf 0 == "a" && set.definesWith "T" "f" 0 fun s d field => !s.isExternal d field) &&
          (set.definesWith "T" "f" 1 (fun _ _ field => field.attributes.override == some ⟨"a", "x"⟩) &&
            set.definesWith "T" "f" 2 fun _ _ field => field.attributes.override == some ⟨"a", none⟩) &&
          !(Validation.validate { set, merged }).anyFatal) = true := by
  rw [SubgraphSet.ofSources_eq_foldlM_insertSource]
  decide +kernel

/-- What the three schemas make: one takes the field over by a label, the next one for good. -/
theorem exists_takeover :
    ∃ set merged s d field, SubgraphSet.ofSources takeoverSources = .ok set ∧
      MergedSchema.ofSubgraphs set = .ok merged ∧
      (Validation.validate { set, merged }).anyFatal = false ∧
      set.Defines "T" "f" 0 s d field ∧ s.isExternal d field = false ∧
      set.FirstTakesOver "T" "f" 0 1 ⟨"a", some "x"⟩ ∧ set.TakesOver "T" "f" 0 2 ⟨"a", none⟩ := by
  obtain ⟨set, hset, hmerges⟩ := exists_ok_of_any validates_takeover
  obtain ⟨merged, hm, hvalidates⟩ := exists_ok_of_any hmerges
  simp only [Bool.and_eq_true, Bool.not_eq_true', beq_iff_eq, SubgraphSet.definesWith_iff]
    at hvalidates
  obtain ⟨⟨⟨hname, s, d, field, hdefines, hresolved⟩, hfirst, hsecond⟩, hvalid⟩ := hvalidates
  refine ⟨set, merged, s, d, field, hset, hm, hvalid, hdefines, hresolved,
    ⟨⟨by decide, hname.symm, hfirst⟩, fun later o' hlater => ?_⟩, by decide, hname.symm, hsecond⟩
  exact Nat.one_le_iff_ne_zero.mpr hlater.other

/-- The first takeover is out of force without its label. -/
theorem not_isInForce_of_firstTakesOver {set : SubgraphSet} (hset : set.Ingested)
    (hfirst : set.FirstTakesOver "T" "f" 0 1 ⟨"a", some "x"⟩) {id' : SubgraphId} {o : Override}
    (h : set.FirstTakesOver "T" "f" 0 id' o) : ¬ o.IsInForce [] := by
  rw [hfirst.unique hset.hasProperNames h]
  exact fun hforce => List.not_mem_nil (hforce "x" rfl)

/-- With the label, the field has gone from the first subgraph as it should. Without the label, it
has gone for good, but the planner takes it nevertheless. -/
theorem gated_by_overrides_iff_first_in_force_of_takeover :
    ∃ set merged field, SubgraphSet.ofSources takeoverSources = .ok set ∧
      MergedSchema.ofSubgraphs set = .ok merged ∧
      set.IsGatedByOverrides "T" "f" 0 merged field ["x"] ∧
      ¬ set.IsGatedByOverrides "T" "f" 0 merged field [] := by
  obtain ⟨set, merged, s, d, field, hset, hm, hvalid, hdefines, hresolved, hfirst, hsecond⟩ :=
    exists_takeover
  have hingested := SubgraphSet.ingested_ofSources hset
  have hgated := fun labels => gated_by_overrides_iff_first_in_force hingested hm hvalid hdefines
    hresolved labels
  refine ⟨set, merged, field, hset, hm, (hgated ["x"]).2.mpr fun _ => ⟨1, _, hfirst, ?_⟩, ?_⟩
  · exact fun label hlabel => Option.some.inj hlabel ▸ List.mem_singleton_self "x"
  · intro hlaw
    obtain ⟨id', o, hfirst', hforce⟩ := (hgated []).2.mp hlaw
      ⟨2, _, hsecond, fun label hlabel => nomatch hlabel⟩
    exact not_isInForce_of_firstTakesOver hingested hfirst hfirst' hforce

/-- Overrides need not decide about a field: the planner may take it from a subgraph from which another
one has taken it over for good. -/
theorem field_taken_over_for_good_may_be_taken :
    ¬ ∀ set : SubgraphSet, set.Ingested → ∀ merged, MergedSchema.ofSubgraphs set = .ok merged →
      (Validation.validate { set, merged }).anyFatal = false →
        ∀ typeName fieldName id s d field, set.Defines typeName fieldName id s d field →
          s.isExternal d field = false →
            ∀ labels, set.IsGatedByOverrides typeName fieldName id merged field labels := by
  intro hall
  obtain ⟨set, merged, s, d, field, hset, hm, hvalid, hdefines, hresolved, hfirst, hsecond⟩ :=
    exists_takeover
  have hingested := SubgraphSet.ingested_ofSources hset
  obtain ⟨t, ht, htname, hkind, m, hmem, -, hmname, hf⟩ :=
    hdefines.exists_entry hingested.hasProperNames hm
  have hlaw := hall set hingested merged hm hvalid "T" "f" 0 s d field hdefines hresolved []
  rw [← htname, ← hmname] at hdefines hsecond hlaw
  rw [isGatedByOverrides_iff hingested hm ht hkind hmem hvalid hf hdefines hresolved rfl] at hlaw
  obtain ⟨id', o, hfirst', hforce⟩ := hlaw ⟨2, _, hsecond, fun label hlabel => nomatch hlabel⟩
  rw [htname, hmname] at hfirst'
  exact not_isInForce_of_firstTakesOver hingested hfirst hfirst' hforce

end Federation
