import Federation.Proofs.Ingestion.Evaluation
import Federation.Proofs.QueryGraph.EntityMoves

/-!
# Leaves of keys

What a field requires is emitted without the leaves of the keys of its type, because keys are fetched
in any case. But objects are fetched by one key only, the cheapest one that can be filled in. So a leaf
that has been left out is there exactly if it is a leaf of each key that is used.
-/

namespace Federation

/-! ## Leaves of selections -/

/-- The fields that are selected at the top without arguments or selections. -/
def SelectionSet.leaves (selections : SelectionSet) : List String :=
  selections.filterMap Selection.leaf?

/-- A selection set is pruned of exactly the leaves in the list. -/
theorem SelectionSet.mem_leaves_pruned? {leaves : List String} {selections : SelectionSet}
    {leaf : String} :
    leaf ∈ ((pruned? leaves selections).getD []).leaves ↔
      leaf ∈ selections.leaves ∧ leaf ∉ leaves := by
  have hkept : (pruned? leaves selections).getD [] =
      selections.filter fun selection => !(selection.leaf?.any leaves.contains) := by
    unfold pruned?
    dsimp only
    split
    · rename_i hempty
      exact (List.isEmpty_iff.mp hempty).symm
    · rfl
  rw [hkept, SelectionSet.leaves, SelectionSet.leaves, List.mem_filterMap, List.mem_filterMap]
  constructor
  · rintro ⟨selection, hselection, hleaf⟩
    obtain ⟨hmem, hkeep⟩ := List.mem_filter.mp hselection
    refine ⟨⟨selection, hmem, hleaf⟩, ?_⟩
    simpa [hleaf] using hkeep
  · rintro ⟨⟨selection, hmem, hleaf⟩, hnot⟩
    refine ⟨selection, List.mem_filter.mpr ⟨hmem, ?_⟩, hleaf⟩
    simpa [hleaf] using hnot

/-- A leaf is required by a field, but what is emitted for the field leaves it out. -/
def Subgraph.LeavesOut (s : Subgraph) (d : TypeDef) (field : Field) (leaf : String) : Prop :=
  ∃ written, field.attributes.requires = some written ∧ leaf ∈ written.leaves ∧
    leaf ∉ ((FieldInGraph.of s d field).requires.getD []).leaves

/-- Exactly the leaves of keys of the type are left out. -/
theorem Subgraph.leavesOut_iff {s : Subgraph} {d : TypeDef} {field : Field} {leaf : String} :
    s.LeavesOut d field leaf ↔
      ∃ written, field.attributes.requires = some written ∧ leaf ∈ written.leaves ∧
        leaf ∈ d.keyLeaves := by
  refine exists_congr fun written => and_congr_right fun hwritten => and_congr_right fun hleaf => ?_
  have hemitted : (FieldInGraph.of s d field).requires = written.pruned? d.keyLeaves := by
    show field.attributes.requires.bind _ = _
    rw [hwritten, Option.bind_some]
  rw [hemitted, SelectionSet.mem_leaves_pruned?, not_and, not_not]
  exact ⟨fun h => h hleaf, fun h _ => h⟩

namespace QueryGraph

/-- **Required leaves that have been left out are fetched exactly if the keys in use select them.** What
is emitted for a field leaves out the leaves of all keys of its type, but each other subgraph that
defines the type leads to it by the cheapest key only. So what is left out has been fetched on every
way in exactly if each of these keys selects all leaves of keys that the field requires. -/
theorem left_out_leaves_are_fetched_iff {set : SubgraphSet} (hset : set.Ingested) {m : MergedSchema}
    (hm : MergedSchema.ofSubgraphs set = .ok m) {id : SubgraphId} {s : Subgraph}
    (hs : set.subgraph? id = some s) {d : TypeDef} (hd : d ∈ s.definitions)
    (hkind : d.kind = .object ∨ d.kind = .interface) {field : Field} (hfield : field ∈ d.fields)
    {written : SelectionSet} (hrequires : field.attributes.requires = some written) :
    m.fieldIn? d.name field.name id = some (.of s d field) ∧
      (∀ source key, (ofSubgraphs set m).FetchesBy source key (d.name, id) ↔
        set.CanFetchBy source key (d.name, id)) ∧
      ((∀ source key, (ofSubgraphs set m).FetchesBy source key (d.name, id) →
          ∀ leaf, s.LeavesOut d field leaf → leaf ∈ key.leaves) ↔
        ∀ id' ≠ id, ∀ s', set.subgraph? id' = some s' → ∀ d', s'.definition? d.name = some d' →
          ∀ key, Key.cheapestFrom? s' d' d.keys = some key →
            ∀ leaf ∈ written.leaves, leaf ∈ d.keyLeaves → leaf ∈ key.leaves) := by
  have hproper := hset.hasProperNames
  have hfetches : ∀ source key, (ofSubgraphs set m).FetchesBy source key (d.name, id) ↔
      set.CanFetchBy source key (d.name, id) := fun _ _ => fetchesBy_ofSubgraphs_iff hproper hm
  refine ⟨MergedSchema.fieldIn?_of_mem hproper hm hs hd hkind hfield, hfetches, ?_⟩
  have hdefined : s.definition? d.name = some d :=
    find?_key_eq_some (hproper s (List.mem_of_getElem? hs)).types hd
  constructor
  · intro hall id' hne s' hs' d' hd' key hkey leaf hleaf hkeyleaf
    refine hall (d.name, id') key ((hfetches _ _).mpr ?_) leaf
      (Subgraph.leavesOut_iff.mpr ⟨written, hrequires, hleaf, hkeyleaf⟩)
    exact ⟨rfl, hne, s, d, hs, hdefined, hkind, s', d', hs', hd', hkey⟩
  · rintro hall ⟨name, id'⟩ key hfetch leaf hleft
    obtain ⟨hname, hne, s₁, d₁, hs₁, hd₁, -, s', d', hs', hd', hkey⟩ := (hfetches _ _).mp hfetch
    obtain rfl : s = s₁ := Option.some.inj (hs.symm.trans hs₁)
    obtain rfl : d = d₁ := Option.some.inj (hdefined.symm.trans hd₁)
    obtain ⟨written', hrequires', hleaf, hkeyleaf⟩ := Subgraph.leavesOut_iff.mp hleft
    obtain rfl := Option.some.inj (hrequires.symm.trans hrequires')
    dsimp only at hname hne hs' hd'
    exact hall id' hne s' hs' d' (hname ▸ hd') key hkey leaf hleaf hkeyleaf

end QueryGraph

/-- A schema with a type that it can tell apart by either of two fields. -/
def SchemaSource.goods : SchemaSource :=
  ⟨"type Query\x7bt:T\x7dtype T@key(fields:\"id\")\x7bid:ID sku:ID\x7d", "a", none⟩

/-- A schema that extends the type by a field, which requires what one of its keys selects. -/
def SchemaSource.prices : SchemaSource :=
  ⟨"extend type T@key(fields:\"id\")@key(fields:\"sku\")" ++
      "\x7bid:ID@external sku:ID@external f:ID@requires(fields:\"sku\")\x7d",
    "b", none⟩

theorem SchemaSource.validates_goods :
    ((SubgraphSet.ofSources [goods, prices]).toOption.any fun set =>
      (MergedSchema.ofSubgraphs set).toOption.any fun m =>
        !(Validation.validate { set, merged := m }).anyFatal &&
          (set.subgraph? 1).any fun s => (s.definition? "T").any fun d =>
            d.kind == .object && ((d.fields.any fun field =>
              field.attributes.requires.any fun written =>
                written.leaves.contains "sku" && d.keyLeaves.contains "sku") &&
            (set.subgraph? 0).any fun s' => (s'.definition? "T").any fun d' =>
              (Key.cheapestFrom? s' d' d.keys).any fun key => !key.leaves.contains "sku")) =
      true := by
  rw [SubgraphSet.ofSources_eq_foldlM_insertSource]
  decide +kernel

/-- What the two schemas make: a field of the second requires a leaf of a key, and the cheapest key
that can be filled in at the first does not select this leaf. -/
theorem SubgraphSet.exists_goods :
    ∃ set m s d s' d' field written key, SubgraphSet.ofSources [.goods, .prices] = .ok set ∧
      set.Ingested ∧ MergedSchema.ofSubgraphs set = .ok m ∧
      (Validation.validate { set, merged := m }).anyFatal = false ∧ set.subgraph? 1 = some s ∧
      s.definition? "T" = some d ∧ d.kind = .object ∧ field ∈ d.fields ∧
      field.attributes.requires = some written ∧ "sku" ∈ written.leaves ∧ "sku" ∈ d.keyLeaves ∧
      set.subgraph? 0 = some s' ∧ s'.definition? "T" = some d' ∧
      Key.cheapestFrom? s' d' d.keys = some key ∧ "sku" ∉ key.leaves := by
  obtain ⟨set, hset, hmerges⟩ := exists_ok_of_any SchemaSource.validates_goods
  obtain ⟨m, hm, hvalidates⟩ := exists_ok_of_any hmerges
  simp only [Bool.and_eq_true, Bool.not_eq_true', Option.any_eq_true, List.any_eq_true, beq_iff_eq,
    List.contains_iff_mem, ← Bool.not_eq_true] at hvalidates
  obtain ⟨hvalid, s, hs, d, hd, hkind, ⟨field, hfield, written, hrequires, hleaf, hkeyleaf⟩, s', hs',
    d', hd', key, hkey, hnot⟩ := hvalidates
  exact ⟨set, m, s, d, s', d', field, written, key, hset, ingested_ofSources hset, hm,
    Bool.eq_false_of_not_eq_true hvalid, hs, hd, hkind, hfield, hrequires, hleaf, hkeyleaf, hs', hd',
    hkey, hnot⟩

namespace QueryGraph

/-- A leaf that has been left out may not have been fetched: the two schemas pass validation, and an
entity move enters the second one by a key that does not select the leaf. -/
theorem left_out_leaf_is_not_fetched :
    ∃ set m, SubgraphSet.ofSources [.goods, .prices] = .ok set ∧
      MergedSchema.ofSubgraphs set = .ok m ∧
      (Validation.validate { set, merged := m }).anyFatal = false ∧
      ∃ s, set.subgraph? 1 = some s ∧ ∃ d ∈ s.definitions, d.kind = .object ∧
        ∃ field ∈ d.fields, ∃ source key, (ofSubgraphs set m).FetchesBy source key (d.name, 1) ∧
          ∃ leaf, s.LeavesOut d field leaf ∧ leaf ∉ key.leaves := by
  obtain ⟨set, m, s, d, s', d', field, written, key, hset, hingested, hm, hvalid, hs, hd, hkind,
    hfield, hrequires, hleaf, hkeyleaf, hs', hd', hkey, hnot⟩ := SubgraphSet.exists_goods
  have hname := Subgraph.name_of_definition? hd
  have hcan : set.CanFetchBy (d.name, 0) key (d.name, 1) :=
    ⟨rfl, Nat.zero_ne_one, s, d, hs, hname ▸ hd, .inl hkind, s', d', hs', hname ▸ hd', hkey⟩
  exact ⟨set, m, hset, hm, hvalid, s, hs, d, Subgraph.mem_of_definition? hd, hkind, field, hfield,
    (d.name, 0), key, (fetchesBy_ofSubgraphs_iff hingested.hasProperNames hm).mpr hcan, "sku",
    Subgraph.leavesOut_iff.mpr ⟨written, hrequires, hleaf, hkeyleaf⟩, hnot⟩

/-- The second schema is entered by a key that does not select what its field requires, so not all
leaves that have been left out are fetched. -/
theorem left_out_leaves_are_fetched_iff_of_goods :
    ∃ set m, SubgraphSet.ofSources [.goods, .prices] = .ok set ∧
      MergedSchema.ofSubgraphs set = .ok m ∧
      ∃ s, set.subgraph? 1 = some s ∧ ∃ d ∈ s.definitions, ∃ field ∈ d.fields, d.name = "T" ∧
        ¬ ∀ source key, (ofSubgraphs set m).FetchesBy source key (d.name, 1) →
          ∀ leaf, s.LeavesOut d field leaf → leaf ∈ key.leaves := by
  obtain ⟨set, m, s, d, s', d', field, written, key, hset, hingested, hm, -, hs, hd, hkind,
    hfield, hrequires, hleaf, hkeyleaf, hs', hd', hkey, hnot⟩ := SubgraphSet.exists_goods
  have hname := Subgraph.name_of_definition? hd
  have hmem := Subgraph.mem_of_definition? hd
  refine ⟨set, m, hset, hm, s, hs, d, hmem, field, hfield, hname, fun hall => hnot ?_⟩
  exact (left_out_leaves_are_fetched_iff hingested hm hs hmem (.inl hkind) hfield hrequires).2.2.mp
    hall 0 Nat.zero_ne_one s' hs' d' (hname ▸ hd') key hkey "sku" hleaf hkeyleaf

end QueryGraph

end Federation
