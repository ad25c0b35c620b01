import Federation.Proofs.Ingestion.Evaluation
import Federation.Proofs.QueryGraph.InterfaceMoves
import Federation.Proofs.Validation.KeyOrder

/-!
# Moves by keys in another order

Whether a type can fill in a key, and how many leaf fields the key has, does not depend on the order of
its selections. So objects can be fetched from the same subgraphs if keys are written in another order.
The order of a key shows only where implementations are asked for the keys of their interface.
-/

namespace Federation

/-! ## Keys that can be filled in -/

namespace Subgraph

variable {s s' : Subgraph}

theorem canProvide_eq_all (s : Subgraph) (d : TypeDef) (selections : List Selection) :
    s.canProvide d selections = selections.all (s.canProvideOne d) := by
  induction selections with
  | nil => rfl
  | cons first others ih => rw [canProvide, ih, List.all_cons]

/-- Selections can be provided in one order if they can be provided in another. -/
theorem canProvide_of_permutes (s : Subgraph) (d : TypeDef) {a b : SelectionSet}
    (h : a.Permutes b) : s.canProvide d a = s.canProvide d b := by
  -- the selections inside are made on another type
  induction h generalizing d with
  | top h =>
    rw [canProvide_eq_all, canProvide_eq_all]
    exact h.all_eq
  | @field a b h before name arguments after ih =>
    have hinside : s.canProvideOne d (.field name arguments a) =
        s.canProvideOne d (.field name arguments b) := by
      rw [canProvideOne, canProvideOne]
      simp only [ih, h.isEmpty_eq]
    simp only [canProvide_eq_all, List.all_append, List.all_cons, hinside]
  | @fragment a b _ before condition after ih =>
    have hinside : s.canProvideOne d (.inlineFragment condition a) =
        s.canProvideOne d (.inlineFragment condition b) := by
      rw [canProvideOne, canProvideOne]
      simp only [ih]
    simp only [canProvide_eq_all, List.all_append, List.all_cons, hinside]

theorem ReordersKeys.holds_eq (h : s.ReordersKeys s') {d d' : TypeDef} (hd : d.ReordersKeys d')
    (field : Field) : s'.holds d' field = s.holds d field := by
  rw [holds, holds, h.isExternal_eq hd]

mutual

/-- A selection can be provided where keys are in another order. -/
theorem ReordersKeys.canProvideOne_eq (h : s.ReordersKeys s') (hs : s.HasProperNames)
    {d d' : TypeDef} (hd : d.ReordersKeys d') (hnames : d.HasProperNames) (selection : Selection) :
    s'.canProvideOne d' selection = s.canProvideOne d selection := by
  cases selection with
  | field name arguments selections =>
    unfold canProvideOne
    rw [hd.field?_eq hnames.fields]
    cases d.field? name with
    | none => rfl
    | some field =>
      rw [Option.any_some, Option.any_some, h.holds_eq hd]
      rcases h.typeOf?_cases field with ⟨hnone, hnone'⟩ | ⟨target, target', ht, ht', htarget⟩
      · rw [hnone, hnone']
        rfl
      · rw [ht, ht', Option.any_some, Option.any_some,
          h.canProvide_eq hs htarget (hs.parts target (mem_of_definition? ht)) selections]
  | inlineFragment condition selections =>
    unfold canProvideOne
    rw [hd.name_eq, h.canProvide_eq hs hd hnames selections]
    rcases h.definition?_cases condition with ⟨hnone, hnone'⟩ | ⟨target, target', ht, ht', htarget⟩
    · rw [hnone, hnone']
      rfl
    · rw [ht, ht', Option.any_some, Option.any_some,
        h.canProvide_eq hs htarget (hs.parts target (mem_of_definition? ht)) selections]

/-- Selections can be provided where keys are in another order. -/
theorem ReordersKeys.canProvide_eq (h : s.ReordersKeys s') (hs : s.HasProperNames)
    {d d' : TypeDef} (hd : d.ReordersKeys d') (hnames : d.HasProperNames)
    (selections : List Selection) : s'.canProvide d' selections = s.canProvide d selections := by
  cases selections with
  | nil => rfl
  | cons first others =>
    unfold canProvide
    rw [h.canProvideOne_eq hs hd hnames first, h.canProvide_eq hs hd hnames others]

end

end Subgraph

/-! ## The cheapest key -/

namespace Key

theorem Reorders.leafCount_eq {k k' : Key} (h : k.Reorders k') : k.leafCount = k'.leafCount :=
  h.selections.leafCount_eq

/-- The cheapest key is in another order. -/
theorem cheapest?_of_reorders {keys keys' : List Key} (h : List.Forall₂ Key.Reorders keys keys') :
    Option.Rel Key.Reorders (cheapest? keys) (cheapest? keys') := by
  induction h with
  | nil => exact .none
  | @cons key key' keys keys' hkey _ ih =>
    unfold cheapest?
    generalize cheapest? keys = rest at ih
    generalize cheapest? keys' = rest' at ih
    cases ih with
    | none => exact .some hkey
    | some hrest =>
      dsimp only
      -- both lists are decided alike, ties included
      rw [hkey.leafCount_eq, hrest.leafCount_eq]
      split
      · exact .some hrest
      · exact .some hkey

/-- The cheapest key that can be filled in is in another order. -/
theorem exists_cheapestFrom? {s s' : Subgraph} (h : s.ReordersKeys s') (hs : s.HasProperNames)
    {d d' : TypeDef} (hd : d.ReordersKeys d') (hnames : d.HasProperNames) {keys keys' : List Key}
    (hkeys : List.Forall₂ Key.Reorders keys keys') {key : Key}
    (hkey : cheapestFrom? s d keys = some key) :
    ∃ key', cheapestFrom? s' d' keys' = some key' ∧ key.Reorders key' := by
  have hcandidates : List.Forall₂ Key.Reorders
      (keys.filter fun key => key.isResolvable && s.canProvide d key.selections)
      (keys'.filter fun key => key.isResolvable && s'.canProvide d' key.selections) := by
    refine List.rel_filter (fun k k' hk => ?_) hkeys
    have hprovide : s.canProvide d k.selections = s.canProvide d k'.selections :=
      hk.selections.eq_of_step fun _ _ hstep => s.canProvide_of_permutes d hstep
    show (k.isResolvable && s.canProvide d k.selections) = true ↔
      (k'.isResolvable && s'.canProvide d' k'.selections) = true
    rw [h.canProvide_eq hs hd hnames, ← hprovide, hk.isResolvable]
  have hcheapest := cheapest?_of_reorders hcandidates
  unfold cheapestFrom? at hkey ⊢
  rw [hkey] at hcheapest
  generalize cheapest? _ = found at hcheapest ⊢
  cases hcheapest with
  | some hreorders => exact ⟨_, rfl, hreorders⟩

end Key

/-! ## The same moves -/

/-- The move with its key in another order. -/
inductive Move.Reorders : Move → Move → Prop
  | entity {k k' : Key} (h : k.Reorders k') : Reorders (.entity k) (.entity k')
  | interfaceObject {k k' : Key} (h : k.Reorders k') :
      Reorders (.interfaceObject k) (.interfaceObject k')

/-- What can be fetched by keys in a query graph can be fetched by keys in another order in another
query graph, from the same subgraphs. -/
def QueryGraph.FetchesAlike (g g' : QueryGraph) : Prop :=
  ∀ source move target, move.isByKey = true → g.MovesBy source move target →
    ∃ move', move.Reorders move' ∧ g'.MovesBy source move' target

namespace SubgraphSet.ReordersKeys

variable {set set' : SubgraphSet} (h : set.ReordersKeys set') (hset : set.HasProperNames)

include h

/-- A type of a subgraph has its keys in another order, at the same place. -/
theorem exists_definition?_of_subgraph? {id : SubgraphId} {s : Subgraph}
    (hs : set.subgraph? id = some s) {name : String} {d : TypeDef}
    (hd : s.definition? name = some d) :
    ∃ s' d', set'.subgraph? id = some s' ∧ s'.definition? name = some d' ∧ s.ReordersKeys s' ∧
      d.ReordersKeys d' := by
  obtain ⟨s', hs', hreorders⟩ := h.exists_subgraph? hs
  obtain ⟨d', hd', htype⟩ := hreorders.exists_definition? hd
  exact ⟨s', d', hs', hd', hreorders, htype⟩

include hset

/-- The cheapest key that can be filled in for a type is in another order. -/
theorem exists_cheapestFrom? {id : SubgraphId} {name : String} {keys keys' : List Key}
    (hkeys : List.Forall₂ Key.Reorders keys keys') {key : Key}
    (hkey : ∃ s d, set.subgraph? id = some s ∧ s.definition? name = some d ∧
      Key.cheapestFrom? s d keys = some key) :
    ∃ key', key.Reorders key' ∧ ∃ s d, set'.subgraph? id = some s ∧
      s.definition? name = some d ∧ Key.cheapestFrom? s d keys' = some key' := by
  obtain ⟨s, d, hs, hd, hcheapest⟩ := hkey
  obtain ⟨s', d', hs', hd', hreorders, htype⟩ := h.exists_definition?_of_subgraph? hs hd
  have hproper := hset s (List.mem_of_getElem? hs)
  obtain ⟨key', hcheapest', hkey'⟩ := Key.exists_cheapestFrom? hreorders hproper htype
    (hproper.parts d (Subgraph.mem_of_definition? hd)) hkeys hcheapest
  exact ⟨key', hkey', s', d', hs', hd', hcheapest'⟩

variable {source target : String × SubgraphId} {key : Key}

/-- Objects can be fetched by the key in another order. -/
theorem exists_canFetchBy (hfetch : set.CanFetchBy source key target) :
    ∃ key', key.Reorders key' ∧ set'.CanFetchBy source key' target := by
  obtain ⟨hname, hne, s, d, hs, hd, hkind, hkey⟩ := hfetch
  obtain ⟨s', d', hs', hd', -, htype⟩ := h.exists_definition?_of_subgraph? hs hd
  obtain ⟨key', hreorders, hkey'⟩ := h.exists_cheapestFrom? hset htype.keys hkey
  exact ⟨key', hreorders, hname, hne, s', d', hs', hd', htype.kind_eq ▸ hkind, hkey'⟩

/-- Objects can be fetched as what stands in for an interface by the key in another order. -/
theorem exists_canStandInBy (hfetch : set.CanStandInBy source key target) :
    ∃ key', key.Reorders key' ∧ set'.CanStandInBy source key' target := by
  obtain ⟨himplementation, s, d, hs, hd, hstandIn, hkey⟩ := hfetch
  obtain ⟨s', d', hs', hd', -, htype⟩ := h.exists_definition?_of_subgraph? hs hd
  obtain ⟨key', hreorders, hkey'⟩ := h.exists_cheapestFrom? hset htype.keys hkey
  exact ⟨key', hreorders, h.hasImplementation himplementation, s', d', hs', hd',
    htype.isInterfaceObject_eq.trans hstandIn, hkey'⟩

/-- The same can be fetched, by keys in another order. -/
theorem fetchesAlike {m m' : MergedSchema} (hm : MergedSchema.ofSubgraphs set = .ok m)
    (hm' : MergedSchema.ofSubgraphs set' = .ok m') :
    (QueryGraph.ofSubgraphs set m).FetchesAlike (QueryGraph.ofSubgraphs set' m') := by
  have hset' := h.hasProperNames hset
  intro source move target hbyKey hmoves
  cases move with
  | entity key =>
    obtain ⟨key', hkey, hfetch⟩ :=
      h.exists_canFetchBy hset ((QueryGraph.fetchesBy_ofSubgraphs_iff hset hm).mp hmoves)
    exact ⟨.entity key', .entity hkey, (QueryGraph.fetchesBy_ofSubgraphs_iff hset' hm').mpr hfetch⟩
  | interfaceObject key =>
    obtain ⟨key', hkey, hfetch⟩ := h.exists_canStandInBy hset
      ((QueryGraph.movesBy_interfaceObject_ofSubgraphs_iff hset hm).mp hmoves)
    exact ⟨.interfaceObject key', .interfaceObject hkey,
      (QueryGraph.movesBy_interfaceObject_ofSubgraphs_iff hset' hm').mpr hfetch⟩
  | field | narrow => cases hbyKey

omit hset in
/-- Subgraphs that can be merged can be merged if keys are in another order. -/
theorem exists_merged {m : MergedSchema} (hm : MergedSchema.ofSubgraphs set = .ok m) :
    ∃ m', MergedSchema.ofSubgraphs set' = .ok m' := by
  -- only names and kinds decide about merging
  have hentry : ∀ e' ∈ set'.typeEntries, ∃ e ∈ set.typeEntries, e.name = e'.name ∧
      e.kind = e'.kind := by
    intro e' he'
    obtain ⟨hs', hd'⟩ := SubgraphSet.mem_typeEntries.mp he'
    obtain ⟨s, hs, hreorders⟩ := h.symm.exists_subgraph? hs'
    obtain ⟨d, hd, htype⟩ := exists_of_forall₂_left hreorders.definitions hd'
    exact ⟨⟨e'.id, s, d⟩, SubgraphSet.mem_typeEntries.mpr ⟨hs, hd⟩, htype.name_eq, htype.kind_eq⟩
  refine MergedSchema.ofSubgraphs_ok_iff.mpr (List.pairwise_of_forall_mem_list ?_)
  intro e' he' o' ho' hsame
  obtain ⟨e, he, hename, hekind⟩ := hentry e' he'
  obtain ⟨o, ho, honame, hokind⟩ := hentry o' ho'
  rw [← hekind, ← hokind]
  exact MergedSchema.kind_eq_of_ofSubgraphs hm (SubgraphSet.mem_entriesOf.mpr ⟨he, hename⟩)
    (SubgraphSet.mem_entriesOf.mpr ⟨ho, honame.trans hsame.symm⟩)

end SubgraphSet.ReordersKeys

/-! ## The main result -/

open Validation in
/-- **The order in which keys select fields shows only in the keys of implementations.** If keys are put
in another order, the same fields are used in the same way, validation finds something in the field sets
of the same types and in the use of objects for the same interfaces, and the same can be fetched from
the same subgraphs by keys. Only if an interface and its implementations write down a key in different
orders, before or after but not both, a key is missing that was not, or the other way round. -/
theorem key_order_matters_only_between_interfaces_and_implementations {set set' : SubgraphSet}
    (hset : set.Ingested) (h : set.ReordersKeys set') {m : MergedSchema}
    (hm : MergedSchema.ofSubgraphs set = .ok m) :
    (∀ id s s', set.subgraph? id = some s → set'.subgraph? id = some s' →
      Subgraph.usageIn s'.usedFields = Subgraph.usageIn s.usedFields) ∧
    ∃ m', MergedSchema.ofSubgraphs set' = .ok m' ∧
      (∀ rule ∈ [interfaceObjectUsage, fieldSetSelections], ∀ name,
        rule.ReportsOn { set := set, merged := m } name ↔
          rule.ReportsOn { set := set', merged := m' } name) ∧
      (∀ name,
        (interfaceKeyNotOnImplementation.ReportsOn { set := set, merged := m } name ↔
            interfaceKeyNotOnImplementation.ReportsOn { set := set', merged := m' } name) ↔
          set.LacksKeyInAnyOrder name ∨ (set.WritesKeysAlike name ↔ set'.WritesKeysAlike name)) ∧
      (QueryGraph.ofSubgraphs set m).FetchesAlike (QueryGraph.ofSubgraphs set' m') ∧
      (QueryGraph.ofSubgraphs set' m').FetchesAlike (QueryGraph.ofSubgraphs set m) := by
  have hproper := hset.hasProperNames
  obtain ⟨m', hm'⟩ := h.exists_merged hm
  refine ⟨fun id s s' hs hs' => ?_, m', hm', ?_, fun name => ?_, ?_, ?_⟩
  · obtain ⟨s'', hs'', hreorders⟩ := h.exists_subgraph? hs
    obtain rfl : s' = s'' := Option.some.inj (hs'.symm.trans hs'')
    exact hreorders.usageIn_usedFields_eq (hproper s (List.mem_of_getElem? hs))
  · simp only [List.forall_mem_cons, List.not_mem_nil, false_imp_iff, implies_true, and_true]
    exact ⟨reportsOn_interfaceObjectUsage_iff_of_reordersKeys h hproper hm hm',
      reportsOn_fieldSetSelections_iff_of_reordersKeys h hproper hm hm'⟩
  · exact reportsOn_interfaceKeyNotOnImplementation_iff_iff h hproper hm hm' name
  · exact h.fetchesAlike hproper hm hm'
  · exact h.symm.fetchesAlike (h.hasProperNames hproper) hm' hm

/-- A schema with an entity interface, and an object that writes down its key in the same order. -/
def SchemaSource.keyedInterface : SchemaSource :=
  ⟨"type Query\x7bi:I\x7dinterface I@key(fields:\"id x\")\x7bid:ID x:ID\x7d" ++
    "type O implements I@key(fields:\"id x\")\x7bid:ID x:ID\x7d", "a", none⟩

/-- Turns the keys of the object around. -/
def turnObjectKeys : SubgraphId → String → FieldSetRewriting :=
  fun _ typeName field selections =>
    if typeName = "O" ∧ field = none then selections.reverse else selections

theorem reordersKeys_turnObjectKeys (set : SubgraphSet) :
    set.ReordersKeys (set.mapFieldSets turnObjectKeys) := by
  refine SubgraphSet.reordersKeys_mapFieldSets (fun _ typeName selections => ?_)
    (fun _ _ _ _ => if_neg fun h => nomatch h.2) set
  unfold turnObjectKeys
  split
  · exact Relation.ReflTransGen.single (.top selections.reverse_perm.symm)
  · exact .refl _

theorem SchemaSource.merges_keyedInterface :
    ((SubgraphSet.ofSources [keyedInterface]).toOption.any fun set =>
      ((MergedSchema.ofSubgraphs set).toOption.any fun m => m.types.all fun t =>
        (Validation.checkType [Validation.interfaceKeyNotOnImplementation]
          { set := set, merged := m } t).isEmpty) &&
      (MergedSchema.ofSubgraphs (set.mapFieldSets turnObjectKeys)).toOption.any fun m =>
        m.types.any fun t => t.name == "I" &&
          !(Validation.checkType [Validation.interfaceKeyNotOnImplementation]
            { set := set.mapFieldSets turnObjectKeys, merged := m } t).isEmpty) = true := by
  rw [SubgraphSet.ofSources_eq_foldlM_insertSource]
  decide +kernel

open Validation in
/-- In the schema no key is missing, until the key of the object is turned around. -/
theorem SubgraphSet.exists_keyedInterface :
    ∃ set m m', SubgraphSet.ofSources [.keyedInterface] = .ok set ∧ set.Ingested ∧
      MergedSchema.ofSubgraphs set = .ok m ∧
      MergedSchema.ofSubgraphs (set.mapFieldSets turnObjectKeys) = .ok m' ∧
      ¬ interfaceKeyNotOnImplementation.ReportsOn { set := set, merged := m } "I" ∧
      interfaceKeyNotOnImplementation.ReportsOn
        { set := set.mapFieldSets turnObjectKeys, merged := m' } "I" := by
  obtain ⟨set, hset, hmerges⟩ := exists_ok_of_any SchemaSource.merges_keyedInterface
  obtain ⟨hbefore, hafter⟩ := Bool.and_eq_true_iff.mp hmerges
  obtain ⟨m, hm, hquiet⟩ := exists_ok_of_any hbefore
  obtain ⟨m', hm', hfound⟩ := exists_ok_of_any hafter
  simp only [List.all_eq_true, List.any_eq_true, Bool.and_eq_true, beq_iff_eq, Bool.not_eq_true',
    List.isEmpty_iff, List.isEmpty_eq_false_iff] at hquiet hfound
  exact ⟨set, m, m', hset, ingested_ofSources hset, hm, hm',
    fun ⟨t, ht, _, hreport⟩ => hreport (hquiet t ht), hfound⟩

open Validation in
/-- Turning the key around changes nothing but this: what was written alike is not any more. -/
theorem key_order_matters_only_between_interfaces_and_implementations_of_keyedInterface :
    ∃ set m m', SubgraphSet.ofSources [.keyedInterface] = .ok set ∧ set.Ingested ∧
      MergedSchema.ofSubgraphs set = .ok m ∧
      MergedSchema.ofSubgraphs (set.mapFieldSets turnObjectKeys) = .ok m' ∧
      (∀ rule ∈ [interfaceObjectUsage, fieldSetSelections], ∀ name,
        rule.ReportsOn { set := set, merged := m } name ↔
          rule.ReportsOn { set := set.mapFieldSets turnObjectKeys, merged := m' } name) ∧
      ¬ set.LacksKeyInAnyOrder "I" ∧
      ¬ (set.WritesKeysAlike "I" ↔ (set.mapFieldSets turnObjectKeys).WritesKeysAlike "I") ∧
      (QueryGraph.ofSubgraphs set m).FetchesAlike
        (QueryGraph.ofSubgraphs (set.mapFieldSets turnObjectKeys) m') := by
  obtain ⟨set, m, m', hset, hingested, hm, hm', hquiet, hfound⟩ := SubgraphSet.exists_keyedInterface
  obtain ⟨-, m'', hm'', hrules, hlaw, hfetches, -⟩ :=
    key_order_matters_only_between_interfaces_and_implementations hingested
      (reordersKeys_turnObjectKeys set) hm
  obtain rfl : m' = m'' := Except.ok.inj (hm'.symm.trans hm'')
  have hlost := mt (hlaw "I").mpr fun hsame => hquiet (hsame.mpr hfound)
  rw [not_or] at hlost
  exact ⟨set, m, m', hset, hingested, hm, hm', hrules, hlost.1, hlost.2, hfetches⟩

open Validation in
/-- Putting keys in another order can make a key be reported that was not. -/
theorem key_order_shows_in_reports :
    ¬ ∀ set set' : SubgraphSet, set.Ingested → set.ReordersKeys set' → ∀ m m',
      MergedSchema.ofSubgraphs set = .ok m → MergedSchema.ofSubgraphs set' = .ok m' →
        ∀ rule ∈ [interfaceKeyNotOnImplementation, interfaceObjectUsage, fieldSetSelections],
          ∀ name, rule.ReportsOn { set := set, merged := m } name ↔
            rule.ReportsOn { set := set', merged := m' } name := by
  intro hlaw
  obtain ⟨set, m, m', -, hingested, hm, hm', hquiet, hfound⟩ := SubgraphSet.exists_keyedInterface
  have hsame := hlaw set _ hingested (reordersKeys_turnObjectKeys set) m m' hm hm' _
    List.mem_cons_self "I"
  exact hquiet (hsame.mpr hfound)

end Federation
