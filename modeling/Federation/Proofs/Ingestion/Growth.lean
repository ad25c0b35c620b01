import Federation.Proofs.Ingestion.Coverage
import Federation.Proofs.Ingestion.Evaluation

/-!
# Ingestion only adds

A schema that is taken in becomes the last subgraph of a set. Everything that was in the set before
stays as it was: the other subgraphs are the same at the same places, and the texts that were
mentioned keep their positions. All texts that a subgraph holds have positions, and its fields are
sorted by them, so nothing about it can change when more texts are mentioned.
-/

namespace Federation

/-! ## Sorted subgraphs -/

namespace Subgraph

variable {s : Subgraph} {t t' : NameTable}

/-- A subgraph is sorted the same way by any later table if the texts that it holds have been
mentioned. -/
theorem sorted_eq_of_growsTo (h : t.GrowsTo t') (hs : s.mentions ⊆ t.toList) :
    s.sorted t' = s.sorted t := by
  -- members and interfaces do not depend on a table, so only the fields are at stake
  have hdefinitions : (s.sorted t').definitions = (s.sorted t).definitions := by
    refine List.map_congr_left fun d hd => ?_
    have hkeys : d.fields.map Field.name ⊆ t.toList :=
      List.Subset.trans d.fieldNames_subset_mentions
        (List.Subset.trans (mentions_subset_of_mem hd) hs)
    rw [h.sortBy_eq hkeys]
  exact congrArg (fun definitions => { s with definitions }) hdefinitions

/-- Sorting keeps the order of the types. -/
theorem map_name_definitionsIn_sorted (s : Subgraph) (t : NameTable) (names : List String) :
    ((s.sorted t).definitionsIn names).map TypeDef.name =
      (s.definitionsIn names).map TypeDef.name := by
  unfold definitionsIn sorted
  rw [List.filter_map, List.map_map]
  rfl

/-- The names of types are in the order of the types already. -/
theorem definitionsIn_map_name (s : Subgraph) (names : List String) :
    s.definitionsIn ((s.definitionsIn names).map TypeDef.name) = s.definitionsIn names := by
  refine List.filter_congr fun d hd => ?_
  rw [Bool.eq_iff_iff, List.contains_iff_mem, List.contains_iff_mem, List.mem_map]
  constructor
  · rintro ⟨other, hother, hname⟩
    rw [← hname]
    exact List.contains_iff_mem.mp (List.mem_filter.mp hother).2
  · exact fun hname => ⟨d, List.mem_filter.mpr ⟨hd, List.contains_iff_mem.mpr hname⟩, rfl⟩

/-- A sorted subgraph stays as it is when it is sorted again. -/
theorem sorted_sorted (s : Subgraph) (t : NameTable) : (s.sorted t).sorted t = s.sorted t := by
  have hnames : ∀ names, ((s.sorted t).definitionsIn
      ((s.definitionsIn names).map TypeDef.name)).map TypeDef.name =
        (s.definitionsIn names).map TypeDef.name := by
    intro names
    rw [map_name_definitionsIn_sorted, definitionsIn_map_name]
  have hdefinitions : ((s.sorted t).sorted t).definitions = (s.sorted t).definitions := by
    show (s.definitions.map _).map _ = s.definitions.map _
    rw [List.map_map]
    refine List.map_congr_left fun d _ => ?_
    simp only [Function.comp_apply, t.sortBy_sortBy, hnames]
  exact congrArg (fun definitions => { s.sorted t with definitions }) hdefinitions

end Subgraph

/-! ## Growing sets -/

namespace SubgraphSet

variable {set set' set'' : SubgraphSet}

/-- A later set has the subgraphs of a set at the same places, and a later table. -/
structure GrowsTo (set set' : SubgraphSet) : Prop where
  names : set.names.GrowsTo set'.names
  subgraphs : set.subgraphs <+: set'.subgraphs

theorem GrowsTo.refl (set : SubgraphSet) : set.GrowsTo set :=
  ⟨.refl _, List.prefix_rfl⟩

theorem GrowsTo.trans (h : set.GrowsTo set') (h' : set'.GrowsTo set'') : set.GrowsTo set'' :=
  ⟨h.names.trans h'.names, h.subgraphs.trans h'.subgraphs⟩

/-- A subgraph stays at its place. -/
theorem GrowsTo.subgraph?_eq (h : set.GrowsTo set') {id : SubgraphId} (hid : id < set.size) :
    set'.subgraph? id = set.subgraph? id := by
  obtain ⟨added, hadded⟩ := h.subgraphs
  unfold subgraph?
  rw [← hadded, List.getElem?_append_left hid]

/-- The table mentions no text twice, it mentions all texts that subgraphs hold, and the subgraphs
are sorted by it. -/
structure IsIndexed (set : SubgraphSet) : Prop where
  distinct : set.names.toList.Nodup
  mentioned : ∀ s ∈ set.subgraphs, s.mentions ⊆ set.names.toList
  sorted : ∀ s ∈ set.subgraphs, s.sorted set.names = s

/-- A set that is indexed is still indexed by any later table. -/
theorem IsIndexed.sorted_of_growsTo (h : set.IsIndexed) {t : NameTable} (ht : set.names.GrowsTo t)
    {s : Subgraph} (hs : s ∈ set.subgraphs) : s.sorted t = s := by
  rw [Subgraph.sorted_eq_of_growsTo ht (h.mentioned s hs), h.sorted s hs]

/-! ## One schema -/

/-- The texts of a subgraph under construction are mentioned before its schema is taken in. -/
theorem start_names_eq (set : SubgraphSet) (name : String) (url : Option String) :
    (set.start name url).1 = set.names.mentionAll (set.start name url).2.mentions := by
  cases url <;> rfl

/-- What a schema adds to a set. -/
theorem exists_growth_of_addText {text name : String} {url : Option String}
    (h : set.addText text name url = .ok set') :
    ∃ s, set'.subgraphs = set.subgraphs ++ [s] ∧ s.name = name ∧
      set.names.GrowsTo set'.names ∧ s.mentions ⊆ set'.names.toList ∧ s.sorted set'.names = s := by
  have hstart := set.names.growsTo_mentionAll (set.start name url).2.mentions
  have hempty := set.names.subset_toList_mentionAll (set.start name url).2.mentions
  rw [← start_names_eq] at hstart hempty
  rcases addText_cases h with ⟨diagnostics, hnames, hadded⟩ | ⟨schema, hread, hnames, hadded⟩
  · -- a repeated name leaves a subgraph that holds no more than it starts with
    rw [hnames]
    exact ⟨_, hadded, rfl, hstart, hempty, rfl⟩
  · obtain ⟨hgrows, hcovered⟩ := covers_build schema (set.start name url).1 (set.start name url).2
    rw [hnames]
    refine ⟨_, hadded, ?_, hstart.trans hgrows, hcovered hempty, Subgraph.sorted_sorted _ _⟩
    exact name_build (Document.Schema.hasPlainTypes_read hread) _ _

/-- Adding a schema keeps a set indexed. -/
theorem IsIndexed.addText (h : set.IsIndexed) {text name : String} {url : Option String}
    (hadd : set.addText text name url = .ok set') : set'.IsIndexed := by
  obtain ⟨s, hadded, -, hgrows, hmentioned, hsorted⟩ := exists_growth_of_addText hadd
  refine ⟨hgrows.distinct h.distinct, ?_, ?_⟩
  · rw [hadded, List.forall_mem_append, List.forall_mem_singleton]
    exact ⟨fun s' hs' => hgrows.subset (h.mentioned s' hs'), hmentioned⟩
  · rw [hadded, List.forall_mem_append, List.forall_mem_singleton]
    exact ⟨fun s' hs' => h.sorted_of_growsTo hgrows hs', hsorted⟩

/-- Ingested sets are indexed. -/
theorem Ingested.isIndexed (h : set.Ingested) : set.IsIndexed := by
  induction h with
  | empty =>
    exact ⟨List.nodup_nil, fun _ hs => absurd hs List.not_mem_nil,
      fun _ hs => absurd hs List.not_mem_nil⟩
  | add _ hadd ih => exact ih.addText hadd

/-! ## Sessions -/

/-- Offers a schema to a set, which changes only if the schema can be taken in. -/
def offer (source : SchemaSource) : ExceptT Document.ReadError (StateM SubgraphSet) Unit := do
  match (← get).addSource source with
  | .ok after => modify fun _ => after
  | .error e => throw e

/-- Offers schemas one after the other, whatever becomes of each of them. -/
def offerAll (sources : List SchemaSource) :
    StateM SubgraphSet (List (Except Document.ReadError Unit)) :=
  sources.mapM fun source => (offer source).run

theorem run_offer (source : SchemaSource) (set : SubgraphSet) :
    (offer source).run.run set =
      match set.addSource source with
      | .ok set' => (.ok (), set')
      | .error e => (.error e, set) := by
  unfold offer
  rw [ExceptT.run_bind, StateT.run_bind]
  show StateT.run (ExceptT.run (match set.addSource source with
    | .ok after => modify fun _ => after
    | .error e => throw e)) set = _
  cases set.addSource source <;> rfl

/-- An offered schema is refused, or it is added behind the other subgraphs. -/
theorem offer_step (source : SchemaSource) (set : SubgraphSet) :
    set.GrowsTo ((offer source).run.run set).2 ∧
      (set.Ingested → ((offer source).run.run set).2.Ingested) := by
  rw [run_offer]
  cases hadd : set.addSource source with
  | error e => exact ⟨.refl set, id⟩
  | ok set' =>
    obtain ⟨s, hadded, -, hgrows, -⟩ := exists_growth_of_addText hadd
    exact ⟨⟨hgrows, hadded ▸ List.prefix_append _ _⟩, fun hset => .add hset hadd⟩

/-- **A session only adds to a set.** Whatever is offered, and whether or not it is refused, the set
grows and is still one that comes about by ingestion. -/
theorem offerAll_run (sources : List SchemaSource) (set : SubgraphSet) :
    set.GrowsTo ((offerAll sources).run set).2 ∧
      (set.Ingested → ((offerAll sources).run set).2.Ingested) := by
  unfold offerAll
  induction sources generalizing set with
  | nil => exact ⟨.refl set, id⟩
  | cons source sources ih =>
    -- what becomes of the first schema is the set that the others are offered to
    rw [List.mapM_cons]
    obtain ⟨hgrows, hingested⟩ := offer_step source set
    obtain ⟨hgrows', hingested'⟩ := ih ((offer source).run.run set).2
    exact ⟨hgrows.trans hgrows', fun hset => hingested' (hingested hset)⟩

end SubgraphSet

/-- A schema with two fields. -/
def SchemaSource.orders : SchemaSource :=
  ⟨"type Query\x7ba:Int b:Int\x7d", "orders", none⟩

/-- A schema that mentions the same fields in another order. -/
def SchemaSource.stock : SchemaSource :=
  ⟨"type Query\x7bb:Int c:Int a:Int\x7d", "stock", some "s"⟩

/-- A schema that ends too early. -/
def SchemaSource.unfinished : SchemaSource :=
  ⟨"type Query\x7b", "returns", none⟩

theorem SchemaSource.ingests_orders_stock :
    ((SubgraphSet.ofSources [orders]).toOption.any fun set =>
      ((set.addSource stock).toOption.any fun _ =>
        set.size == 1 && set.names.toList == ["orders", "ORDERS", "Query", "Int", "a", "b"]) &&
      (set.addSource unfinished).toOption.isNone) = true := by
  rw [SubgraphSet.ofSources_eq_foldlM_insertSource, SubgraphSet.addSource_eq_insertSource]
  decide +kernel

end Federation
