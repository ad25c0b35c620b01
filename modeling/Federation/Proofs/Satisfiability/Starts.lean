import Federation.Proofs.Ingestion.Evaluation
import Federation.Proofs.Merge.Contents
import Federation.Proofs.QueryGraph.FieldMoves
import Federation.Proofs.Satisfiability.Alone
import Federation.Proofs.Satisfiability.ApiGraph
import Federation.Proofs.Satisfiability.ApiView

/-!
# Where queries start

Queries start at root types, and at objects that no root type leads to but some resolvable key does.
Which objects these are can be asked of a view of the API, one question after the other. The answers
are right whatever was asked before, so the starts are always the same.
-/

namespace Federation

/-! ## The API and its tables -/

namespace ApiGraph

variable {g : ApiGraph} {a b : String}

/-- Steps leave the type that is found by its name. -/
theorem mem_moves_iff (h : g.names.Nodup) {step : ApiMove} :
    step ∈ g.moves a ↔ step ∈ ApiType.stepsOf g.types a := by
  rw [ApiType.mem_stepsOf]
  constructor
  · exact exists_type_of_mem_moves
  · rintro ⟨type, htype, rfl, hstep⟩
    rw [moves, find?_key_eq_some h htype]
    exact hstep

/-- The walks of the check get to a type of the API exactly if steps lead there. -/
theorem leadsTo_iff (h : g.names.Nodup) (hb : b ∈ g.names) :
    g.leadsTo a b = true ↔ a = b ∨ Relation.TransGen (ApiType.Leads g.types) a b := by
  have hstep : ∀ x y,
      Reachability.Step (fun name => (g.moves name).map ApiMove.target) g.names x y ↔
        ApiType.Leads g.types x y ∧ y ∈ g.names := by
    intro x y
    rw [Reachability.Step, List.mem_map]
    simp only [mem_moves_iff h, ApiType.Leads]
  rw [leadsTo, Reachability.leadsTo, decide_eq_true_iff, Reachability.mem_closure_iff,
    Reachability.Reaches]
  simp only [List.mem_singleton, exists_eq_left]
  rw [Relation.reflTransGen_iff_eq_or_transGen, eq_comm]
  refine or_congr_right
    ⟨fun hpath => hpath.lift id fun x y hxy => ((hstep x y).mp hxy).1, fun hpath => ?_⟩
  induction hpath with
  | single hlast => exact .single ((hstep _ _).mpr ⟨hlast, hb⟩)
  | @tail x _ _ hlast ih =>
    -- a type that steps leave is a type of the API
    have hx : x ∈ g.names := by
      obtain ⟨step, hmem, -⟩ := hlast
      exact mem_names_of_mem_moves ((mem_moves_iff h).mpr hmem)
    exact (ih hx).tail ((hstep _ _).mpr ⟨hlast, hb⟩)

/-- A search of the tables finds the types of the API that walks get to. -/
theorem search_tables (h : g.names.Nodup) (hb : b ∈ g.names) :
    g.tables.search a b = g.leadsTo a b := by
  rw [Bool.eq_iff_iff, leadsTo_iff h hb, (GraphTables.holds_tables g).search_iff,
    (GraphTables.holds_tables g).hasPath_iff]

end ApiGraph

namespace MergedSchema

variable {m : MergedSchema} (h : m.HasUniqueNames)
include h

theorem nodup_names_apiGraph : m.apiGraph.names.Nodup := by
  refine List.Nodup.sublist ?_ h
  rw [ApiGraph.names, apiGraph, List.map_map]
  exact List.filter_sublist.map MergedType.name

/-- Clients can see all types that have nodes. -/
theorem isAccessible_of_knows {name : String} (hknows : ApiType.Knows m.apiGraph.types name) :
    m.isAccessible name = true := by
  obtain ⟨type, htype, rfl | ⟨step, hstep, rfl⟩⟩ := hknows
  · obtain ⟨t, ht, hname, -, hvisible⟩ := mem_names_apiGraph.mp (List.mem_map_of_mem htype)
    rw [isAccessible, ← hname, h.type?_eq_some ht, Option.any_some, hvisible]
    rfl
  · obtain ⟨t, -, rfl⟩ := List.mem_map.mp htype
    exact isAccessible_target hstep

/-- An object type has a node exactly if clients can see it. -/
theorem isSome_apiNode?_iff {t : MergedType} (ht : t ∈ m.types) (hkind : t.kind = .object) :
    (m.apiGraph.tables.apiNode? t.name).isSome = true ↔ t.metadata.isInaccessible = false := by
  rw [(GraphTables.holds_tables m.apiGraph).isSome_apiNode?_iff]
  constructor
  · intro hknows
    have hvisible := isAccessible_of_knows h hknows
    rwa [isAccessible, h.type?_eq_some ht, Option.any_some, Bool.not_eq_true'] at hvisible
  · intro hvisible
    obtain ⟨type, htype, hname⟩ := List.mem_map.mp (mem_names_of_object ht hkind hvisible)
    exact ⟨type, htype, .inl hname⟩

end MergedSchema

/-! ## Asking for starts -/

/-- Asks whether some of the starts leads to a type, up to the first one that does. -/
def ApiView.someLeadsTo (view : ApiView) (starts : List String) (target : String) :
    Bool × ApiView :=
  match starts with
  | [] => (false, view)
  | start :: rest =>
    let (answer, view) := view.leadsTo start target
    if answer then (true, view) else view.someLeadsTo rest target

/-- Some start leads to the type exactly if a search finds a path from one. -/
theorem ApiView.Remembers.someLeadsTo {view : ApiView} {t : GraphTables} (h : view.Remembers t)
    (starts : List String) (target : String) :
    (view.someLeadsTo starts target).1 = starts.any (t.search · target) ∧
      (view.someLeadsTo starts target).2.Remembers t := by
  induction starts generalizing view with
  | nil => exact ⟨rfl, h⟩
  | cons start rest ih =>
    obtain ⟨hanswer, hnext⟩ := h.leadsTo start target
    unfold ApiView.someLeadsTo
    dsimp only
    rw [List.any_cons, hanswer]
    split
    · rename_i hfound
      rw [hfound]
      exact ⟨rfl, hnext⟩
    · rename_i hnot
      rw [Bool.eq_false_iff.mpr hnot, Bool.false_or]
      exact ih hnext

namespace Satisfiability.Problem

/-- The start at a root type that has a node. -/
def rootStartIn? (p : Problem) (t : GraphTables) (root : RootOperation) : Option Start := do
  let type ← p.merged.root? root
  if (t.apiNode? type.name).isNone then none
  else
    some
      { entry := .root root
        typeName := type.name
        options := p.baseNodes type.name type.byGraph.ids }

/-- The names of the root types that queries start at. -/
def rootNames (p : Problem) : List String :=
  p.rootStarts.map Start.typeName

/-- The nodes of an object type where it can be fetched by some key. -/
def fetchNodes (p : Problem) (t : MergedType) : List NodeId :=
  p.baseNodes t.name ((t.byGraph.filter fun entry => entry.2.hasResolvableKey).map Prod.fst)

/-- Asks whether queries start at an object type: they do if no root leads to it, it has a node, and
some key leads to it. -/
def entityStartIn? (p : Problem) (roots : List String) (view : ApiView) (t : MergedType) :
    Option Start × ApiView :=
  if t.kind ≠ .object || t.metadata.isInaccessible then (none, view)
  else
    let (isReached, view) := view.someLeadsTo roots t.name
    let options := p.fetchNodes t
    if isReached || (view.tables.apiNode? t.name).isNone || options.isEmpty then (none, view)
    else (some { entry := .entity t.name, typeName := t.name, options }, view)

/-- Asks for the starts at some object types, one after the other. -/
def entityStartsIn (p : Problem) (roots : List String) (view : ApiView) :
    List MergedType → List Start × ApiView
  | [] => ([], view)
  | t :: rest =>
    let (start?, view) := p.entityStartIn? roots view t
    let (starts, view) := p.entityStartsIn roots view rest
    (start?.toList ++ starts, view)

/-- Asks for all starts. -/
def startsIn (p : Problem) (view : ApiView) : List Start × ApiView :=
  let roots := RootOperation.all.filterMap (p.rootStartIn? view.tables)
  let (entities, view) := p.entityStartsIn (roots.map Start.typeName) view p.merged.types
  (roots ++ entities, view)

section

variable {set : SubgraphSet} {m : MergedSchema} (h : m.HasUniqueNames)
include h

/-- Root types have nodes exactly if clients can see them. -/
theorem rootStartIn?_eq (root : RootOperation) :
    (Problem.of set m).rootStartIn? m.apiGraph.tables root =
      (Problem.of set m).rootStart? root := by
  unfold rootStartIn? rootStart?
  refine Option.bind_congr fun t ht => ?_
  obtain ⟨htype, hkind⟩ := Option.filter_eq_some_iff.mp ht
  have hnode := MergedSchema.isSome_apiNode?_iff h
    (MergedSchema.mem_types_of_type?_eq_some htype).1 (eq_of_beq hkind)
  refine if_congr ?_ rfl rfl
  rw [← Option.not_isSome, Bool.not_eq_true', ← Bool.not_eq_true, hnode, Bool.not_eq_false]

/-- A type is reachable exactly if a search finds a path from some root type. -/
theorem any_search_rootNames {name : String} (hname : name ∈ m.apiGraph.names) :
    (Problem.of set m).rootNames.any (m.apiGraph.tables.search · name) =
      (Problem.of set m).isReachable name := by
  rw [rootNames, List.any_map, isReachable]
  refine congrArg _ (funext fun start => ?_)
  exact ApiGraph.search_tables (MergedSchema.nodup_names_apiGraph h) hname

variable (set) in
/-- The answers about an object type decide whether queries start there. -/
theorem entityStartIn?_eq {view : ApiView} (hview : view.Remembers m.apiGraph.tables)
    {t : MergedType} (ht : t ∈ m.types) :
    ((Problem.of set m).entityStartIn? (Problem.of set m).rootNames view t).1 =
        (Problem.of set m).entityStart? t ∧
      ((Problem.of set m).entityStartIn? (Problem.of set m).rootNames view t).2.Remembers
        m.apiGraph.tables := by
  unfold entityStartIn? entityStart?
  dsimp only
  by_cases hskip : (decide (t.kind ≠ .object) || t.metadata.isInaccessible) = true
  · rw [if_pos hskip, hskip, Bool.true_or, Bool.true_or]
    exact ⟨rfl, hview⟩
  · obtain ⟨hreached, hnext⟩ :=
      hview.someLeadsTo (Problem.of set m).rootNames t.name
    have hseen := Bool.eq_false_iff.mpr hskip
    simp only [Bool.or_eq_true, decide_eq_true_eq, not_or, not_not] at hskip
    obtain ⟨hkind, hvisible⟩ := hskip
    have hname := MergedSchema.mem_names_of_object ht hkind (Bool.eq_false_iff.mpr hvisible)
    have hnode := (MergedSchema.isSome_apiNode?_iff h ht hkind).mpr (Bool.eq_false_iff.mpr hvisible)
    rw [any_search_rootNames h hname] at hreached
    rw [hseen, if_neg Bool.false_ne_true, hreached, hnext.tables, ← Option.not_isSome, hnode,
      Bool.not_true, Bool.or_false, Bool.false_or, Bool.or_comm, ← fetchNodes]
    split
    · exact ⟨rfl, hnext⟩
    · exact ⟨rfl, hnext⟩

/-- The answers about some object types decide at which of them queries start. -/
theorem entityStartsIn_eq {view : ApiView} (hview : view.Remembers m.apiGraph.tables)
    {types : List MergedType} (htypes : types ⊆ m.types) :
    ((Problem.of set m).entityStartsIn (Problem.of set m).rootNames view types).1 =
      types.filterMap (Problem.of set m).entityStart? := by
  induction types generalizing view with
  | nil => rfl
  | cons t rest ih =>
    obtain ⟨ht, hrest⟩ := List.cons_subset.mp htypes
    obtain ⟨hstart, hnext⟩ := entityStartIn?_eq set h hview ht
    unfold entityStartsIn
    dsimp only
    rw [hstart, ih hnext hrest, List.filterMap_cons]
    cases (Problem.of set m).entityStart? t <;> rfl

/-- **The starts do not depend on what was asked.** -/
theorem startsIn_eq {view : ApiView} (hview : view.Remembers m.apiGraph.tables) :
    ((Problem.of set m).startsIn view).1 = (Problem.of set m).starts := by
  have hroots : RootOperation.all.filterMap ((Problem.of set m).rootStartIn? view.tables) =
      (Problem.of set m).rootStarts := by
    rw [hview.tables]
    exact congrArg (List.filterMap · _) (funext (rootStartIn?_eq h))
  unfold startsIn starts
  dsimp only
  rw [hroots]
  exact congrArg _ (entityStartsIn_eq h hview (List.Subset.refl _))

end

end Satisfiability.Problem

/-! ## Which objects queries start at -/

/-- A root type is the type, or edges of the API lead from it to the type. -/
def MergedSchema.RootLeadsTo (m : MergedSchema) (name : String) : Prop :=
  ∃ root r, m.root? root = some r ∧ (r.name = name ∨ m.apiGraph.tables.HasPath r.name name)

namespace Satisfiability.Problem

variable {set : SubgraphSet} {m : MergedSchema}

variable (set) in
/-- Root types that clients cannot see lead to no type that they can see. -/
theorem isReachable_iff (h : m.HasUniqueNames) {name : String} (hname : name ∈ m.apiGraph.names) :
    (Problem.of set m).isReachable name = true ↔ m.RootLeadsTo name := by
  have hholds := GraphTables.holds_tables m.apiGraph
  rw [← any_search_rootNames h hname, rootNames, List.any_map, List.any_eq_true]
  constructor
  · rintro ⟨start, hstart, hsearch⟩
    obtain ⟨root, -, hstart⟩ := List.mem_filterMap.mp hstart
    obtain ⟨r, hr, hstart⟩ := Option.bind_eq_some_iff.mp hstart
    split at hstart
    · cases hstart
    · obtain rfl := Option.some.inj hstart
      exact ⟨root, r, hr, hholds.search_iff.mp hsearch⟩
  · rintro ⟨root, r, hr, hpath⟩
    -- a root type from which a path leads on has a node
    have hknows : ApiType.Knows m.apiGraph.types r.name := by
      rcases hpath with rfl | ⟨u, -, hu, -⟩
      · obtain ⟨type, htype, heq⟩ := List.mem_map.mp hname
        exact ⟨type, htype, .inl heq⟩
      · exact hholds.isSome_apiNode?_iff.mp (Option.isSome_iff_exists.mpr ⟨u, hu⟩)
    obtain ⟨htype, hkind⟩ := Option.filter_eq_some_iff.mp hr
    have hvisible := (MergedSchema.isSome_apiNode?_iff h
      (MergedSchema.mem_types_of_type?_eq_some htype).1 (eq_of_beq hkind)).mp
        (hholds.isSome_apiNode?_iff.mpr hknows)
    have hstart : (Problem.of set m).rootStart? root = some
        { entry := .root root
          typeName := r.name
          options := (Problem.of set m).baseNodes r.name r.byGraph.ids } :=
      Option.bind_eq_some_iff.mpr ⟨r, hr, if_neg (Bool.eq_false_iff.mp hvisible)⟩
    exact ⟨_, List.mem_filterMap.mpr ⟨root, by cases root <;> decide, hstart⟩,
      hholds.search_iff.mpr hpath⟩

/-- An object type has a base node in each subgraph that defines it. -/
theorem exists_base?_of_mem_byGraph (hset : set.HasProperNames)
    (hm : MergedSchema.ofSubgraphs set = .ok m) {t : MergedType} (ht : t ∈ m.types)
    (hkind : t.kind = .object) {entry : SubgraphId × TypeDef} (hentry : entry ∈ t.byGraph) :
    ∃ v, (QueryGraph.ofSubgraphs set m).base? t.name entry.1 = some v := by
  obtain ⟨s, hs, hd⟩ := (MergedSchema.mem_byGraph_iff hset hm ht).mp hentry
  have hcomposite : entry.2.kind.isComposite = true := by
    rw [MergedSchema.kind_of_mem_byGraph hset hm ht hentry, hkind]
    rfl
  obtain ⟨v, hv⟩ := QueryGraph.exists_base?_joined m hs (Subgraph.mem_of_definition? hd) hcomposite
  rw [Subgraph.name_of_definition? hd] at hv
  exact ⟨v, QueryGraph.base?_ofSubgraphs hm hv⟩

/-- An object type can be fetched somewhere exactly if a subgraph has a resolvable key for it. -/
theorem isEmpty_fetchNodes (hset : set.HasProperNames)
    (hm : MergedSchema.ofSubgraphs set = .ok m) {t : MergedType} (ht : t ∈ m.types)
    (hkind : t.kind = .object) :
    ((Problem.of set m).fetchNodes t).isEmpty = false ↔
      ∃ entry ∈ t.byGraph, entry.2.hasResolvableKey = true := by
  rw [List.isEmpty_eq_false_iff_exists_mem]
  constructor
  · rintro ⟨v, hv⟩
    have hmem := List.contains_iff_mem.mp (List.mem_filter.mp hv).2
    obtain ⟨id, hid, -⟩ := List.mem_filterMap.mp hmem
    obtain ⟨entry, hentry, -⟩ := List.mem_map.mp hid
    exact ⟨entry, List.mem_filter.mp hentry⟩
  · rintro ⟨entry, hentry, hkey⟩
    obtain ⟨v, hv⟩ := exists_base?_of_mem_byGraph hset hm ht hkind hentry
    have hid : v ∈ (Problem.of set m).graph.ids :=
      QueryGraph.mem_ids_of_subject? (QueryGraph.base?_eq_some hv)
    refine ⟨v, List.mem_filter.mpr ⟨hid, List.contains_iff_mem.mpr ?_⟩⟩
    refine List.mem_filterMap.mpr ⟨entry.1, ?_, hv⟩
    exact List.mem_map_of_mem (List.mem_filter.mpr ⟨hentry, hkey⟩)

/-- Queries start at the objects that no root type leads to, but some resolvable key does. -/
theorem entityStart?_isSome_iff (hset : set.HasProperNames)
    (hm : MergedSchema.ofSubgraphs set = .ok m) {t : MergedType} (ht : t ∈ m.types) :
    ((Problem.of set m).entityStart? t).isSome = true ↔
      t.kind = .object ∧ t.metadata.isInaccessible = false ∧
        (∃ entry ∈ t.byGraph, entry.2.hasResolvableKey = true) ∧ ¬ m.RootLeadsTo t.name := by
  have hunique := MergedSchema.hasUniqueNames_of_ofSubgraphs hm
  have hsome : ((Problem.of set m).entityStart? t).isSome = true ↔
      t.kind = .object ∧ t.metadata.isInaccessible = false ∧
        ((Problem.of set m).fetchNodes t).isEmpty = false ∧
          (Problem.of set m).isReachable t.name = false := by
    unfold entityStart?
    dsimp only
    rw [← fetchNodes, Option.isSome_ite']
    simp only [Bool.not_eq_true, Bool.or_eq_false_iff, decide_eq_false_iff_not, not_not, and_assoc]
  rw [hsome]
  refine and_congr_right fun hkind => and_congr_right fun hvisible => ?_
  rw [isEmpty_fetchNodes hset hm ht hkind, ← isReachable_iff set hunique
    (MergedSchema.mem_names_of_object ht hkind hvisible), Bool.not_eq_true]

theorem entry_of_entityStart? {p : Problem} {t : MergedType} {start : Start}
    (h : p.entityStart? t = some start) : start.entry = .entity t.name := by
  unfold entityStart? at h
  dsimp only at h
  split at h
  · cases h
  · exact Option.some.inj h ▸ rfl

/-- Queries start at an object if a type of its name decides so. -/
theorem exists_entity_start_iff {name : String} :
    (∃ start ∈ (Problem.of set m).starts, start.entry = .entity name) ↔
      ∃ t ∈ m.types, t.name = name ∧ ((Problem.of set m).entityStart? t).isSome = true := by
  constructor
  · rintro ⟨start, hmem, hentry⟩
    rcases List.mem_append.mp hmem with hroot | hentity
    · obtain ⟨root, -, hstart⟩ := List.mem_filterMap.mp hroot
      obtain ⟨r, -, hstart⟩ := Option.bind_eq_some_iff.mp hstart
      split at hstart
      · cases hstart
      · obtain rfl := Option.some.inj hstart
        cases hentry
    · obtain ⟨t, ht, hstart⟩ := List.mem_filterMap.mp hentity
      rw [entry_of_entityStart? hstart] at hentry
      exact ⟨t, ht, Entry.entity.inj hentry, Option.isSome_of_eq_some hstart⟩
  · rintro ⟨t, ht, rfl, hsome⟩
    obtain ⟨start, hstart⟩ := Option.isSome_iff_exists.mp hsome
    exact ⟨start, List.mem_append_right _ (List.mem_filterMap.mpr ⟨t, ht, hstart⟩),
      entry_of_entityStart? hstart⟩

/-- **Answers that are kept are right.** Whatever is asked of the view of an API, and in whatever
order, the answer is yes exactly if the two types are the same or edges lead from the one to the
other; and edges lead where the steps of queries do. So, after any questions, the starts are those
of the check: queries start at exactly those objects that clients can see, that some subgraph has a
resolvable key for, and that no root type leads to. -/
theorem view_answers_are_exact (m : MergedSchema) :
    (∀ questions, List.Forall₂
        (fun q answer => answer = true ↔ q.1 = q.2 ∨ m.apiGraph.tables.HasPath q.1 q.2)
        questions (m.apiGraph.view.askAll questions).1) ∧
      (∀ a b, m.apiGraph.tables.HasPath a b ↔
        Relation.TransGen (ApiType.Leads m.apiGraph.types) a b) ∧
      ∀ set : SubgraphSet, set.Ingested → MergedSchema.ofSubgraphs set = .ok m →
        (∀ questions, ((Problem.of set m).startsIn (m.apiGraph.view.askAll questions).2).1 =
          (Problem.of set m).starts) ∧
        ∀ name, (∃ start ∈ (Problem.of set m).starts, start.entry = .entity name) ↔
          ∃ t ∈ m.types, t.name = name ∧ t.kind = .object ∧ t.metadata.isInaccessible = false ∧
            (∃ entry ∈ t.byGraph, entry.2.hasResolvableKey = true) ∧ ¬ m.RootLeadsTo name := by
  have hholds := GraphTables.holds_tables m.apiGraph
  have hasked := fun questions => m.apiGraph.remembers_view.askAll questions
  refine ⟨fun questions => ?_, fun a b => hholds.hasPath_iff, fun set hset hm => ⟨?_, ?_⟩⟩
  · rw [(hasked questions).1, List.forall₂_map_right_iff, List.forall₂_same]
    exact fun q _ => hholds.search_iff
  · intro questions
    exact startsIn_eq (MergedSchema.hasUniqueNames_of_ofSubgraphs hm) (hasked questions).2
  · intro name
    rw [exists_entity_start_iff]
    refine exists_congr fun t => and_congr_right fun ht => and_congr_right fun hname => ?_
    rw [entityStart?_isSome_iff hset.hasProperNames hm ht, hname]

end Satisfiability.Problem

/-- A schema whose root type leads to a type with a key, which leads back to itself. -/
def SchemaSource.shop : SchemaSource :=
  ⟨"type Query\x7bt:T\x7dtype T@key(fields:\"i\")\x7bi:ID t:T\x7d", "a", none⟩

/-- A schema with another type that has a key. It leads to the first one. -/
def SchemaSource.notes : SchemaSource :=
  ⟨"type T@key(fields:\"i\")\x7bi:ID\x7dtype U@key(fields:\"i\")\x7bi:ID t:T\x7d", "b", none⟩

/-- Questions about the types of the two schemas, one of them asked twice. -/
def shopQuestions : List (String × String) :=
  [("Query", "T"), ("T", "U"), ("U", "T"), ("Query", "U"), ("T", "U")]

theorem SchemaSource.answers_shop_notes :
    ((SubgraphSet.ofSources [shop, notes]).toOption.any fun set =>
      (MergedSchema.ofSubgraphs set).toOption.any fun m =>
        (m.apiGraph.view.askAll shopQuestions).1 == [true, false, true, false, false] &&
        (RootOperation.all.filterMap m.root?).map MergedType.name == ["Query"] &&
        m.types.any fun t => t.name == "U" && t.kind == .object && !t.metadata.isInaccessible &&
          t.byGraph.any fun entry => entry.2.hasResolvableKey) =
      true := by
  rw [SubgraphSet.ofSources_eq_foldlM_insertSource]
  decide +kernel

/-- After these questions, queries start at the second type and not at the first one. -/
theorem Satisfiability.Problem.view_answers_are_exact_of_shop :
    ∃ set m, SubgraphSet.ofSources [.shop, .notes] = .ok set ∧ set.Ingested ∧
      MergedSchema.ofSubgraphs set = .ok m ∧ m.apiGraph.tables.HasPath "U" "T" ∧
      ¬ m.apiGraph.tables.HasPath "T" "U" ∧
      (∃ start ∈ ((Problem.of set m).startsIn (m.apiGraph.view.askAll shopQuestions).2).1,
        start.entry = .entity "U") ∧
      ¬ ∃ start ∈ ((Problem.of set m).startsIn (m.apiGraph.view.askAll shopQuestions).2).1,
        start.entry = .entity "T" := by
  obtain ⟨set, hset, hmerges⟩ := exists_ok_of_any SchemaSource.answers_shop_notes
  obtain ⟨m, hm, hfacts⟩ := exists_ok_of_any hmerges
  simp only [Bool.and_eq_true, Bool.not_eq_true', beq_iff_eq, List.any_eq_true] at hfacts
  obtain ⟨⟨hanswers, hroots⟩, t, ht, ⟨⟨hname, hkind⟩, hvisible⟩, hkey⟩ := hfacts
  have hingested := SubgraphSet.ingested_ofSources hset
  obtain ⟨hexact, -, hstarts⟩ := Satisfiability.Problem.view_answers_are_exact m
  obtain ⟨hsame, hentities⟩ := hstarts set hingested hm
  have hpaths := hexact shopQuestions
  rw [hanswers] at hpaths
  simp only [shopQuestions, List.forall₂_cons] at hpaths
  obtain ⟨hqueryT, hTU, hUT, hqueryU, -⟩ := hpaths
  -- the only root type leads to the first type and not to the second one
  have hroot : ∀ root r, m.root? root = some r → r.name = "Query" := by
    intro root r hr
    have hmem : r.name ∈ (RootOperation.all.filterMap m.root?).map MergedType.name :=
      List.mem_map_of_mem (List.mem_filterMap.mpr ⟨root, by cases root <;> decide, hr⟩)
    rw [hroots] at hmem
    exact List.mem_singleton.mp hmem
  have hleads : m.RootLeadsTo "T" := by
    have hmem : "Query" ∈ (RootOperation.all.filterMap m.root?).map MergedType.name :=
      hroots ▸ List.mem_singleton_self _
    obtain ⟨r, hr, hquery⟩ := List.mem_map.mp hmem
    obtain ⟨root, -, hr⟩ := List.mem_filterMap.mp hr
    exact ⟨root, r, hr, hquery ▸ hqueryT.mp trivial⟩
  have hnot : ¬ m.RootLeadsTo "U" := by
    rintro ⟨root, r, hr, hpath⟩
    rw [hroot root r hr] at hpath
    exact Bool.false_ne_true (hqueryU.mpr hpath)
  refine ⟨set, m, hset, hingested, hm, (hUT.mp trivial).resolve_left (by decide), fun hpath =>
    Bool.false_ne_true (hTU.mpr (.inr hpath)), ?_, ?_⟩
  · rw [hsame]
    exact (hentities "U").mpr ⟨t, ht, hname, hkind, hvisible, hkey, hnot⟩
  · rw [hsame]
    intro hstart
    obtain ⟨_, -, -, -, -, -, hnone⟩ := (hentities "T").mp hstart
    exact hnone hleads

end Federation
