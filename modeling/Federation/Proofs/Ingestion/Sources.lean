import Federation.Proofs.Ingestion.Subgraphs
import Federation.Proofs.Shuffled

/-!
# Schemas that are taken in one after the other

Schemas of different names turn into the same subgraphs in any order, up to what depends on their
places: the values in the enumeration and the order of fields.
-/

namespace Federation

/-! ## Alike subgraphs -/

/-- What is alike to one type is alike. -/
theorem TypeDef.Alike.of_common {d e e' : TypeDef} (h : d.Alike e) (h' : d.Alike e') :
    e.Alike e' := by
  refine ⟨?_, h'.fields.trans h.fields.symm⟩
  rw [h'.rest, h.rest]

/-- What is alike to one subgraph is alike. -/
theorem Subgraph.Alike.of_common {s t t' : Subgraph} (h : s.Alike t) (h' : s.Alike t') :
    t.Alike t' := by
  refine ⟨?_, ?_⟩
  · rw [h'.rest, h.rest]
  · have hcommon : ∀ e d e', flip TypeDef.Alike e d → TypeDef.Alike d e' → TypeDef.Alike e e' :=
      fun _ _ _ => TypeDef.Alike.of_common
    exact forall₂_trans hcommon h.definitions.flip h'.definitions

theorem Subgraph.Alike.name_eq {s s' : Subgraph} (h : s.Alike s') : s'.name = s.name := by
  rw [h.rest]

/-! ## Sources -/

/-- A schema that is to be taken in. -/
structure SchemaSource where
  text : String
  name : String
  url : Option String

namespace SchemaSource

/-- The subgraph that a schema turns into on its own, without a value in the enumeration. -/
def canonical (source : SchemaSource) : Except Document.ReadError Subgraph := do
  let schema ← Document.Schema.read source.text
  let p := SubgraphSet.build schema {}
    { name := source.name, enumValue := "", url := source.url }
  if p.isBeyondLimit then .error .beyondLimit else .ok p.subgraph

/-- The subgraph is what the schema turns into, up to what depends on its place. -/
def TurnsInto (source : SchemaSource) (s' : Subgraph) : Prop :=
  ∃ s, source.canonical = .ok s ∧ s.Alike s'

/-- A schema turns into one subgraph only, up to its place. -/
theorem TurnsInto.alike {source : SchemaSource} {s s' : Subgraph} (h : source.TurnsInto s)
    (h' : source.TurnsInto s') : s.Alike s' := by
  obtain ⟨t, ht, halike⟩ := h
  obtain ⟨t', ht', halike'⟩ := h'
  obtain rfl := Except.ok.inj (ht.symm.trans ht')
  exact halike.of_common halike'

/-- What a schema makes of an empty subgraph of its name. -/
def built (source : SchemaSource) (schema : Document.Schema) : Progress :=
  SubgraphSet.build schema {} { name := source.name, enumValue := "", url := source.url }

theorem canonical_of_error {source : SchemaSource} {e : Document.ReadError}
    (h : Document.Schema.read source.text = .error e) : source.canonical = .error e := by
  unfold canonical
  rw [h]
  rfl

theorem canonical_of_ok {source : SchemaSource} {schema : Document.Schema}
    (h : Document.Schema.read source.text = .ok schema) :
    source.canonical = if (source.built schema).isBeyondLimit then .error .beyondLimit
      else .ok (source.built schema).subgraph := by
  unfold canonical
  rw [h]
  rfl

theorem name_of_canonical {source : SchemaSource} {s : Subgraph} (h : source.canonical = .ok s) :
    s.name = source.name := by
  cases hread : Document.Schema.read source.text with
  | error e =>
    rw [canonical_of_error hread] at h
    cases h
  | ok schema =>
    rw [canonical_of_ok hread] at h
    split at h
    · cases h
    · obtain rfl := Except.ok.inj h
      exact SubgraphSet.name_build (Document.Schema.hasPlainTypes_read hread) _ _

theorem TurnsInto.name_eq {source : SchemaSource} {s : Subgraph} (h : source.TurnsInto s) :
    s.name = source.name := by
  obtain ⟨t, ht, halike⟩ := h
  rw [halike.name_eq, name_of_canonical ht]

end SchemaSource

namespace SubgraphSet

/-! ## Adding sources -/

/-- Adds a schema to a set. -/
def addSource (set : SubgraphSet) (source : SchemaSource) :
    Except Document.ReadError SubgraphSet :=
  set.addText source.text source.name source.url

/-- The set that schemas are taken into, one after the other. -/
def ofSources (sources : List SchemaSource) : Except Document.ReadError SubgraphSet :=
  sources.foldlM addSource {}

/-- What comes of a schema of a new name does not depend on the subgraphs before it: the same
failure, or a subgraph that is alike. -/
theorem addSource_of_fresh {set : SubgraphSet} {source : SchemaSource}
    (hnew : set.hasName source.name = false) :
    (∀ e, source.canonical = .error e → set.addSource source = .error e) ∧
      ∀ s, source.canonical = .ok s → ∃ set' s', set.addSource source = .ok set' ∧
        set'.subgraphs = set.subgraphs ++ [s'] ∧ s.Alike s' := by
  unfold addSource addText
  cases hread : Document.Schema.read source.text with
  | error e =>
    rw [SchemaSource.canonical_of_error hread]
    exact ⟨fun _ he => congrArg _ (Except.error.inj he), fun _ hs => (by cases hs)⟩
  | ok schema =>
    rw [SchemaSource.canonical_of_ok hread]
    have htypes := Document.Schema.hasPlainTypes_read hread
    obtain ⟨halike, hlimit, -⟩ := alike_build htypes {} (set.start source.name source.url).1
      { name := source.name, enumValue := "", url := source.url }
      (set.start source.name source.url).2.enumValue
    have hadd : set.add schema source.name source.url =
        if (source.built schema).isBeyondLimit then .error .beyondLimit
        else
          let p := build schema (set.start source.name source.url).1
            (set.start source.name source.url).2
          .ok { names := p.names, subgraphs := set.subgraphs ++ [p.subgraph] } := by
      unfold add
      dsimp only
      rw [if_neg (by simp [hnew])]
      exact if_congr (by rw [SchemaSource.built, ← hlimit]; rfl) rfl rfl
    show (∀ e, _ → set.add schema source.name source.url = .error e) ∧
      ∀ s, _ → ∃ set' s', set.add schema source.name source.url = .ok set' ∧ _
    rw [hadd]
    split
    · exact ⟨fun _ he => congrArg _ (Except.error.inj he), fun _ hs => (by cases hs)⟩
    · refine ⟨fun _ he => (by cases he), fun s hs => ?_⟩
      obtain rfl := Except.ok.inj hs
      exact ⟨_, _, rfl, rfl, halike⟩

/-- Schemas of new names can be added exactly if each of them turns into a subgraph. -/
theorem foldlM_addSource {sources : List SchemaSource} {set : SubgraphSet}
    (hnames : (sources.map SchemaSource.name).Nodup)
    (hnew : ∀ source ∈ sources, set.hasName source.name = false) :
    ((∃ set', sources.foldlM addSource set = .ok set') ↔
        ∀ source ∈ sources, ∃ s, source.canonical = .ok s) ∧
      ∀ set', sources.foldlM addSource set = .ok set' →
        ∃ added, set'.subgraphs = set.subgraphs ++ added ∧
          List.Forall₂ SchemaSource.TurnsInto sources added := by
  induction sources generalizing set with
  | nil =>
    refine ⟨⟨fun _ source hsource => absurd hsource List.not_mem_nil, fun _ => ⟨set, rfl⟩⟩, ?_⟩
    intro set' h
    obtain rfl := Except.ok.inj h
    exact ⟨[], (List.append_nil _).symm, .nil⟩
  | cons source sources ih =>
    obtain ⟨hsource, hsources⟩ := List.nodup_cons.mp hnames
    obtain ⟨herror, hok⟩ := addSource_of_fresh (hnew source List.mem_cons_self)
    rw [List.foldlM_cons, List.forall_mem_cons]
    cases hcanonical : source.canonical with
    | error e =>
      rw [herror e hcanonical]
      refine ⟨⟨fun ⟨set', h⟩ => (by cases h), fun ⟨⟨s, hs⟩, _⟩ => (by cases hs)⟩, ?_⟩
      intro set' h
      cases h
    | ok s =>
      obtain ⟨next, s', hadd, hsubgraphs, halike⟩ := hok s hcanonical
      have hturns : source.TurnsInto s' := ⟨s, hcanonical, halike⟩
      have hnext : ∀ other ∈ sources, next.hasName other.name = false := by
        intro other hother
        have hne : s'.name ≠ other.name := by
          rw [hturns.name_eq]
          exact fun heq => hsource (heq ▸ List.mem_map_of_mem hother)
        have hold := hnew other (List.mem_cons_of_mem _ hother)
        unfold hasName at hold ⊢
        rw [hsubgraphs, List.any_append, hold]
        simpa using hne
      obtain ⟨hiff, hadded⟩ := ih hsources hnext
      rw [hadd]
      refine ⟨?_, ?_⟩
      · show (∃ set', sources.foldlM addSource next = .ok set') ↔ _
        rw [hiff]
        exact ⟨fun h => ⟨⟨s, rfl⟩, h⟩, And.right⟩
      · intro set' h
        obtain ⟨added, hall, hforall⟩ := hadded set' h
        refine ⟨s' :: added, ?_, .cons hturns hforall⟩
        rw [hall, hsubgraphs, List.append_assoc]
        rfl

/-- Taking schemas in one after the other makes an ingested set. -/
theorem ingested_foldlM_addSource {sources : List SchemaSource} {set set' : SubgraphSet}
    (hset : set.Ingested) (h : sources.foldlM addSource set = .ok set') : set'.Ingested := by
  induction sources generalizing set with
  | nil =>
    obtain rfl := Except.ok.inj h
    exact hset
  | cons source sources ih =>
    rw [List.foldlM_cons] at h
    cases hadd : set.addSource source with
    | error e =>
      rw [hadd] at h
      cases h
    | ok next =>
      rw [hadd] at h
      exact ih (.add hset hadd) h

theorem ingested_ofSources {sources : List SchemaSource} {set : SubgraphSet}
    (h : ofSources sources = .ok set) : set.Ingested :=
  ingested_foldlM_addSource .empty h

/-- Schemas of different names can be taken in exactly if each of them turns into a subgraph. -/
theorem ofSources_ok_iff {sources : List SchemaSource}
    (hnames : (sources.map SchemaSource.name).Nodup) :
    (∃ set, ofSources sources = .ok set) ↔ ∀ source ∈ sources, ∃ s, source.canonical = .ok s :=
  (foldlM_addSource hnames fun _ _ => rfl).1

/-- The subgraphs of the set are what the schemas turn into. -/
theorem turnsInto_of_ofSources {sources : List SchemaSource}
    (hnames : (sources.map SchemaSource.name).Nodup) {set : SubgraphSet}
    (h : ofSources sources = .ok set) :
    List.Forall₂ SchemaSource.TurnsInto sources set.subgraphs := by
  obtain ⟨added, hsubgraphs, hforall⟩ := (foldlM_addSource hnames fun _ _ => rfl).2 set h
  rw [hsubgraphs]
  exact hforall

end SubgraphSet

end Federation
