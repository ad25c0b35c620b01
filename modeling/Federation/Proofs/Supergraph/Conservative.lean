import Federation.Proofs.Ingestion.Evaluation
import Federation.Proofs.Satisfiability.Alone
import Federation.Proofs.Supergraph.Alone
import Federation.Proofs.Supergraph.PublicText
import Federation.Proofs.Validation.Rules

/-!
# Composing one subgraph

Composition is conservative: a document that is composed alone, and that neither leaves anything to
other subgraphs nor hides anything, has an API schema with the types that it declares, each with
exactly what its blocks list. All queries can be resolved, so nothing is found that was not found
before.
-/

namespace Federation

open Document (TypeBlock)

/-! ## One document -/

namespace SubgraphSet

/-- A subgraph that is merged alone without anything fatal has queries. -/
theorem HasOnly.exists_query {set : SubgraphSet} {s : Subgraph} {m : MergedSchema}
    (h : set.HasOnly s) (hm : MergedSchema.ofSubgraphs set = .ok m)
    (hvalid : (Validation.validate { set := set, merged := m }).anyFatal = false) :
    ∃ d ∈ s.definitions, d.name = RootOperation.query.typeName ∧ d.kind = .object ∧
      d.fields ≠ [] := by
  obtain ⟨t, ht, hquery⟩ := List.any_eq_true.mp (Validation.hasQueries_of_anyFatal hvalid)
  rw [Bool.and_eq_true, Bool.and_eq_true, beq_iff_eq, beq_iff_eq] at hquery
  obtain ⟨⟨hkind, hname⟩, hfields⟩ := hquery
  obtain ⟨field, hfield, -⟩ := List.any_eq_true.mp hfields
  obtain ⟨d, hd, halone⟩ := h.exists_isAlone hm ht
  have hobject : d.kind = .object := halone.kind.symm.trans hkind
  rw [halone.fields (.inl hobject)] at hfield
  obtain ⟨g, hg, -⟩ := List.mem_map.mp hfield
  exact ⟨d, hd, halone.name.symm.trans hname, hobject, List.ne_nil_of_mem hg⟩

variable {set : SubgraphSet} {source : SchemaSource} {schema : Document.Schema}

/-- The only subgraph is built of the only document. -/
theorem exists_build_of_ofSources (hread : Document.Schema.read source.text = .ok schema)
    (hset : ofSources [source] = .ok set) :
    ∃ (names : NameTable) (empty : Subgraph), empty.definitions = [] ∧
      set.subgraphs = [(build schema names empty).subgraph] := by
  have hadd : ({} : SubgraphSet).add schema source.name source.url = .ok set := by
    rw [ofSources, List.foldlM_cons, addSource, addText, hread] at hset
    exact (bind_pure _).symm.trans hset
  unfold add at hadd
  dsimp only at hadd
  rw [if_neg (by simp [hasName])] at hadd
  split at hadd
  · cases hadd
  · obtain rfl := Except.ok.inj hadd
    exact ⟨_, _, rfl, rfl⟩

/-- A document that stands alone, if nothing fatal is found, makes a subgraph that reflects it and is
merged alone, and each of its types has a part. -/
theorem exists_hasOnly (hread : Document.Schema.read source.text = .ok schema)
    (hset : ofSources [source] = .ok set)
    (hdoc : ∀ s ∈ set.subgraphs, Document.StandsAlone s schema.roots schema.typeBlocks)
    (hquiet : set.baseDiagnostics.1.anyFatal = false) :
    ∃ s m, set.HasOnly s ∧ s.Reflects schema.roots schema.typeBlocks ∧
      MergedSchema.ofSubgraphs set = .ok m ∧ ∀ d ∈ s.definitions, d.outline.HasParts d.kind := by
  obtain ⟨names, empty, hempty, hsubgraphs⟩ := exists_build_of_ofSources hread hset
  generalize hs : (build schema names empty).subgraph = s at hsubgraphs
  have hmem : s ∈ set.subgraphs := by
    rw [hsubgraphs]
    exact List.mem_singleton_self s
  have hreflects : s.Reflects schema.roots schema.typeBlocks :=
    hs ▸ reflects_build hempty (hs ▸ anyFatal_diagnostics hquiet hmem)
  have hdoc := hdoc s hmem
  have honly : set.HasOnly s :=
    ⟨hsubgraphs, (ingested_ofSources hset).hasProperNames s hmem,
      hreflects.standalone hdoc.standalone, fun _ hd => hreflects.nodup_arguments hdoc hd⟩
  obtain ⟨m, hm, hvalid⟩ := exists_merged_of_baseDiagnostics hquiet
  refine ⟨s, m, honly, hreflects, hm, fun d hd => ?_⟩
  by_cases hname : d.name = RootOperation.query.typeName
  · obtain ⟨query, hquery, hqueryname, hkind, hfields⟩ := honly.exists_query hm hvalid
    obtain rfl : d = query :=
      List.inj_on_of_nodup_map honly.names.types hd hquery (hname.trans hqueryname.symm)
    rw [hkind]
    exact mt List.map_eq_nil_iff.mp hfields
  · exact hreflects.hasParts_of_members hdoc.members hd hname

/-- If all queries can be resolved, nothing is fatal in a composition if nothing fatal was found
before, and nothing at all if warnings are fatal. -/
theorem anyFatal_compose {m : MergedSchema} (hm : MergedSchema.ofSubgraphs set = .ok m)
    (hcheck : Satisfiability.check set m = []) (hquiet : set.baseDiagnostics.1.anyFatal = false)
    {options : CompositionOptions}
    (hwarnings : options.warningsAreFatal = true → set.baseDiagnostics.1 = []) :
    (set.compose options).diagnostics.anyFatal = false := by
  rw [diagnostics_compose hm hcheck]
  split
  · rename_i hfatal
    rw [hwarnings hfatal]
    rfl
  · exact hquiet

end SubgraphSet

/-! ## The API schema -/

namespace Supergraph

/-- What a type consists of does not depend on its directives. -/
theorem Body.outline_mapDirectives (ofPart ofArgument : List Directive → List Directive)
    (body : Body) : (body.mapDirectives ofPart ofArgument).outline = body.outline := by
  cases body <;> simp [mapDirectives, outline, Function.comp_def, Field.mapDirectives,
    Input.mapDirectives, EnumValue.mapDirectives, Field.signature, Input.signature]

theorem Body.keyword_mapDirectives (ofPart ofArgument : List Directive → List Directive)
    (body : Body) : (body.mapDirectives ofPart ofArgument).keyword = body.keyword := by
  cases body <;> rfl

/-- The type is what the blocks of its name declare: it is of their kind, and lists what they list,
with types written out. -/
structure TypeDefinition.IsDeclaredIn (s : Subgraph) (roots : RootTypes) (blocks : List TypeBlock)
    (e : TypeDefinition) : Prop where
  keyword : ∀ block ∈ Document.composedBlocks s blocks, roots.canonicalName block.name = e.name →
    e.body.keyword = block.body.kind.keyword
  outline : e.body.outline.Lists ((Document.outlineOf s roots blocks e.name).map TypeRef.text)

section

variable {set : SubgraphSet} {s : Subgraph} {m : MergedSchema} {roots : RootTypes}
  {blocks : List TypeBlock} (h : set.HasOnly s) (hm : MergedSchema.ofSubgraphs set = .ok m)
  (hreflects : s.Reflects roots blocks) (hparts : ∀ d ∈ s.definitions, d.outline.HasParts d.kind)

include h hm hparts

/-- Clients see all types of the only subgraph. -/
theorem types_strip_alone :
    (emit set m).strip.types = (emit set m).types.map TypeDefinition.bare :=
  congrArg (List.map TypeDefinition.bare) (types_visible_alone h hm hparts)

include hreflects

/-- Clients see the types that the document declares. -/
theorem perm_names_strip_alone :
    ((emit set m).strip.types.map TypeDefinition.name).Perm (Attributes.distinct
      ((Document.composedBlocks s blocks).map fun block => roots.canonicalName block.name)) := by
  rw [types_strip_alone h hm hparts, List.map_map, ← hreflects.names]
  exact perm_names_emit_alone h hm

/-- Clients see each type as the document declares it. -/
theorem isDeclaredIn_of_mem_strip_alone (hdoc : Document.StandsAlone s roots blocks)
    {e : TypeDefinition} (he : e ∈ (emit set m).strip.types) : e.IsDeclaredIn s roots blocks := by
  rw [types_strip_alone h hm hparts] at he
  obtain ⟨emitted, hemitted, rfl⟩ := List.mem_map.mp he
  obtain ⟨d, hd, hname, hkeyword, houtline⟩ :=
    exists_of_mem_emit_alone h hm (fun _ => hreflects.fits hdoc) hemitted
  constructor
  · intro block hblock hblockname
    rw [← hreflects.kind_eq hdoc hd hblock (hblockname.trans hname), ← hkeyword]
    exact Body.keyword_mapDirectives _ _ _
  · show (emitted.body.mapDirectives _ _).outline.Lists _
    rw [Body.outline_mapDirectives, houtline]
    show (d.outline.map _).Lists ((Document.outlineOf s roots blocks emitted.name).map _)
    rw [hname]
    exact (hreflects.outlines d hd).lists.map _

end

end Supergraph

/-- A directory of users, with a root type of another name and a type in two blocks. -/
def SchemaSource.directory : SchemaSource :=
  ⟨"schema\x7bquery:Root\x7dtype Root\x7buser(id:ID!):User all:[Entry!]\x7d" ++
    "interface Node\x7bid:ID!\x7dtype User implements Node@key(fields:\"id\")\x7bid:ID!" ++
    " role:Role@tag(name:\"x\")\x7dextend type User\x7bfriends(by:Filter):[User]\x7d" ++
    "union Entry=User enum Role\x7bADMIN\x7dinput Filter\x7brole:Role\x7d", "a", none⟩

theorem SchemaSource.stands_alone_directory :
    ((Document.Schema.read directory.text).toOption.any fun schema =>
      (SubgraphSet.ofSources [directory]).toOption.any fun set =>
        !set.baseDiagnostics.1.anyFatal && set.subgraphs.all fun s =>
          decide (Document.StandsAlone s schema.roots schema.typeBlocks)) = true := by
  rw [SubgraphSet.ofSources_eq_foldlM_insertSource]
  decide +kernel

end Federation
