import Federation.Proofs.Ingestion.Evaluation
import Federation.Proofs.Supergraph.JoinDirectives
import Federation.Proofs.Supergraph.PublicText
import Federation.Proofs.Validation.Rules

/-!
# Definitions of directives

The supergraph schema defines the directives that it applies, except for `@deprecated`, which is
part of GraphQL. The definitions are texts, and what they define is read off them. The join
directives and `@link` are always defined, and the directives of a feature whenever the feature is
linked.
-/

namespace Federation

/-! ## Reading definitions -/

/-- What a directive definition defines: a name, and the names of arguments. -/
structure Document.DirectiveHead where
  name : String
  arguments : List String
deriving DecidableEq, Repr

/-- Reads a directive definition. -/
def Document.readDirectiveHead : Reader DirectiveHead := do
  Reader.expectName "directive"
  Reader.expect .atSign
  let name ← Reader.name
  let arguments ← readArgumentDecls
  let _ ← Reader.acceptName "repeatable"
  Reader.expectName "on"
  let _ ← Reader.separatedNames .pipe readLocation
  return { name, arguments := arguments.map InputDecl.name }

namespace Supergraph

open Document (DirectiveHead)

/-- What a block of a schema text defines, if it is a directive definition. -/
def definitionHead? (block : String) : Option DirectiveHead :=
  (Document.Reader.run Document.readDirectiveHead block).toOption

/-- The directive has been defined, with all arguments that it passes. -/
structure Directive.Fits (d : Directive) (head : DirectiveHead) : Prop where
  name : d.name = head.name
  arguments : d.arguments.map Prod.fst ⊆ head.arguments

namespace Model

/-- Some block of the supergraph schema is a definition. -/
def Defines (m : Model) (head : DirectiveHead) : Prop :=
  ∃ block ∈ m.supergraphBlocks, definitionHead? block = some head

/-- The supergraph schema defines a directive with its arguments. -/
def Declares (m : Model) (d : Directive) : Prop :=
  ∃ head, m.Defines head ∧ d.Fits head

end Model

/-! ## Join directives -/

/-- What is always defined. -/
def joinHeads : List DirectiveHead :=
  [⟨"join__enumValue", ["graph"]⟩, ⟨"join__graph", ["name", "url"]⟩,
    ⟨"join__implements", ["graph", "interface"]⟩,
    ⟨"join__type", ["graph", "key", "extension", "resolvable", "isInterfaceObject"]⟩,
    ⟨"join__unionMember", ["graph", "member"]⟩, ⟨"link", ["url", "as", "for", "import"]⟩]

/-- What is defined for fields. -/
def joinFieldHead (takesLabel : Bool) : DirectiveHead where
  name := "join__field"
  arguments :=
    ["graph", "requires", "provides", "type", "external", "override", "usedOverridden"] ++
      if takesLabel then ["overrideLabel"] else []

theorem map_definitionHead?_joinDefinitions :
    joinDefinitions.map definitionHead? = joinHeads.map some := by
  simp only [joinDefinitions, joinHeads, List.map_cons, List.map_nil, List.cons.injEq, and_true,
    definitionHead?, Document.Reader.run, Document.Token.scan_eq_scanFor]
  refine ⟨?_, ?_, ?_, ?_, ?_, ?_⟩ <;> rewrite [toList_eq_of_ofList_eq rfl] <;> decide +kernel

theorem definitionHead?_joinFieldDefinition (takesLabel : Bool) :
    definitionHead? (joinFieldDefinition takesLabel) = some (joinFieldHead takesLabel) := by
  simp only [definitionHead?, Document.Reader.run, Document.Token.scan_eq_scanFor]
  unfold joinFieldDefinition
  cases takesLabel with
  | false =>
    simp only [Bool.false_eq_true, if_false, String.append_empty, String.toList_append]
    rewrite [toList_eq_of_ofList_eq rfl, toList_eq_of_ofList_eq rfl]
    decide +kernel
  | true =>
    simp only [if_true, String.toList_append]
    rewrite [toList_eq_of_ofList_eq rfl, toList_eq_of_ofList_eq rfl, toList_eq_of_ofList_eq rfl]
    decide +kernel

namespace Model

theorem defines_of_mem_joinHeads (m : Model) {head : DirectiveHead} (h : head ∈ joinHeads) :
    m.Defines head := by
  have hmem : some head ∈ joinDefinitions.map definitionHead? := by
    rw [map_definitionHead?_joinDefinitions]
    exact List.mem_map_of_mem h
  obtain ⟨block, hblock, hhead⟩ := List.mem_map.mp hmem
  exact ⟨block, by simp [supergraphBlocks, hblock], hhead⟩

theorem defines_joinFieldHead (m : Model) :
    m.Defines (joinFieldHead (m.joinVersion? == some "v0.4")) :=
  ⟨_, by simp [supergraphBlocks], definitionHead?_joinFieldDefinition _⟩

end Model

/-! ## Features -/

/-- A directive that belongs to a feature. -/
structure FeatureDirective where
  head : DirectiveHead
  /-- The feature is in use. -/
  isUsed : Features → Bool
  /-- The URL of the feature's specification. -/
  url : String

/-- The directives that belong to features. -/
def featureDirectives : List FeatureDirective :=
  [⟨⟨"tag", ["name"]⟩, Features.tag, "https://specs.apollo.dev/tag/v0.3"⟩,
    ⟨⟨"inaccessible", []⟩, Features.inaccessible, "https://specs.apollo.dev/inaccessible/v0.2"⟩,
    ⟨⟨"authenticated", []⟩, Features.authenticated, "https://specs.apollo.dev/authenticated/v0.1"⟩,
    ⟨⟨"requiresScopes", ["scopes"]⟩, Features.requiresScopes,
      "https://specs.apollo.dev/requiresScopes/v0.1"⟩,
    ⟨⟨"policy", ["policies"]⟩, Features.policy, "https://specs.apollo.dev/policy/v0.1"⟩,
    ⟨⟨"cost", ["weight"]⟩, Features.cost, "https://specs.apollo.dev/cost/v0.1"⟩,
    ⟨⟨"listSize",
      ["assumedSize", "slicingArguments", "sizedFields", "requireOneSlicingArgument"]⟩,
      Features.cost, "https://specs.apollo.dev/cost/v0.1"⟩]

/-- What is defined for features. -/
def featureHeads : List DirectiveHead :=
  featureDirectives.map FeatureDirective.head

/-- What the definitions of each feature define. -/
def definedFeatures : List (String × List (Option DirectiveHead)) :=
  [("https://specs.apollo.dev/tag/", [some ⟨"tag", ["name"]⟩]),
    ("https://specs.apollo.dev/inaccessible/", [some ⟨"inaccessible", []⟩]),
    ("https://specs.apollo.dev/authenticated/", [some ⟨"authenticated", []⟩]),
    ("https://specs.apollo.dev/requiresScopes/", [some ⟨"requiresScopes", ["scopes"]⟩, none]),
    ("https://specs.apollo.dev/policy/", [some ⟨"policy", ["policies"]⟩, none]),
    ("https://specs.apollo.dev/cost/",
      [some ⟨"cost", ["weight"]⟩,
        some ⟨"listSize",
          ["assumedSize", "slicingArguments", "sizedFields", "requireOneSlicingArgument"]⟩])]

theorem map_definitionHead?_featureDefinitions :
    featureDefinitions.map (Prod.map id (List.map definitionHead?)) = definedFeatures := by
  simp only [featureDefinitions, definedFeatures, List.map_cons, List.map_nil, Prod.map_apply,
    id_eq, List.cons.injEq, Prod.mk.injEq, true_and, and_true, definitionHead?,
    Document.Reader.run, Document.Token.scan_eq_scanFor]
  refine ⟨?_, ?_, ?_, ⟨?_, ?_⟩, ⟨?_, ?_⟩, ?_, ?_⟩ <;> rewrite [toList_eq_of_ofList_eq rfl] <;>
    decide +kernel

/-- The directives of a feature are defined with its specification. -/
theorem exists_definedFeature : ∀ f ∈ featureDirectives, ∃ e ∈ definedFeatures,
    some f.head ∈ e.2 ∧ (afterPrefix? e.1 f.url).isSome = true := by
  decide +kernel

/-- A feature in use is linked. -/
theorem url_mem_linksFor {features : Features} (overrideLabels : Bool) :
    ∀ f ∈ featureDirectives, f.isUsed features = true →
      f.url ∈ (linksFor features overrideLabels).map Link.url := by
  simp +contextual [featureDirectives, linksFor, linkIf]

/-- Directives that are applied put their features to use. -/
theorem isUsed_featuresOf {directives : List Directive} {d : Directive} (hd : d ∈ directives) :
    ∀ f ∈ featureDirectives, d.name = f.head.name → f.isUsed (featuresOf directives) = true := by
  have hhas : ∀ name, d.name = name → (directives.any fun d => d.name == name) = true :=
    fun name hname => List.any_eq_true.mpr ⟨d, hd, beq_iff_eq.mpr hname⟩
  simp +contextual [featureDirectives, featuresOf, hhas]

/-- A directive is defined if its feature is linked. -/
theorem Model.defines_of_linked {m : Model} {f : FeatureDirective} (hf : f ∈ featureDirectives)
    (hlinked : f.url ∈ m.links.map Link.url) : m.Defines f.head := by
  obtain ⟨l, hl, hurl⟩ := List.mem_map.mp hlinked
  obtain ⟨e, he, hhead, hstart⟩ := exists_definedFeature f hf
  rw [← map_definitionHead?_featureDefinitions] at he
  obtain ⟨feature, hfeature, rfl⟩ := List.mem_map.mp he
  obtain ⟨block, hblock, hhead⟩ := List.mem_map.mp hhead
  have hany : (m.links.any fun l => (afterPrefix? feature.1 l.url).isSome) = true :=
    List.any_eq_true.mpr ⟨l, hl, hurl ▸ hstart⟩
  have hdefinition : block ∈ linkedDefinitions m :=
    List.mem_flatMap.mpr ⟨feature, List.mem_filter.mpr ⟨hfeature, hany⟩, hblock⟩
  exact ⟨block, by simp [supergraphBlocks, hdefinition], hhead⟩

/-! ## What parts carry -/

/-- A directive that has a definition, or needs none. -/
inductive Directive.IsKnown (takesLabel : Bool) (d : Directive) : Prop where
  | deprecated (h : d.name = "deprecated")
  | join (head : DirectiveHead) (hhead : head ∈ joinHeads) (h : d.Fits head)
  | joinField (h : d.Fits (joinFieldHead takesLabel))
  | feature (head : DirectiveHead) (hhead : head ∈ featureHeads) (h : d.Fits head)

theorem mem_directiveIf {holds : Bool} {d d' : Directive} :
    d ∈ directiveIf holds d' ↔ holds = true ∧ d = d' := by
  cases holds <;> simp [directiveIf]

section

variable {name : String} {declared : List String} (h : name ∈ declared)

include h

theorem map_fst_optionalArgument_subset {α : Type} (toValue : α → Value) (value : Option α) :
    (optionalArgument name toValue value).map Prod.fst ⊆ declared := by
  cases value <;> simp [optionalArgument, h]

theorem map_fst_flagArgument_subset (value : Bool) :
    (flagArgument name value).map Prod.fst ⊆ declared := by
  cases value <;> simp [flagArgument, h]

theorem map_fst_denialArgument_subset (value : Bool) :
    (denialArgument name value).map Prod.fst ⊆ declared := by
  cases value <;> simp [denialArgument, h]

end

theorem fits_joinField (names : GraphNames) (field : MergedField) (id : SubgraphId)
    (f : FieldInGraph) : (joinField names field id f).Fits (joinFieldHead true) := by
  refine ⟨rfl, ?_⟩
  simp only [joinField, graphArgument, List.map_cons, List.map_append, List.cons_subset,
    List.append_subset]
  refine ⟨by decide, ⟨⟨⟨⟨⟨?_, ?_⟩, ?_⟩, ?_⟩, ?_⟩, ?_⟩⟩
  · exact map_fst_optionalArgument_subset (by decide) _ _
  · exact map_fst_optionalArgument_subset (by decide) _ _
  · split
    · exact List.nil_subset _
    · simp [joinFieldHead]
  · exact map_fst_flagArgument_subset (by decide) _
  · exact map_fst_optionalArgument_subset (by decide) _ _
  · exact map_fst_optionalArgument_subset (by decide) _ _

theorem fits_listSizeDirective (l : ListSize) : (listSizeDirective l).Fits ⟨"listSize",
    ["assumedSize", "slicingArguments", "sizedFields", "requireOneSlicingArgument"]⟩ := by
  refine ⟨rfl, ?_⟩
  simp only [listSizeDirective, List.map_append, List.append_subset]
  refine ⟨⟨⟨?_, ?_⟩, ?_⟩, ?_⟩
  · exact map_fst_optionalArgument_subset (by decide) _ _
  · split <;> simp
  · split <;> simp
  · exact map_fst_denialArgument_subset (by decide) _

theorem fits_joinType (names : GraphNames) (id : SubgraphId) (d : TypeDef) (key : Option Key) :
    (joinType names id d key).Fits
      ⟨"join__type", ["graph", "key", "extension", "resolvable", "isInterfaceObject"]⟩ := by
  refine ⟨rfl, ?_⟩
  simp only [joinType, graphArgument, List.map_cons, List.map_append, List.cons_subset,
    List.append_subset]
  refine ⟨by decide, ⟨⟨⟨?_, ?_⟩, ?_⟩, ?_⟩⟩
  · exact map_fst_optionalArgument_subset (by decide) _ _
  · exact map_fst_flagArgument_subset (by decide) _
  · exact map_fst_denialArgument_subset (by decide) _
  · exact map_fst_flagArgument_subset (by decide) _

namespace Directive.IsKnown

variable {d : Directive} {takesLabel : Bool} {names : GraphNames}

theorem of_mem_metadataDirectives {m : Metadata} (h : d ∈ metadataDirectives m) :
    d.IsKnown takesLabel := by
  simp only [metadataDirectives, tagDirectives, List.mem_append, List.mem_map, mem_directiveIf]
    at h
  rcases h with (((((⟨tag, -, rfl⟩ | ⟨-, rfl⟩) | ⟨-, rfl⟩) | ⟨-, rfl⟩) | ⟨-, rfl⟩) |
    ⟨weight, -, rfl⟩) | ⟨deprecation, -, rfl⟩
  · exact .feature ⟨"tag", ["name"]⟩ (by decide) ⟨rfl, by simp⟩
  · exact .feature ⟨"inaccessible", []⟩ (by decide) ⟨rfl, by simp [inaccessible]⟩
  · exact .feature ⟨"authenticated", []⟩ (by decide) ⟨rfl, by simp⟩
  · exact .feature ⟨"requiresScopes", ["scopes"]⟩ (by decide) ⟨rfl, by simp⟩
  · exact .feature ⟨"policy", ["policies"]⟩ (by decide) ⟨rfl, by simp⟩
  · exact .feature ⟨"cost", ["weight"]⟩ (by decide) ⟨rfl, by simp⟩
  · exact .deprecated rfl

theorem of_mem_joinFields {field : MergedField} {count : Nat}
    (h : d ∈ joinFields names field count) : d.IsKnown true := by
  unfold joinFields at h
  split at h
  · obtain rfl := List.mem_singleton.mp h
    exact .joinField ⟨rfl, by simp⟩
  · split at h
    · obtain ⟨e, -, rfl⟩ := List.mem_map.mp h
      exact .joinField (fits_joinField names field e.1 e.2)
    · cases h

theorem of_mem_joinDirectives {t : MergedType} (h : d ∈ joinDirectives names t) :
    d.IsKnown takesLabel := by
  have hplain : d ∈ t.byGraph.ids.map (joinPlainType names) → d.IsKnown takesLabel := by
    intro h
    obtain ⟨id, -, rfl⟩ := List.mem_map.mp h
    exact .join ⟨"join__type", ["graph", "key", "extension", "resolvable",
      "isInterfaceObject"]⟩ (by decide) ⟨rfl, by simp [joinPlainType, graphArgument]⟩
  have hcomposite : d ∈ t.byGraph.flatMap (fun e => joinTypes names e.1 e.2) ++
      t.byGraph.flatMap (fun e => joinImplements names e.1 e.2) → d.IsKnown takesLabel := by
    intro h
    rcases List.mem_append.mp h with h | h
    · obtain ⟨e, -, h⟩ := List.mem_flatMap.mp h
      obtain ⟨key, rfl⟩ := mem_joinTypes h
      exact .join _ (by decide) (fits_joinType names e.1 e.2 key)
    · obtain ⟨e, -, h⟩ := List.mem_flatMap.mp h
      obtain ⟨interface, -, rfl⟩ := List.mem_map.mp h
      exact .join ⟨"join__implements", ["graph", "interface"]⟩ (by decide)
        ⟨rfl, by simp [graphArgument]⟩
  unfold joinDirectives at h
  split at h
  · exact hcomposite h
  · exact hcomposite h
  · rcases List.mem_append.mp h with h | h
    · exact hplain h
    · obtain ⟨member, -, h⟩ := List.mem_flatMap.mp h
      obtain ⟨id, -, rfl⟩ := List.mem_map.mp h
      exact .join ⟨"join__unionMember", ["graph", "member"]⟩ (by decide)
        ⟨rfl, by simp [graphArgument]⟩
  · exact hplain h
  · exact hplain h
  · exact hplain h

theorem of_mem_emitField {field : MergedField} {count : Nat}
    (h : d ∈ (emitField names count field).directives ++
      (emitField names count field).arguments.flatMap Input.directives) : d.IsKnown true := by
  simp only [emitField, List.mem_append, List.mem_flatMap, List.mem_map] at h
  rcases h with ((h | h) | ⟨l, -, rfl⟩) | ⟨_, ⟨argument, -, rfl⟩, h⟩
  · exact of_mem_joinFields h
  · exact of_mem_metadataDirectives h
  · exact .feature _ (by decide) (fits_listSizeDirective l)
  · exact of_mem_metadataDirectives h

theorem of_mem_emitEnumValue {t : MergedType} {v : MergedEnumValue}
    (h : d ∈ (emitEnumValue names t v).directives) : d.IsKnown takesLabel := by
  simp only [emitEnumValue, List.mem_append, List.mem_map, mem_directiveIf] at h
  rcases h with (⟨id, -, rfl⟩ | h) | ⟨-, rfl⟩
  · exact .join ⟨"join__enumValue", ["graph"]⟩ (by decide)
      ⟨rfl, by simp [graphArgument]⟩
  · exact of_mem_metadataDirectives h
  · exact .feature ⟨"inaccessible", []⟩ (by decide) ⟨rfl, by simp [inaccessible]⟩

/-- All that is emitted for a type is known. -/
theorem of_mem_emitType {t : MergedType} (h : d ∈ (emitType names t).allDirectives) :
    d.IsKnown true := by
  have hfields : ∀ {fields : List MergedField}, d ∈
      (fields.map (emitField names t.byGraph.length)).flatMap (fun f =>
        f.directives ++ f.arguments.flatMap Input.directives) → d.IsKnown true := by
    intro fields h
    obtain ⟨f, hf, h⟩ := List.mem_flatMap.mp h
    obtain ⟨field, -, rfl⟩ := List.mem_map.mp hf
    exact of_mem_emitField h
  simp only [TypeDefinition.allDirectives, emitType, List.mem_append] at h
  rcases h with (h | h) | h
  · exact of_mem_joinDirectives h
  · exact of_mem_metadataDirectives h
  unfold emitBody at h
  split at h
  · exact hfields h
  · exact hfields h
  · cases h
  · obtain ⟨_, hv, h⟩ := List.mem_flatMap.mp h
    obtain ⟨v, -, rfl⟩ := List.mem_map.mp hv
    exact of_mem_emitEnumValue h
  · cases h
  · obtain ⟨_, hi, h⟩ := List.mem_flatMap.mp h
    obtain ⟨i, -, rfl⟩ := List.mem_map.mp hi
    exact of_mem_metadataDirectives h

/-- The definition without labels will do for a directive that passes none. -/
theorem of_argument?_eq_none (h : d.IsKnown true) (hlabel : d.argument? "overrideLabel" = none) :
    d.IsKnown false := by
  cases h with
  | deprecated h => exact .deprecated h
  | join head hhead h => exact .join head hhead h
  | feature head hhead h => exact .feature head hhead h
  | joinField h =>
    refine .joinField ⟨h.name, fun name hname => ?_⟩
    have hpassed : name ≠ "overrideLabel" := by
      rintro rfl
      obtain ⟨a, ha, hfst⟩ := List.mem_map.mp hname
      exact absurd hfst.symm (by simpa using List.lookup_eq_none_iff.mp hlabel a ha)
    simpa [joinFieldHead, hpassed] using h.arguments hname

end Directive.IsKnown

/-! ## The join version -/

theorem Model.joinVersion?_of_links {m : Model} {features : Features} {overrideLabels : Bool}
    (h : m.links = linksFor features overrideLabels) :
    m.joinVersion? = some (if overrideLabels then "v0.4" else "v0.3") := by
  have hfirst : afterPrefix? joinUrl "https://specs.apollo.dev/link/v1.0" = none := by
    decide +kernel
  have hjoin : ∀ takesLabel, afterPrefix? joinUrl (joinUrl ++ if takesLabel = true then "v0.4"
      else "v0.3") = some (if takesLabel = true then "v0.4" else "v0.3") := by
    decide +kernel
  simp [joinVersion?, h, linksFor, hfirst, hjoin]

/-! ## Applications -/

/-- The directive that tells of a subgraph. -/
def Graph.directive (g : Graph) : Directive where
  name := "join__graph"
  arguments := [("name", .string g.name), ("url", .string (g.url.getD ""))]

/-- All directives that a supergraph schema applies: to the schema, to its subgraphs, and to its
types and their parts. -/
def Model.applications (m : Model) : List Directive :=
  m.links.map Link.directive ++ m.graphs.map Graph.directive ++
    m.types.flatMap TypeDefinition.allDirectives

theorem fits_directive_link (l : Link) :
    l.directive.Fits ⟨"link", ["url", "as", "for", "import"]⟩ := by
  obtain ⟨url, purpose, imports⟩ := l
  refine ⟨rfl, ?_⟩
  cases purpose <;> cases imports <;> simp [Link.directive]

theorem fits_directive_graph (g : Graph) : g.directive.Fits ⟨"join__graph", ["name", "url"]⟩ :=
  ⟨rfl, by simp [Graph.directive]⟩

/-- A directive that is known is defined, if its feature is linked. -/
theorem Directive.IsKnown.declares {m : Model} {d : Directive}
    (h : d.IsKnown (m.joinVersion? == some "v0.4"))
    (hlinked : ∀ f ∈ featureDirectives, d.name = f.head.name → f.url ∈ m.links.map Link.url) :
    d.name = "deprecated" ∨ m.Declares d := by
  cases h with
  | deprecated h => exact .inl h
  | join _ hhead h => exact .inr ⟨_, m.defines_of_mem_joinHeads hhead, h⟩
  | joinField h => exact .inr ⟨_, m.defines_joinFieldHead, h⟩
  | feature _ hhead h =>
    obtain ⟨f, hf, rfl⟩ := List.mem_map.mp hhead
    exact .inr ⟨_, Model.defines_of_linked hf (hlinked f hf h.name), h⟩

/-- What is emitted is known. -/
theorem isKnown_of_mem_applications {set : SubgraphSet} {m : MergedSchema} {d : Directive}
    (h : d ∈ (emit set m).applications) :
    d.IsKnown (usesOverrideLabels ((emit set m).types.flatMap TypeDefinition.allDirectives)) := by
  rcases List.mem_append.mp h with h | h
  · rcases List.mem_append.mp h with h | h
    · obtain ⟨l, -, rfl⟩ := List.mem_map.mp h
      exact .join _ (by decide) (fits_directive_link l)
    · obtain ⟨g, -, rfl⟩ := List.mem_map.mp h
      exact .join _ (by decide) (fits_directive_graph g)
  · have hknown : d.IsKnown true := by
      obtain ⟨_, ht, h⟩ := List.mem_flatMap.mp h
      obtain ⟨t, -, rfl⟩ := List.mem_map.mp ht
      exact .of_mem_emitType h
    cases hlabels : usesOverrideLabels _ with
    | true => exact hknown
    | false =>
      have hlabel := List.any_eq_false.mp hlabels d h
      exact hknown.of_argument?_eq_none (by simpa using hlabel)

/-- The features of what is emitted are linked. -/
theorem url_mem_links_emit {set : SubgraphSet} {m : MergedSchema} {d : Directive}
    (h : d ∈ (emit set m).applications) : ∀ f ∈ featureDirectives, d.name = f.head.name →
      f.url ∈ (emit set m).links.map Link.url := by
  intro f hf hname
  have hlink : ∀ f ∈ featureDirectives, "link" ≠ f.head.name := by decide
  have hgraph : ∀ f ∈ featureDirectives, "join__graph" ≠ f.head.name := by decide
  have hunion : ∀ f ∈ featureDirectives, ∀ a b : Features, f.isUsed b = true →
      f.isUsed (a.union b) = true := by
    simp +contextual [featureDirectives, Features.union]
  rcases List.mem_append.mp h with h | h
  · rcases List.mem_append.mp h with h | h
    · obtain ⟨l, -, rfl⟩ := List.mem_map.mp h
      exact absurd hname (hlink f hf)
    · obtain ⟨g, -, rfl⟩ := List.mem_map.mp h
      exact absurd hname (hgraph f hf)
  · exact url_mem_linksFor _ f hf (hunion f hf _ _ (isUsed_featuresOf h f hf hname))

/-- The later join version goes with the labels. -/
theorem joinVersion?_emit (set : SubgraphSet) (m : MergedSchema) :
    (emit set m).joinVersion? = some
      (if usesOverrideLabels ((emit set m).types.flatMap TypeDefinition.allDirectives) then "v0.4"
        else "v0.3") :=
  Model.joinVersion?_of_links rfl

/-- Labels are passed by parts of types, and by nothing else. -/
theorem usesOverrideLabels_iff {set : SubgraphSet} {m : MergedSchema} :
    usesOverrideLabels ((emit set m).types.flatMap TypeDefinition.allDirectives) = true ↔
      ∃ d ∈ (emit set m).applications, (d.argument? "overrideLabel").isSome = true := by
  have hfits : ∀ {d : Directive} {head : DirectiveHead}, d.Fits head →
      "overrideLabel" ∉ head.arguments → (d.argument? "overrideLabel").isSome = false := by
    intro d head hd hhead
    rw [Option.isSome_eq_false_iff, Option.isNone_iff_eq_none]
    refine List.lookup_eq_none_iff.mpr fun a ha => ?_
    rw [bne_iff_ne]
    rintro heq
    exact hhead (hd.arguments (heq ▸ List.mem_map_of_mem ha))
  rw [usesOverrideLabels, List.any_eq_true]
  constructor
  · rintro ⟨d, hd, hlabel⟩
    exact ⟨d, List.mem_append_right _ hd, hlabel⟩
  · rintro ⟨d, hd, hlabel⟩
    rcases List.mem_append.mp hd with h | h
    · have hnone : (d.argument? "overrideLabel").isSome = false := by
        rcases List.mem_append.mp h with h | h
        · obtain ⟨l, -, rfl⟩ := List.mem_map.mp h
          exact hfits (fits_directive_link l) (by decide)
        · obtain ⟨g, -, rfl⟩ := List.mem_map.mp h
          exact hfits (fits_directive_graph g) (by decide)
      rw [hnone] at hlabel
      cases hlabel
    · exact ⟨d, h, hlabel⟩

/-! ## What is written -/

/-- A text is written as a part of another. -/
def IsWrittenIn (part whole : String) : Prop :=
  part.toList <:+: whole.toList

namespace IsWrittenIn

variable {part text whole other : String}

theorem trans (h : IsWrittenIn part text) (h' : IsWrittenIn text whole) : IsWrittenIn part whole :=
  List.IsInfix.trans h h'

theorem append_left (other : String) (h : IsWrittenIn part whole) :
    IsWrittenIn part (other ++ whole) := by
  rw [IsWrittenIn, String.toList_append]
  exact List.infix_append_of_infix_right h

theorem append_right (other : String) (h : IsWrittenIn part whole) :
    IsWrittenIn part (whole ++ other) := by
  rw [IsWrittenIn, String.toList_append]
  exact List.infix_append_of_infix_left h

theorem join {texts : List String} (h : text ∈ texts) : IsWrittenIn text (String.join texts) := by
  rw [IsWrittenIn, String.toList_join, List.flatMap_def]
  exact List.infix_of_mem_flatten (List.mem_map_of_mem h)

theorem intercalate (separator : String) {texts : List String} (h : text ∈ texts) :
    IsWrittenIn text (separator.intercalate texts) := by
  induction texts with
  | nil => cases h
  | cons first others ih =>
    cases others with
    | nil =>
      rw [String.intercalate_singleton, List.mem_singleton.mp h]
      exact List.infix_rfl
    | cons second others =>
      rw [String.intercalate_cons_cons]
      rcases List.mem_cons.mp h with rfl | h
      · exact append_right _ (append_right _ List.infix_rfl)
      · exact append_left _ (ih h)

end IsWrittenIn

section

variable {d : Directive}

theorem isWrittenIn_trailingDirectives {directives : List Directive} (h : d ∈ directives) :
    IsWrittenIn d.text (trailingDirectives .insiders directives) := by
  rw [trailingDirectives, Audience.filter_showsDirective_insiders]
  have hpart : IsWrittenIn d.text (" " ++ d.text) := .append_left _ List.infix_rfl
  exact hpart.trans (.join (List.mem_map_of_mem h))

theorem Input.isWrittenIn_text {i : Input} (h : d ∈ i.directives) :
    IsWrittenIn d.text (i.text .insiders) :=
  .append_left _ (isWrittenIn_trailingDirectives h)

theorem isWrittenIn_argumentsText {arguments : List Input} {i : Input} (hi : i ∈ arguments)
    (h : d ∈ i.directives) : IsWrittenIn d.text (argumentsText .insiders arguments) := by
  have hshown : arguments.filter (fun i => Audience.insiders.shows i.directives i.type) =
      arguments := List.filter_eq_self.mpr fun _ _ => rfl
  have htext := Input.isWrittenIn_text h
  unfold argumentsText
  rw [hshown]
  split
  · cases hi
  · have hline : IsWrittenIn (i.text .insiders) (i.lineText .insiders) :=
      .append_left _ List.infix_rfl
    split
    · refine .append_right _ (.append_right _ (.append_right _ (.append_left _ ?_)))
      exact htext.trans (hline.trans (.join (List.mem_map_of_mem hi)))
    · refine .append_right _ (.append_left _ ?_)
      exact htext.trans (.intercalate _ (List.mem_map_of_mem hi))

theorem Field.isWrittenIn_text {f : Field}
    (h : d ∈ f.directives ++ f.arguments.flatMap Input.directives) :
    IsWrittenIn d.text (f.text .insiders) := by
  refine .append_right _ ?_
  rcases List.mem_append.mp h with h | h
  · exact .append_left _ (isWrittenIn_trailingDirectives h)
  · obtain ⟨i, hi, h⟩ := List.mem_flatMap.mp h
    refine .append_right _ (.append_right _ (.append_right _ (.append_left _ ?_)))
    exact isWrittenIn_argumentsText hi h

theorem EnumValue.isWrittenIn_text {v : EnumValue} (h : d ∈ v.directives) :
    IsWrittenIn d.text (v.text .insiders) :=
  .append_right _ (.append_left _ (isWrittenIn_trailingDirectives h))

theorem Input.isWrittenIn_fieldText {i : Input} (h : d ∈ i.directives) :
    IsWrittenIn d.text (i.fieldText .insiders) :=
  .append_right _ (.append_left _ (Input.isWrittenIn_text h))

theorem isWrittenIn_braced {afterDirectives : Bool} {part : String} {parts : List String}
    (h : part ∈ parts) : IsWrittenIn part (braced afterDirectives parts) :=
  .append_right _ (.append_left _ (.join h))

theorem Body.isWrittenIn_text {body : Body} (afterDirectives : Bool) (h : d ∈ body.directives) :
    IsWrittenIn d.text (body.text .insiders afterDirectives) := by
  have hfields : ∀ {fields : List Field}, d ∈ fields.flatMap (fun f =>
      f.directives ++ f.arguments.flatMap Input.directives) → IsWrittenIn d.text
        (braced afterDirectives ((fields.filter fun f =>
          Audience.insiders.shows f.directives f.type).map (Field.text .insiders))) := by
    intro fields h
    obtain ⟨f, hf, h⟩ := List.mem_flatMap.mp h
    have hshown : f ∈ fields.filter fun f => Audience.insiders.shows f.directives f.type :=
      List.mem_filter.mpr ⟨hf, rfl⟩
    exact (Field.isWrittenIn_text h).trans (isWrittenIn_braced (List.mem_map_of_mem hshown))
  cases body with
  | object interfaces fields => exact hfields h
  | interface interfaces fields => exact hfields h
  | union members => cases h
  | enum values =>
    obtain ⟨v, hv, h⟩ := List.mem_flatMap.mp h
    rw [Body.text, Audience.filter_showsValue_insiders]
    exact (EnumValue.isWrittenIn_text h).trans (isWrittenIn_braced (List.mem_map_of_mem hv))
  | scalar => cases h
  | inputObject fields =>
    obtain ⟨i, hi, h⟩ := List.mem_flatMap.mp h
    have hshown : i ∈ fields.filter fun i => Audience.insiders.shows i.directives i.type :=
      List.mem_filter.mpr ⟨hi, rfl⟩
    exact (Input.isWrittenIn_fieldText h).trans
      (isWrittenIn_braced (List.mem_map_of_mem hshown))

theorem TypeDefinition.isWrittenIn_text {t : TypeDefinition} (h : d ∈ t.allDirectives) :
    IsWrittenIn d.text (t.text .insiders) := by
  unfold TypeDefinition.text
  rw [Audience.filter_showsDirective_insiders]
  rcases List.mem_append.mp h with h | h
  · have hline : IsWrittenIn d.text ("\n" ++ indent ++ d.text) := .append_left _ List.infix_rfl
    refine .append_right _ (.append_left _ ?_)
    exact hline.trans (.join (List.mem_map_of_mem h))
  · exact .append_left _ (Body.isWrittenIn_text _ h)

theorem isWrittenIn_of_mem_supergraphBlocks {m : Model} {block : String}
    (h : block ∈ m.supergraphBlocks) : IsWrittenIn block m.supergraphText :=
  .intercalate _ h

/-- The schema text shows every application. -/
theorem isWrittenIn_supergraphText {m : Model} (h : d ∈ m.applications) :
    IsWrittenIn d.text m.supergraphText := by
  rcases List.mem_append.mp h with h | h
  · rcases List.mem_append.mp h with h | h
    · obtain ⟨l, hl, rfl⟩ := List.mem_map.mp h
      have hline : IsWrittenIn l.directive.text (indent ++ l.directive.text ++ "\n") :=
        .append_right _ (.append_left _ List.infix_rfl)
      have hschema : IsWrittenIn l.directive.text (schemaText m) := by
        refine .append_right _ (.append_right _ (.append_right _ (.append_left _ ?_)))
        exact hline.trans (.join (List.mem_map_of_mem hl))
      exact hschema.trans (isWrittenIn_of_mem_supergraphBlocks (by simp [Model.supergraphBlocks]))
    · obtain ⟨g, hg, rfl⟩ := List.mem_map.mp h
      have hline : IsWrittenIn g.directive.text g.text :=
        .append_right _ (.append_left _ List.infix_rfl)
      have hgraphs : IsWrittenIn g.directive.text (graphsText m) := by
        refine .append_right _ (.append_left _ ?_)
        exact hline.trans (.join (List.mem_map_of_mem hg))
      exact hgraphs.trans (isWrittenIn_of_mem_supergraphBlocks (by simp [Model.supergraphBlocks]))
  · obtain ⟨t, ht, h⟩ := List.mem_flatMap.mp h
    refine (TypeDefinition.isWrittenIn_text h).trans (isWrittenIn_of_mem_supergraphBlocks ?_)
    exact List.mem_append_right _ (List.mem_map_of_mem ht)

end

/-! ## The main result -/

end Supergraph

/-- A schema whose field is taken over. -/
def SchemaSource.handingOver : SchemaSource :=
  ⟨"type Query\x7bx:Int y:Int@inaccessible\x7d", "a", none⟩

/-- A schema that takes a field over, to the extent that a label says. -/
def SchemaSource.takingOver : SchemaSource :=
  ⟨"type Query\x7bx:Int@override(from:\"a\",label:\"l\")\x7d", "b", none⟩

theorem SchemaSource.composes_takingOver :
    ((SubgraphSet.ofSources [handingOver, takingOver]).toOption.any fun set =>
      (MergedSchema.ofSubgraphs set).toOption.any fun m =>
        !(set.compose { runSatisfiability := false }).diagnostics.anyFatal &&
          ((Supergraph.emit set m).joinVersion? == some "v0.4" &&
            (Supergraph.emit set m).applications.any Supergraph.Directive.isInaccessible)) =
      true := by
  rw [SubgraphSet.ofSources_eq_foldlM_insertSource]
  decide +kernel

namespace Supergraph

end Supergraph

end Federation
