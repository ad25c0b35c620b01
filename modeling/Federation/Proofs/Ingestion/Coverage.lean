import Federation.Proofs.Ingestion.Mentions
import Federation.Proofs.Merge.Consensus

/-!
# Taking in a schema mentions what it holds

Every part of a schema, from a single directive to all type blocks, is taken in by a step that
mentions each text before the subgraph holds it. Sorting the parts of types afterwards adds no text.
-/

namespace Federation

open Ingestion

variable {known : List String}

/-! ## Directives -/

namespace Attributes

theorem flatten_distinct_subset (groups : List (List String)) :
    (distinct groups).flatten ⊆ groups.flatten := by
  intro text htext
  obtain ⟨group, hgroup, hmem⟩ := List.mem_flatten.mp htext
  exact List.mem_flatten.mpr ⟨group, mem_distinct.mp hgroup, hmem⟩

theorem covers_ingestFieldSet (location : String) (directive : Document.Directive)
    (directiveName : String) (wrongType unusable : ErrorCode) :
    Covers known (ingestFieldSet location directive directiveName wrongType unusable)
      fun selections => selections.toList.flatMap Selection.mentionsOfAll := by
  unfold ingestFieldSet
  split
  · exact (keeps_report _ _).bind fun _ => keeps_pure none
  · refine (covers_readFieldSet _).bind fun result => ?_
    split
    · refine covers_pure ?_
      grind [mentionsOfRead]
    · exact (keeps_report _ _).bind fun _ => keeps_pure none

/-- What a directive adds to the attributes has been mentioned, whatever its role. -/
theorem covers_ingestRole (location : String) {a : Attributes} (directive : Document.Directive)
    (role : DirectiveRole) (ha : a.mentions ⊆ known) :
    Covers known (ingestRole location a directive role) mentions := by
  have hreport : ∀ code message, Covers known (do report code message; return a) mentions :=
    fun code message => (keeps_report code message).bind fun _ => covers_pure ha
  unfold ingestRole
  cases role with
  | key | extended | external | interfaceObject | shareable => exact covers_pure ha
  | authenticated | inaccessible => exact (keeps_useFeatures _).bind fun _ => covers_pure ha
  | cost =>
    dsimp only
    split
    · exact (keeps_useFeatures _).bind fun _ => covers_pure ha
    · exact hreport _ _
  | listSize =>
    dsimp only
    split
    · refine (covers_mentionAll _).bind fun _ => (covers_mentionAll _).bind fun _ =>
        (keeps_useFeatures _).bind fun _ => covers_pure ?_
      grind
    · exact hreport _ _
  | deprecated =>
    dsimp only
    split
    · refine (covers_mentionOptional _).bind fun _ => covers_pure ?_
      grind
    · exact hreport _ _
  | override =>
    -- both texts are mentioned even if the directive is refused
    refine (covers_mentionOptional _).bind fun _ => (covers_mentionOptional _).bind fun _ => ?_
    split
    · refine covers_pure ?_
      grind
    · exact (keeps_report _ _).bind fun _ => covers_pure (by grind)
  | policy | requiresScopes =>
    refine (covers_mentionAll _).bind fun _ => (keeps_useFeatures _).bind fun _ => covers_pure ?_
    grind [flatten_distinct_subset]
  | provides | requires =>
    refine (covers_ingestFieldSet _ _ _ _ _).bind fun selections => ?_
    split
    · refine covers_pure ?_
      grind
    · exact covers_pure (by grind)
  | tag =>
    dsimp only
    split
    · exact covers_pure ha
    · refine (covers_mention _).bind fun _ => (keeps_useFeatures _).bind fun _ => covers_pure ?_
      grind [mem_addNew]

theorem covers_ingestDirective (location : String) {a : Attributes}
    (directive : Document.Directive) (ha : a.mentions ⊆ known) :
    Covers known (ingestDirective location a directive) mentions := by
  have ha' : ∀ s : Subgraph, a.mentions ⊆ s.mentions ++ known :=
    fun _ => List.Subset.trans ha (List.subset_append_right _ _)
  refine covers_subgraph_bind fun s => ?_
  split
  · exact covers_ingestRole location directive _ (ha' s)
  · exact covers_pure (ha' s)

theorem covers_ingest (location : String) {a : Attributes} (directives : List Document.Directive)
    (ha : a.mentions ⊆ known) : Covers known (Attributes.ingest location a directives) mentions :=
  covers_foldlM (fun _ _ directive h => covers_ingestDirective location directive h) ha

theorem covers_ingest_default (location : String) (directives : List Document.Directive) :
    Covers known (Attributes.ingest location {} directives) mentions :=
  covers_ingest location directives (List.nil_subset _)

end Attributes

theorem keeps_ingestKey (typeName : String) (directive : Document.Directive) :
    Keeps known (ingestKey typeName directive) := by
  unfold ingestKey
  split
  · exact keeps_report _ _
  · refine (covers_readFieldSet _).bind fun result => ?_
    split
    · refine keeps_modifyDefinition fun d => ?_
      grind [mentionsOfRead]
    · exact keeps_report _ _

theorem keeps_ingestKeys (typeName : String) (directives : List Document.Directive) :
    Keeps known (ingestKeys typeName directives) :=
  covers_subgraph_bind fun _ => keeps_forM fun _ => keeps_ingestKey typeName _

/-! ## Schema blocks -/

theorem keeps_ingestImport (url : String) (spec : Spec) (entry : Document.Literal) :
    Keeps known (ingestImport url spec entry) := by
  unfold ingestImport
  split
  · exact keeps_report _ _
  · split
    · exact keeps_report _ _
    · refine (covers_mention _).bind fun _ => (covers_mention _).bind fun _ =>
        keeps_modifySubgraph fun s => ?_
      grind

theorem keeps_ingestSpec (directive : Document.Directive) (url : String) (named : SpecUrl) :
    Keeps known (ingestSpec directive url named) := by
  refine (covers_mention _).bind fun _ => (covers_mention _).bind fun _ => ?_
  refine Covers.bind (keeps_modifySubgraph fun s => ?_) fun _ =>
    keeps_forM fun _ => keeps_ingestImport _ _ _
  grind

theorem keeps_ingestLink (directive : Document.Directive) :
    Keeps known (ingestLink directive) := by
  unfold ingestLink
  split
  · exact keeps_report _ _
  · split
    · exact keeps_report _ _
    · split
      · split
        · refine Covers.bind (keeps_modifySubgraph fun _ => ?_) fun _ => keeps_ingestSpec _ _ _
          exact List.subset_append_right _ _
        · exact keeps_report _ _
      · exact keeps_ingestSpec _ _ _

theorem keeps_ingestSchemaBlocks (blocks : List Document.SchemaBlock) :
    Keeps known (ingestSchemaBlocks blocks) := by
  refine covers_foldlM (fun _ roots block _ => ?_) (List.nil_subset _)
  exact (keeps_forM fun _ => keeps_ingestLink _).bind fun _ => keeps_pure _

/-! ## Heads of types -/

/-- A type without parts and attributes holds its name and its description. -/
theorem TypeDef.mentions_founded (name : String) (kind : TypeKind) (description : Option String)
    (isExtension : Bool) :
    mentions { name, kind, description, isExtension } = name :: description.toList := by
  simp [mentions, Attributes.mentions]

theorem RootTypes.mentions_set_subset (r : RootTypes) (root : RootOperation) (name : String) :
    (r.set root name).mentions ⊆ name :: r.mentions := by
  cases root <;> grind [set, mentions]

/-- The name of a type that is found or founded has been mentioned. -/
theorem covers_foundType (typeName : String) (kind : TypeKind) (isExtension : Bool)
    (description : Option String) (hdescription : description.toList ⊆ known) :
    Covers known (foundType typeName kind isExtension description)
      fun found => if found then [typeName] else [] := by
  refine covers_subgraph_bind fun s => ?_
  dsimp only
  split
  · refine (covers_mention _).bind fun _ => Covers.bind (keeps_modifySubgraph fun s => ?_)
      fun _ => covers_pure ?_
    · rw [Subgraph.mentions_addDefinition, TypeDef.mentions_founded]
      grind
    · grind
  · rename_i existing hexisting
    -- the name of a type that is found was mentioned when the type was founded
    have hname : typeName ∈ s.mentions := by
      rw [← Subgraph.name_of_definition? hexisting]
      exact Subgraph.mentions_subset_of_mem (Subgraph.mem_of_definition? hexisting)
        existing.name_mem_mentions
    split
    · refine Covers.bind (keeps_modifyDefinition fun d => ?_) fun _ => covers_pure ?_
      · grind [Option.or_eq_some_iff]
      · grind
    · exact (keeps_report _ _).bind fun _ => keeps_pure false

theorem keeps_registerRoot (roots : RootTypes) (block : Document.TypeBlock) {typeName : String}
    (h : typeName ∈ known) : Keeps known (registerRoot roots block typeName) := by
  unfold registerRoot
  split
  · rename_i root _
    refine keeps_modifySubgraph fun s => ?_
    grind [RootTypes.mentions_set_subset]
  · exact keeps_report _ _
  · exact keeps_pure ()

theorem keeps_ingestTypeDirectives (typeName : String) (block : Document.TypeBlock) :
    Keeps known (ingestTypeDirectives typeName block) := by
  refine covers_subgraph_bind fun s => ?_
  -- the directives add to attributes that the subgraph holds already
  have hbefore : (((s.definition? typeName).map TypeDef.attributes).getD {}).mentions ⊆
      s.mentions := by
    cases hd : s.definition? typeName with
    | none => exact List.nil_subset _
    | some d =>
      refine List.Subset.trans ?_ (Subgraph.mentions_subset_of_mem (Subgraph.mem_of_definition? hd))
      grind
  refine (Attributes.covers_ingest _ _ (List.Subset.trans hbefore
    (List.subset_append_left _ _))).bind fun attributes => ?_
  refine Covers.bind (keeps_modifyDefinition fun d => ?_) fun _ =>
    (keeps_ingestKeys _ _).bind fun _ => ?_
  · grind
  · split
    · exact keeps_modifyDefinition fun _ => List.subset_append_right _ _
    · exact keeps_pure _

theorem keeps_ingestTypeHead (roots : RootTypes) (block : Document.TypeBlock) :
    Keeps known (ingestTypeHead roots block) := by
  refine covers_subgraph_bind fun s => ?_
  dsimp only
  split
  · exact keeps_pure _
  · refine (covers_describe _).bind fun description => ?_
    refine (covers_foundType _ _ _ _ (List.subset_append_left _ _)).bind fun found => ?_
    split
    · split
      · refine (keeps_registerRoot _ _ ?_).bind fun _ => keeps_ingestTypeDirectives _ _
        grind
      · exact keeps_ingestTypeDirectives _ _
    · exact keeps_pure _

/-! ## Parts of types -/

theorem covers_ingestDefault (literal : Option Document.Literal) :
    Covers known (ingestDefault literal) fun value => value.toList.flatMap Value.mentions := by
  unfold ingestDefault
  split
  · exact keeps_pure none
  · refine (covers_mentionAll _).bind fun _ => covers_pure ?_
    grind

theorem covers_ingestArgument (coordinate : String) (decl : Document.InputDecl) :
    Covers known (ingestArgument coordinate decl) Argument.mentions := by
  refine (covers_mentionType _).bind fun _ => (Attributes.covers_ingest_default _ _).bind fun _ =>
    (covers_describe _).bind fun _ => (covers_ingestDefault _).bind fun _ =>
      (covers_mention _).bind fun _ => covers_pure ?_
  grind [Argument.mentions]

theorem keeps_addField (typeName what : String) {field : Field} (h : field.mentions ⊆ known) :
    Keeps known (addField typeName what field) := by
  refine covers_subgraph_bind fun s => ?_
  dsimp only
  split
  · refine keeps_modifyDefinition fun d => ?_
    grind
  · exact keeps_report _ _

theorem keeps_ingestField (roots : RootTypes) (typeName : String) (inExtension : Bool)
    (decl : Document.FieldDecl) : Keeps known (ingestField roots typeName inExtension decl) := by
  unfold ingestField
  split
  · exact keeps_pure _
  · refine (covers_mentionType _).bind fun _ =>
      (Attributes.covers_ingest_default _ _).bind fun _ =>
        (covers_mapM fun _ => covers_ingestArgument _).bind fun _ => (covers_describe _).bind fun _ =>
          (covers_mention _).bind fun _ => keeps_addField _ _ ?_
    grind [Field.mentions]

theorem keeps_ingestInputField (typeName : String) (inExtension : Bool)
    (decl : Document.InputDecl) : Keeps known (ingestInputField typeName inExtension decl) := by
  refine (covers_mentionType _).bind fun _ => (Attributes.covers_ingest_default _ _).bind fun _ =>
    (covers_describe _).bind fun _ => (covers_ingestDefault _).bind fun _ =>
      (covers_mention _).bind fun _ => keeps_addField _ _ ?_
  grind [Field.mentions]

theorem keeps_ingestEnumValue (typeName : String) (decl : Document.EnumValueDecl) :
    Keeps known (ingestEnumValue typeName decl) := by
  refine (Attributes.covers_ingest_default _ _).bind fun _ => (covers_describe _).bind fun _ =>
    (covers_mention _).bind fun _ => covers_subgraph_bind fun s => ?_
  dsimp only
  split
  · exact keeps_report _ _
  · refine keeps_modifyDefinition fun d => ?_
    grind [EnumValue.mentions]

/-- The name of a type that a subgraph defines is among its texts. -/
theorem Subgraph.mem_mentions_of_defines {s : Subgraph} {name : String}
    (h : s.defines name = true) : name ∈ s.mentions := by
  obtain ⟨d, hd, hname⟩ := List.any_eq_true.mp h
  rw [← beq_iff_eq.mp hname]
  exact Subgraph.mentions_subset_of_mem hd d.name_mem_mentions

theorem keeps_ingestMember (roots : RootTypes) (typeName member : String) :
    Keeps known (ingestMember roots typeName member) := by
  refine covers_subgraph_bind fun s => ?_
  split
  · have hname := Subgraph.mem_mentions_of_defines ‹_›
    refine keeps_modifyDefinition fun d => ?_
    grind [Attributes.mem_addNew]
  · exact keeps_report _ _

theorem keeps_ingestInterface (typeName name : String) :
    Keeps known (ingestInterface typeName name) := by
  refine covers_subgraph_bind fun s => ?_
  split
  · have hname := Subgraph.mem_mentions_of_defines ‹_›
    refine keeps_modifyDefinition fun d => ?_
    grind [Attributes.mem_addNew]
  · exact keeps_report _ _

theorem keeps_ingestBody (roots : RootTypes) (typeName : String) (inExtension : Bool)
    (body : Document.TypeBody) : Keeps known (ingestBody roots typeName inExtension body) := by
  cases body with
  | object interfaces fields | interface interfaces fields =>
    exact (keeps_forM fun _ => keeps_ingestInterface _ _).bind fun _ =>
      keeps_forM fun _ => keeps_ingestField _ _ _ _
  | union members => exact keeps_forM fun _ => keeps_ingestMember _ _ _
  | enum values => exact keeps_forM fun _ => keeps_ingestEnumValue _ _
  | inputObject fields => exact keeps_forM fun _ => keeps_ingestInputField _ _ _
  | scalar => exact keeps_pure _

theorem keeps_ingestTypeBody (roots : RootTypes) (block : Document.TypeBlock) :
    Keeps known (ingestTypeBody roots block) := by
  refine covers_subgraph_bind fun s => ?_
  dsimp only
  split
  · exact keeps_pure _
  · split
    · exact keeps_pure _
    · split
      · exact keeps_ingestBody _ _ _ _
      · exact keeps_pure _

/-- **A whole schema is taken in without a text that is held but not mentioned.** -/
theorem keeps_ingestSchema (schema : Document.Schema) :
    Keeps known (SubgraphSet.ingestSchema schema) :=
  (keeps_ingestSchemaBlocks _).bind fun _ =>
    (keeps_forM fun _ => keeps_ingestTypeHead _ _).bind fun _ =>
      keeps_forM fun _ => keeps_ingestTypeBody _ _

/-! ## Completion -/

namespace Subgraph

/-- Noting the uses of fields and types adds no text. -/
theorem mentions_withUsages_subset (s : Subgraph) : s.withUsages.mentions ⊆ s.mentions := by
  refine mentions_mapDefinitions_subset (List.Subset.refl _) fun d hd => ?_
  refine List.Subset.trans (fun text htext => ?_) (mentions_subset_of_mem hd)
  unfold TypeDef.mentions at htext
  rw [List.flatMap_map] at htext
  exact htext

/-- Members and interfaces are taken from the types of the subgraph, and fields are only sorted. -/
theorem mentions_sorted_subset (s : Subgraph) (names : NameTable) :
    (s.sorted names).mentions ⊆ s.mentions := by
  have hnames : ∀ list : List String, (s.definitionsIn list).map TypeDef.name ⊆ s.mentions := by
    intro list name hname
    obtain ⟨d, hd, rfl⟩ := List.mem_map.mp hname
    exact mentions_subset_of_mem (List.mem_filter.mp hd).1 d.name_mem_mentions
  refine mentions_mapDefinitions_subset (List.Subset.refl _) fun d hd text htext => ?_
  have hold : text ∈ d.mentions → text ∈ s.mentions := @mentions_subset_of_mem s d hd text
  rw [TypeDef.mem_mentions] at htext hold
  simp only [or_imp] at hold
  obtain ⟨hname, hdescription, hattributes, hkeys, hfields, hvalues, -⟩ := hold
  simp only [(names.perm_sortBy Field.name d.fields).mem_iff] at htext
  rcases htext with h | h | h | h | h | h | h | h
  exacts [hname h, hdescription h, hattributes h, hkeys h, hfields h, hvalues h, hnames _ h,
    hnames _ h]

end Subgraph

namespace SubgraphSet

/-- What is built of a schema holds only texts that have been mentioned. -/
theorem covers_build (schema : Document.Schema) (names : NameTable) (empty : Subgraph) :
    let p := build schema names empty
    names.GrowsTo p.names ∧ (empty.mentions ⊆ names.toList → p.IsCovered) := by
  obtain ⟨hgrows, hcovers⟩ := @keeps_ingestSchema [] schema { names, subgraph := empty }
  refine ⟨hgrows, fun hempty => ?_⟩
  refine List.Subset.trans (Subgraph.mentions_sorted_subset _ _) ?_
  refine List.Subset.trans (Subgraph.mentions_withUsages_subset _) ?_
  exact (hcovers hempty (List.nil_subset _)).1

end SubgraphSet

end Federation
