import Federation.Proofs.Ingestion.Declarations
import Federation.Proofs.Ingestion.Subgraphs
import Federation.Proofs.Merge.Consensus

/-!
# Subgraphs reflect their documents

A subgraph in which nothing fatal is found has the types of the blocks that do not serve federation
itself, with the roots under their usual names, and each type consists of what its blocks declare.
-/

namespace Federation

open Document (TypeBlock TypeBody)
open Ingestion

/-- The names that the schema blocks of a document choose for the roots. -/
def Document.Schema.roots (schema : Document.Schema) : RootTypes :=
  schema.schemaBlocks.foldl RootTypes.choose {}

/-! ## Reflecting a document -/

/-- The type consists of what an outline lists, in some order and without repetitions. -/
structure TypeDef.IsOutlinedBy (d : TypeDef) (o : Outline TypeRef) : Prop where
  fields : (d.fields.map Field.signature).Perm o.fields
  values : d.enumValues.map EnumValue.name = o.values
  members : d.members.Perm (Attributes.distinct o.members)
  interfaces : d.interfaces.Perm (Attributes.distinct o.interfaces)

/-- The types of the subgraph are those that the blocks of a document declare. -/
structure Subgraph.Reflects (s : Subgraph) (roots : RootTypes) (blocks : List TypeBlock) : Prop where
  names : s.definitions.map TypeDef.name = Attributes.distinct
    ((Document.composedBlocks s blocks).map fun block => roots.canonicalName block.name)
  kinds : ∀ block ∈ Document.composedBlocks s blocks, ∀ d ∈ s.definitions,
    d.name = roots.canonicalName block.name → d.kind = kindOf s block
  outlines : ∀ d ∈ s.definitions, d.IsOutlinedBy (Document.outlineOf s roots blocks d.name)
  defined : ∀ d ∈ s.definitions, ∀ other, other ∈ d.members ∨ other ∈ d.interfaces →
    s.defines other = true
  standalone : s.AppliesStandalone (blocks.flatMap TypeBlock.allDirectives) → s.IsStandalone

namespace Subgraph

variable {s t u : Subgraph} {roots : RootTypes} {blocks : List TypeBlock}

theorem Reflects.nodup_names (h : s.Reflects roots blocks) :
    (s.definitions.map TypeDef.name).Nodup := by
  rw [h.names]
  exact Attributes.nodup_distinct _

/-- A change of types that keeps what they consist of. -/
theorem Reflects.mapDefinitions (h : s.Reflects roots blocks) {f : TypeDef → TypeDef}
    (hname : ∀ d, (f d).name = d.name) (hkind : ∀ d, (f d).kind = d.kind)
    (houtline : ∀ d ∈ s.definitions, ∀ o, d.IsOutlinedBy o → (f d).IsOutlinedBy o)
    (hstandalone : ∀ d, d.IsStandalone → (f d).IsStandalone) :
    Reflects { s with definitions := s.definitions.map f } roots blocks := by
  have hnames : (s.definitions.map f).map TypeDef.name = s.definitions.map TypeDef.name := by
    rw [List.map_map]
    exact List.map_congr_left fun d _ => hname d
  constructor
  · exact hnames.trans h.names
  · intro block hblock e he heq
    obtain ⟨d, hd, rfl⟩ := List.mem_map.mp he
    rw [hname] at heq
    exact (hkind d).trans (h.kinds block hblock d hd heq)
  · intro e he
    obtain ⟨d, hd, rfl⟩ := List.mem_map.mp he
    rw [hname]
    exact houtline d hd _ (h.outlines d hd)
  · intro e he other hother
    obtain ⟨d, hd, rfl⟩ := List.mem_map.mp he
    have hdefines := h.defined d hd other
    have hsame := houtline d hd _ (h.outlines d hd)
    rw [hsame.members.mem_iff, hsame.interfaces.mem_iff, ← (h.outlines d hd).members.mem_iff,
      ← (h.outlines d hd).interfaces.mem_iff] at hother
    rw [defines_iff_mem_names] at hdefines ⊢
    exact hnames ▸ hdefines hother
  · intro hdirectives e he
    obtain ⟨d, hd, rfl⟩ := List.mem_map.mp he
    exact hstandalone d (h.standalone hdirectives d hd)

/-- Noting uses leaves what types consist of. -/
theorem Reflects.withUsages (h : s.Reflects roots blocks) : s.withUsages.Reflects roots blocks := by
  refine h.mapDefinitions (fun _ => rfl) (fun _ => rfl) (fun d _ o ho => ?_) fun d hd => ?_
  · refine ⟨?_, ho.values, ho.members, ho.interfaces⟩
    rw [List.map_map]
    exact ho.fields
  · exact ⟨hd.attributes, List.forall_mem_map.mpr hd.fields, hd.enumValues⟩

/-- Names of types that a subgraph defines, in the order in which it defines them. -/
theorem perm_definitionsIn (hnames : (s.definitions.map TypeDef.name).Nodup) {names : List String}
    (hnodup : names.Nodup) (hdefined : ∀ name ∈ names, s.defines name = true) :
    ((s.definitionsIn names).map TypeDef.name).Perm names := by
  refine (List.perm_ext_iff_of_nodup (hnames.sublist (List.filter_sublist.map _)) hnodup).mpr
    fun name => ?_
  constructor
  · intro hmem
    obtain ⟨d, hd, rfl⟩ := List.mem_map.mp hmem
    exact List.contains_iff_mem.mp (List.mem_filter.mp hd).2
  · intro hmem
    obtain ⟨d, hd, rfl⟩ := List.mem_map.mp (defines_iff_mem_names.mp (hdefined name hmem))
    exact List.mem_map_of_mem (List.mem_filter.mpr ⟨hd, List.contains_iff_mem.mpr hmem⟩)

/-- Ordering the parts of types leaves what they consist of. -/
theorem Reflects.sorted (h : s.Reflects roots blocks) (names : NameTable) :
    (s.sorted names).Reflects roots blocks := by
  refine h.mapDefinitions (fun _ => rfl) (fun _ => rfl) (fun d hd o ho => ?_) fun d hd => ?_
  · have hmembers := ho.members.nodup_iff.mpr (Attributes.nodup_distinct _)
    have hinterfaces := ho.interfaces.nodup_iff.mpr (Attributes.nodup_distinct _)
    refine ⟨((names.perm_sortBy Field.name d.fields).map _).trans ho.fields, ho.values, ?_, ?_⟩
    · exact (perm_definitionsIn h.nodup_names hmembers fun m hm =>
        h.defined d hd m (.inl hm)).trans ho.members
    · exact (perm_definitionsIn h.nodup_names hinterfaces fun m hm =>
        h.defined d hd m (.inr hm)).trans ho.interfaces
  · exact ⟨hd.attributes, fun field hfield =>
      hd.fields field ((names.perm_sortBy Field.name d.fields).mem_iff.mp hfield), hd.enumValues⟩

/-- The types that are founded are those that the blocks expect. -/
theorem expects_of_founds (hempty : s.definitions = [])
    (hheads : s.Founds (headsOf roots s blocks) (blocks.flatMap TypeBlock.directives) t)
    {block : TypeBlock} (hblock : block ∈ blocks) : t.Expects roots block := by
  intro hcomposed
  have hnodup : (t.definitions.map TypeDef.name).Nodup := by
    rw [hheads.names, hempty]
    exact Attributes.nodup_distinct _
  rw [hheads.context.isMachinery_eq] at hcomposed
  have hmem : block ∈ Document.composedBlocks s blocks :=
    List.mem_filter.mpr ⟨hblock, by rw [hcomposed]; rfl⟩
  obtain ⟨d, hd, hname, hkind⟩ := hheads.kinds _ (List.mem_map_of_mem hmem)
  refine ⟨d, ?_, by rw [hkind, hheads.context.kindOf_eq]⟩
  show t.definition? (roots.canonicalName block.name) = some d
  rw [← show d.name = roots.canonicalName block.name from hname]
  exact find?_key_eq_some hnodup hd

/-- Types that are founded and gain what their blocks declare reflect the blocks. -/
theorem reflects_of_gains (hempty : s.definitions = [])
    (hheads : s.Founds (headsOf roots s blocks) (blocks.flatMap TypeBlock.directives) t)
    (hbodies : t.Gains (Document.outlineOf t roots blocks)
      (blocks.flatMap fun block => block.body.directives) u) :
    u.Reflects roots blocks := by
  have hcontext := hheads.context.trans hbodies.context
  have hbare : ∀ d ∈ t.definitions, d.IsBare :=
    hheads.bare fun d hd => absurd (hempty ▸ hd) List.not_mem_nil
  have hnames : u.definitions.map TypeDef.name = Attributes.distinct
      ((Document.composedBlocks s blocks).map fun block => roots.canonicalName block.name) := by
    rw [hbodies.names, hheads.names, hempty, headsOf, List.map_map]
    rfl
  have houtlines : ∀ e ∈ u.definitions, ∃ d ∈ t.definitions, e.name = d.name ∧ e.kind = d.kind ∧
      e.IsOutlinedBy (Document.outlineOf t roots blocks d.name) ∧
      e.members = Attributes.distinct (Document.outlineOf t roots blocks d.name).members ∧
      e.interfaces = Attributes.distinct (Document.outlineOf t roots blocks d.name).interfaces := by
    intro e he
    obtain ⟨d, hd, hgains⟩ := exists_of_forall₂_right hbodies.definitions he
    have hparts := hbare d hd
    have hfields := hgains.fields
    have hvalues := hgains.values
    have hmembers := hgains.members
    have hinterfaces := hgains.interfaces
    rw [hparts.fields, List.map_nil, List.nil_append] at hfields
    rw [hparts.enumValues, List.map_nil, List.nil_append] at hvalues
    rw [hparts.members] at hmembers
    rw [hparts.interfaces] at hinterfaces
    exact ⟨d, hd, hgains.name, hgains.kind, ⟨.of_eq hfields, hvalues, .of_eq hmembers,
      .of_eq hinterfaces⟩, hmembers, hinterfaces⟩
  constructor
  · rw [hcontext.composedBlocks_eq, hnames]
  · intro block hblock e he hname
    obtain ⟨d, hd, hsame, hkind, -⟩ := houtlines e he
    rw [hcontext.composedBlocks_eq] at hblock
    obtain ⟨d', hd', hname', hkind'⟩ := hheads.kinds _ (List.mem_map_of_mem hblock)
    have hnodup : (t.definitions.map TypeDef.name).Nodup := by
      rw [← hbodies.names, hnames]
      exact Attributes.nodup_distinct _
    have heq : d = d' :=
      List.inj_on_of_nodup_map hnodup hd hd' (hsame.symm.trans (hname.trans hname'.symm))
    rw [hkind, heq, hkind', hcontext.kindOf_eq]
  · intro e he
    obtain ⟨d, hd, hname, -, houtline, -⟩ := houtlines e he
    rw [hbodies.context.outlineOf_eq, hname]
    exact houtline
  · intro e he other hother
    obtain ⟨d, hd, -, -, -, hmembers, hinterfaces⟩ := houtlines e he
    rw [hmembers, hinterfaces, Attributes.mem_distinct, Attributes.mem_distinct] at hother
    rw [hbodies.defines_eq]
    exact hbodies.defined d hd other hother
  · intro hdirectives
    rw [hcontext.appliesStandalone_iff] at hdirectives
    have hblocks : ∀ block ∈ blocks, s.AppliesStandalone block.directives ∧
        s.AppliesStandalone block.body.directives := fun block hblock =>
      List.forall_mem_append.mp fun directive hdirective =>
        hdirectives directive (List.mem_flatMap.mpr ⟨block, hblock, hdirective⟩)
    have hstart : s.IsStandalone := fun d hd => absurd (hempty ▸ hd) List.not_mem_nil
    refine hbodies.standalone (hheads.context.appliesStandalone_iff.mpr ?_)
      (hheads.standalone ?_ hstart)
    · exact List.forall_mem_flatMap.mpr fun block hblock => (hblocks block hblock).2
    · exact List.forall_mem_flatMap.mpr fun block hblock => (hblocks block hblock).1

end Subgraph

/-- **A subgraph in which nothing fatal is found reflects its document.** -/
theorem SubgraphSet.reflects_build {schema : Document.Schema} {names : NameTable}
    {empty : Subgraph} (hempty : empty.definitions = [])
    (hquiet : (build schema names empty).subgraph.diagnostics.anyFatal = false) :
    (build schema names empty).subgraph.Reflects schema.roots schema.typeBlocks := by
  have hschema : Achieves (ingestSchema schema) fun s _ u => s.definitions = [] →
      u.Reflects schema.roots schema.typeBlocks := by
    refine ((achieves_ingestSchemaBlocks _ _).bind fun roots =>
      (achieves_ingestTypeHeads roots _).bind fun _ => achieves_ingestTypeBodies roots _).mono ?_
    rintro s _ u ⟨_, s', ⟨hkept, rfl⟩, _, t, hheads, hbodies⟩ hnone
    have hempty := hkept.trans hnone
    exact Subgraph.reflects_of_gains hempty hheads
      (hbodies fun block hblock => Subgraph.expects_of_founds hempty hheads hblock)
  have hrun := (hschema { names := names, subgraph := empty } hquiet).2 hempty
  -- what is noted by the way has no part in reflecting a document
  have hbuilt : ((ingestSchema schema).run { names := names, subgraph := empty }).2.subgraph.Reflects
      schema.roots schema.typeBlocks := ⟨hrun.1, hrun.2, hrun.3, hrun.4, hrun.5⟩
  exact hbuilt.withUsages.sorted _

/-! ## Ingested subgraphs -/

/-- The arguments that the outline of a type lists have types with plain names. -/
theorem Document.hasPlainName_of_mem_outlineOf {s : Subgraph} {roots : RootTypes}
    {blocks : List TypeBlock} (hplain : ∀ block ∈ blocks, block.body.HasPlainTypes)
    {typeName : String} {g : Signature TypeRef}
    (hg : g ∈ (outlineOf s roots blocks typeName).fields) :
    ∀ a ∈ g.arguments, a.2.HasPlainName := by
  obtain ⟨o, ho, hmem⟩ := List.mem_flatMap.mp hg
  obtain ⟨block, hblock, rfl⟩ := List.mem_map.mp ho
  have htypes := hplain block (List.mem_of_mem_filter (List.mem_of_mem_filter hblock))
  cases hbody : block.body with
  | object interfaces fields | interface interfaces fields =>
    rw [hbody] at htypes hmem
    obtain ⟨decl, hdecl, rfl⟩ := List.mem_map.mp hmem
    exact List.forall_mem_map.mpr (htypes decl (List.mem_of_mem_filter hdecl)).2
  | inputObject fields =>
    -- input fields take no arguments
    rw [hbody] at hmem
    obtain ⟨decl, -, rfl⟩ := List.mem_map.mp hmem
    exact fun _ ha => absurd ha List.not_mem_nil
  | union | enum | scalar =>
    rw [hbody] at hmem
    cases hmem

namespace SubgraphSet

/-- An ingested subgraph in which nothing fatal was found reflects a document that was read. -/
theorem Ingested.exists_reflects {set : SubgraphSet} (h : set.Ingested) {s : Subgraph}
    (hs : s ∈ set.subgraphs) (hquiet : s.diagnostics.anyFatal = false) :
    ∃ schema : Document.Schema, schema.HasPlainTypes ∧
      s.Reflects schema.roots schema.typeBlocks := by
  induction h with
  | empty => cases hs
  | @add set set' text name url _ hadd ih =>
    rcases addText_cases hadd with ⟨diagnostics, -, hadded⟩ | ⟨schema, hread, -, hadded⟩
    · rw [hadded] at hs
      rcases List.mem_append.mp hs with hs | hs
      · exact ih hs
      · -- a repeated name leaves a subgraph without types
        obtain rfl := List.mem_singleton.mp hs
        have hnone : ∀ {P : TypeDef → Prop}, ∀ d ∈ ([] : List TypeDef), P d :=
          fun _ hd => absurd hd List.not_mem_nil
        exact ⟨[], fun _ hblock => absurd hblock List.not_mem_nil,
          rfl, fun _ _ => hnone, hnone, hnone, fun _ => hnone⟩
    · rw [hadded] at hs
      rcases List.mem_append.mp hs with hs | hs
      · exact ih hs
      · obtain rfl := List.mem_singleton.mp hs
        exact ⟨schema, Document.Schema.hasPlainTypes_read hread, reflects_build rfl hquiet⟩

/-- What an ingested subgraph refers to inside itself, if nothing fatal was found: the members of
unions and the interfaces of types are defined, and the types of arguments have plain names. -/
theorem Ingested.references {set : SubgraphSet} (h : set.Ingested) {s : Subgraph}
    (hs : s ∈ set.subgraphs) (hquiet : s.diagnostics.anyFatal = false) {d : TypeDef}
    (hd : d ∈ s.definitions) :
    (∀ other, other ∈ d.members ∨ other ∈ d.interfaces → s.defines other = true) ∧
      ∀ field ∈ d.fields, ∀ a ∈ field.arguments, a.type.HasPlainName := by
  obtain ⟨schema, hplain, hreflects⟩ := h.exists_reflects hs hquiet
  refine ⟨hreflects.defined d hd, fun field hfield a ha => ?_⟩
  have hlisted := (hreflects.outlines d hd).fields.mem_iff.mp (List.mem_map_of_mem hfield)
  exact Document.hasPlainName_of_mem_outlineOf hplain hlisted (a.name, a.type)
    (List.mem_map_of_mem ha)

/-- Only objects, interfaces and input types have fields, if nothing fatal was found. -/
theorem Ingested.kind_of_mem_fields {set : SubgraphSet} (h : set.Ingested) {s : Subgraph}
    (hs : s ∈ set.subgraphs) (hquiet : s.diagnostics.anyFatal = false) {d : TypeDef}
    (hd : d ∈ s.definitions) {field : Field} (hfield : field ∈ d.fields) :
    d.kind = .object ∨ d.kind = .interface ∨ d.kind = .inputObject := by
  obtain ⟨schema, -, hreflects⟩ := h.exists_reflects hs hquiet
  have hlisted := (hreflects.outlines d hd).fields.mem_iff.mp (List.mem_map_of_mem hfield)
  obtain ⟨o, ho, hlisted⟩ := List.mem_flatMap.mp hlisted
  obtain ⟨block, hblock, rfl⟩ := List.mem_map.mp ho
  obtain ⟨hblock, hname⟩ := List.mem_filter.mp hblock
  have hkind := hreflects.kinds block hblock d hd (beq_iff_eq.mp hname).symm
  unfold kindOf at hkind
  cases hbody : block.body with
  | object interfaces fields =>
    rw [hbody] at hkind
    dsimp only at hkind
    split at hkind
    · exact .inr (.inl hkind)
    · exact .inl hkind
  | interface interfaces fields =>
    rw [hbody] at hkind
    exact .inr (.inl hkind)
  | inputObject fields =>
    rw [hbody] at hkind
    exact .inr (.inr hkind)
  | union | enum | scalar =>
    rw [hbody] at hlisted
    cases hlisted

end SubgraphSet

end Federation
