import Federation.Proofs.Ingestion.Evaluation
import Federation.Proofs.Ingestion.Matching
import Federation.Proofs.Ingestion.Splitting

/-!
# Convergence of definitions and extensions

Taking a definition of a type apart leaves the subgraph that a document is taken into the same, up
to order, if the parts are of the kind of the definition. A part of another kind is refused, or makes
the other parts refused: the kind of a block depends on its own directives only.
-/

namespace Federation

open Document (Schema TypeBlock blocksAbout)
open Ingestion

/-! ## Schema blocks -/

namespace Ingestion

variable {α β ι : Type}

/-- Whatever is found, the types stay as they are. -/
def LeavesTypes (x : Ingestion α) : Prop :=
  ∀ p : Progress, (x.run p).2.subgraph.definitions = p.subgraph.definitions

theorem LeavesTypes.bind {x : Ingestion α} {k : α → Ingestion β} (hx : LeavesTypes x)
    (hk : ∀ a, LeavesTypes (k a)) : LeavesTypes (x >>= k) :=
  fun p => (hk (x.run p).1 (x.run p).2).trans (hx p)

theorem leavesTypes_modifySubgraph {f : Subgraph → Subgraph}
    (hf : ∀ s, (f s).definitions = s.definitions) : LeavesTypes (modifySubgraph f) :=
  fun p => hf p.subgraph

theorem leavesTypes_forM {items : List ι} {step : ι → Ingestion Unit}
    (h : ∀ i, LeavesTypes (step i)) : LeavesTypes (items.forM step) := by
  induction items with
  | nil => exact fun _ => rfl
  | cons first others ih => exact (h first).bind fun _ => ih

end Ingestion

theorem leavesTypes_ingestImport (url : String) (spec : Spec) (entry : Document.Literal) :
    LeavesTypes (ingestImport url spec entry) := by
  unfold ingestImport
  split
  · exact fun _ => rfl
  · split <;> exact fun _ => rfl

theorem leavesTypes_ingestSpec (directive : Document.Directive) (url : String) (named : SpecUrl) :
    LeavesTypes (ingestSpec directive url named) :=
  fun _ => leavesTypes_forM (leavesTypes_ingestImport url _) _

theorem leavesTypes_ingestLink (directive : Document.Directive) :
    LeavesTypes (ingestLink directive) := by
  unfold ingestLink
  split
  · exact fun _ => rfl
  · split
    · exact fun _ => rfl
    · split
      · split
        · refine LeavesTypes.bind (leavesTypes_modifySubgraph ?_) fun _ =>
            leavesTypes_ingestSpec _ _ _
          exact fun _ => rfl
        · exact fun _ => rfl
      · exact leavesTypes_ingestSpec _ _ _

/-- Schema blocks leave the types as they are, and choose the roots. -/
theorem run_ingestSchemaBlocks (schema : Schema) (p : Progress) :
    ((ingestSchemaBlocks schema.schemaBlocks).run p).1 = schema.roots ∧
      ((ingestSchemaBlocks schema.schemaBlocks).run p).2.subgraph.definitions =
        p.subgraph.definitions := by
  unfold ingestSchemaBlocks Schema.roots
  generalize ({} : RootTypes) = roots
  induction schema.schemaBlocks generalizing roots p with
  | nil => exact ⟨rfl, rfl⟩
  | cons first others ih =>
    have hlinks :
        LeavesTypes ((first.directives.filter fun d => d.name == "link").forM ingestLink) :=
      leavesTypes_forM leavesTypes_ingestLink
    obtain ⟨hroots, htypes⟩ := ih ((ingestSchemaBlock roots first).run p).2 (roots.choose first)
    rw [List.foldlM_cons]
    exact ⟨hroots, htypes.trans (hlinks p)⟩

/-! ## Roots under their usual names -/

/-- The block does not take the usual name of a root that another type is. -/
def KeepsRoots (roots : RootTypes) (s : Subgraph) (block : TypeBlock) : Prop :=
  isMachinery s block = false → kindOf s block = .object → roots.matchName block.name ≠ .displaced

/-- A root that is displaced is reported. -/
theorem achieves_registerRoot (roots : RootTypes) (block : TypeBlock) (typeName : String) :
    Achieves (registerRoot roots block typeName) fun s _ t =>
      t = s ∧ roots.matchName block.name ≠ .displaced := by
  unfold registerRoot
  split
  · rename_i hmatch
    exact fun p hquiet => ⟨hquiet, rfl, by rw [hmatch]; exact RootMatch.noConfusion⟩
  · exact achieves_report _ _
  · rename_i hmatch
    exact fun p hquiet => ⟨hquiet, rfl, by rw [hmatch]; exact RootMatch.noConfusion⟩

theorem achieves_keepsRoots_ingestTypeHead (roots : RootTypes) (block : TypeBlock) :
    Achieves (ingestTypeHead roots block) fun s _ t =>
      s.SameContext t ∧ KeepsRoots roots s block := by
  have hrest : ∀ (typeName : String) (kind : TypeKind) (found : Bool), Achieves (do
      if found then
        if kind = .object then registerRoot roots block typeName
        ingestTypeDirectives typeName block)
      fun s _ t => found = true → kind = .object → roots.matchName block.name ≠ .displaced := by
    intro typeName kind found
    split
    · split
      · refine ((achieves_registerRoot roots block typeName).bind fun _ =>
          achieves_ingestTypeDirectives _ _).mono ?_
        rintro s _ t ⟨_, _, ⟨-, hroot⟩, -⟩ _ _
        exact hroot
      · exact (achieves_ingestTypeDirectives _ _).mono fun _ _ _ _ _ hkind => absurd hkind ‹_›
    · exact (silent_pure _).mono fun _ _ _ _ hfound => absurd hfound ‹_›
  have hroots : Achieves (ingestTypeHead roots block) fun s _ _ => KeepsRoots roots s block := by
    refine achieves_subgraph_bind fun full => ?_
    split
    · refine (silent_pure _).mono ?_
      rintro s _ t - rfl hcomposed
      exact absurd ‹_› (ne_true_of_eq_false hcomposed)
    · refine ((silent_describe _).bind fun _ => (achieves_foundType _ _ _ _).bind fun found =>
        hrest _ _ found).mono ?_
      rintro s _ t ⟨found, _, ⟨hfound, -⟩, hroot⟩ rfl -
      exact hroot hfound
  intro p hquiet
  obtain ⟨hbefore, hfounds⟩ := achieves_ingestTypeHead roots block p hquiet
  exact ⟨hbefore, hfounds.context, (hroots p hquiet).2⟩

/-! ## Type blocks -/

namespace SubgraphSet

variable {schema schema' : Schema} {names : NameTable} {empty : Subgraph}

/-- The state from which the type blocks of a schema are taken in. -/
def linked (schema : Schema) (names : NameTable) (empty : Subgraph) : Progress :=
  ((ingestSchemaBlocks schema.schemaBlocks).run { names, subgraph := empty }).2

theorem run_ingestSchema (schema : Schema) (names : NameTable) (empty : Subgraph) :
    (ingestSchema schema).run { names, subgraph := empty } =
      (ingestTypeBlocks schema.roots schema.typeBlocks).run (linked schema names empty) := by
  have hroots := (run_ingestSchemaBlocks schema { names, subgraph := empty }).1
  rw [← hroots]
  rfl

/-- Type blocks leave what the kinds of blocks depend on. -/
theorem context_build (schema : Schema) (names : NameTable) (empty : Subgraph) :
    (build schema names empty).subgraph.context = (linked schema names empty).subgraph.context := by
  have hrun : (((ingestTypeBlocks schema.roots schema.typeBlocks).run
      (linked schema names empty)).2.summary).context = (linked schema names empty).summary.context :=
    holds_forM (I := fun σ => σ.context = (linked schema names empty).summary.context)
      (fun b _ q hq => ((alikeAbout_ingestTypeBody (r := schema.roots) schema.roots b).context_eq
        q).trans hq) _
      (holds_forM (I := fun σ => σ.context = (linked schema names empty).summary.context)
        (fun b _ q hq => ((alikeAbout_ingestTypeHead schema.roots b).context_eq q).trans hq) _ rfl)
  rw [← run_ingestSchema] at hrun
  exact hrun

/-- If nothing fatal is found, no block takes the usual name of a root that another type is. -/
theorem keepsRoots_build
    (hquiet : (build schema names empty).subgraph.diagnostics.anyFatal = false) :
    ∀ block ∈ schema.typeBlocks,
      KeepsRoots schema.roots (build schema names empty).subgraph block := by
  have hheads : Achieves (schema.typeBlocks.forM (ingestTypeHead schema.roots)) fun s _ t =>
      s.SameContext t ∧ ∀ block ∈ schema.typeBlocks, KeepsRoots schema.roots s block := by
    refine achieves_forM
      (I := fun blocks s t => s.SameContext t ∧ ∀ b ∈ blocks, KeepsRoots schema.roots s b)
      (fun block _ => achieves_keepsRoots_ingestTypeHead schema.roots block)
      (fun _ => ⟨rfl, fun _ hblock => absurd hblock List.not_mem_nil⟩) ?_
    rintro block others s t u ⟨hcontext, hfirst⟩ ⟨hcontext', hothers⟩
    refine ⟨hcontext.trans hcontext', List.forall_mem_cons.mpr ⟨hfirst, fun b hb => ?_⟩⟩
    have hkeeps := hothers b hb
    unfold KeepsRoots at hkeeps ⊢
    rw [hcontext.isMachinery_eq, hcontext.kindOf_eq] at hkeeps
    exact hkeeps
  have hblocks := hheads.bind fun _ => achieves_ingestTypeBodies schema.roots schema.typeBlocks
  have hrun : ((ingestTypeBlocks schema.roots schema.typeBlocks).run
      (linked schema names empty)).2.subgraph.diagnostics.anyFatal = false := by
    rw [← run_ingestSchema]
    exact hquiet
  obtain ⟨_, _, ⟨-, hkeeps⟩, -⟩ := (hblocks (linked schema names empty) hrun).2
  intro block hblock
  have hbefore : KeepsRoots schema.roots (linked schema names empty).subgraph.context block :=
    hkeeps block hblock
  rw [← context_build] at hbefore
  exact hbefore

/-- **The parts of a block lead to a subgraph that matches the one that the block leads to**, if
they do not contradict each other or another block of the type. -/
theorem matches_build {block : TypeBlock} {parts : List TypeBlock}
    (h : schema.Splits block parts schema') (htypes : schema.HasPlainTypes)
    (htypes' : schema'.HasPlainTypes) (hempty : empty.definitions = [])
    (hc : isMachinery (build schema names empty).subgraph block = true ∨
      Converges (build schema names empty).subgraph schema block parts) :
    (build schema names empty).subgraph.Matches (build schema' names empty).subgraph ∧
      (build schema' names empty).isBeyondLimit = (build schema names empty).isBeyondLimit := by
  let p := linked schema names empty
  have hlinked : linked schema' names empty = p := by
    unfold linked
    rw [h.schemaBlocks]
    rfl
  have hnone : p.summary.types (schema.roots.canonicalName block.name) = none := by
    have htypes : p.subgraph.definitions = [] :=
      (run_ingestSchemaBlocks schema { names, subgraph := empty }).2.trans hempty
    show (p.subgraph.definitions.find? _).map _ = none
    rw [htypes]
    rfl
  have hc' : isMachinery p.summary.context block = true ∨
      Converges p.summary.context schema block parts := by
    have hcontext : (build schema names empty).subgraph.context = p.summary.context :=
      context_build schema names empty
    rw [← hcontext]
    exact hc.imp id fun hc => ⟨hc.parts, hc.blocks, hc.root⟩
  have hagree := (agreeFrom_ingestTypeBlocks h hc').symm p p ⟨rfl, hnone⟩ rfl
  rw [← run_ingestSchema, ← h.roots_eq, ← hlinked, ← run_ingestSchema] at hagree
  have hnames : ∀ {schema : Schema}, schema.HasPlainTypes →
      (((ingestSchema schema).run { names, subgraph := empty }).2.subgraph.definitions.map
        TypeDef.name).Nodup := fun htypes =>
    ((lawful_ingestSchema htypes empty { names, subgraph := empty } rfl).2.1
      ⟨by rw [hempty]; exact List.nodup_nil,
        fun d hd => absurd (hempty ▸ hd) List.not_mem_nil⟩).types
  exact ⟨Progress.matches_of_summary_eq hagree.2 (hnames htypes) (hnames htypes'),
    (congrArg Summary.isBeyondLimit hagree.2).symm⟩

end SubgraphSet

/-! ## Parts of the same kind -/

/-- The blocks of a type that a subgraph reflects are of one kind. -/
theorem Subgraph.Reflects.kindOf_eq_kindOf {s : Subgraph} {roots : RootTypes}
    {blocks : List TypeBlock} (h : s.Reflects roots blocks) {b b' : TypeBlock} (hb : b ∈ blocks)
    (hcomposed : isMachinery s b = false) (hb' : b' ∈ blocks)
    (hcomposed' : isMachinery s b' = false)
    (hname : roots.canonicalName b.name = roots.canonicalName b'.name) :
    kindOf s b = kindOf s b' := by
  have hmem : ∀ {b : TypeBlock}, b ∈ blocks → isMachinery s b = false →
      b ∈ Document.composedBlocks s blocks := fun hb hcomposed =>
    List.mem_filter.mpr ⟨hb, by rw [hcomposed]; rfl⟩
  have hdefined : roots.canonicalName b.name ∈ s.definitions.map TypeDef.name := by
    rw [h.names, Attributes.mem_distinct]
    exact List.mem_map_of_mem (hmem hb hcomposed)
  obtain ⟨d, hd, hdname⟩ := List.mem_map.mp hdefined
  exact (h.kinds b (hmem hb hcomposed) d hd hdname).symm.trans
    (h.kinds b' (hmem hb' hcomposed') d hd (hdname.trans hname))

namespace SubgraphSet

variable {schema schema' : Schema} {names : NameTable} {empty : Subgraph} {block : TypeBlock}
  {parts : List TypeBlock} (h : schema.Splits block parts schema') (hempty : empty.definitions = [])
  (hquiet : (build schema names empty).subgraph.diagnostics.anyFatal = false)

include h hempty hquiet

/-- If nothing fatal is found, parts of the kind of the block contradict nothing. -/
theorem converges_of_quiet
    (hcomposed : isMachinery (build schema names empty).subgraph block = false)
    (hkinds : ∀ part ∈ parts, kindOf (build schema names empty).subgraph part =
      kindOf (build schema names empty).subgraph block) :
    Converges (build schema names empty).subgraph schema block parts where
  parts := hkinds
  blocks := by
    intro b hb hcomposed'
    obtain ⟨hmem, hname⟩ := List.mem_filter.mp hb
    exact (reflects_build hempty hquiet).kindOf_eq_kindOf hmem hcomposed' h.block_mem hcomposed
      (beq_iff_eq.mp hname)
  root := keepsRoots_build hquiet block h.block_mem hcomposed

/-- If nothing fatal is found, only parts of the kind of the block lead to a matching subgraph. -/
theorem kindOf_eq_of_matches (hmatches : (build schema names empty).subgraph.Matches
      (build schema' names empty).subgraph)
    (hcomposed : isMachinery (build schema names empty).subgraph block = false) :
    ∀ part ∈ parts, kindOf (build schema names empty).subgraph part =
      kindOf (build schema names empty).subgraph block := by
  have hquiet' := hmatches.anyFatal_eq.trans hquiet
  have hreflects := reflects_build hempty hquiet'
  rw [h.roots_eq] at hreflects
  refine h.kindOf_eq fun part hpart other hother => ?_
  rw [← hmatches.kindOf_eq, ← hmatches.kindOf_eq]
  refine hreflects.kindOf_eq_kindOf (h.part_mem hpart) ?_ (h.part_mem hother) ?_ ?_
  · rw [hmatches.isMachinery_eq, h.isMachinery_eq hpart, hcomposed]
  · rw [hmatches.isMachinery_eq, h.isMachinery_eq hother, hcomposed]
  · rw [h.split.names part hpart, h.split.names other hother]

end SubgraphSet

/-! ## Documents -/

namespace SubgraphSet

/-- What a schema is taken into as the last subgraph of a set. -/
def buildLast (set : SubgraphSet) (schema : Schema) (name : String) (url : Option String) :
    Progress :=
  build schema (set.start name url).1 (set.start name url).2

/-- Adding two documents fails alike, or leads to matching subgraphs. -/
inductive AddedAlike : Except Document.ReadError SubgraphSet →
    Except Document.ReadError SubgraphSet → Prop
  | error (e : Document.ReadError) : AddedAlike (.error e) (.error e)
  | ok {set set' : SubgraphSet} :
      List.Forall₂ Subgraph.Matches set.subgraphs set'.subgraphs → AddedAlike (.ok set) (.ok set')

theorem addedAlike_self (outcome : Except Document.ReadError SubgraphSet) :
    AddedAlike outcome outcome := by
  cases outcome with
  | error e => exact .error e
  | ok set => exact .ok (List.forall₂_same.mpr fun s _ => s.matches_self)

/-- Sets that differ in the last subgraph match if those match. -/
theorem forall₂_matches_append_iff (subgraphs : List Subgraph) {s s' : Subgraph} :
    List.Forall₂ Subgraph.Matches (subgraphs ++ [s]) (subgraphs ++ [s']) ↔ s.Matches s' := by
  constructor
  · intro h
    have hlast := List.forall₂_drop_append _ _ _ h
    rw [List.drop_left, List.forall₂_cons] at hlast
    exact hlast.1
  · exact fun h => List.rel_append (List.forall₂_same.mpr fun t _ => t.matches_self) (.cons h .nil)

section

variable {set : SubgraphSet} {text text' name : String} {url : Option String}
  {schema schema' : Schema} (hread : Schema.read text = .ok schema)

include hread

/-- A document of a name that is taken adds a report only, whatever it says. -/
theorem addText_of_hasName (hname : set.hasName name = true) :
    set.addText text name url = .ok ⟨(set.start name url).1, set.subgraphs ++
      [{ (set.start name url).2 with
        diagnostics := [.error .invalidSubgraphName
          s!"[{name}] A subgraph named \"{name}\" was already ingested."] }]⟩ := by
  unfold addText
  rw [hread]
  exact if_pos hname

/-- A document of a new name adds what it is taken into. -/
theorem addText_of_new (hname : set.hasName name = false) :
    set.addText text name url =
      if (set.buildLast schema name url).isBeyondLimit then .error .beyondLimit
      else .ok ⟨(set.buildLast schema name url).names,
        set.subgraphs ++ [(set.buildLast schema name url).subgraph]⟩ := by
  unfold addText
  rw [hread]
  exact if_neg (ne_true_of_eq_false hname)

/-- A document in which nothing fatal is found adds what it is taken into. -/
theorem eq_buildLast_of_quiet {names : NameTable} {s : Subgraph}
    (hadded : set.addText text name url = .ok ⟨names, set.subgraphs ++ [s]⟩)
    (hquiet : s.diagnostics.anyFatal = false) :
    set.hasName name = false ∧ (set.buildLast schema name url).isBeyondLimit = false ∧
      (set.buildLast schema name url).subgraph = s := by
  cases hname : set.hasName name with
  | true =>
    -- a name that is taken is reported
    rw [addText_of_hasName hread hname] at hadded
    obtain ⟨-, hsubgraphs⟩ := SubgraphSet.mk.inj (Except.ok.inj hadded)
    obtain rfl := List.singleton_inj.mp (List.append_cancel_left hsubgraphs)
    cases hquiet
  | false =>
    rw [addText_of_new hread hname] at hadded
    split at hadded
    · cases hadded
    · obtain ⟨-, hsubgraphs⟩ := SubgraphSet.mk.inj (Except.ok.inj hadded)
      exact ⟨rfl, Bool.eq_false_iff.mpr ‹_›,
        List.singleton_inj.mp (List.append_cancel_left hsubgraphs)⟩

variable (hread' : Schema.read text' = .ok schema') (hname : set.hasName name = false)

include hread' hname

/-- Documents that are taken into matching subgraphs within the same limits are added alike. -/
theorem addedAlike_of_matches
    (h : (set.buildLast schema name url).subgraph.Matches (set.buildLast schema' name url).subgraph)
    (hlimit : (set.buildLast schema' name url).isBeyondLimit =
      (set.buildLast schema name url).isBeyondLimit) :
    AddedAlike (set.addText text name url) (set.addText text' name url) := by
  rw [addText_of_new hread hname, addText_of_new hread' hname, hlimit]
  split
  · exact .error _
  · exact .ok ((forall₂_matches_append_iff _).mpr h)

/-- Documents that are added alike, and not refused, are taken into matching subgraphs. -/
theorem matches_of_addedAlike (hheld : (set.buildLast schema name url).isBeyondLimit = false)
    (h : AddedAlike (set.addText text name url) (set.addText text' name url)) :
    (set.buildLast schema name url).subgraph.Matches
      (set.buildLast schema' name url).subgraph := by
  rw [addText_of_new hread hname, addText_of_new hread' hname,
    if_neg (ne_true_of_eq_false hheld)] at h
  split at h
  · cases h
  · cases h with
    | ok h => exact (forall₂_matches_append_iff _).mp h

end

section

variable {set : SubgraphSet} {text text' name : String} {url : Option String}
  {schema schema' : Schema} {block : TypeBlock} {parts : List TypeBlock}

/-- Parts that contradict nothing are added like the whole block, whatever else is found. -/
theorem addedAlike_of_converges (hread : Schema.read text = .ok schema)
    (hread' : Schema.read text' = .ok schema') (h : schema.Splits block parts schema')
    (hc : isMachinery (set.buildLast schema name url).subgraph block = true ∨
      Converges (set.buildLast schema name url).subgraph schema block parts) :
    AddedAlike (set.addText text name url) (set.addText text' name url) := by
  cases hname : set.hasName name with
  | true =>
    rw [addText_of_hasName hread hname, addText_of_hasName hread' hname]
    exact addedAlike_self _
  | false =>
    obtain ⟨hmatches, hlimit⟩ := matches_build h (Document.Schema.hasPlainTypes_read hread)
      (Document.Schema.hasPlainTypes_read hread') rfl hc
    exact addedAlike_of_matches hread hread' hname hmatches hlimit

/-- **A definition that is taken apart is added like the whole definition exactly if its parts are
of its kind.** This takes a document in which nothing fatal is found. In any document, a definition
and its parts are added alike if the blocks of the type are of one kind, and the type does not have
the usual name of a root that another type is. -/
theorem definitions_and_extensions_converge_iff (hread : Schema.read text = .ok schema)
    (hread' : Schema.read text' = .ok schema') (h : schema.Splits block parts schema') :
    (isMachinery (set.buildLast schema name url).subgraph block = true ∨
        Converges (set.buildLast schema name url).subgraph schema block parts →
          AddedAlike (set.addText text name url) (set.addText text' name url)) ∧
      ∀ names s, set.addText text name url = .ok ⟨names, set.subgraphs ++ [s]⟩ →
        s.diagnostics.anyFatal = false →
          (AddedAlike (set.addText text name url) (set.addText text' name url) ↔
            isMachinery s block = true ∨ ∀ part ∈ parts, kindOf s part = kindOf s block) := by
  refine ⟨addedAlike_of_converges hread hread' h, fun names s hadded hquiet => ?_⟩
  obtain ⟨hname, hheld, rfl⟩ := eq_buildLast_of_quiet hread hadded hquiet
  constructor
  · intro halike
    have hmatches := matches_of_addedAlike hread hread' hname hheld halike
    refine Classical.or_iff_not_imp_left.mpr fun hcomposed => ?_
    exact kindOf_eq_of_matches h rfl hquiet hmatches (Bool.eq_false_iff.mpr hcomposed)
  · intro hkinds
    refine addedAlike_of_converges hread hread' h
      (Classical.or_iff_not_imp_left.mpr fun hcomposed => ?_)
    exact converges_of_quiet h rfl hquiet (Bool.eq_false_iff.mpr hcomposed)
      (hkinds.resolve_left hcomposed)

end

end SubgraphSet

/-! ## A type with and without an extension

A schema in which a type may have marks, as one block and as a definition and an extension.
-/

namespace Marked

open Document (Block Directive SchemaBlock)

/-- The federation version and what is imported. -/
def link : SchemaBlock where
  directives := [⟨"link", [("url", .string "spec://apollo.dev/federation/v2.3"),
    ("import", .list [.string "@key", .string "@interfaceObject"])]⟩]
  roots := []

/-- A block of the type with one field. -/
def blockOf (isExtension : Bool) (directives : List Directive) (field : String) : TypeBlock where
  isExtension
  description := none
  name := "M"
  directives
  body := .object [] [⟨none, field, [], { name := "ID" }, []⟩]

/-- The definition with marks. -/
def definition (marks : List Directive) : TypeBlock :=
  blockOf false (marks ++ [⟨"key", [("fields", .string "id")]⟩]) "id"

/-- The extension, which has no marks. -/
def extension : TypeBlock :=
  blockOf true [] "f"

/-- The schema with one block. -/
def whole (marks : List Directive) : Schema :=
  [.schema link, .type ((definition marks).join extension)]

/-- The schema with a definition and an extension. -/
def apart (marks : List Directive) : Schema :=
  [.schema link, .type (definition marks), .type extension]

/-- The object stands in for an interface. -/
def standIn : Directive :=
  ⟨"interfaceObject", []⟩

theorem splits (marks : List Directive) :
    (whole marks).Splits ((definition marks).join extension) [definition marks, extension]
      (apart marks) where
  schemaBlocks := rfl
  split :=
    { joined := ⟨_, _, rfl, rfl⟩
      names := List.forall_mem_cons.mpr ⟨rfl, List.forall_mem_singleton.mpr rfl⟩
      kinds := List.forall_mem_cons.mpr ⟨rfl, List.forall_mem_singleton.mpr rfl⟩
      definition := ⟨[], definition marks, [extension], rfl, rfl,
        List.forall_mem_singleton.mpr ⟨rfl, rfl⟩⟩ }
  own := ⟨[], [], rfl, rfl⟩
  others := by
    intro name hname
    have hother : ("M" == name) = false := beq_false_of_ne fun heq => hname heq.symm
    have hroots : (whole marks).roots = {} := rfl
    have hnone : ∀ blocks : List TypeBlock, (∀ b ∈ blocks, b.name = "M") →
        blocksAbout (whole marks).roots name blocks = [] := by
      intro blocks hblocks
      refine List.filter_eq_nil_iff.mpr fun b hb => ?_
      rw [hroots, RootTypes.canonicalName_default, hblocks b hb, hother]
      exact Bool.false_ne_true
    exact (hnone _ (List.forall_mem_cons.mpr ⟨rfl, List.forall_mem_singleton.mpr rfl⟩)).trans
      (hnone _ (List.forall_mem_singleton.mpr rfl)).symm

/-- The text of the link. -/
def linkText : String :=
  "extend schema@link(url:\"spec://apollo.dev/federation/v2.3\"," ++
    "import:[\"@key\",\"@interfaceObject\"])"

/-- The text with one block, and marks. -/
def wholeText (marks : String) : String :=
  linkText ++ "type M" ++ marks ++ "@key(fields:\"id\")\x7bid:ID f:ID\x7d"

/-- The text with a definition and an extension, and marks. -/
def apartText (marks : String) : String :=
  linkText ++ "type M" ++ marks ++ "@key(fields:\"id\")\x7bid:ID\x7dextend type M\x7bf:ID\x7d"

set_option maxRecDepth 8000 in
theorem read_whole : Schema.read (wholeText "") = .ok (whole []) ∧
    Schema.read (wholeText "@interfaceObject") = .ok (whole [standIn]) := by
  unfold Schema.read Document.Reader.run wholeText linkText
  simp only [Document.Token.scan_eq_scanFor, String.toList_append]
  constructor
  · repeat rewrite [toList_eq_of_ofList_eq rfl]
    rfl
  · repeat rewrite [toList_eq_of_ofList_eq rfl]
    rfl

set_option maxRecDepth 8000 in
theorem read_apart : Schema.read (apartText "") = .ok (apart []) ∧
    Schema.read (apartText "@interfaceObject") = .ok (apart [standIn]) := by
  unfold Schema.read Document.Reader.run apartText linkText
  simp only [Document.Token.scan_eq_scanFor, String.toList_append]
  constructor
  · repeat rewrite [toList_eq_of_ofList_eq rfl]
    rfl
  · repeat rewrite [toList_eq_of_ofList_eq rfl]
    rfl

end Marked

namespace SubgraphSet

/-- Nothing is found in the schema without marks, so its type can be taken apart. -/
theorem definitions_and_extensions_converge_iff_of_unmarked :
    ∃ names s, addText {} (Marked.wholeText "") "b" none = .ok ⟨names, [] ++ [s]⟩ ∧
      s.diagnostics.anyFatal = false ∧
        AddedAlike (addText {} (Marked.wholeText "") "b" none)
          (addText {} (Marked.apartText "") "b" none) := by
  have hadded := @addText_of_new {} _ "b" none _ Marked.read_whole.1 rfl
  have hheld : (buildLast {} (Marked.whole []) "b" none).isBeyondLimit = false := by decide +kernel
  have hquiet : (buildLast {} (Marked.whole []) "b" none).subgraph.diagnostics.anyFatal =
      false := by decide +kernel
  have hkinds : ∀ part ∈ [Marked.definition [], Marked.extension],
      kindOf (buildLast {} (Marked.whole []) "b" none).subgraph part =
        kindOf (buildLast {} (Marked.whole []) "b" none).subgraph
          ((Marked.definition []).join Marked.extension) := by decide +kernel
  rw [if_neg (ne_true_of_eq_false hheld)] at hadded
  obtain ⟨-, hconverges⟩ := @definitions_and_extensions_converge_iff {} _ _ "b" none _ _ _ _
    Marked.read_whole.1 Marked.read_apart.1 (Marked.splits [])
  exact ⟨_, _, hadded, hquiet, (hconverges _ _ hadded hquiet).mpr (.inr hkinds)⟩

/-- The object that stands in for an interface is refused its extension. -/
theorem extension_is_refused_by_stand_in :
    ¬ ∀ (set : SubgraphSet) (text text' name : String) (url : Option String)
        (schema schema' : Schema) (block : TypeBlock) (parts : List TypeBlock),
      Schema.read text = .ok schema → Schema.read text' = .ok schema' →
        schema.Splits block parts schema' →
          (set.buildLast schema name url).subgraph.version.isV1 = false →
            AddedAlike (set.addText text name url) (set.addText text' name url) := by
  intro halways
  have hversion : (buildLast {} (Marked.whole [Marked.standIn]) "b" none).subgraph.version.isV1 =
      false := by decide +kernel
  have hheld : (buildLast {} (Marked.whole [Marked.standIn]) "b" none).isBeyondLimit = false := by
    decide +kernel
  have hquiet : (buildLast {} (Marked.whole [Marked.standIn]) "b"
      none).subgraph.diagnostics.anyFatal = false := by decide +kernel
  -- only the extension is reported
  have hreported : (buildLast {} (Marked.apart [Marked.standIn]) "b"
      none).subgraph.diagnostics.anyFatal = true := by decide +kernel
  have halike := halways {} _ _ "b" none _ _ _ _ Marked.read_whole.2 Marked.read_apart.2
    (Marked.splits [Marked.standIn]) hversion
  have hmatches := @matches_of_addedAlike {} _ _ "b" none _ _ Marked.read_whole.2
    Marked.read_apart.2 rfl hheld halike
  rw [hmatches.anyFatal_eq, hquiet] at hreported
  cases hreported

end SubgraphSet

end Federation
