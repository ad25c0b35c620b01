import Federation.Proofs.Ingestion.Joining
import Federation.Proofs.Ingestion.Reflection

/-!
# Taking blocks apart

A block that defines a type can be taken apart into a block that defines it and blocks that extend
it. Wherever these stand among the blocks of other types, the same is taken in, unless the parts of
the block say different things about the kind of the type.
-/

namespace Federation

open Document (Schema TypeBlock)
open Ingestion

/-! ## Split blocks -/

namespace Document

/-- Blocks of one type as one. -/
def TypeBlock.joinAll (first : TypeBlock) (others : List TypeBlock) : TypeBlock :=
  others.foldl TypeBlock.join first

/-- A block that defines a type is made up of parts: one that defines the type and has the
description, and others that extend it. -/
structure TypeBlock.IsSplitInto (block : TypeBlock) (parts : List TypeBlock) : Prop where
  joined : ∃ first others, parts = first :: others ∧ first.joinAll others = block
  names : ∀ part ∈ parts, part.name = block.name
  kinds : ∀ part ∈ parts, part.body.kind = block.body.kind
  definition : ∃ front part back, parts = front ++ part :: back ∧ part.isExtension = false ∧
    ∀ other ∈ front ++ back, other.isExtension = true ∧ other.description = none

/-- The blocks about the type of a name, where the roots go by their usual names. -/
def blocksAbout (roots : RootTypes) (name : String) (blocks : List TypeBlock) : List TypeBlock :=
  blocks.filter fun block => roots.canonicalName block.name == name

/-- Two documents are the same but for a block whose parts stand anywhere among the blocks of other
types. -/
structure Schema.Splits (schema : Schema) (block : TypeBlock) (parts : List TypeBlock)
    (schema' : Schema) : Prop where
  schemaBlocks : schema'.schemaBlocks = schema.schemaBlocks
  split : block.IsSplitInto parts
  own : ∃ front back,
    blocksAbout schema.roots (schema.roots.canonicalName block.name) schema.typeBlocks =
      front ++ block :: back ∧
    blocksAbout schema.roots (schema.roots.canonicalName block.name) schema'.typeBlocks =
      front ++ parts ++ back
  others : ∀ name, name ≠ schema.roots.canonicalName block.name →
    blocksAbout schema.roots name schema'.typeBlocks =
      blocksAbout schema.roots name schema.typeBlocks

/-- At most one part of a block has a description. -/
theorem TypeBlock.IsSplitInto.pairwise {block : TypeBlock} {parts : List TypeBlock}
    (h : block.IsSplitInto parts) :
    parts.Pairwise fun part other => part.description = none ∨ other.description = none := by
  obtain ⟨front, part, back, rfl, -, hothers⟩ := h.definition
  obtain ⟨hfront, hback⟩ := List.forall_mem_append.mp hothers
  refine List.pairwise_append.mpr ⟨?_, List.pairwise_cons.mpr ⟨?_, ?_⟩, ?_⟩
  · exact List.Pairwise.imp_of_mem (fun hfirst _ _ => .inl (hfront _ hfirst).2)
      (List.pairwise_of_forall fun _ _ => trivial)
  · exact fun other hother => .inr (hback other hother).2
  · exact List.Pairwise.imp_of_mem (fun hfirst _ _ => .inl (hback _ hfirst).2)
      (List.pairwise_of_forall fun _ _ => trivial)
  · exact fun first hfirst _ _ => .inl (hfront first hfirst).2

end Document

open Document (blocksAbout)

/-- Blocks of one kind are joined to a block of that kind. -/
theorem kindOf_joinAll {s : Subgraph} {first : TypeBlock} {others : List TypeBlock}
    (hbodies : ∀ b ∈ others, b.body.kind = first.body.kind)
    (hkinds : ∀ b ∈ others, kindOf s b = kindOf s first) :
    kindOf s (first.joinAll others) = kindOf s first := by
  induction others generalizing first with
  | nil => rfl
  | cons second others ih =>
    obtain ⟨hbody, hbodies⟩ := List.forall_mem_cons.mp hbodies
    obtain ⟨hkind, hkinds⟩ := List.forall_mem_cons.mp hkinds
    have hjoined : kindOf s (first.join second) = kindOf s first := kindOf_join hbody hkind
    have hbody' : (first.join second).body.kind = first.body.kind :=
      Document.TypeBody.kind_join _ _
    exact (@ih (first.join second) (fun b hb => (hbodies b hb).trans hbody'.symm)
      fun b hb => (hkinds b hb).trans hjoined.symm).trans hjoined

namespace Document.Schema.Splits

variable {schema schema' : Schema} {block : TypeBlock} {parts : List TypeBlock}
  (h : schema.Splits block parts schema')

include h

theorem block_mem : block ∈ schema.typeBlocks := by
  obtain ⟨front, back, hown, -⟩ := h.own
  have hmem : block ∈ front ++ block :: back := List.mem_append_right _ List.mem_cons_self
  rw [← hown] at hmem
  exact List.mem_of_mem_filter hmem

theorem part_mem {part : TypeBlock} (hpart : part ∈ parts) : part ∈ schema'.typeBlocks := by
  obtain ⟨front, back, -, hown'⟩ := h.own
  have hmem : part ∈ front ++ parts ++ back :=
    List.mem_append_left _ (List.mem_append_right _ hpart)
  rw [← hown'] at hmem
  exact List.mem_of_mem_filter hmem

theorem roots_eq : schema'.roots = schema.roots := by
  unfold Schema.roots
  rw [h.schemaBlocks]

/-- The parts of a block serve federation itself if the block does. -/
theorem isMachinery_eq {s : Subgraph} {part : TypeBlock} (hpart : part ∈ parts) :
    isMachinery s part = isMachinery s block :=
  isMachinery_eq_of_kind_eq (h.split.names part hpart) (h.split.kinds part hpart)

/-- Parts of one kind make up a block of that kind. -/
theorem kindOf_eq {s : Subgraph}
    (hkinds : ∀ part ∈ parts, ∀ other ∈ parts, kindOf s part = kindOf s other) :
    ∀ part ∈ parts, kindOf s part = kindOf s block := by
  obtain ⟨first, others, rfl, hjoined⟩ := h.split.joined
  have hblock : kindOf s block = kindOf s first := by
    rw [← hjoined]
    refine kindOf_joinAll (fun b hb => ?_) fun b hb =>
      hkinds b (List.mem_cons_of_mem _ hb) first List.mem_cons_self
    exact (h.split.kinds b (List.mem_cons_of_mem _ hb)).trans
      (h.split.kinds first List.mem_cons_self).symm
  exact fun part hpart => (hkinds part hpart first List.mem_cons_self).trans hblock.symm

end Document.Schema.Splits

/-! ## Joining all parts -/

section

variable {I : Summary → Prop} {step : TypeBlock → Ingestion Unit} {P : TypeBlock → Prop}

/-- What holds of joining two blocks holds of joining all. -/
theorem agreeFrom_joinAll (hself : ∀ block, Agree (step block) (step block))
    (hP : ∀ block other, P block → P other → P (block.join other))
    (hjoin : ∀ block other, P block → P other →
      (block.description = none ∨ other.description = none) →
        AgreeFrom I (step block >>= fun _ => step other) (step (block.join other)))
    {first : TypeBlock} {others : List TypeBlock} (hall : ∀ block ∈ first :: others, P block)
    (hdescriptions : (first :: others).Pairwise fun block other =>
      block.description = none ∨ other.description = none) :
    AgreeFrom I ((first :: others).forM step) (step (first.joinAll others)) := by
  induction others generalizing first with
  | nil =>
    show AgreeFrom I (step first >>= fun _ => pure ()) (step first)
    rw [bind_pure_unit]
    exact (hself first).agreeFrom
  | cons second others ih =>
    obtain ⟨hfirst, hrest⟩ := List.forall_mem_cons.mp hall
    obtain ⟨hsecond, hothers⟩ := List.forall_mem_cons.mp hrest
    obtain ⟨hdescribed, hpairwise⟩ := List.pairwise_cons.mp hdescriptions
    obtain ⟨hdescribed', hpairwise'⟩ := List.pairwise_cons.mp hpairwise
    obtain ⟨hboth, hdescribed⟩ := List.forall_mem_cons.mp hdescribed
    have hjoined := @ih (first.join second)
      (List.forall_mem_cons.mpr ⟨hP _ _ hfirst hsecond, hothers⟩)
      (List.pairwise_cons.mpr ⟨fun other hother => ?_, hpairwise'⟩)
    · refine AgreeFrom.trans ?_ hjoined
      show AgreeFrom I (step first >>= fun _ => step second >>= fun _ => others.forM step)
        (step (first.join second) >>= fun _ => others.forM step)
      rw [← bind_assoc]
      exact (hjoin first second hfirst hsecond hboth).bind fun _ => agree_forM hself others
    · -- the joined block has a description only if one of the two has one
      rcases hdescribed other hother with hnone | hnone
      · rcases hdescribed' other hother with hnone' | hnone'
        · left
          show first.description.or second.description = none
          rw [hnone, hnone', Option.none_or]
        · exact .inr hnone'
      · exact .inr hnone

end

/-! ## Taking parts instead of a block -/

section

variable {schema schema' : Schema} {block : TypeBlock} {parts : List TypeBlock}
  (h : schema.Splits block parts schema') {I : Summary → Prop} {step : TypeBlock → Ingestion Unit}

include h

/-- A run over the blocks does the same with the parts of a block if the parts one after the other
do the same as the block, from where the blocks about the same type have led. -/
theorem agreeFrom_forM_splits (hself : ∀ b, Agree (step b) (step b))
    (hcomm : ∀ b b', schema.roots.canonicalName b.name ≠ schema.roots.canonicalName b'.name →
      Agree (step b >>= fun _ => step b') (step b' >>= fun _ => step b))
    (hkeeps : ∀ b ∈ blocksAbout schema.roots (schema.roots.canonicalName block.name)
      schema.typeBlocks, ∀ p : Progress, I p.summary → I ((step b).run p).2.summary)
    (hparts : AgreeFrom I (parts.forM step) (step block)) :
    AgreeFrom I (schema'.typeBlocks.forM step) (schema.typeBlocks.forM step) := by
  let name := schema.roots.canonicalName block.name
  let rest := schema.typeBlocks.filter fun b => !(schema.roots.canonicalName b.name == name)
  obtain ⟨front, back, hown, hown'⟩ := h.own
  have hnone : ∀ b ∈ rest, schema.roots.canonicalName b.name ≠ name := fun b hb heq =>
    absurd (List.mem_filter.mp hb).2 (by rw [heq, beq_self_eq_true]; decide)
  have hrest : ∀ other, other ≠ name → blocksAbout schema.roots other schema.typeBlocks =
      blocksAbout schema.roots other rest := by
    intro other hne
    refine Eq.trans (List.filter_congr fun b _ => ?_) List.filter_filter.symm
    by_cases hother : schema.roots.canonicalName b.name = other
    · simp [hother, hne]
    · simp [hother]
  -- the blocks about the type come first
  have hbefore := agree_forM_first hself hcomm hnone hrest
  have hafter := agree_forM_first hself hcomm hnone fun other hne =>
    (h.others other hne).trans (hrest other hne)
  have hfront : ∀ p : Progress, I p.summary → I ((front.forM step).run p).2.summary :=
    holds_forM fun b hb => hkeeps b (hown ▸ List.mem_append_left _ hb)
  have hreplaced : AgreeFrom I ((parts ++ (back ++ rest)).forM step)
      ((block :: (back ++ rest)).forM step) := by
    rw [run_append]
    exact hparts.bind fun _ => agree_forM hself (back ++ rest)
  have hsplit : AgreeFrom I ((front ++ parts ++ back ++ rest).forM step)
      ((front ++ block :: back ++ rest).forM step) := by
    rw [List.append_assoc, List.append_assoc, List.append_assoc, run_append, run_append front]
    exact (agree_forM hself front).agreeFrom.bind_of_keeps hfront fun _ => hreplaced
  rw [← hown, ← hown'] at hsplit
  exact (hafter.agreeFrom.trans hsplit).trans (AgreeFrom.symm hbefore.agreeFrom)

end

/-! ## Split blocks -/

/-- In a context, the parts of a block and the blocks of its type make the type one of the same
kind, and the type does not have the usual name of a root that another type is. -/
structure Converges (c : Subgraph) (schema : Schema) (block : TypeBlock) (parts : List TypeBlock) :
    Prop where
  parts : ∀ part ∈ parts, kindOf c part = kindOf c block
  blocks : ∀ b ∈ blocksAbout schema.roots (schema.roots.canonicalName block.name) schema.typeBlocks,
    isMachinery c b = false → kindOf c b = kindOf c block
  root : kindOf c block = .object → schema.roots.matchName block.name ≠ .displaced

section

variable {schema schema' : Schema} {block : TypeBlock} {parts : List TypeBlock} {c : Subgraph}
  (h : schema.Splits block parts schema')

include h

/-- Steps that pass over blocks that serve federation itself pass over the parts of such a block. -/
theorem agreeFrom_parts_of_machinery (hmachinery : isMachinery c block = true)
    {step : TypeBlock → Ingestion Unit} (hstep : ∀ (b : TypeBlock) (p : Progress),
      isMachinery p.summary.context b = true → (step b).run p = ((), p)) :
    AgreeFrom (fun σ => σ.context = c) (parts.forM step) (step block) := by
  rintro p q rfl heq
  have hpassed : (parts.forM step).run p = ((), p) := run_forM_of_passed fun part hpart =>
    hstep part p ((h.isMachinery_eq hpart).trans hmachinery)
  rw [hpassed, hstep block q (heq ▸ hmachinery)]
  exact ⟨rfl, heq⟩

/-- Parts of one kind are taken in like the block that they make up. -/
theorem agreeFrom_parts {I : Summary → Prop} {step : TypeBlock → Ingestion Unit}
    (hkinds : ∀ part ∈ parts, kindOf c part = kindOf c block)
    (hself : ∀ b, Agree (step b) (step b))
    (hjoin : ∀ b other : TypeBlock, b.name = block.name → other.name = b.name →
      other.body.kind = b.body.kind → kindOf c b = kindOf c block → kindOf c other = kindOf c b →
        (b.description = none ∨ other.description = none) →
          AgreeFrom I (step b >>= fun _ => step other) (step (b.join other))) :
    AgreeFrom I (parts.forM step) (step block) := by
  obtain ⟨first, others, hparts, hjoined⟩ := h.split.joined
  have hdescriptions := h.split.pairwise
  have hall : ∀ b ∈ first :: others, b.name = block.name ∧ b.body.kind = block.body.kind ∧
      kindOf c b = kindOf c block := by
    rintro b hb
    rw [← hparts] at hb
    exact ⟨h.split.names b hb, h.split.kinds b hb, hkinds b hb⟩
  rw [hparts] at hdescriptions ⊢
  have hagree := agreeFrom_joinAll (I := I) hself (fun b other hb hother => ?_)
    (fun b other hb hother hdescription => ?_) hall hdescriptions
  · rw [hjoined] at hagree
    exact hagree
  · exact ⟨hb.1, (Document.TypeBody.kind_join _ _).trans hb.2.1,
      (kindOf_join (hother.2.1.trans hb.2.1.symm) (hother.2.2.trans hb.2.2.symm)).trans hb.2.2⟩
  · exact hjoin b other hb.1 (hother.1.trans hb.1.symm) (hother.2.1.trans hb.2.1.symm) hb.2.2
      (hother.2.2.trans hb.2.2.symm) hdescription

omit h in
/-- A type of a kind stays one with every further head that is of the kind or passed over. -/
theorem accepts_ingestTypeHead {roots : RootTypes} {name : String} {kind : TypeKind} {b : TypeBlock}
    (hname : roots.canonicalName b.name = name)
    (hkind : isMachinery c b = false → kindOf c b = kind) {p : Progress}
    (haccepts : Accepts c name kind p.summary) :
    Accepts c name kind ((ingestTypeHead roots b).run p).2.summary := by
  obtain ⟨rfl, htype⟩ := haccepts
  by_cases hmachinery : isMachinery p.summary.context b = true
  · rw [run_ingestTypeHead_of_machinery hmachinery]
    exact ⟨rfl, htype⟩
  · have hcomposed := Bool.eq_false_iff.mpr hmachinery
    subst hname
    obtain ⟨e, n, he, hacts⟩ := exists_acts_ingestTypeHead roots hcomposed
      (d := p.summary.types (roots.canonicalName b.name))
      (fun d hd => (htype d hd).trans (hkind hcomposed).symm)
    obtain ⟨-, hsummary, -⟩ := hacts p rfl rfl
    rw [hsummary]
    refine ⟨rfl, fun d hd => ?_⟩
    obtain rfl := Option.some.inj ((p.summary.types_put_self _ _).symm.trans hd)
    exact he.trans (hkind hcomposed)

/-- The heads of all blocks are taken in alike. -/
theorem agreeFrom_ingestTypeHeads
    (hc : isMachinery c block = true ∨ Converges c schema block parts) :
    AgreeFrom (fun σ => σ.context = c ∧ σ.types (schema.roots.canonicalName block.name) = none)
      (schema'.typeBlocks.forM (ingestTypeHead schema.roots))
      (schema.typeBlocks.forM (ingestTypeHead schema.roots)) := by
  have hself : ∀ b, Agree (ingestTypeHead schema.roots b) (ingestTypeHead schema.roots b) :=
    fun b => (alikeAbout_ingestTypeHead schema.roots b).agree
  have hcomm : ∀ b b', schema.roots.canonicalName b.name ≠ schema.roots.canonicalName b'.name →
      Agree (ingestTypeHead schema.roots b >>= fun _ => ingestTypeHead schema.roots b')
        (ingestTypeHead schema.roots b' >>= fun _ => ingestTypeHead schema.roots b) :=
    fun b b' hne => (alikeAbout_ingestTypeHead schema.roots b).comm hne
      (alikeAbout_ingestTypeHead schema.roots b')
  rcases hc with hmachinery | hc
  · have hkeeps : ∀ b, ∀ p : Progress, p.summary.context = c →
        ((ingestTypeHead schema.roots b).run p).2.summary.context = c :=
      fun b p hp => ((alikeAbout_ingestTypeHead schema.roots b).context_eq p).trans hp
    have hall := agreeFrom_forM_splits h hself hcomm (fun b _ => hkeeps b)
      (agreeFrom_parts_of_machinery h hmachinery fun b p => run_ingestTypeHead_of_machinery)
    exact fun p q hp heq => hall p q hp.1 heq
  · have hall := agreeFrom_forM_splits h hself hcomm (fun b hb p =>
        accepts_ingestTypeHead (beq_iff_eq.mp (List.mem_filter.mp hb).2) (hc.blocks b hb))
      (agreeFrom_parts h hc.parts hself
        fun b other hname hother hbody hkind hkind' hdescription => ?_)
    · refine fun p q hp heq => hall p q ⟨hp.1, fun d hd => ?_⟩ heq
      rw [hp.2] at hd
      cases hd
    · have hjoin := @agreeFrom_ingestTypeHead_join schema.roots c b other hother hbody hkind'
        hdescription (by rw [hkind, hname]; exact hc.root)
      rw [hname, hkind] at hjoin
      exact hjoin

/-- The bodies of all blocks are taken in alike. -/
theorem agreeFrom_ingestTypeBodies
    (hc : isMachinery c block = true ∨ Converges c schema block parts) :
    AgreeFrom (fun σ => σ.context = c) (schema'.typeBlocks.forM (ingestTypeBody schema.roots))
      (schema.typeBlocks.forM (ingestTypeBody schema.roots)) := by
  have hself : ∀ b, Agree (ingestTypeBody schema.roots b) (ingestTypeBody schema.roots b) :=
    fun b => (alikeAbout_ingestTypeBody (r := schema.roots) schema.roots b).agree
  refine agreeFrom_forM_splits h hself (fun b b' hne => ?_) (fun b _ p hp => ?_) ?_
  · exact (alikeAbout_ingestTypeBody (r := schema.roots) schema.roots b).comm hne
      (alikeAbout_ingestTypeBody (r := schema.roots) schema.roots b')
  · exact ((alikeAbout_ingestTypeBody (r := schema.roots) schema.roots b).context_eq p).trans hp
  · rcases hc with hmachinery | hc
    · refine agreeFrom_parts_of_machinery h hmachinery fun b p hb =>
        run_ingestTypeBody_of_not_takes fun htakes => ?_
      rw [htakes.1] at hb
      cases hb
    · exact agreeFrom_parts h hc.parts hself fun b other _ hother hbody _ hkind _ =>
        agreeFrom_ingestTypeBody_join hother hbody hkind

/-- All type blocks are taken in alike. -/
theorem agreeFrom_ingestTypeBlocks
    (hc : isMachinery c block = true ∨ Converges c schema block parts) :
    AgreeFrom (fun σ => σ.context = c ∧ σ.types (schema.roots.canonicalName block.name) = none)
      (ingestTypeBlocks schema.roots schema'.typeBlocks)
      (ingestTypeBlocks schema.roots schema.typeBlocks) := by
  refine (agreeFrom_ingestTypeHeads h hc).bind_of_keeps (fun p hp => ?_) fun _ =>
    agreeFrom_ingestTypeBodies h hc
  exact holds_forM (I := fun σ => σ.context = c) (fun b _ q hq =>
    ((alikeAbout_ingestTypeHead schema.roots b).context_eq q).trans hq) p hp.1

end

end Federation
