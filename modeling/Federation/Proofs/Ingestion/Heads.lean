import Federation.Proofs.Ingestion.Outlines
import Federation.Proofs.Ingestion.Quiet

/-!
# Heads of types

In a first pass every block finds or founds its type, and its directives are taken in. Blocks of one
name are of one kind then, as another kind would be reported; and types have no parts yet.
-/

namespace Federation

open Document (Directive InputDecl FieldDecl EnumValueDecl TypeBlock TypeBody SchemaBlock)
open Ingestion

/-! ## Directives -/

namespace Attributes

theorem silent_ingestFieldSet (location : String) (directive : Directive) (directiveName : String)
    (wrongType unusable : ErrorCode) :
    Silent (ingestFieldSet location directive directiveName wrongType unusable) := by
  unfold ingestFieldSet
  split
  · exact achieves_report_pure _ _ none
  · refine (silent_readFieldSet _).bind fun result => ?_
    split
    · exact silent_pure _
    · exact achieves_report_pure _ _ none

/-- A directive leaves the element alone if its role does. -/
theorem achieves_ingestRole (location : String) (a : Attributes) (directive : Directive)
    (role : DirectiveRole) :
    Achieves (ingestRole location a directive role) fun s b t =>
      t = s ∧ (role.isStandalone = true → a.IsStandalone → b.IsStandalone) := by
  -- the roles that are excluded need no care, and the others leave what matters as it is
  have hgive : ∀ b : Attributes, (role.isStandalone = true → a.IsStandalone → b.IsStandalone) →
      Achieves (pure b) fun s c t =>
        t = s ∧ (role.isStandalone = true → a.IsStandalone → c.IsStandalone) := by
    intro b hb
    refine (achieves_pure b).mono ?_
    rintro s c t ⟨rfl, rfl⟩
    exact ⟨rfl, hb⟩
  unfold ingestRole
  cases role with
  | key | extended | shareable => exact hgive _ fun _ ha => ⟨ha.1, ha.2, ha.3, ha.4, ha.5, ha.6⟩
  | external | interfaceObject => exact hgive _ fun h => absurd h (by decide)
  | authenticated =>
    exact (silent_useFeatures _).bind fun _ => hgive _ fun _ ha => ⟨ha.1, ha.2, ha.3, ha.4, ha.5, ha.6⟩
  | inaccessible => exact (silent_useFeatures _).bind fun _ => hgive _ fun h => absurd h (by decide)
  | cost =>
    dsimp only
    split
    · exact (silent_useFeatures _).bind fun _ =>
        hgive _ fun _ ha => ⟨ha.1, ha.2, ha.3, ha.4, ha.5, ha.6⟩
    · exact achieves_report_pure _ _ _
  | listSize =>
    dsimp only
    split
    · exact (silent_mentionAll _).bind fun _ => (silent_mentionAll _).bind fun _ =>
        (silent_useFeatures _).bind fun _ => hgive _ fun _ ha => ⟨ha.1, ha.2, ha.3, ha.4, ha.5, ha.6⟩
    · exact achieves_report_pure _ _ _
  | deprecated =>
    dsimp only
    split
    · exact (silent_mentionOptional _).bind fun _ =>
        hgive _ fun _ ha => ⟨ha.1, ha.2, ha.3, ha.4, ha.5, ha.6⟩
    · exact achieves_report_pure _ _ _
  | override =>
    refine (silent_mentionOptional _).bind fun _ => (silent_mentionOptional _).bind fun _ => ?_
    split
    · exact hgive _ fun h => absurd h (by decide)
    · exact achieves_report_pure _ _ _
  | policy | requiresScopes =>
    exact (silent_mentionAll _).bind fun _ => (silent_useFeatures _).bind fun _ =>
      hgive _ fun _ ha => ⟨ha.1, ha.2, ha.3, ha.4, ha.5, ha.6⟩
  | provides | requires =>
    refine (silent_ingestFieldSet _ _ _ _ _).bind fun selections => ?_
    split
    · exact hgive _ fun h => absurd h (by decide)
    · exact hgive _ fun h => absurd h (by decide)
  | tag =>
    dsimp only
    split
    · exact hgive _ fun _ ha => ha
    · exact (silent_mention _).bind fun _ => (silent_useFeatures _).bind fun _ =>
        hgive _ fun _ ha => ⟨ha.1, ha.2, ha.3, ha.4, ha.5, ha.6⟩

theorem achieves_ingestDirective (location : String) (a : Attributes) (directive : Directive) :
    Achieves (ingestDirective location a directive) fun s b t =>
      t = s ∧ (s.AppliesStandalone [directive] → a.IsStandalone → b.IsStandalone) := by
  refine achieves_subgraph_bind fun full => ?_
  split
  · rename_i role hrole
    refine (achieves_ingestRole location a directive role).mono ?_
    rintro u b t ⟨rfl, hb⟩ rfl
    exact ⟨rfl, fun hdirective => hb (hdirective directive (List.mem_singleton_self _) role hrole)⟩
  · refine (achieves_pure a).mono ?_
    rintro u b t ⟨rfl, rfl⟩ rfl
    exact ⟨rfl, fun _ ha => ha⟩

/-- Directives leave the element alone if all of them do. -/
theorem achieves_ingest (location : String) (a : Attributes) (directives : List Directive) :
    Achieves (Attributes.ingest location a directives) fun s b t =>
      t = s ∧ (s.AppliesStandalone directives → a.IsStandalone → b.IsStandalone) := by
  unfold ingest
  induction directives generalizing a with
  | nil =>
    refine (achieves_pure a).mono ?_
    rintro s b t ⟨rfl, rfl⟩
    exact ⟨rfl, fun _ ha => ha⟩
  | cons directive others ih =>
    rw [List.foldlM_cons]
    refine ((achieves_ingestDirective location a directive).bind ih).mono ?_
    rintro s c t ⟨b, _, ⟨rfl, hb⟩, rfl, hc⟩
    refine ⟨rfl, fun hdirectives ha => ?_⟩
    obtain ⟨hdirective, hothers⟩ := List.forall_mem_cons.mp hdirectives
    exact hc hothers (hb (List.forall_mem_singleton.mpr hdirective) ha)

end Attributes

/-! ## Keys and links -/

theorem achieves_ingestKey (typeName : String) (directive : Directive) :
    Achieves (ingestKey typeName directive) fun s _ t => s.Gains (fun _ => {}) [] t := by
  unfold ingestKey
  split
  · exact achieves_report _ _
  · refine (silent_readFieldSet _).bind fun result => ?_
    split
    · refine (achieves_modifyDefinition _ _).mono ?_
      rintro s _ t rfl
      exact Subgraph.gains_modifyDefinition_same
        (fun _ => .of_same rfl rfl rfl rfl rfl rfl) fun _ _ _ hd => ⟨hd.1, hd.2, hd.3⟩
    · exact achieves_report _ _

theorem achieves_ingestKeys (typeName : String) (directives : List Directive) :
    Achieves (ingestKeys typeName directives) fun s _ t => s.Gains (fun _ => {}) [] t := by
  have hall : ∀ keys : List Directive, Achieves (keys.forM (ingestKey typeName)) fun s _ t =>
      s.Gains (fun _ => {}) [] t := fun keys =>
    achieves_forM (I := fun _ s t => s.Gains (fun _ => {}) [] t)
      (fun _ _ => achieves_ingestKey typeName _) (fun s => s.gains_refl [])
      fun _ _ _ _ _ h h' => h.trans h'
  exact achieves_subgraph_bind fun full => (hall _).mono fun _ _ _ h _ => h

/-- A step that leaves the types as they are. -/
def KeepsTypes {α : Type} (x : Ingestion α) : Prop :=
  Achieves x fun s _ t => t.definitions = s.definitions

theorem KeepsTypes.bind {α β : Type} {x : Ingestion α} {k : α → Ingestion β} (hx : KeepsTypes x)
    (hk : ∀ a, KeepsTypes (k a)) : KeepsTypes (x >>= k) := by
  refine (Achieves.bind hx hk).mono ?_
  rintro s _ u ⟨_, t, h, h'⟩
  exact h'.trans h

theorem keepsTypes_forM {α : Type} {items : List α} {step : α → Ingestion Unit}
    (h : ∀ a ∈ items, KeepsTypes (step a)) : KeepsTypes (items.forM step) :=
  achieves_forM (I := fun _ s t => t.definitions = s.definitions) h (fun _ => rfl)
    fun _ _ _ _ _ hfirst hothers => hothers.trans hfirst

theorem keepsTypes_modifySubgraph {f : Subgraph → Subgraph}
    (hdiagnostics : ∀ s, (f s).diagnostics = s.diagnostics) (hcore : ∀ s, (f s).core = f s.core)
    (htypes : ∀ s, (f s).definitions = s.definitions) : KeepsTypes (modifySubgraph f) := by
  refine (achieves_modifySubgraph hdiagnostics hcore).mono ?_
  rintro s _ t rfl
  exact htypes s

theorem keepsTypes_ingestImport (url : String) (spec : Spec) (entry : Document.Literal) :
    KeepsTypes (ingestImport url spec entry) := by
  unfold ingestImport
  split
  · exact achieves_report _ _
  · split
    · exact achieves_report _ _
    · exact (silent_mention _).bind fun _ => (silent_mention _).bind fun _ =>
        keepsTypes_modifySubgraph (fun _ => rfl) (fun _ => rfl) fun _ => rfl

theorem keepsTypes_ingestSpec (directive : Directive) (url : String) (named : SpecUrl) :
    KeepsTypes (ingestSpec directive url named) := by
  refine (silent_mention _).bind fun _ => (silent_mention _).bind fun _ => ?_
  refine KeepsTypes.bind (keepsTypes_modifySubgraph ?_ ?_ ?_) fun _ =>
    keepsTypes_forM fun _ _ => keepsTypes_ingestImport _ _ _
  · exact fun _ => rfl
  · exact fun _ => rfl
  · exact fun _ => rfl

theorem keepsTypes_ingestLink (directive : Directive) : KeepsTypes (ingestLink directive) := by
  unfold ingestLink
  split
  · exact achieves_report _ _
  · split
    · exact achieves_report _ _
    · split
      · split
        · refine KeepsTypes.bind (keepsTypes_modifySubgraph ?_ ?_ ?_) fun _ =>
            keepsTypes_ingestSpec _ _ _
          · exact fun _ => rfl
          · exact fun _ => rfl
          · exact fun _ => rfl
        · exact achieves_report _ _
      · exact keepsTypes_ingestSpec _ _ _

/-- Schema blocks choose the roots and leave the types alone. -/
theorem achieves_ingestSchemaBlocks (blocks : List SchemaBlock) (roots : RootTypes) :
    Achieves (blocks.foldlM ingestSchemaBlock roots) fun s chosen t =>
      t.definitions = s.definitions ∧ chosen = blocks.foldl RootTypes.choose roots := by
  induction blocks generalizing roots with
  | nil =>
    refine (achieves_pure roots).mono ?_
    rintro s _ t ⟨rfl, rfl⟩
    exact ⟨rfl, rfl⟩
  | cons block others ih =>
    have hlinks : KeepsTypes ((block.directives.filter fun d => d.name == "link").forM ingestLink) :=
      keepsTypes_forM fun _ _ => keepsTypes_ingestLink _
    rw [List.foldlM_cons]
    refine ((Achieves.bind hlinks fun _ => achieves_pure (roots.choose block)).bind ih).mono ?_
    rintro s chosen u ⟨_, t, ⟨_, _, h, rfl, rfl⟩, h', rfl⟩
    exact ⟨h'.trans h, rfl⟩

/-! ## Heads of types -/

/-- A type without parts. -/
structure TypeDef.IsBare (d : TypeDef) : Prop where
  fields : d.fields = []
  enumValues : d.enumValues = []
  members : d.members = []
  interfaces : d.interfaces = []

namespace Subgraph

/-- Types of some names and kinds have been found or founded. Those that are new have no parts, and
all types go on to stand alone if some directives let them. -/
structure Founds (s : Subgraph) (heads : List (String × TypeKind)) (directives : List Directive)
    (t : Subgraph) : Prop where
  context : s.SameContext t
  names : t.definitions.map TypeDef.name =
    (heads.map Prod.fst).foldl Attributes.addNew (s.definitions.map TypeDef.name)
  kept : ∀ d ∈ s.definitions, ∃ e ∈ t.definitions, e.name = d.name ∧ e.kind = d.kind
  kinds : ∀ head ∈ heads, ∃ e ∈ t.definitions, e.name = head.1 ∧ e.kind = head.2
  bare : (∀ d ∈ s.definitions, d.IsBare) → ∀ e ∈ t.definitions, e.IsBare
  standalone : s.AppliesStandalone directives → s.IsStandalone → t.IsStandalone

variable {s t u : Subgraph} {heads heads' : List (String × TypeKind)}
  {directives directives' : List Directive}

theorem founds_nil (s : Subgraph) (directives : List Directive) : s.Founds [] directives s where
  context := rfl
  names := rfl
  kept := fun d hd => ⟨d, hd, rfl, rfl⟩
  kinds := fun _ hhead => absurd hhead List.not_mem_nil
  bare := id
  standalone := fun _ => id

theorem Founds.trans (h : s.Founds heads directives t) (h' : t.Founds heads' directives' u) :
    s.Founds (heads ++ heads') (directives ++ directives') u where
  context := h.context.trans h'.context
  names := by rw [h'.names, h.names, ← List.foldl_append, ← List.map_append]
  kept := by
    intro d hd
    obtain ⟨e, he, hname, hkind⟩ := h.kept d hd
    obtain ⟨f, hf, hname', hkind'⟩ := h'.kept e he
    exact ⟨f, hf, hname'.trans hname, hkind'.trans hkind⟩
  kinds := by
    intro head hhead
    rcases List.mem_append.mp hhead with hhead | hhead
    · obtain ⟨e, he, hname, hkind⟩ := h.kinds head hhead
      obtain ⟨f, hf, hname', hkind'⟩ := h'.kept e he
      exact ⟨f, hf, hname'.trans hname, hkind'.trans hkind⟩
    · exact h'.kinds head hhead
  bare := fun hs => h'.bare (h.bare hs)
  standalone := by
    intro hdirectives hs
    obtain ⟨hfirst, hsecond⟩ := List.forall_mem_append.mp hdirectives
    exact h'.standalone (h.context.appliesStandalone_iff.mpr hsecond) (h.standalone hfirst hs)

/-- Types that gain nothing are found again. -/
theorem Gains.founds (h : s.Gains (fun _ => {}) directives t) :
    s.Founds [] directives t := by
  constructor
  · exact h.context
  · exact h.names
  · intro d hd
    obtain ⟨e, he, hsame⟩ := exists_of_forall₂_left h.definitions hd
    exact ⟨e, he, hsame.name, hsame.kind⟩
  · exact fun _ hhead => absurd hhead List.not_mem_nil
  · intro hs e he
    obtain ⟨d, hd, hsame⟩ := exists_of_forall₂_right h.definitions he
    have hbare := hs d hd
    have hfields := hsame.fields
    have hvalues := hsame.values
    rw [hbare.fields, List.map_nil, List.append_nil, List.map_eq_nil_iff] at hfields
    rw [hbare.enumValues, List.map_nil, List.append_nil, List.map_eq_nil_iff] at hvalues
    exact ⟨hfields, hvalues, hsame.members.trans hbare.members,
      hsame.interfaces.trans hbare.interfaces⟩
  · exact h.standalone

/-- A type that is there is among those that are found. -/
theorem Founds.find (h : s.Founds [] directives t) {d : TypeDef} (hd : d ∈ s.definitions) :
    s.Founds [(d.name, d.kind)] directives t where
  context := h.context
  names := by
    have hmem : (s.definitions.map TypeDef.name).contains d.name = true :=
      List.contains_iff_mem.mpr (List.mem_map_of_mem hd)
    rw [h.names]
    exact (if_pos hmem).symm
  kept := h.kept
  kinds := by
    intro head hhead
    obtain rfl := List.mem_singleton.mp hhead
    exact h.kept d hd
  bare := h.bare
  standalone := h.standalone

/-- A type of a new name is founded. -/
theorem founds_add {d : TypeDef} (hnew : s.definition? d.name = none) (hbare : d.IsBare)
    (hattributes : d.attributes.IsStandalone) :
    s.Founds [(d.name, d.kind)] [] { s with definitions := s.definitions ++ [d] } where
  context := rfl
  names := by
    have hmem : ¬ (s.definitions.map TypeDef.name).contains d.name = true := by
      rw [List.contains_iff_mem, List.mem_map]
      rintro ⟨other, hother, hname⟩
      exact List.find?_eq_none.mp hnew other hother (beq_iff_eq.mpr hname)
    rw [List.map_append, List.map_singleton]
    exact (if_neg hmem).symm
  kept := fun d hd => ⟨d, List.mem_append_left _ hd, rfl, rfl⟩
  kinds := by
    intro head hhead
    obtain rfl := List.mem_singleton.mp hhead
    exact ⟨d, List.mem_append_right _ (List.mem_singleton_self d), rfl, rfl⟩
  bare := fun hs => List.forall_mem_append.mpr ⟨hs, List.forall_mem_singleton.mpr hbare⟩
  standalone := by
    intro _ hs
    refine List.forall_mem_append.mpr ⟨hs, List.forall_mem_singleton.mpr ⟨hattributes, ?_, ?_⟩⟩
    · rw [hbare.fields]
      exact fun _ h => absurd h List.not_mem_nil
    · rw [hbare.enumValues]
      exact fun _ h => absurd h List.not_mem_nil

end Subgraph

/-- An element without directives stands alone. -/
theorem Attributes.isStandalone_default : ({} : Attributes).IsStandalone :=
  ⟨rfl, rfl, rfl, rfl, rfl, rfl⟩

/-- A type of a name is found or founded. -/
theorem achieves_foundType (typeName : String) (kind : TypeKind) (isExtension : Bool)
    (description : Option String) :
    Achieves (foundType typeName kind isExtension description) fun s found t =>
      found = true ∧ s.Founds [(typeName, kind)] [] t := by
  refine achieves_subgraph_bind fun full => ?_
  split
  · rename_i hnew
    refine (silent_mention _).bind fun _ => ?_
    let definition : TypeDef := { name := typeName, kind, description, isExtension }
    have hadd : Achieves (modifySubgraph fun s =>
        { s with definitions := s.definitions ++ [definition] }) fun s _ t =>
          t = { s with definitions := s.definitions ++ [definition] } :=
      achieves_modifySubgraph (fun _ => rfl) fun _ => rfl
    refine (hadd.bind fun _ => achieves_pure true).mono ?_
    rintro s found t ⟨_, _, rfl, rfl, rfl⟩ rfl
    exact ⟨rfl, Subgraph.founds_add (s := full.core) (d := definition) hnew ⟨rfl, rfl, rfl, rfl⟩
      Attributes.isStandalone_default⟩
  · rename_i existing hexisting
    split
    · rename_i hkind
      refine ((achieves_modifyDefinition _ _).bind fun _ => achieves_pure true).mono ?_
      rintro s found t ⟨_, _, rfl, rfl, rfl⟩ rfl
      have hhead : (typeName, kind) = (existing.name, existing.kind) := by
        rw [Subgraph.name_of_definition? hexisting, hkind]
      rw [hhead]
      refine ⟨rfl, Subgraph.Founds.find ?_ (Subgraph.mem_of_definition? hexisting)⟩
      exact Subgraph.Gains.founds (Subgraph.gains_modifyDefinition_same
        (fun _ => .of_same rfl rfl rfl rfl rfl rfl) fun _ _ _ hd => ⟨hd.1, hd.2, hd.3⟩)
    · exact achieves_report_pure _ _ _

/-- The directives of a block leave its type with the same parts. -/
theorem achieves_ingestTypeDirectives (typeName : String) (block : TypeBlock) :
    Achieves (ingestTypeDirectives typeName block) fun s _ t =>
      s.Gains (fun _ => {}) block.directives t := by
  have hextend : ∀ isExtended : Bool, Achieves (do
      if isExtended then modifyDefinition typeName fun d => { d with isExtension := true })
      fun s _ t => s.Gains (fun _ => {}) [] t := by
    intro isExtended
    split
    · refine (achieves_modifyDefinition _ _).mono ?_
      rintro s _ t rfl
      exact Subgraph.gains_modifyDefinition_same
        (fun _ => .of_same rfl rfl rfl rfl rfl rfl) fun _ _ _ hd => ⟨hd.1, hd.2, hd.3⟩
    · refine (silent_pure _).mono ?_
      rintro s _ t rfl
      exact t.gains_refl []
  refine achieves_subgraph_bind fun full => ((Attributes.achieves_ingest _ _ _).bind fun a =>
    (achieves_modifyDefinition _ _).bind fun _ => (achieves_ingestKeys _ _).bind fun _ =>
      hextend a.isExtended).mono ?_
  rintro _ _ t ⟨a, _, ⟨rfl, ha⟩, _, _, rfl, _, u, hkeys, hextended⟩ rfl
  have hbefore : full.core.IsStandalone →
      (((full.definition? typeName).map TypeDef.attributes).getD {}).IsStandalone := by
    intro hs
    cases hfound : full.definition? typeName with
    | none => exact Attributes.isStandalone_default
    | some d => exact (hs d (Subgraph.mem_of_definition? hfound)).attributes
  have hattributes : full.core.Gains (fun _ => {}) block.directives
      (full.core.modifyDefinition typeName fun d => { d with attributes := a }) :=
    Subgraph.gains_modifyDefinition_same (fun _ => .of_same rfl rfl rfl rfl rfl rfl)
      fun hdirectives hs d hd => ⟨ha hdirectives (hbefore hs), hd.2, hd.3⟩
  have hall := hattributes.trans (hkeys.trans hextended)
  rw [List.append_nil, List.append_nil] at hall
  exact hall

/-- A root is only noted by the way. -/
theorem silent_registerRoot (roots : RootTypes) (block : TypeBlock) (typeName : String) :
    Silent (registerRoot roots block typeName) := by
  unfold registerRoot
  split
  · exact fun _ hquiet => ⟨hquiet, rfl⟩
  · exact achieves_report _ _
  · exact silent_pure ()

/-- The heads of the blocks that do not serve federation itself: names and kinds. -/
def headsOf (roots : RootTypes) (s : Subgraph) (blocks : List TypeBlock) :
    List (String × TypeKind) :=
  (Document.composedBlocks s blocks).map fun block =>
    (roots.canonicalName block.name, kindOf s block)

theorem Subgraph.SameContext.headsOf_eq {s t : Subgraph} (h : s.SameContext t) (roots : RootTypes)
    (blocks : List TypeBlock) : headsOf roots t blocks = headsOf roots s blocks := by
  rw [h]
  rfl

/-- The head of a block is taken in. -/
theorem achieves_ingestTypeHead (roots : RootTypes) (block : TypeBlock) :
    Achieves (ingestTypeHead roots block) fun s _ t =>
      s.Founds (headsOf roots s [block]) block.directives t := by
  have hrest : ∀ (typeName : String) (kind : TypeKind) (found : Bool), Achieves (do
      if found then
        if kind = .object then registerRoot roots block typeName
        ingestTypeDirectives typeName block)
      fun s _ t => found = true → s.Gains (fun _ => {}) block.directives t := by
    intro typeName kind found
    split
    · split
      · exact (silent_registerRoot _ _ _).bind fun _ =>
          (achieves_ingestTypeDirectives _ _).mono fun _ _ _ h _ => h
      · exact (achieves_ingestTypeDirectives _ _).mono fun _ _ _ h _ => h
    · refine (silent_pure _).mono fun _ _ _ _ hfound => ?_
      contradiction
  refine achieves_subgraph_bind fun full => ?_
  have hcore : isMachinery full block = isMachinery full.core block := rfl
  rw [hcore]
  by_cases hmachinery : isMachinery full.core block = true
  · have hnone : headsOf roots full.core [block] = [] := by simp [headsOf, Document.composedBlocks, hmachinery]
    rw [if_pos hmachinery]
    refine (silent_pure _).mono ?_
    rintro s _ t rfl rfl
    rw [hnone]
    exact Subgraph.founds_nil _ _
  · have hone : headsOf roots full.core [block] =
        [(roots.canonicalName block.name, kindOf full.core block)] := by simp [headsOf, Document.composedBlocks, hmachinery]
    rw [if_neg hmachinery]
    refine ((silent_describe _).bind fun _ => (achieves_foundType _ _ _ _).bind fun found =>
      hrest _ _ found).mono ?_
    rintro s _ t ⟨found, u, ⟨rfl, hfounds⟩, hgains⟩ rfl
    rw [hone]
    exact hfounds.trans (hgains rfl).founds

/-- The heads of all blocks are taken in. -/
theorem achieves_ingestTypeHeads (roots : RootTypes) (blocks : List TypeBlock) :
    Achieves (blocks.forM (ingestTypeHead roots)) fun s _ t =>
      s.Founds (headsOf roots s blocks) (blocks.flatMap TypeBlock.directives) t := by
  refine achieves_forM
    (I := fun blocks s t => s.Founds (headsOf roots s blocks) (blocks.flatMap TypeBlock.directives) t)
    (fun block _ => achieves_ingestTypeHead roots block) (fun s => Subgraph.founds_nil s []) ?_
  intro block others s t u h h'
  rw [h.context.headsOf_eq] at h'
  have hheads : headsOf roots s (block :: others) =
      headsOf roots s [block] ++ headsOf roots s others := by
    rw [headsOf, headsOf, headsOf, Document.composedBlocks, Document.composedBlocks,
      Document.composedBlocks, ← List.map_append, ← List.filter_append]
    rfl
  rw [hheads, List.flatMap_cons]
  exact h.trans h'

end Federation
