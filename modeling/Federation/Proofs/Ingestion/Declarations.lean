import Federation.Proofs.Ingestion.Heads

/-!
# What a document declares

In a second pass every type gains what its blocks declare. Fields and values that are there already
would be reported, and so would members and interfaces that the subgraph does not define; so nothing
that a block lists is left out.
-/

namespace Federation

open Document (Directive InputDecl FieldDecl EnumValueDecl TypeBlock TypeBody SchemaBlock)
open Ingestion

/-! ## Fields -/

theorem silent_ingestDefault (literal : Option Document.Literal) : Silent (ingestDefault literal) := by
  unfold ingestDefault
  split
  · exact silent_pure none
  · exact (silent_mentionAll _).bind fun _ => silent_pure _

/-- An argument is what its declaration says. -/
structure Argument.IsDeclaredBy (a : Argument) (s : Subgraph) (decl : InputDecl) : Prop where
  name : a.name = decl.name
  type : a.type = decl.type
  standalone : s.AppliesStandalone decl.directives → a.attributes.IsStandalone

theorem achieves_ingestArgument (coordinate : String) (decl : InputDecl) :
    Achieves (ingestArgument coordinate decl) fun s a t => t = s ∧ a.IsDeclaredBy s decl := by
  unfold ingestArgument
  refine (silent_mentionType _).bind fun _ => ((Attributes.achieves_ingest _ _ _).bind
    (S := fun attributes s (a : Argument) t =>
      t = s ∧ a.name = decl.name ∧ a.type = decl.type ∧ a.attributes = attributes)
    fun _ => (silent_describe _).bind fun _ => (silent_ingestDefault _).bind fun _ =>
      (silent_mention _).bind fun _ => (achieves_pure _).mono ?_).mono ?_
  · rintro s a t ⟨rfl, rfl⟩
    exact ⟨rfl, rfl, rfl, rfl⟩
  · rintro s a t ⟨_, _, ⟨rfl, hattributes⟩, rfl, hname, htype, rfl⟩
    exact ⟨rfl, hname, htype, fun h => hattributes h Attributes.isStandalone_default⟩

/-- A field is added to the type of a name. -/
theorem achieves_addField (typeName what : String) (field : Field) :
    Achieves (addField typeName what field) fun s _ t =>
      ∀ directives, (s.AppliesStandalone directives → field.IsStandalone) →
        s.Gains (Outline.only typeName { fields := [field.signature] }) directives t := by
  unfold addField
  refine achieves_subgraph_bind fun full => ?_
  dsimp only
  split
  · refine (achieves_modifyDefinition _ _).mono ?_
    rintro s _ t rfl - directives hfield
    refine Subgraph.gains_modifyDefinition (Subgraph.defines_of_nil rfl rfl) (fun d => ?_)
      fun hdirectives _ d hd => ?_
    · exact ⟨rfl, rfl, List.map_append, (List.append_nil _).symm, rfl, rfl⟩
    · refine ⟨hd.attributes, List.forall_mem_append.mpr ⟨hd.fields, ?_⟩, hd.enumValues⟩
      exact List.forall_mem_singleton.mpr (hfield hdirectives)
  · exact achieves_report _ _

/-- A block whose body is a single field declares this field. -/
theorem achieves_ingestField (roots : RootTypes) (typeName : String) (inExtension : Bool)
    (decl : FieldDecl) :
    Achieves (ingestField roots typeName inExtension decl) fun s _ t =>
      s.Gains (Outline.only typeName ((TypeBody.object [] [decl]).outline roots typeName))
        (TypeBody.object [] [decl]).directives t := by
  have hdirectives : (TypeBody.object [] [decl]).directives =
      decl.directives ++ decl.arguments.flatMap InputDecl.directives := List.flatMap_singleton ..
  have hguard : (typeName == RootOperation.query.typeName && machineryFields.contains decl.name) =
      decl.isMachinery typeName := rfl
  unfold ingestField
  rw [hguard]
  by_cases hmachinery : decl.isMachinery typeName = true
  · have hnone : (TypeBody.object [] [decl]).outline roots typeName = {} := by
      simp [TypeBody.outline, hmachinery]
    rw [if_pos hmachinery, hnone, Outline.only_empty]
    refine (silent_pure _).mono ?_
    rintro s _ t rfl
    exact t.gains_refl _
  · have hone : (TypeBody.object [] [decl]).outline roots typeName =
        { fields := [decl.signature roots] } := by simp [TypeBody.outline, hmachinery]
    rw [if_neg hmachinery, hone, hdirectives]
    refine (silent_mentionType _).bind fun _ => ((Attributes.achieves_ingest _ _ _).bind
      fun attributes => (achieves_mapM (achieves_ingestArgument _)).bind
        (S := fun arguments s _ t => ∀ directives, (s.AppliesStandalone directives →
          attributes.IsStandalone ∧ ∀ a ∈ arguments, a.attributes.IsStandalone) →
            s.Gains (Outline.only typeName { fields := [⟨decl.name,
              { decl.type with name := roots.canonicalName decl.type.name },
              arguments.map fun a => (a.name, a.type)⟩] }) directives t)
        fun arguments => (silent_describe _).bind fun _ => (silent_mention _).bind fun _ =>
          achieves_addField _ _ _).mono ?_
    rintro s _ t ⟨attributes, _, ⟨rfl, hattributes⟩, arguments, _, ⟨rfl, harguments⟩, hgains⟩
    have hsignature : (arguments.map fun a => (a.name, a.type)) =
        decl.arguments.map fun a => (a.name, a.type) := by
      have hsame := harguments.imp fun d a h =>
        show (a.name, a.type) = (d.name, d.type) by rw [h.name, h.type]
      rw [← List.forall₂_eq_eq_eq]
      exact List.forall₂_map_left_iff.mpr (List.forall₂_map_right_iff.mpr hsame.flip)
    rw [hsignature] at hgains
    refine hgains _ fun h => ?_
    obtain ⟨hown, hall⟩ := List.forall_mem_append.mp h
    refine ⟨hattributes hown Attributes.isStandalone_default, fun a ha => ?_⟩
    obtain ⟨d, hd, hdeclared⟩ := exists_of_forall₂_right harguments ha
    exact hdeclared.standalone fun directive hdirective =>
      hall directive (List.mem_flatMap.mpr ⟨d, hd, hdirective⟩)

/-- A block whose body is a single input field declares this field. -/
theorem achieves_ingestInputField (roots : RootTypes) (typeName : String) (inExtension : Bool)
    (decl : InputDecl) :
    Achieves (ingestInputField typeName inExtension decl) fun s _ t =>
      s.Gains (Outline.only typeName ((TypeBody.inputObject [decl]).outline roots typeName))
        (TypeBody.inputObject [decl]).directives t := by
  have hdirectives : (TypeBody.inputObject [decl]).directives = decl.directives :=
    List.flatMap_singleton ..
  unfold ingestInputField
  rw [hdirectives]
  refine (silent_mentionType _).bind fun _ => ((Attributes.achieves_ingest _ _ _).bind
    (S := fun attributes s _ t =>
      (s.AppliesStandalone decl.directives → attributes.IsStandalone) →
        s.Gains (Outline.only typeName { fields := [decl.signature] }) decl.directives t)
    fun attributes => (silent_describe _).bind fun _ => (silent_ingestDefault _).bind fun _ =>
      (silent_mention _).bind fun _ => (achieves_addField _ _ _).mono ?_).mono ?_
  · intro s _ t hgains hattributes
    exact hgains _ fun h => ⟨hattributes h, fun _ ha => absurd ha List.not_mem_nil⟩
  · rintro s _ t ⟨attributes, _, ⟨rfl, hattributes⟩, hgains⟩
    exact hgains fun h => hattributes h Attributes.isStandalone_default

/-- A block whose body is a single value declares this value. -/
theorem achieves_ingestEnumValue (roots : RootTypes) (typeName : String) (decl : EnumValueDecl) :
    Achieves (ingestEnumValue typeName decl) fun s _ t =>
      s.Gains (Outline.only typeName ((TypeBody.enum [decl]).outline roots typeName))
        (TypeBody.enum [decl]).directives t := by
  have hdirectives : (TypeBody.enum [decl]).directives = decl.directives :=
    List.flatMap_singleton ..
  unfold ingestEnumValue
  rw [hdirectives]
  refine ((Attributes.achieves_ingest _ _ _).bind (S := fun attributes s _ t =>
      (s.AppliesStandalone decl.directives → attributes.IsStandalone) →
        s.Gains (Outline.only typeName { values := [decl.name] }) decl.directives t)
    fun attributes => (silent_describe _).bind fun _ => (silent_mention _).bind fun _ =>
      achieves_subgraph_bind fun full => ?_).mono ?_
  · dsimp only
    split
    · exact achieves_report _ _
    · refine (achieves_modifyDefinition _ _).mono ?_
      rintro s _ t rfl - hattributes
      refine Subgraph.gains_modifyDefinition (Subgraph.defines_of_nil rfl rfl) (fun d => ?_)
        fun hstandalone _ d hd => ?_
      · exact ⟨rfl, rfl, (List.append_nil _).symm, List.map_append, rfl, rfl⟩
      · refine ⟨hd.attributes, hd.fields, List.forall_mem_append.mpr ⟨hd.enumValues, ?_⟩⟩
        exact List.forall_mem_singleton.mpr (hattributes hstandalone)
  · rintro s _ t ⟨attributes, _, ⟨rfl, hattributes⟩, hgains⟩
    exact hgains fun h => hattributes h Attributes.isStandalone_default

/-! ## Members and interfaces -/

/-- A block whose body is a single member declares this member, by its usual name. -/
theorem achieves_ingestMember (roots : RootTypes) (typeName member : String) :
    Achieves (ingestMember roots typeName member) fun s _ t =>
      s.Gains (Outline.only typeName ((TypeBody.union [member]).outline roots typeName)) [] t := by
  refine achieves_subgraph_bind fun full => ?_
  split
  · rename_i hdefined
    refine (achieves_modifyDefinition _ _).mono ?_
    rintro s _ t rfl rfl
    refine Subgraph.gains_modifyDefinition ?_ (fun d => ?_) fun _ _ d hd => ⟨hd.1, hd.2, hd.3⟩
    · rintro other (hother | hother)
      · rw [List.mem_singleton.mp hother]
        exact hdefined
      · cases hother
    · exact ⟨rfl, rfl, (List.append_nil _).symm, (List.append_nil _).symm, rfl, rfl⟩
  · exact achieves_report _ _

/-- A block whose body is a single interface declares this interface. -/
theorem achieves_ingestInterface (roots : RootTypes) (typeName name : String) :
    Achieves (ingestInterface typeName name) fun s _ t =>
      s.Gains (Outline.only typeName ((TypeBody.object [name] []).outline roots typeName)) [] t := by
  refine achieves_subgraph_bind fun full => ?_
  split
  · rename_i hdefined
    refine (achieves_modifyDefinition _ _).mono ?_
    rintro s _ t rfl rfl
    refine Subgraph.gains_modifyDefinition ?_ (fun d => ?_) fun _ _ d hd => ⟨hd.1, hd.2, hd.3⟩
    · rintro other (hother | hother)
      · cases hother
      · rw [List.mem_singleton.mp hother]
        exact hdefined
    · exact ⟨rfl, rfl, (List.append_nil _).symm, (List.append_nil _).symm, rfl, rfl⟩
  · exact achieves_report _ _

/-! ## Bodies -/

section

variable {ι : Type} {typeName : String} {step : ι → Ingestion Unit}

/-- If every item of a block declares itself, the items declare what they add up to. -/
theorem achieves_items (outline : List ι → Outline TypeRef) (directives : List ι → List Directive)
    (hnone : outline [] = {})
    (houtline : ∀ i others, outline (i :: others) = (outline [i]).append (outline others))
    (hdirectives : ∀ i others, directives (i :: others) = directives [i] ++ directives others)
    (hstep : ∀ i, Achieves (step i) fun s _ t =>
      s.Gains (Outline.only typeName (outline [i])) (directives [i]) t) (items : List ι) :
    Achieves (items.forM step) fun s _ t =>
      s.Gains (Outline.only typeName (outline items)) (directives items) t := by
  refine achieves_forM
    (I := fun items s t => s.Gains (Outline.only typeName (outline items)) (directives items) t)
    (fun i _ => hstep i) (fun s => ?_) ?_
  · rw [hnone, Outline.only_empty]
    exact s.gains_refl _
  · intro i others s t u h h'
    rw [houtline, hdirectives, ← Outline.append_only]
    exact h.trans h'

end

/-- The interfaces and fields of a block are declared. -/
theorem achieves_ingestFields (roots : RootTypes) (typeName : String) (inExtension : Bool)
    (interfaces : List String) (fields : List FieldDecl) :
    Achieves (do
      interfaces.forM (ingestInterface typeName)
      fields.forM (ingestField roots typeName inExtension)) fun s _ t =>
      s.Gains (Outline.only typeName ((TypeBody.object interfaces fields).outline roots typeName))
        (TypeBody.object interfaces fields).directives t := by
  have hinterfaces := achieves_items
    (fun interfaces => (TypeBody.object interfaces []).outline roots typeName) (fun _ => [])
    rfl (fun _ _ => rfl) (fun _ _ => rfl) (achieves_ingestInterface roots typeName) interfaces
  have hfields := achieves_items
    (fun fields => (TypeBody.object [] fields).outline roots typeName)
    (fun fields => (TypeBody.object [] fields).directives) rfl
    (fun i others => by simp [TypeBody.outline, Outline.append, List.filter_cons]; split <;> rfl)
    (fun i others => by simp [TypeBody.directives])
    (achieves_ingestField roots typeName inExtension) fields
  refine (hinterfaces.bind fun _ => hfields).mono ?_
  rintro s _ u ⟨_, t, h, h'⟩
  have hboth := h.trans h'
  rw [Outline.append_only] at hboth
  have houtline : ((TypeBody.object interfaces []).outline roots typeName).append
      ((TypeBody.object [] fields).outline roots typeName) =
        (TypeBody.object interfaces fields).outline roots typeName := by
    simp [TypeBody.outline, Outline.append]
  rw [houtline] at hboth
  exact hboth

/-- A block declares what its body lists. -/
theorem achieves_ingestBody (roots : RootTypes) (typeName : String) (inExtension : Bool)
    (body : TypeBody) :
    Achieves (ingestBody roots typeName inExtension body) fun s _ t =>
      s.Gains (Outline.only typeName (body.outline roots typeName)) body.directives t := by
  cases body with
  | object interfaces fields | interface interfaces fields =>
    exact achieves_ingestFields roots typeName inExtension interfaces fields
  | union members =>
    exact achieves_items (fun members => (TypeBody.union members).outline roots typeName)
      (fun _ => []) rfl (fun _ _ => rfl) (fun _ _ => rfl)
      (achieves_ingestMember roots typeName) members
  | enum values =>
    exact achieves_items (fun values => (TypeBody.enum values).outline roots typeName)
      (fun values => (TypeBody.enum values).directives) rfl (fun _ _ => rfl)
      (fun i others => by simp [TypeBody.directives])
      (achieves_ingestEnumValue roots typeName) values
  | inputObject fields =>
    exact achieves_items (fun fields => (TypeBody.inputObject fields).outline roots typeName)
      (fun fields => (TypeBody.inputObject fields).directives) rfl (fun _ _ => rfl)
      (fun i others => by simp [TypeBody.directives])
      (achieves_ingestInputField roots typeName inExtension) fields
  | scalar =>
    refine (silent_pure _).mono ?_
    rintro s _ t rfl
    have hnone : TypeBody.scalar.outline roots typeName = {} := rfl
    rw [hnone, Outline.only_empty]
    exact t.gains_refl _

/-! ## Blocks -/

namespace Document

theorem join_singleton {τ : Type} (o : Outline τ) : Outline.join [o] = o := by
  simp [Outline.join]

theorem join_append {τ : Type} (os os' : List (Outline τ)) :
    Outline.join (os ++ os') = (Outline.join os).append (Outline.join os') := by
  simp [Outline.join, Outline.append]

theorem outlineOf_singleton_of_machinery {s : Subgraph} {block : TypeBlock}
    (h : isMachinery s block = true) (roots : RootTypes) :
    outlineOf s roots [block] = fun _ => {} := by
  funext name
  simp [outlineOf, composedBlocks, h, Outline.join]

/-- The outline of one block is one of its type only. -/
theorem outlineOf_singleton {s : Subgraph} {block : TypeBlock} (h : isMachinery s block = false)
    (roots : RootTypes) :
    outlineOf s roots [block] = Outline.only (roots.canonicalName block.name)
      (block.body.outline roots (roots.canonicalName block.name)) := by
  funext name
  unfold Outline.only
  by_cases hname : name = roots.canonicalName block.name
  · simp [outlineOf, composedBlocks, h, hname, join_singleton]
  · simp [outlineOf, composedBlocks, h, hname, Ne.symm hname, Outline.join]

theorem outlineOf_cons (s : Subgraph) (roots : RootTypes) (block : TypeBlock)
    (others : List TypeBlock) :
    outlineOf s roots (block :: others) = fun name =>
      (outlineOf s roots [block] name).append (outlineOf s roots others name) := by
  funext name
  rw [outlineOf, outlineOf, outlineOf, ← join_append, ← List.map_append, ← List.filter_append,
    composedBlocks, composedBlocks, composedBlocks, ← List.filter_append]
  rfl

end Document

/-- The type of a block is there, and it is of the kind of the block. -/
def Subgraph.Expects (s : Subgraph) (roots : RootTypes) (block : TypeBlock) : Prop :=
  isMachinery s block = false →
    ∃ d, s.definition? (roots.canonicalName block.name) = some d ∧ d.kind = kindOf s block

/-- The body of a block that is expected is taken in. -/
theorem achieves_ingestTypeBody (roots : RootTypes) (block : TypeBlock) :
    Achieves (ingestTypeBody roots block) fun s _ t => s.Expects roots block →
      s.Gains (Document.outlineOf s roots [block]) block.body.directives t := by
  refine achieves_subgraph_bind fun full => ?_
  have hcore : isMachinery full block = isMachinery full.core block := rfl
  rw [hcore]
  cases hmachinery : isMachinery full.core block with
  | true =>
    rw [if_pos rfl]
    refine (silent_pure _).mono ?_
    rintro s _ t rfl rfl -
    rw [Document.outlineOf_singleton_of_machinery hmachinery]
    exact Subgraph.gains_refl _ _
  | false =>
    rw [if_neg (by decide)]
    dsimp only
    split
    · rename_i hnone
      refine (silent_pure _).mono ?_
      rintro s _ t rfl rfl hexpects
      obtain ⟨d, hd, -⟩ := hexpects hmachinery
      exact absurd (hnone.symm.trans hd) (by simp)
    · rename_i d hd
      split
      · refine (achieves_ingestBody _ _ _ _).mono ?_
        rintro s _ t hgains rfl -
        rw [Document.outlineOf_singleton hmachinery]
        exact hgains
      · rename_i hkind
        refine (silent_pure _).mono ?_
        rintro s _ t rfl rfl hexpects
        obtain ⟨e, he, hekind⟩ := hexpects hmachinery
        obtain rfl := Option.some.inj (hd.symm.trans he)
        exact absurd hekind hkind

/-- The bodies of blocks that are expected are taken in. -/
theorem achieves_ingestTypeBodies (roots : RootTypes) (blocks : List TypeBlock) :
    Achieves (blocks.forM (ingestTypeBody roots)) fun s _ t =>
      (∀ block ∈ blocks, s.Expects roots block) →
        s.Gains (Document.outlineOf s roots blocks) (blocks.flatMap fun b => b.body.directives) t := by
  refine achieves_forM
    (I := fun blocks s t => (∀ block ∈ blocks, s.Expects roots block) →
      s.Gains (Document.outlineOf s roots blocks) (blocks.flatMap fun b => b.body.directives) t)
    (fun block _ => achieves_ingestTypeBody roots block) (fun s _ => s.gains_refl []) ?_
  intro block others s t u h h' hexpects
  obtain ⟨hfirst, hothers⟩ := List.forall_mem_cons.mp hexpects
  have hgains := h hfirst
  have hlater := h' fun b hb => by
    intro hcomposed
    rw [hgains.context.isMachinery_eq] at hcomposed
    obtain ⟨d, hd, hkind⟩ := hothers b hb hcomposed
    obtain ⟨e, he, hsame⟩ := hgains.definition?_eq_some hd
    exact ⟨e, he, by rw [hsame.kind, hkind, hgains.context.kindOf_eq]⟩
  rw [hgains.context.outlineOf_eq] at hlater
  rw [Document.outlineOf_cons, List.flatMap_cons]
  exact hgains.trans hlater

end Federation
