import Federation.Proofs.Document.Names
import Federation.Proofs.Ingestion.Steps

/-!
# Taking in a schema is lawful

Every part of a schema, from a single directive to all type blocks, is taken in by a lawful step: it
keeps names within the subgraph proper and looks neither at earlier texts nor at the value of the
subgraph in the enumeration.
-/

namespace Federation

/-! ## Field sets -/

namespace FieldSetReading

variable {α β : Type}

/-- What is read does not depend on the texts that were mentioned before. -/
def IgnoresNames (x : FieldSetReading α) : Prop :=
  ∀ names names' : NameTable, (x.run.run names).1 = (x.run.run names').1

theorem ignoresNames_pure (a : α) : IgnoresNames (pure a : FieldSetReading α) :=
  fun _ _ => rfl

theorem ignoresNames_throw (e : FieldSetError) : IgnoresNames (throw e : FieldSetReading α) :=
  fun _ _ => rfl

theorem ignoresNames_modify (f : NameTable → NameTable) :
    IgnoresNames (modify f : FieldSetReading Unit) :=
  fun _ _ => rfl

/-- What comes second is read with the texts that are known after what comes first. -/
theorem run_bind (x : FieldSetReading α) (k : α → FieldSetReading β) (t : NameTable) :
    (x >>= k).run.run t =
      match (x.run.run t).1 with
      | .ok a => (k a).run.run (x.run.run t).2
      | .error e => (.error e, (x.run.run t).2) := by
  rw [ExceptT.run_bind, StateT.run_bind]
  rcases x.run.run t with ⟨e | a, t'⟩
  · rfl
  · rfl

theorem IgnoresNames.bind {x : FieldSetReading α} {k : α → FieldSetReading β}
    (hx : IgnoresNames x) (hk : ∀ a, IgnoresNames (k a)) : IgnoresNames (x >>= k) := by
  intro names names'
  rw [run_bind, run_bind, ← hx names names']
  cases (x.run.run names).1 with
  | error e => rfl
  | ok a => exact hk a _ _

end FieldSetReading

namespace SelectionSet

open FieldSetReading

theorem ignoresNames_readArguments (arguments : List (String × Document.Literal)) :
    IgnoresNames (readArguments arguments) := by
  induction arguments with
  | nil => exact ignoresNames_pure []
  | cons first others ih =>
    rw [readArguments]
    refine (ignoresNames_modify _).bind fun _ => ?_
    split
    · exact ignoresNames_throw _
    · exact (ignoresNames_modify _).bind fun _ => ih.bind fun _ => ignoresNames_pure _

mutual

theorem ignoresNames_readSelection (selection : Document.RawSelection) :
    IgnoresNames (readSelection selection) := by
  cases selection with
  | field name arguments selections =>
    rw [readSelection]
    exact (ignoresNames_modify _).bind fun _ => (ignoresNames_readArguments arguments).bind fun _ =>
      (ignoresNames_readSelections selections).bind fun _ => ignoresNames_pure _
  | inlineFragment condition selections =>
    rw [readSelection]
    refine (ignoresNames_readSelections selections).bind fun _ => ?_
    split
    · exact ignoresNames_throw _
    · exact (ignoresNames_modify _).bind fun _ => ignoresNames_pure _
  | fragmentSpread name =>
    rw [readSelection]
    exact ignoresNames_throw _

theorem ignoresNames_readSelections (selections : List Document.RawSelection) :
    IgnoresNames (readSelections selections) := by
  cases selections with
  | nil =>
    rw [readSelections]
    exact ignoresNames_pure []
  | cons first others =>
    rw [readSelections]
    exact (ignoresNames_readSelection first).bind fun _ =>
      (ignoresNames_readSelections others).bind fun _ => ignoresNames_pure _

end

/-- A field set reads the same whatever was mentioned before it. -/
theorem ignoresNames_read (text : String) : IgnoresNames (SelectionSet.read text) := by
  unfold SelectionSet.read
  split
  · exact ignoresNames_throw _
  · exact ignoresNames_throw _
  · exact (ignoresNames_readSelections _).bind fun _ =>
      (ignoresNames_modify _).bind fun _ => ignoresNames_pure _

end SelectionSet

namespace Ingestion

/-- A field set cannot be read because of the limit. -/
def hitsLimit : Except FieldSetError SelectionSet → Bool
  | .error .beyondLimit => true
  | _ => false

/-- A field set is read with the texts that are known so far, and nothing else changes. -/
theorem run_readFieldSet (text : String) (p : Progress) :
    (readFieldSet text).run p =
      (((SelectionSet.read text).run.run p.names).1,
        { p with
          names := ((SelectionSet.read text).run.run p.names).2
          isBeyondLimit :=
            hitsLimit ((SelectionSet.read text).run.run p.names).1 || p.isBeyondLimit }) := by
  unfold readFieldSet
  simp only [StateT.run_bind]
  show ((do
    if let .error .beyondLimit := ((SelectionSet.read text).run.run p.names).1 then passLimit
    return ((SelectionSet.read text).run.run p.names).1 : Ingestion _).run
      { p with names := ((SelectionSet.read text).run.run p.names).2 }) = _
  unfold hitsLimit
  split <;> rfl

theorem lawful_readFieldSet (text : String) : Lawful (readFieldSet text) := by
  rintro s p rfl
  have hrun := run_readFieldSet text
  refine ⟨by rw [hrun], fun h => by rw [hrun]; exact h, fun names enumValue => ?_⟩
  refine ⟨((SelectionSet.read text).run.run names).2, ?_⟩
  rw [hrun, hrun]
  have hread := SelectionSet.ignoresNames_read text p.names names
  simp only [Progress.relabel, hread]

end Ingestion

/-! ## Directives -/

open Ingestion

namespace Attributes

theorem lawful_ingestFieldSet (location : String) (directive : Document.Directive)
    (directiveName : String) (wrongType unusable : ErrorCode) :
    Lawful (ingestFieldSet location directive directiveName wrongType unusable) := by
  unfold ingestFieldSet
  split
  · exact (lawful_report _ _).bind fun _ => lawful_pure none
  · refine (lawful_readFieldSet _).bind fun result => ?_
    split
    · exact lawful_pure _
    · exact (lawful_report _ _).bind fun _ => lawful_pure none

/-- A directive is taken in by a lawful step, whatever its role. -/
theorem lawful_ingestRole (location : String) (a : Attributes) (directive : Document.Directive)
    (role : DirectiveRole) : Lawful (ingestRole location a directive role) := by
  have hreport : ∀ code message, Lawful (do report code message; return a) :=
    fun code message => (lawful_report code message).bind fun _ => lawful_pure a
  unfold ingestRole
  cases role with
  | key | extended | external | interfaceObject | shareable => exact lawful_pure _
  | authenticated | inaccessible =>
    exact (lawful_useFeatures _).bind fun _ => lawful_pure _
  | cost =>
    dsimp only
    split
    · exact (lawful_useFeatures _).bind fun _ => lawful_pure _
    · exact hreport _ _
  | listSize =>
    dsimp only
    split
    · exact (lawful_mentionAll _).bind fun _ => (lawful_mentionAll _).bind fun _ =>
        (lawful_useFeatures _).bind fun _ => lawful_pure _
    · exact hreport _ _
  | deprecated =>
    dsimp only
    split
    · exact (lawful_mentionOptional _).bind fun _ => lawful_pure _
    · exact hreport _ _
  | override =>
    refine (lawful_mentionOptional _).bind fun _ => (lawful_mentionOptional _).bind fun _ => ?_
    split
    · exact lawful_pure _
    · exact hreport _ _
  | policy | requiresScopes =>
    exact (lawful_mentionAll _).bind fun _ => (lawful_useFeatures _).bind fun _ => lawful_pure _
  | provides | requires =>
    refine (lawful_ingestFieldSet _ _ _ _ _).bind fun selections => ?_
    split
    · exact lawful_pure _
    · exact lawful_pure _
  | tag =>
    dsimp only
    split
    · exact lawful_pure _
    · exact (lawful_mention _).bind fun _ => (lawful_useFeatures _).bind fun _ => lawful_pure _

theorem lawful_ingestDirective (location : String) (a : Attributes)
    (directive : Document.Directive) : Lawful (ingestDirective location a directive) := by
  refine lawful_subgraph_bind (fun s => ?_) fun _ _ => rfl
  split
  · exact lawful_ingestRole location a directive _ s
  · exact lawful_pure a s

theorem lawful_ingest (location : String) (a : Attributes)
    (directives : List Document.Directive) : Lawful (Attributes.ingest location a directives) :=
  lawful_foldlM (lawful_ingestDirective location) a

end Attributes

/-- Adding a key to a type does not touch its parts. -/
theorem lawful_ingestKey (typeName : String) (directive : Document.Directive) :
    Lawful (ingestKey typeName directive) := by
  unfold ingestKey
  split
  · exact lawful_report _ _
  · refine (lawful_readFieldSet _).bind fun result => ?_
    split
    · exact lawful_modifyDefinition (fun _ => rfl) fun _ h => ⟨h.1, h.2, h.3, h.4, h.5⟩
    · exact lawful_report _ _

theorem lawful_ingestKeys (typeName : String) (directives : List Document.Directive) :
    Lawful (ingestKeys typeName directives) := by
  refine lawful_subgraph_bind (fun s => ?_) fun _ _ => rfl
  exact lawful_forM (fun _ _ => lawful_ingestKey typeName _) s

/-! ## Schema blocks -/

theorem lawful_ingestImport (url : String) (spec : Spec) (entry : Document.Literal) :
    Lawful (ingestImport url spec entry) := by
  unfold ingestImport
  split
  · exact lawful_report _ _
  · split
    · exact lawful_report _ _
    · exact (lawful_mention _).bind fun _ => (lawful_mention _).bind fun _ =>
        lawful_modifySubgraph (fun _ => rfl) (fun _ => rfl) fun _ _ => rfl

theorem lawful_ingestSpec (directive : Document.Directive) (url : String) (named : SpecUrl) :
    Lawful (ingestSpec directive url named) := by
  refine (lawful_mention _).bind fun _ => (lawful_mention _).bind fun _ => ?_
  refine Lawful.bind (lawful_modifySubgraph ?_ ?_ ?_) fun _ =>
    lawful_forM fun _ _ => lawful_ingestImport _ _ _
  · exact fun _ => rfl
  · exact fun _ => rfl
  · exact fun _ _ => rfl

theorem lawful_ingestLink (directive : Document.Directive) : Lawful (ingestLink directive) := by
  unfold ingestLink
  split
  · exact lawful_report _ _
  · split
    · exact lawful_report _ _
    · split
      · split
        · refine Lawful.bind (lawful_modifySubgraph ?_ ?_ ?_) fun _ => lawful_ingestSpec _ _ _
          · exact fun _ => rfl
          · exact fun _ => rfl
          · exact fun _ _ => rfl
        · exact lawful_report _ _
      · exact lawful_ingestSpec _ _ _

theorem lawful_ingestSchemaBlocks (blocks : List Document.SchemaBlock) :
    Lawful (ingestSchemaBlocks blocks) := by
  refine lawful_foldlM (fun roots block => ?_) ({} : RootTypes)
  exact (lawful_forM fun _ _ => lawful_ingestLink _).bind fun _ => lawful_pure _

/-! ## Heads of types -/

/-- A type is founded under a name that is new, and without parts. -/
theorem lawful_foundType (typeName : String) (kind : TypeKind) (isExtension : Bool)
    (description : Option String) :
    Lawful (foundType typeName kind isExtension description) := by
  refine lawful_subgraph_bind (fun s => ?_) fun _ _ => rfl
  dsimp only
  split
  · rename_i hnew
    -- the name is mentioned first, which leaves the subgraph as it is
    have hmention : ∀ k : Unit → Ingestion Bool, LawfulAt s (k ()) →
        LawfulAt s (mention typeName >>= k) := by
      rintro k hk p rfl
      obtain ⟨hname, hunique, hrelabel⟩ := hk (mention typeName p).2 rfl
      exact ⟨hname, hunique, fun names enumValue => hrelabel (names.mention typeName) enumValue⟩
    refine hmention _ (LawfulAt.bind (lawfulAt_modifySubgraph rfl (fun h => ?_) fun _ => rfl)
      fun _ => lawful_pure true)
    exact h.addDefinition hnew ⟨List.nodup_nil, List.nodup_nil, List.nodup_nil, List.nodup_nil,
      fun _ hfield => absurd hfield List.not_mem_nil⟩
  · split
    · refine Lawful.bind (lawful_modifyDefinition ?_ ?_) (fun _ => lawful_pure true) s
      · exact fun _ => rfl
      · exact fun _ h => ⟨h.1, h.2, h.3, h.4, h.5⟩
    · exact (lawful_report _ _).bind (fun _ => lawful_pure false) s

theorem lawful_registerRoot (roots : RootTypes) (block : Document.TypeBlock) (typeName : String) :
    Lawful (registerRoot roots block typeName) := by
  unfold registerRoot
  split
  · exact lawful_modifySubgraph (fun _ => rfl) (fun _ => rfl) fun _ _ => rfl
  · exact lawful_report _ _
  · exact lawful_pure ()

theorem lawful_ingestTypeDirectives (typeName : String) (block : Document.TypeBlock) :
    Lawful (ingestTypeDirectives typeName block) := by
  refine lawful_subgraph_bind (fun s => ?_) fun _ _ => rfl
  refine Lawful.bind (Attributes.lawful_ingest _ _ _) (fun a => ?_) s
  refine Lawful.bind (lawful_modifyDefinition (fun _ => rfl) fun _ h => ⟨h.1, h.2, h.3, h.4, h.5⟩)
    fun _ => (lawful_ingestKeys _ _).bind fun _ => ?_
  split
  · exact lawful_modifyDefinition (fun _ => rfl) fun _ h => ⟨h.1, h.2, h.3, h.4, h.5⟩
  · exact lawful_pure _

theorem lawful_ingestTypeHead (roots : RootTypes) (block : Document.TypeBlock) :
    Lawful (ingestTypeHead roots block) := by
  refine lawful_subgraph_bind (fun s => ?_) fun _ _ => rfl
  dsimp only
  split
  · exact lawful_pure _ s
  · refine Lawful.bind (lawful_describe _) (fun description => ?_) s
    refine (lawful_foundType _ _ _ _).bind fun found => ?_
    split
    · split
      · exact (lawful_registerRoot _ _ _).bind fun _ => lawful_ingestTypeDirectives _ _
      · exact lawful_ingestTypeDirectives _ _
    · exact lawful_pure _

/-! ## Parts of types -/

theorem lawful_ingestDefault (literal : Option Document.Literal) :
    Lawful (ingestDefault literal) := by
  unfold ingestDefault
  split
  · exact lawful_pure none
  · exact (lawful_mentionAll _).bind fun _ => lawful_pure _

theorem lawful_ingestArgument (coordinate : String) (decl : Document.InputDecl) :
    Lawful (ingestArgument coordinate decl) :=
  (lawful_mentionType _).bind fun _ => (Attributes.lawful_ingest _ _ _).bind fun _ =>
    (lawful_describe _).bind fun _ => (lawful_ingestDefault _).bind fun _ =>
      (lawful_mention _).bind fun _ => lawful_pure _

/-- A field is added only if the type has none of its name. -/
theorem lawful_addField (typeName what : String) {field : Field}
    (htype : field.type.HasPlainName) : Lawful (addField typeName what field) := by
  refine lawful_subgraph_bind (fun s => ?_) fun _ _ => rfl
  dsimp only
  split
  · rename_i hnew
    refine lawfulAt_modifyDefinition (fun _ => rfl) fun d hd h => h.addField ?_ htype
    rw [hd] at hnew
    exact hnew
  · exact lawful_report _ _ s

/-- The usual names of root types hold no marks. -/
theorem hasPlainName_canonicalName (roots : RootTypes) {type : TypeRef} (h : type.HasPlainName) :
    TypeRef.HasPlainName { type with name := roots.canonicalName type.name } := by
  unfold TypeRef.HasPlainName RootTypes.canonicalName
  dsimp only
  split
  · rename_i root _
    have hall : (root.typeName.toList.all fun c => !TypeRef.isMark c) = true := by
      cases root <;> rfl
    intro c hc
    exact Bool.not_eq_true' _ ▸ List.all_eq_true.mp hall c hc
  · exact h

theorem lawful_ingestField (roots : RootTypes) (typeName : String) (inExtension : Bool)
    {decl : Document.FieldDecl} (htype : decl.type.HasPlainName) :
    Lawful (ingestField roots typeName inExtension decl) := by
  unfold ingestField
  split
  · exact lawful_pure _
  · exact (lawful_mentionType _).bind fun _ => (Attributes.lawful_ingest _ _ _).bind fun _ =>
      (lawful_mapM (lawful_ingestArgument _)).bind fun _ => (lawful_describe _).bind fun _ =>
        (lawful_mention _).bind fun _ =>
          lawful_addField _ _ (hasPlainName_canonicalName roots htype)

theorem lawful_ingestInputField (typeName : String) (inExtension : Bool)
    {decl : Document.InputDecl} (htype : decl.type.HasPlainName) :
    Lawful (ingestInputField typeName inExtension decl) :=
  (lawful_mentionType _).bind fun _ => (Attributes.lawful_ingest _ _ _).bind fun _ =>
    (lawful_describe _).bind fun _ => (lawful_ingestDefault _).bind fun _ =>
      (lawful_mention _).bind fun _ => lawful_addField _ _ htype

/-- A value is added only if the type has none of its name. -/
theorem lawful_ingestEnumValue (typeName : String) (decl : Document.EnumValueDecl) :
    Lawful (ingestEnumValue typeName decl) := by
  refine (Attributes.lawful_ingest _ _ _).bind fun _ => (lawful_describe _).bind fun _ =>
    (lawful_mention _).bind fun _ => ?_
  refine lawful_subgraph_bind (fun s => ?_) fun _ _ => rfl
  dsimp only
  split
  · exact lawful_report _ _ s
  · rename_i hnew
    refine lawfulAt_modifyDefinition (fun _ => rfl) fun d hd h => h.addEnumValue ?_
    rw [hd] at hnew
    exact Bool.not_eq_true _ ▸ hnew

theorem lawful_ingestMember (roots : RootTypes) (typeName member : String) :
    Lawful (ingestMember roots typeName member) := by
  refine lawful_subgraph_bind (fun s => ?_) fun _ _ => rfl
  split
  · refine lawful_modifyDefinition ?_ ?_ s
    · exact fun _ => rfl
    · exact fun _ h => ⟨h.1, h.2, Attributes.nodup_addNew h.3 _, h.4, h.5⟩
  · exact lawful_report _ _ s

theorem lawful_ingestInterface (typeName name : String) :
    Lawful (ingestInterface typeName name) := by
  refine lawful_subgraph_bind (fun s => ?_) fun _ _ => rfl
  split
  · refine lawful_modifyDefinition ?_ ?_ s
    · exact fun _ => rfl
    · exact fun _ h => ⟨h.1, h.2, h.3, Attributes.nodup_addNew h.4 _, h.5⟩
  · exact lawful_report _ _ s

theorem lawful_ingestBody (roots : RootTypes) (typeName : String) (inExtension : Bool)
    {body : Document.TypeBody} (htypes : body.HasPlainTypes) :
    Lawful (ingestBody roots typeName inExtension body) := by
  cases body with
  | object interfaces fields | interface interfaces fields =>
    exact (lawful_forM fun _ _ => lawful_ingestInterface _ _).bind fun _ =>
      lawful_forM fun decl hdecl => lawful_ingestField _ _ _ (htypes decl hdecl).1
  | union members => exact lawful_forM fun _ _ => lawful_ingestMember _ _ _
  | enum values => exact lawful_forM fun _ _ => lawful_ingestEnumValue _ _
  | inputObject fields =>
    exact lawful_forM fun decl hdecl => lawful_ingestInputField _ _ (htypes decl hdecl)
  | scalar => exact lawful_pure _

theorem lawful_ingestTypeBody (roots : RootTypes) {block : Document.TypeBlock}
    (htypes : block.body.HasPlainTypes) : Lawful (ingestTypeBody roots block) := by
  refine lawful_subgraph_bind (fun s => ?_) fun _ _ => rfl
  dsimp only
  split
  · exact lawful_pure _ s
  · split
    · exact lawful_pure _ s
    · split
      · exact lawful_ingestBody _ _ _ htypes s
      · exact lawful_pure _ s

/-- **A whole schema is taken in lawfully.** -/
theorem lawful_ingestSchema {schema : Document.Schema} (htypes : schema.HasPlainTypes) :
    Lawful (SubgraphSet.ingestSchema schema) :=
  (lawful_ingestSchemaBlocks _).bind fun _ =>
    (lawful_forM fun _ _ => lawful_ingestTypeHead _ _).bind fun _ =>
      lawful_forM fun block hblock => lawful_ingestTypeBody _ (htypes block hblock)

end Federation
