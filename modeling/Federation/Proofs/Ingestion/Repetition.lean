import Federation.Proofs.Ingestion.Convergence
import Federation.Proofs.Ingestion.Parts

/-!
# Repeated members

A type has no two fields and no two values of one name: a second one is refused, and it is reported.
Arguments are only taken as they are declared. Whatever is found in a subgraph, its types have no
fields but those that some block declares, each with the type and the arguments that it is declared
with; so a field has two arguments of one name exactly if it is declared with them, and this is not
looked at.
-/

namespace Federation

open Document (Directive TypeBlock TypeBody FieldDecl InputDecl EnumValueDecl)
open Ingestion

/-! ## Fields that may be there -/

/-- In a context, the types have no fields but those that are allowed. -/
structure Summary.HasOnlyFields (c : Subgraph) (allowed : String → Signature TypeRef → Prop)
    (σ : Summary) : Prop where
  context : σ.context = c
  fields : ∀ name d, σ.types name = some d → ∀ field ∈ d.fields, allowed name field.signature

namespace Ingestion

variable {α β ι γ : Type} {r : RootTypes} {c : Subgraph}
  {allowed : String → Signature TypeRef → Prop}

/-- A step that adds only fields that are allowed, whatever it finds. -/
def AddsOnly (c : Subgraph) (allowed : String → Signature TypeRef → Prop) (x : Ingestion α) :
    Prop :=
  ∀ p : Progress, p.summary.HasOnlyFields c allowed →
    (x.run p).2.summary.HasOnlyFields c allowed

theorem AddsOnly.bind {x : Ingestion α} {k : α → Ingestion β} (hx : AddsOnly c allowed x)
    (hk : ∀ a, AddsOnly c allowed (k a)) : AddsOnly c allowed (x >>= k) :=
  fun p hp => hk (x.run p).1 _ (hx p hp)

/-- What comes after a step may count on its answer. -/
theorem AddsOnly.bind_of_gives {P : α → Prop} {x : Ingestion α} {k : α → Ingestion β}
    (hx : AddsOnly c allowed x) (hanswer : Gives P x) (hk : ∀ a, P a → AddsOnly c allowed (k a)) :
    AddsOnly c allowed (x >>= k) :=
  fun p hp => hk (x.run p).1 (hanswer p) _ (hx p hp)

theorem addsOnly_subgraph_bind {k : Subgraph → Ingestion α}
    (hk : ∀ s, s.context = c → AddsOnly c allowed (k s)) : AddsOnly c allowed (subgraph >>= k) :=
  fun p hp => hk p.subgraph hp.context p hp

theorem addsOnly_forM {items : List ι} {step : ι → Ingestion Unit}
    (h : ∀ i ∈ items, AddsOnly c allowed (step i)) : AddsOnly c allowed (items.forM step) :=
  fun p hp => holds_forM h p hp

/-- A step that only notes something adds no field. -/
theorem IsAside.addsOnly {x : Ingestion α} (h : IsAside r x) : AddsOnly c allowed x := by
  intro p hp
  obtain ⟨a, n, ha⟩ := h p.summary.context
  rw [(ha p rfl).2]
  exact ⟨hp.context, hp.fields⟩

theorem addsOnly_pure (a : α) : AddsOnly c allowed (pure a : Ingestion α) :=
  fun _ hp => hp

theorem addsOnly_report (code : ErrorCode) (message : String) :
    AddsOnly c allowed (report code message) :=
  (isAside_report (r := {}) code message).addsOnly

/-- A change of a type. -/
theorem addsOnly_modifyDefinition {name : String} {f : TypeDef → TypeDef}
    (hname : ∀ d, (f d).name = d.name)
    (hf : ∀ d, ∀ field ∈ (f d).fields, field ∈ d.fields ∨ allowed name field.signature) :
    AddsOnly c allowed (modifyDefinition name f) := by
  refine fun p hp => ⟨hp.context, fun other e he field hfield => ?_⟩
  have htypes : ((p.subgraph.modifyDefinition name f).definition? other).map TypeDef.placeless =
      some e := he
  rw [Subgraph.definition?_modifyDefinition _ hname] at htypes
  obtain ⟨changed, hchanged, rfl⟩ := Option.map_eq_some_iff.mp htypes
  obtain ⟨placed, hplaced, rfl⟩ := List.mem_map.mp hfield
  have hold : ∀ d, p.subgraph.definition? other = some d → placed ∈ d.fields →
      allowed other placed.signature := fun d hd hmem =>
    hp.fields other d.placeless (congrArg (Option.map TypeDef.placeless) hd) placed.placeless
      (List.mem_map_of_mem hmem)
  split at hchanged
  · rename_i heq
    obtain ⟨d, hd, rfl⟩ := Option.map_eq_some_iff.mp hchanged
    rcases hf d placed hplaced with hmem | hallowed
    · exact hold d hd hmem
    · exact heq ▸ hallowed
  · exact hold changed hchanged hplaced

/-- A change of a type that leaves its fields as they are. -/
theorem addsOnly_modifyDefinition_same {name : String} {f : TypeDef → TypeDef}
    (hname : ∀ d, (f d).name = d.name) (hfields : ∀ d, (f d).fields = d.fields) :
    AddsOnly c allowed (modifyDefinition name f) :=
  addsOnly_modifyDefinition hname fun d _ hfield => .inl (hfields d ▸ hfield)

/-- A type without fields is founded. -/
theorem addsOnly_addDefinition {d : TypeDef} (hd : d.fields = []) :
    AddsOnly c allowed
      (modifySubgraph fun s => { s with definitions := s.definitions ++ [d] }) := by
  refine fun p hp => ⟨hp.context, fun other e he field hfield => ?_⟩
  have htypes : (Subgraph.definition? { p.subgraph with
      definitions := p.subgraph.definitions ++ [d] } other).map TypeDef.placeless = some e := he
  rw [Subgraph.definition?_append] at htypes
  obtain ⟨found, hfound, rfl⟩ := Option.map_eq_some_iff.mp htypes
  rcases Option.or_eq_some_iff.mp hfound with hold | ⟨-, hnew⟩
  · exact hp.fields other _ (congrArg (Option.map TypeDef.placeless) hold) field hfield
  · split at hnew
    · obtain rfl := Option.some.inj hnew
      rw [TypeDef.placeless, hd] at hfield
      cases hfield
    · cases hnew

/-- If each answer is like its item, the answers are like the items. -/
theorem gives_mapM {f : α → γ} {g : ι → γ} {step : ι → Ingestion α}
    (h : ∀ i, Gives (fun a => f a = g i) (step i)) (items : List ι) :
    Gives (fun as => as.map f = items.map g) (items.mapM step) := by
  induction items with
  | nil =>
    rw [List.mapM_nil]
    exact fun _ => rfl
  | cons first others ih =>
    rw [List.mapM_cons]
    exact fun p => congrArg₂ List.cons (h first p) (ih _)

end Ingestion

/-! ## Taking in type blocks -/

section

variable {c : Subgraph} {allowed : String → Signature TypeRef → Prop} {name : String}

theorem addsOnly_foundType (name : String) (kind : TypeKind) (isExtension : Bool)
    (description : Option String) :
    AddsOnly c allowed (foundType name kind isExtension description) := by
  refine addsOnly_subgraph_bind fun s _ => ?_
  dsimp only
  split
  · exact (isAside_mention (r := {}) _).addsOnly.bind fun _ =>
      AddsOnly.bind (addsOnly_addDefinition rfl) fun _ => addsOnly_pure true
  · split
    · exact AddsOnly.bind (addsOnly_modifyDefinition_same (fun _ => rfl) fun _ => rfl) fun _ =>
        addsOnly_pure true
    · exact (addsOnly_report _ _).bind fun _ => addsOnly_pure false

theorem addsOnly_ingestKey (name : String) (directive : Directive) :
    AddsOnly c allowed (ingestKey name directive) := by
  unfold ingestKey
  split
  · exact addsOnly_report _ _
  · refine (isAside_readFieldSet (r := {}) _).addsOnly.bind fun result => ?_
    split
    · exact addsOnly_modifyDefinition_same (fun _ => rfl) fun _ => rfl
    · exact addsOnly_report _ _

theorem addsOnly_ingestTypeDirectives (name : String) (block : TypeBlock) :
    AddsOnly c allowed (ingestTypeDirectives name block) := by
  refine addsOnly_subgraph_bind fun s _ =>
    (Attributes.isAside_ingest (r := {}) _ _ _).addsOnly.bind fun attributes =>
      AddsOnly.bind (addsOnly_modifyDefinition_same (fun _ => rfl) fun _ => rfl) fun _ => ?_
  have hkeys : AddsOnly c allowed (ingestKeys name block.directives) :=
    addsOnly_subgraph_bind fun _ _ => addsOnly_forM fun _ _ => addsOnly_ingestKey name _
  refine hkeys.bind fun _ => ?_
  split
  · exact addsOnly_modifyDefinition_same (fun _ => rfl) fun _ => rfl
  · exact addsOnly_pure ()

/-- The head of a block adds no field. -/
theorem addsOnly_ingestTypeHead (roots : RootTypes) (block : TypeBlock) :
    AddsOnly c allowed (ingestTypeHead roots block) := by
  refine addsOnly_subgraph_bind fun s _ => ?_
  dsimp only
  split
  · exact addsOnly_pure ()
  · refine (isAside_describe (r := {}) _).addsOnly.bind fun description =>
      (addsOnly_foundType _ _ _ _).bind fun found => ?_
    split
    · split
      · exact (isAside_registerRoot roots block).addsOnly.bind fun _ =>
          addsOnly_ingestTypeDirectives _ _
      · exact addsOnly_ingestTypeDirectives _ _
    · exact addsOnly_pure ()

theorem addsOnly_addField (what : String) {field : Field} (h : allowed name field.signature) :
    AddsOnly c allowed (addField name what field) := by
  refine addsOnly_subgraph_bind fun s _ => ?_
  dsimp only
  split
  · refine addsOnly_modifyDefinition (fun _ => rfl) fun d other hother => ?_
    rcases List.mem_append.mp hother with hold | hnew
    · exact .inl hold
    · exact .inr (List.mem_singleton.mp hnew ▸ h)
  · exact addsOnly_report _ _

/-- An argument has the name and the type of its declaration. -/
theorem gives_ingestArgument (coordinate : String) (decl : InputDecl) :
    Gives (fun a : Argument => (a.name, a.type) = (decl.name, decl.type))
      (ingestArgument coordinate decl) :=
  gives_bind fun _ => gives_bind fun _ => gives_bind fun _ => gives_bind fun _ =>
    gives_bind fun _ _ => rfl

/-- A field that is declared in a block is added as it is declared. -/
theorem addsOnly_ingestField (roots : RootTypes) (inExtension : Bool) {decl : FieldDecl}
    (h : decl.isMachinery name = false → allowed name (decl.signature roots)) :
    AddsOnly c allowed (ingestField roots name inExtension decl) := by
  have hguard : (name == RootOperation.query.typeName && machineryFields.contains decl.name) =
      decl.isMachinery name := rfl
  unfold ingestField
  rw [hguard]
  split
  · exact addsOnly_pure ()
  · rename_i hcomposed
    have harguments : AddsOnly c allowed
        (decl.arguments.mapM (ingestArgument (name ++ "." ++ decl.name))) :=
      (isAside_mapM (r := {}) (isAside_ingestArgument _) decl.arguments).addsOnly
    refine (isAside_mentionType (r := {}) _).addsOnly.bind fun _ =>
      (Attributes.isAside_ingest (r := {}) _ _ _).addsOnly.bind fun attributes =>
        harguments.bind_of_gives (gives_mapM (gives_ingestArgument _) decl.arguments)
          fun arguments hsame => (isAside_describe (r := {}) _).addsOnly.bind fun _ =>
            (isAside_mention (r := {}) _).addsOnly.bind fun _ => addsOnly_addField _ ?_
    -- the arguments are part of the signature
    have hsignature := h (Bool.not_eq_true _ ▸ hcomposed)
    rw [FieldDecl.signature, ← hsame] at hsignature
    exact hsignature

theorem addsOnly_ingestInputField (inExtension : Bool) {decl : InputDecl}
    (h : allowed name decl.signature) :
    AddsOnly c allowed (ingestInputField name inExtension decl) :=
  (isAside_mentionType (r := {}) _).addsOnly.bind fun _ =>
    (Attributes.isAside_ingest (r := {}) _ _ _).addsOnly.bind fun _ =>
      (isAside_describe (r := {}) _).addsOnly.bind fun _ =>
        (isAside_ingestDefault (r := {}) _).addsOnly.bind fun _ =>
          (isAside_mention (r := {}) _).addsOnly.bind fun _ => addsOnly_addField _ h

theorem addsOnly_ingestEnumValue (decl : EnumValueDecl) :
    AddsOnly c allowed (ingestEnumValue name decl) := by
  refine (Attributes.isAside_ingest (r := {}) _ _ _).addsOnly.bind fun _ =>
    (isAside_describe (r := {}) _).addsOnly.bind fun _ =>
      (isAside_mention (r := {}) _).addsOnly.bind fun _ => addsOnly_subgraph_bind fun s _ => ?_
  dsimp only
  split
  · exact addsOnly_report _ _
  · exact addsOnly_modifyDefinition_same (fun _ => rfl) fun _ => rfl

theorem addsOnly_ingestMember (roots : RootTypes) (member : String) :
    AddsOnly c allowed (ingestMember roots name member) := by
  refine addsOnly_subgraph_bind fun s _ => ?_
  split
  · exact addsOnly_modifyDefinition_same (fun _ => rfl) fun _ => rfl
  · exact addsOnly_report _ _

theorem addsOnly_ingestInterface (interface : String) :
    AddsOnly c allowed (ingestInterface name interface) := by
  refine addsOnly_subgraph_bind fun s _ => ?_
  split
  · exact addsOnly_modifyDefinition_same (fun _ => rfl) fun _ => rfl
  · exact addsOnly_report _ _

/-- A block adds only fields of its outline. -/
theorem addsOnly_ingestBody (roots : RootTypes) (inExtension : Bool) {body : TypeBody}
    (h : ∀ g ∈ (body.outline roots name).fields, allowed name g) :
    AddsOnly c allowed (ingestBody roots name inExtension body) := by
  cases body with
  | object interfaces fields | interface interfaces fields =>
    refine AddsOnly.bind (addsOnly_forM fun _ _ => addsOnly_ingestInterface _) fun _ =>
      addsOnly_forM fun decl hdecl => addsOnly_ingestField roots inExtension fun hcomposed => ?_
    refine h _ (List.mem_map_of_mem (List.mem_filter.mpr ⟨hdecl, ?_⟩))
    rw [hcomposed]
    rfl
  | union members => exact addsOnly_forM fun _ _ => addsOnly_ingestMember roots _
  | enum values => exact addsOnly_forM fun _ _ => addsOnly_ingestEnumValue _
  | inputObject fields =>
    exact addsOnly_forM fun decl hdecl =>
      addsOnly_ingestInputField inExtension (h _ (List.mem_map_of_mem hdecl))
  | scalar => exact addsOnly_pure ()

theorem addsOnly_ingestTypeBody (roots : RootTypes) {block : TypeBlock}
    (h : isMachinery c block = false →
      ∀ g ∈ (block.body.outline roots (roots.canonicalName block.name)).fields,
        allowed (roots.canonicalName block.name) g) :
    AddsOnly c allowed (ingestTypeBody roots block) := by
  refine addsOnly_subgraph_bind fun s hs => ?_
  have hmachinery : isMachinery s block = isMachinery c block := hs ▸ rfl
  dsimp only
  rw [hmachinery]
  split
  · exact addsOnly_pure ()
  · rename_i hcomposed
    split
    · exact addsOnly_pure ()
    · split
      · exact addsOnly_ingestBody roots _ (h (Bool.not_eq_true _ ▸ hcomposed))
      · exact addsOnly_pure ()

/-- All blocks together add only fields that the outlines of the types list. -/
theorem addsOnly_ingestTypeBlocks (roots : RootTypes) (blocks : List TypeBlock) :
    AddsOnly c (fun name g => g ∈ (Document.outlineOf c roots blocks name).fields)
      (ingestTypeBlocks roots blocks) := by
  refine AddsOnly.bind (addsOnly_forM fun block _ => addsOnly_ingestTypeHead roots block) fun _ =>
    addsOnly_forM fun block hblock => addsOnly_ingestTypeBody roots fun hcomposed g hg => ?_
  have hmem : block ∈ (Document.composedBlocks c blocks).filter fun other =>
      roots.canonicalName other.name == roots.canonicalName block.name := by
    refine List.mem_filter.mpr ⟨List.mem_filter.mpr ⟨hblock, ?_⟩, beq_self_eq_true _⟩
    rw [hcomposed]
    rfl
  exact List.mem_flatMap.mpr ⟨_, List.mem_map_of_mem hmem, hg⟩

end

/-! ## Whole subgraphs -/

namespace Document

theorem outlineOf_context (s : Subgraph) : outlineOf s.context = outlineOf s :=
  rfl

/-- Of a type that no block declares, nothing is listed. -/
theorem outlineOf_eq_empty {s : Subgraph} {roots : RootTypes} {blocks : List TypeBlock}
    {name : String} (h : ∀ block ∈ composedBlocks s blocks, roots.canonicalName block.name ≠ name) :
    outlineOf s roots blocks name = {} := by
  have hnone : ((composedBlocks s blocks).filter fun block =>
      roots.canonicalName block.name == name) = [] :=
    List.filter_eq_nil_iff.mpr fun block hblock heq => h block hblock (beq_iff_eq.mp heq)
  rw [outlineOf, hnone]
  rfl

/-- If the arguments of every field have different names, so have those that are listed. -/
theorem nodup_arguments_outlineOf {s : Subgraph} {roots : RootTypes} {blocks : List TypeBlock}
    {name : String} (h : ∀ block ∈ composedBlocks s blocks, block.body.HasDistinctArguments) :
    ∀ g ∈ (outlineOf s roots blocks name).fields, (g.arguments.map Prod.fst).Nodup := by
  intro g hg
  obtain ⟨o, ho, hg⟩ := List.mem_flatMap.mp hg
  obtain ⟨block, hblock, rfl⟩ := List.mem_map.mp ho
  exact TypeBody.nodup_arguments_outline roots name (h block (List.mem_of_mem_filter hblock)) g hg

end Document

/-- The types of a subgraph have no fields but those that are allowed. -/
def Subgraph.HasOnlyFields (allowed : String → Signature TypeRef → Prop) (s : Subgraph) : Prop :=
  ∀ d ∈ s.definitions, ∀ field ∈ d.fields, allowed d.name field.signature

namespace Subgraph

variable {s : Subgraph} {allowed : String → Signature TypeRef → Prop}

/-- Noting uses leaves the signatures of fields. -/
theorem HasOnlyFields.withUsages (h : s.HasOnlyFields allowed) :
    s.withUsages.HasOnlyFields allowed :=
  List.forall_mem_map.mpr fun d hd => List.forall_mem_map.mpr fun field hfield =>
    h d hd field hfield

theorem HasOnlyFields.sorted (h : s.HasOnlyFields allowed) (names : NameTable) :
    (s.sorted names).HasOnlyFields allowed :=
  List.forall_mem_map.mpr fun d hd field hfield =>
    h d hd field ((names.perm_sortBy Field.name d.fields).mem_iff.mp hfield)

end Subgraph

namespace SubgraphSet

open Document (Schema)

variable {schema : Schema} {names : NameTable} {empty : Subgraph}

/-- **Whatever is found, a subgraph has only fields that its document declares**, each with the type
and the arguments of its declaration. -/
theorem hasOnlyFields_build (htypes : schema.HasPlainTypes) (hempty : empty.definitions = []) :
    (build schema names empty).subgraph.HasOnlyFields fun name g =>
      g ∈ (Document.outlineOf (build schema names empty).subgraph schema.roots schema.typeBlocks
        name).fields := by
  let c := (linked schema names empty).subgraph.context
  have hnone : ∀ name, (linked schema names empty).summary.types name = none := by
    intro name
    have hdefinitions := (run_ingestSchemaBlocks schema { names, subgraph := empty }).2
    rw [hempty] at hdefinitions
    show ((linked schema names empty).subgraph.definitions.find? _).map _ = none
    rw [show (linked schema names empty).subgraph.definitions = [] from hdefinitions]
    rfl
  have hstart : (linked schema names empty).summary.HasOnlyFields c fun name g =>
      g ∈ (Document.outlineOf c schema.roots schema.typeBlocks name).fields :=
    ⟨rfl, fun name d hd => absurd ((hnone name).symm.trans hd) (Option.some_ne_none d).symm⟩
  have htaken := addsOnly_ingestTypeBlocks schema.roots schema.typeBlocks _ hstart
  rw [← run_ingestSchema] at htaken
  -- every type is the one that is found by its name
  have hproper := (lawful_ingestSchema htypes empty { names, subgraph := empty } rfl).2.1
    ⟨hempty ▸ List.nodup_nil, fun d hd => absurd (hempty ▸ hd) List.not_mem_nil⟩
  have hbuilt : (((ingestSchema schema).run
      { names, subgraph := empty }).2.subgraph).HasOnlyFields fun name g =>
        g ∈ (Document.outlineOf c schema.roots schema.typeBlocks name).fields :=
    fun d hd field hfield => htaken.fields d.name d.placeless
      (congrArg (Option.map TypeDef.placeless) (hproper.definition?_eq_some hd)) field.placeless
      (List.mem_map_of_mem hfield)
  rw [← Document.outlineOf_context, context_build]
  exact hbuilt.withUsages.sorted _

/-- If nothing fatal is found, no field and no value of a type is declared twice. -/
theorem nodup_outlineOf_build (htypes : schema.HasPlainTypes) (hempty : empty.definitions = [])
    (hquiet : (build schema names empty).subgraph.diagnostics.anyFatal = false) (name : String) :
    let o := Document.outlineOf (build schema names empty).subgraph schema.roots schema.typeBlocks
      name
    (o.fields.map Signature.name).Nodup ∧ o.values.Nodup := by
  intro o
  have hstart : empty.HasProperNames :=
    ⟨hempty ▸ List.nodup_nil, fun d hd => absurd (hempty ▸ hd) List.not_mem_nil⟩
  have hproper := hasProperNames_build htypes names hstart
  have hreflects := reflects_build hempty hquiet
  by_cases hdefined : name ∈ (build schema names empty).subgraph.definitions.map TypeDef.name
  · obtain ⟨d, hd, rfl⟩ := List.mem_map.mp hdefined
    have houtline := hreflects.outlines d hd
    have hfields := houtline.fields.map Signature.name
    rw [List.map_map] at hfields
    exact ⟨hfields.nodup_iff.mp (hproper.parts d hd).fields,
      houtline.values ▸ (hproper.parts d hd).enumValues⟩
  · rw [hreflects.names, Attributes.mem_distinct, List.mem_map] at hdefined
    have hnone : o = {} :=
      Document.outlineOf_eq_empty fun block hblock heq => hdefined ⟨block, hblock, heq⟩
    rw [hnone]
    exact ⟨List.nodup_nil, List.nodup_nil⟩

/-- **A type has no two fields and no two values of one name, and a declaration of them is reported.
Arguments are as they are declared.** A document that is added as a subgraph may declare a field, an
input field or a value again, in the same block of the type or in another one. Then something fatal
is found in the subgraph, and it holds one field or value of the name. Every field has the arguments
of one of its declarations; so no field has two arguments of one name if none is declared with
them. -/
theorem repeated_members_are_reported {set set' : SubgraphSet} {text name : String}
    {url : Option String} (hread : Schema.read text = .ok schema)
    (hadd : set.addText text name url = .ok set') :
    ∃ s, set'.subgraphs = set.subgraphs ++ [s] ∧
      (∀ d ∈ s.definitions,
        (d.fields.map Field.name).Nodup ∧ (d.enumValues.map EnumValue.name).Nodup) ∧
      (∀ typeName, let o := Document.outlineOf s schema.roots schema.typeBlocks typeName
        ((o.fields.map Signature.name).Nodup ∧ o.values.Nodup) ∨ s.diagnostics.anyFatal = true) ∧
      (∀ d ∈ s.definitions, ∀ field ∈ d.fields, field.signature ∈
        (Document.outlineOf s schema.roots schema.typeBlocks d.name).fields) ∧
      ((∀ block ∈ Document.composedBlocks s schema.typeBlocks, block.body.HasDistinctArguments) →
        ∀ d ∈ s.definitions, ∀ field ∈ d.fields, (field.arguments.map Argument.name).Nodup) := by
  cases hname : set.hasName name with
  | true =>
    -- the subgraph stays empty, and its name is reported
    rw [addText_of_hasName hread hname] at hadd
    obtain rfl := Except.ok.inj hadd
    have hnone : ∀ {P : TypeDef → Prop}, ∀ d ∈ (set.start name url).2.definitions, P d :=
      fun _ hd => absurd hd List.not_mem_nil
    exact ⟨_, rfl, hnone, fun _ => .inr rfl, hnone, fun _ => hnone⟩
  | false =>
    rw [addText_of_new hread hname] at hadd
    split at hadd
    · cases hadd
    · obtain rfl := Except.ok.inj hadd
      have htypes := Document.Schema.hasPlainTypes_read hread
      have hproper := hasProperNames_build htypes (set.start name url).1
        (set.hasProperNames_start name url)
      have hdeclared := @hasOnlyFields_build schema (set.start name url).1 (set.start name url).2
        htypes rfl
      refine ⟨_, rfl, fun d hd => ?_, fun typeName => ?_, hdeclared, ?_⟩
      · exact ⟨(hproper.parts d hd).fields, (hproper.parts d hd).enumValues⟩
      · cases hquiet : (set.buildLast schema name url).subgraph.diagnostics.anyFatal with
        | true => exact .inr rfl
        | false => exact .inl (nodup_outlineOf_build htypes rfl hquiet typeName)
      · intro hdistinct d hd field hfield
        have hnames := Document.nodup_arguments_outlineOf hdistinct _ (hdeclared d hd field hfield)
        have hsame : field.signature.arguments.map Prod.fst = field.arguments.map Argument.name :=
          List.map_map
        exact hsame ▸ hnames

end SubgraphSet

/-! ## A field with repeated arguments

A schema with a field that is declared with two arguments of one name, and perhaps with further
fields.
-/

namespace Repeated

open Document (Schema)

/-- The argument that is declared twice. -/
def argument : InputDecl :=
  ⟨none, "a", { name := "Int" }, none, []⟩

/-- A field with two arguments of one name. -/
def field : FieldDecl :=
  ⟨none, "f", [argument, argument], { name := "Int" }, []⟩

/-- A field of the same name, without arguments. -/
def again : FieldDecl :=
  ⟨none, "f", [], { name := "Int" }, []⟩

/-- The schema with the field and with further fields. -/
def schema (more : List FieldDecl) : Schema :=
  [.type ⟨false, none, "Query", [], .object [] (field :: more)⟩]

/-- The text of the schema. -/
def text (more : String) : String :=
  "type Query\x7bf(a:Int a:Int):Int" ++ more ++ "\x7d"

set_option maxRecDepth 8000 in
theorem read_text : Schema.read (text "") = .ok (schema []) ∧
    Schema.read (text " f:Int") = .ok (schema [again]) := by
  unfold Schema.read Document.Reader.run text
  simp only [Document.Token.scan_eq_scanFor, String.toList_append]
  constructor
  · repeat rewrite [toList_eq_of_ofList_eq rfl]
    rfl
  · repeat rewrite [toList_eq_of_ofList_eq rfl]
    rfl

end Repeated

namespace SubgraphSet

/-- The field is declared again, so something fatal is found, and its arguments are stored as they
are declared. -/
theorem repeated_members_are_reported_of_again :
    ∃ set s, addText {} (Repeated.text " f:Int") "a" none = .ok set ∧ set.subgraphs = [s] ∧
      s.diagnostics.anyFatal = true ∧
      ∃ d ∈ s.definitions, (d.fields.map Field.name).Nodup ∧ ∃ field ∈ d.fields, field.signature ∈
        (Document.outlineOf s (Repeated.schema [Repeated.again]).roots
          (Repeated.schema [Repeated.again]).typeBlocks d.name).fields := by
  have hadded := @addText_of_new {} _ "a" none _ Repeated.read_text.2 rfl
  have hheld : (buildLast {} (Repeated.schema [Repeated.again]) "a" none).isBeyondLimit =
      false := by decide +kernel
  rw [if_neg (ne_true_of_eq_false hheld)] at hadded
  obtain ⟨s, hs, hnames, hreported, hdeclared, -⟩ :=
    repeated_members_are_reported Repeated.read_text.2 hadded
  obtain rfl := List.singleton_inj.mp hs
  have hagain : ¬ ((Document.outlineOf (buildLast {} (Repeated.schema [Repeated.again]) "a"
      none).subgraph (Repeated.schema [Repeated.again]).roots (Repeated.schema
        [Repeated.again]).typeBlocks "Query").fields.map Signature.name).Nodup := by
    decide +kernel
  have hfield : ((buildLast {} (Repeated.schema [Repeated.again]) "a"
      none).subgraph.definitions.any fun d => !d.fields.isEmpty) = true := by decide +kernel
  obtain ⟨d, hd, hnonempty⟩ := List.any_eq_true.mp hfield
  rw [Bool.not_eq_true', List.isEmpty_eq_false_iff] at hnonempty
  obtain ⟨field, hfield⟩ := List.exists_mem_of_ne_nil d.fields hnonempty
  exact ⟨_, _, hadded, rfl, (hreported "Query").resolve_left fun h => hagain h.1, d, hd,
    (hnames d hd).1, field, hfield, hdeclared d hd field hfield⟩

/-- A field with two arguments of one name is taken in without a report. -/
theorem repeated_arguments_are_accepted :
    ¬ ∀ (set set' : SubgraphSet) (text name : String) (url : Option String),
      set.addText text name url = .ok set' → ∀ s ∈ set'.subgraphs, s.diagnostics.anyFatal = false →
        ∀ d ∈ s.definitions, ∀ field ∈ d.fields, (field.arguments.map Argument.name).Nodup := by
  intro hlaw
  have hadded := @addText_of_new {} _ "a" none _ Repeated.read_text.1 rfl
  have hheld : (buildLast {} (Repeated.schema []) "a" none).isBeyondLimit = false := by
    decide +kernel
  have hquiet : (buildLast {} (Repeated.schema []) "a" none).subgraph.diagnostics.anyFatal =
      false := by decide +kernel
  have hrepeats : ¬ ∀ d ∈ (buildLast {} (Repeated.schema []) "a" none).subgraph.definitions,
      ∀ field ∈ d.fields, (field.arguments.map Argument.name).Nodup := by decide +kernel
  rw [if_neg (ne_true_of_eq_false hheld)] at hadded
  exact hrepeats (hlaw _ _ _ _ _ hadded _ (List.mem_singleton_self _) hquiet)

end SubgraphSet

end Federation
