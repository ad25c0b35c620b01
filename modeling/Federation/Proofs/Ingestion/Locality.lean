import Federation.Proofs.Ingestion.Summaries

/-!
# What each step is about

Texts, descriptions, directives and the declarations of fields only lead to notes. The head of a
type block and its parts are about the type of the block: they leave other types alone, and they do
not look at them except for their kinds, which the parts never change.
-/

namespace Federation

open Document (Directive TypeBlock TypeBody FieldDecl InputDecl EnumValueDecl)

namespace Ingestion

variable {α : Type} {r : RootTypes} {c : Subgraph}

/-! ## Texts, reports and limits -/

/-- A step that at most mentions texts. -/
theorem answers_of_summary_eq {x : Ingestion α} {a : α}
    (h : ∀ p : Progress, (x.run p).1 = a ∧ (x.run p).2.summary = p.summary) :
    Answers r x c a 0 := by
  intro p _
  rw [Summary.tell_zero]
  exact h p

theorem answers_mention (text : String) : Answers r (mention text) c () 0 :=
  answers_of_summary_eq fun _ => ⟨rfl, rfl⟩

theorem answers_mentionAll (texts : List String) : Answers r (mentionAll texts) c () 0 :=
  answers_of_summary_eq fun _ => ⟨rfl, rfl⟩

theorem isAside_mention (text : String) : IsAside r (mention text) :=
  fun _ => ⟨(), 0, answers_mention text⟩

theorem isAside_mentionAll (texts : List String) : IsAside r (mentionAll texts) :=
  fun _ => ⟨(), 0, answers_mentionAll texts⟩

theorem isAside_mentionOptional (text : Option String) : IsAside r (mentionOptional text) := by
  cases text with
  | none => exact isAside_pure ()
  | some text => exact isAside_mention text

/-- A report is noted. -/
theorem answers_report (code : ErrorCode) (message : String) :
    Answers r (report code message) c ()
      { diagnostics := {.error code s!"[{c.name}] {message}"} } := by
  rintro p rfl
  exact ⟨rfl, Summary.ext rfl rfl rfl (Features.union_empty _).symm rfl (Bool.or_false _).symm⟩

theorem isAside_report (code : ErrorCode) (message : String) : IsAside r (report code message) :=
  fun _ => ⟨(), _, answers_report code message⟩

theorem isAside_useFeatures (features : Features) : IsAside r (useFeatures features) :=
  fun _ => ⟨(), { features }, fun _ _ =>
    ⟨rfl, Summary.ext rfl rfl (Multiset.add_zero _).symm rfl rfl (Bool.or_false _).symm⟩⟩

theorem isAside_passLimit : IsAside r passLimit :=
  fun _ => ⟨(), { isBeyondLimit := true }, fun _ _ =>
    ⟨rfl, Summary.ext rfl rfl (Multiset.add_zero _).symm (Features.union_empty _).symm rfl
      (Bool.or_true _).symm⟩⟩

theorem isAside_describe (description : Option Document.Description) :
    IsAside r (describe description) := by
  unfold describe
  split
  · exact isAside_pure none
  · split
    · exact isAside_passLimit.bind fun _ => isAside_pure none
    · exact (isAside_mention _).bind fun _ => isAside_pure _

theorem isAside_mentionType (type : TypeRef) : IsAside r (mentionType type) := by
  unfold mentionType
  split
  · exact isAside_passLimit.bind fun _ => isAside_mention _
  · exact isAside_mention _

/-- What is read of a field set does not depend on the texts that were mentioned before. -/
theorem isAside_readFieldSet (text : String) : IsAside r (readFieldSet text) := by
  intro c
  let result := ((SelectionSet.read text).run.run {}).1
  refine ⟨result, { isBeyondLimit := hitsLimit result }, fun p _ => ?_⟩
  have hresult : ((SelectionSet.read text).run.run p.names).1 = result :=
    SelectionSet.ignoresNames_read text p.names {}
  rw [run_readFieldSet, hresult]
  exact ⟨rfl, Summary.ext rfl rfl (Multiset.add_zero _).symm (Features.union_empty _).symm rfl
    (Bool.or_comm _ _)⟩

end Ingestion

open Ingestion

variable {r : RootTypes} {c : Subgraph}

/-! ## Directives -/

namespace Attributes

theorem isAside_ingestFieldSet (location : String) (directive : Directive) (directiveName : String)
    (wrongType unusable : ErrorCode) :
    IsAside r (ingestFieldSet location directive directiveName wrongType unusable) := by
  unfold ingestFieldSet
  split
  · exact (isAside_report _ _).bind fun _ => isAside_pure none
  · refine (isAside_readFieldSet _).bind fun result => ?_
    split
    · exact isAside_pure _
    · exact (isAside_report _ _).bind fun _ => isAside_pure none

/-- A directive only leads to notes, whatever its role. -/
theorem isAside_ingestRole (location : String) (a : Attributes) (directive : Directive)
    (role : DirectiveRole) : IsAside r (ingestRole location a directive role) := by
  have hreport : ∀ code message, IsAside r (do report code message; return a) :=
    fun code message => (isAside_report code message).bind fun _ => isAside_pure a
  unfold ingestRole
  cases role with
  | key | extended | external | interfaceObject | shareable => exact isAside_pure _
  | authenticated | inaccessible =>
    exact (isAside_useFeatures _).bind fun _ => isAside_pure _
  | cost =>
    dsimp only
    split
    · exact (isAside_useFeatures _).bind fun _ => isAside_pure _
    · exact hreport _ _
  | listSize =>
    dsimp only
    split
    · exact (isAside_mentionAll _).bind fun _ => (isAside_mentionAll _).bind fun _ =>
        (isAside_useFeatures _).bind fun _ => isAside_pure _
    · exact hreport _ _
  | deprecated =>
    dsimp only
    split
    · exact (isAside_mentionOptional _).bind fun _ => isAside_pure _
    · exact hreport _ _
  | override =>
    refine (isAside_mentionOptional _).bind fun _ => (isAside_mentionOptional _).bind fun _ => ?_
    split
    · exact isAside_pure _
    · exact hreport _ _
  | policy | requiresScopes =>
    exact (isAside_mentionAll _).bind fun _ => (isAside_useFeatures _).bind fun _ => isAside_pure _
  | provides | requires =>
    refine (isAside_ingestFieldSet _ _ _ _ _).bind fun selections => ?_
    split
    · exact isAside_pure _
    · exact isAside_pure _
  | tag =>
    dsimp only
    split
    · exact isAside_pure _
    · exact (isAside_mention _).bind fun _ => (isAside_useFeatures _).bind fun _ => isAside_pure _

theorem isAside_ingestDirective (location : String) (a : Attributes) (directive : Directive) :
    IsAside r (ingestDirective location a directive) := by
  refine isAside_subgraph_bind (fun _ => rfl) fun s => ?_
  split
  · exact isAside_ingestRole location a directive _
  · exact isAside_pure a

theorem isAside_ingest (location : String) (a : Attributes) (directives : List Directive) :
    IsAside r (Attributes.ingest location a directives) :=
  isAside_foldlM (isAside_ingestDirective location) a

end Attributes

/-! ## Parts -/

theorem isAside_ingestDefault (literal : Option Document.Literal) :
    IsAside r (ingestDefault literal) := by
  unfold ingestDefault
  split
  · exact isAside_pure none
  · exact (isAside_mentionAll _).bind fun _ => isAside_pure _

theorem isAside_ingestArgument (coordinate : String) (decl : InputDecl) :
    IsAside r (ingestArgument coordinate decl) :=
  (isAside_mentionType _).bind fun _ => (Attributes.isAside_ingest _ _ _).bind fun _ =>
    (isAside_describe _).bind fun _ => (isAside_ingestDefault _).bind fun _ =>
      (isAside_mention _).bind fun _ => isAside_pure _

section

variable {name : String}

/-- A change of the type that leaves its kind alone leaves what is in view alone. -/
theorem View.see_kinds_put {g : TypeDef → TypeDef} (hkind : ∀ d, (g d).kind = d.kind)
    (σ : Summary) :
    View.kinds.see (σ.put name ((σ.types name).map g)) = View.kinds.see σ := by
  refine Prod.ext rfl (funext fun other => ?_)
  show ((σ.put name _).types other).map TypeDef.kind = (σ.types other).map TypeDef.kind
  by_cases heq : other = name
  · subst heq
    rw [Summary.types_put_self, Option.map_map,
      show TypeDef.kind ∘ g = TypeDef.kind from funext hkind]
  · rw [Summary.types_put_of_ne _ heq]

/-- The subgraph defines a type if its kind is in view. -/
theorem Progress.defines_eq (p : Progress) (other : String) :
    p.subgraph.defines other = ((View.kinds.see p.summary).2 other).isSome := by
  show _ = (((p.subgraph.definition? other).map _).map _).isSome
  rw [Option.isSome_map, Option.isSome_map]
  exact (List.isSome_find? ..).symm

/-- The type with further fields. -/
def TypeDef.withFields (d : TypeDef) (fields : List Field) : TypeDef :=
  { d with fields := d.fields ++ fields }

theorem TypeDef.map_withFields_nil (d : Option TypeDef) : (d.map fun d => d.withFields []) = d := by
  have hnil : (fun d : TypeDef => d.withFields []) = id := by
    funext d
    rw [withFields, List.append_nil]
    rfl
  rw [hnil, Option.map_id]
  rfl

/-- The type with further interfaces. -/
def TypeDef.withInterfaces (d : TypeDef) (interfaces : List String) : TypeDef :=
  { d with interfaces := interfaces.foldl Attributes.addNew d.interfaces }

variable (name) in
/-- Whether a field is added depends on the fields of its type only, and it is added in the same way
wherever it stands. -/
theorem exists_acts_addField (what : String) (field : Field)
    (v : Subgraph × (String → Option TypeKind)) (fields : Option (List Field)) :
    ∃ added n, ∀ field' : Field, field'.placeless = field.placeless →
      ∀ d : Option TypeDef, d.map TypeDef.fields = fields →
        Acts r .kinds name (addField name what field') v d ()
          (d.map fun d => d.withFields added) n := by
  let found := fields.bind fun fields => fields.find? fun other => other.name == field.name
  have hfound : ∀ (p : Progress) {d : Option TypeDef}, p.summary.types name = d →
      d.map TypeDef.fields = fields →
        ((p.subgraph.definition? name).bind fun d => d.field? field.name).map Field.placeless =
          found := by
    rintro p d rfl rfl
    show _ = (((p.subgraph.definition? name).map TypeDef.placeless).map TypeDef.fields).bind _
    cases p.subgraph.definition? name with
    | none => rfl
    | some d => exact (d.field?_placeless field.name).symm
  obtain ⟨⟨⟩, n, hreport⟩ := isAside_report (r := r) .invalidGraphql
    s!"{what} \"{name}.{field.name}\" is defined more than once." v.1
  cases hexisting : found with
  | none =>
    refine ⟨[field.placeless], 0, fun field' hfield d hd => ?_⟩
    have hname : field'.name = field.name := by
      show field'.placeless.name = field.placeless.name
      rw [hfield]
    refine acts_subgraph_bind (fun p _ htype => ?_) (acts_modifyDefinition
      (f := fun d => { d with fields := d.fields ++ [field'] }) (fun _ => rfl) ?_
      (View.see_kinds_put fun _ => rfl))
    · have hnone := Option.map_eq_none_iff.mp ((hfound p htype hd).trans hexisting)
      dsimp only
      rw [hname, hnone]
    · intro d
      simp [TypeDef.placeless, TypeDef.withFields, hfield]
  | some existing =>
    refine ⟨[], n, fun field' hfield d hd => ?_⟩
    have hname : field'.name = field.name := by
      show field'.placeless.name = field.placeless.name
      rw [hfield]
    rw [TypeDef.map_withFields_nil]
    refine acts_subgraph_bind (fun p _ htype => ?_) hreport.acts
    obtain ⟨_, hsome, -⟩ := Option.map_eq_some_iff.mp ((hfound p htype hd).trans hexisting)
    dsimp only
    rw [hname, hsome]

/-- Wherever a field stands, it is added to its type in the same way. -/
theorem alikeAbout_addField (what : String) {field field' : Field}
    (h : field.placeless = field'.placeless) :
    AlikeAbout r .kinds name (addField name what field) (addField name what field') := by
  intro v d
  obtain ⟨added, n, hadd⟩ := exists_acts_addField (r := r) name what field v
    (d.map TypeDef.fields)
  exact ⟨(), _, n, hadd field rfl d rfl, hadd field' h.symm d rfl⟩

variable (name) in
/-- What is added for a field of an output type depends on the fields of the type only, and not on
where the field stands. -/
theorem exists_acts_ingestField (roots : RootTypes) (decl : FieldDecl)
    (v : Subgraph × (String → Option TypeKind)) (fields : Option (List Field)) :
    ∃ added n, ∀ (inExtension : Bool) (d : Option TypeDef), d.map TypeDef.fields = fields →
      Acts r .kinds name (ingestField roots name inExtension decl) v d ()
        (d.map fun d => d.withFields added) n := by
  unfold ingestField
  split
  · refine ⟨[], 0, fun _ d _ => ?_⟩
    rw [TypeDef.map_withFields_nil]
    exact (answers_pure _).acts
  · let type := { decl.type with name := roots.canonicalName decl.type.name }
    obtain ⟨⟨⟩, n₁, htype⟩ := isAside_mentionType (r := r) type v.1
    obtain ⟨attributes, n₂, hattributes⟩ := Attributes.isAside_ingest (r := r)
      (name ++ "." ++ decl.name) {} decl.directives v.1
    obtain ⟨arguments, n₃, harguments⟩ := isAside_mapM (r := r)
      (isAside_ingestArgument (name ++ "." ++ decl.name)) decl.arguments v.1
    obtain ⟨description, n₄, hdescription⟩ := isAside_describe (r := r) decl.description v.1
    obtain ⟨added, n₅, hadd⟩ := exists_acts_addField (r := r) name "Field"
      { name := decl.name, type, description, attributes, arguments, inExtension := false } v fields
    refine ⟨added, n₁ + (n₂ + (n₃ + (n₄ + (0 + n₅)))), fun inExtension d hd => htype.acts.bind ?_⟩
    refine hattributes.acts.bind (harguments.acts.bind (hdescription.acts.bind ?_))
    exact (answers_mention decl.name).acts.seq (hadd
      { name := decl.name, type, description, attributes, arguments, inExtension } rfl d hd)

/-- Wherever a field of an output type stands, it is taken in the same way. -/
theorem alikeAbout_ingestField (roots : RootTypes) (inExtension inExtension' : Bool)
    (decl : FieldDecl) : AlikeAbout r .kinds name (ingestField roots name inExtension decl)
      (ingestField roots name inExtension' decl) := by
  intro v d
  obtain ⟨added, n, hadd⟩ := exists_acts_ingestField (r := r) name roots decl v
    (d.map TypeDef.fields)
  exact ⟨(), _, n, hadd inExtension d rfl, hadd inExtension' d rfl⟩

/-- Wherever a field of an input type stands, it is taken in the same way. -/
theorem alikeAbout_ingestInputField (inExtension inExtension' : Bool) (decl : InputDecl) :
    AlikeAbout r .kinds name (ingestInputField name inExtension decl)
      (ingestInputField name inExtension' decl) :=
  (isAside_mentionType _).alikeAbout.bind fun _ =>
    (Attributes.isAside_ingest _ _ _).alikeAbout.bind fun _ =>
      (isAside_describe _).alikeAbout.bind fun _ =>
        (isAside_ingestDefault _).alikeAbout.bind fun _ =>
          (isAside_mention _).alikeAbout.bind fun _ => alikeAbout_addField _ rfl

/-- A change of the type alone that does not touch its fields or its kind. -/
theorem alikeAbout_modifyDefinition_same {f : TypeDef → TypeDef} (hname : ∀ d, (f d).name = d.name)
    (hf : ∀ d, (f d).placeless = f d.placeless) (hkind : ∀ d, (f d).kind = d.kind) :
    AlikeAbout r .kinds name (modifyDefinition name f) (modifyDefinition name f) :=
  alikeAbout_modifyDefinition hname hname hf hf (View.see_kinds_put hkind)

theorem alikeAbout_ingestEnumValue (decl : EnumValueDecl) :
    AlikeAbout r .kinds name (ingestEnumValue name decl) (ingestEnumValue name decl) := by
  refine (Attributes.isAside_ingest _ _ _).alikeAbout.bind fun attributes =>
    (isAside_describe _).alikeAbout.bind fun description =>
      (isAside_mention _).alikeAbout.bind fun _ => ?_
  let coordinate := name ++ "." ++ decl.name
  let add : List EnumValue → Ingestion Unit := fun values =>
    if values.any fun value => value.name == decl.name then
      report .invalidGraphql s!"Enum value \"{coordinate}\" is defined more than once."
    else modifyDefinition name fun d =>
      { d with enumValues := d.enumValues ++ [{ name := decl.name, description, attributes }] }
  have hadd : ∀ p : Progress,
      add (((p.subgraph.definition? name).map TypeDef.enumValues).getD []) =
        add (((p.summary.types name).map TypeDef.enumValues).getD []) := by
    intro p
    show _ = add ((((p.subgraph.definition? name).map TypeDef.placeless).map _).getD [])
    rw [Option.map_map]
    rfl
  refine alikeAbout_subgraph_bind (fun _ d => add ((d.map TypeDef.enumValues).getD []))
    (fun _ d => add ((d.map TypeDef.enumValues).getD [])) hadd hadd fun _ d => ?_
  show AlikeAbout r .kinds name (ite _ _ _) (ite _ _ _)
  split
  · exact (isAside_report _ _).alikeAbout
  · exact alikeAbout_modifyDefinition_same (fun _ => rfl) (fun _ => rfl) fun _ => rfl

theorem alikeAbout_ingestMember (roots : RootTypes) (member : String) :
    AlikeAbout r .kinds name (ingestMember roots name member) (ingestMember roots name member) := by
  let other := roots.canonicalName member
  let refer : Bool → Ingestion Unit := fun isDefined =>
    if isDefined then modifyDefinition name fun d =>
      { d with members := Attributes.addNew d.members other }
    else report .invalidGraphql
      s!"Union member `{other}` of `{name}` is used but not defined in the subgraph."
  have hrefer : ∀ p : Progress, refer (p.subgraph.defines (roots.canonicalName member)) =
      refer ((View.kinds.see p.summary).2 (roots.canonicalName member)).isSome :=
    fun p => congrArg refer (p.defines_eq _)
  refine alikeAbout_subgraph_bind (fun v _ => refer (v.2 (roots.canonicalName member)).isSome)
    (fun v _ => refer (v.2 (roots.canonicalName member)).isSome) hrefer hrefer fun v _ => ?_
  cases (v.2 (roots.canonicalName member)).isSome with
  | true => exact alikeAbout_modifyDefinition_same (fun _ => rfl) (fun _ => rfl) fun _ => rfl
  | false => exact (isAside_report _ _).alikeAbout

variable (name) in
/-- Whether an interface is added does not depend on the type. -/
theorem exists_acts_ingestInterface (interface : String)
    (v : Subgraph × (String → Option TypeKind)) :
    ∃ added n, ∀ d : Option TypeDef, Acts r .kinds name (ingestInterface name interface) v d ()
      (d.map fun d => d.withInterfaces added) n := by
  obtain ⟨⟨⟩, n, hreport⟩ := isAside_report (r := r) .invalidGraphql
    s!"`{name}` implements `{interface}`, but `{interface}` is not defined in the subgraph." v.1
  cases hdefined : (v.2 interface).isSome with
  | true =>
    refine ⟨[interface], 0, fun d => acts_subgraph_bind (fun p hp _ => ?_) (acts_modifyDefinition
      (f := fun d => d.withInterfaces [interface]) (fun _ => rfl) (fun _ => rfl)
      (View.see_kinds_put fun _ => rfl))⟩
    have htrue : p.subgraph.defines interface = true := by
      rw [p.defines_eq, hp, hdefined]
    exact if_pos htrue
  | false =>
    have hnothing : ∀ d : Option TypeDef, (d.map fun d => d.withInterfaces []) = d :=
      fun d => by cases d <;> rfl
    refine ⟨[], n, fun d => ?_⟩
    rw [hnothing]
    refine acts_subgraph_bind (fun p hp _ => ?_) hreport.acts
    have hfalse : p.subgraph.defines interface = false := by
      rw [p.defines_eq, hp, hdefined]
    exact if_neg (ne_true_of_eq_false hfalse)

theorem alikeAbout_ingestInterface (interface : String) :
    AlikeAbout r .kinds name (ingestInterface name interface) (ingestInterface name interface) := by
  intro v d
  obtain ⟨added, n, hadd⟩ := exists_acts_ingestInterface (r := r) name interface v
  exact ⟨(), _, n, hadd d, hadd d⟩

/-- A field and an interface of the same type can be taken in either order. -/
theorem alikeAbout_ingestField_ingestInterface (roots : RootTypes) (inExtension : Bool)
    (decl : FieldDecl) (interface : String) :
    AlikeAbout r .kinds name
      (ingestField roots name inExtension decl >>= fun _ => ingestInterface name interface)
      (ingestInterface name interface >>= fun _ => ingestField roots name inExtension decl) := by
  intro v d
  obtain ⟨fields, n, hfield⟩ := exists_acts_ingestField (r := r) name roots decl v
    (d.map TypeDef.fields)
  obtain ⟨interfaces, m, hinterface⟩ := exists_acts_ingestInterface (r := r) name
    interface v
  -- the interface leaves the fields of the type as they were
  have hsame : (d.map fun d => d.withInterfaces interfaces).map TypeDef.fields =
      d.map TypeDef.fields := by
    rw [Option.map_map]
    rfl
  have hlast := (hinterface d).seq (hfield inExtension _ hsame)
  have hfirst := (hfield inExtension d rfl).seq (hinterface _)
  rw [Option.map_map] at hlast hfirst
  exact ⟨(), _, n + m, hfirst, add_comm m n ▸ hlast⟩

/-- Wherever a body stands, it is taken in the same way. -/
theorem alikeAbout_ingestBody (roots : RootTypes) (inExtension inExtension' : Bool)
    (body : TypeBody) : AlikeAbout r .kinds name (ingestBody roots name inExtension body)
      (ingestBody roots name inExtension' body) := by
  cases body with
  | object interfaces fields | interface interfaces fields =>
    exact (alikeAbout_forM alikeAbout_ingestInterface).bind fun _ =>
      alikeAbout_forM (alikeAbout_ingestField roots inExtension inExtension')
  | union members => exact alikeAbout_forM (alikeAbout_ingestMember roots)
  | enum values => exact alikeAbout_forM alikeAbout_ingestEnumValue
  | inputObject fields =>
    exact alikeAbout_forM (alikeAbout_ingestInputField inExtension inExtension')
  | scalar => exact (isAside_pure ()).alikeAbout

end

/-- The parts of a block are about the type of the block. -/
theorem alikeAbout_ingestTypeBody (roots : RootTypes) (block : TypeBlock) :
    AlikeAbout r .kinds (roots.canonicalName block.name) (ingestTypeBody roots block)
      (ingestTypeBody roots block) := by
  let take : Subgraph → Option TypeDef → Ingestion Unit := fun s d =>
    if isMachinery s block then return ()
    else d.elim (return ()) fun d =>
      if d.kind = kindOf s block then
        ingestBody roots (roots.canonicalName block.name)
          (block.isExtension || d.attributes.isExtended) block.body
      else return ()
  have htake : ∀ p : Progress,
      take p.subgraph (p.subgraph.definition? (roots.canonicalName block.name)) =
        take (View.kinds.see p.summary).1 (p.summary.types (roots.canonicalName block.name)) := by
    intro p
    show _ = take p.subgraph ((p.subgraph.definition? _).map TypeDef.placeless)
    cases p.subgraph.definition? (roots.canonicalName block.name) <;> rfl
  have hrun : ingestTypeBody roots block = subgraph >>= fun s =>
      take s (s.definition? (roots.canonicalName block.name)) := by
    refine bind_congr fun s => ?_
    dsimp only [take]
    cases s.definition? (roots.canonicalName block.name) <;> rfl
  rw [hrun]
  refine alikeAbout_subgraph_bind (fun v d => take v.1 d) (fun v d => take v.1 d) htake htake
    fun v d => ?_
  show AlikeAbout r .kinds _ (ite _ _ _) (ite _ _ _)
  split
  · exact (isAside_pure ()).alikeAbout
  · cases d with
    | none => exact (isAside_pure ()).alikeAbout
    | some d =>
      show AlikeAbout r .kinds _ (ite _ _ _) (ite _ _ _)
      split
      · exact alikeAbout_ingestBody _ _ _ _
      · exact (isAside_pure ()).alikeAbout

/-! ## Heads -/

/-- A type of which nothing is known yet. It counts as an extension until it is defined. -/
def TypeDef.blank (name : String) (kind : TypeKind) : TypeDef :=
  { name, kind, description := none, isExtension := true }

/-- The type with what the head of a further block says about it. -/
def TypeDef.withHead (d : TypeDef) (isExtension : Bool) (description : Option String)
    (attributes : Attributes) (keys : List Key) : TypeDef :=
  { d with
    isExtension := attributes.isExtended || (d.isExtension && isExtension)
    description := d.description.or description
    attributes
    keys := d.keys ++ keys }

section

variable {name : String}

/-- A change of the type that touches neither its fields nor its name. -/
theorem acts_modifyDefinition_plain {f : TypeDef → TypeDef} (hname : ∀ d, (f d).name = d.name)
    (hf : ∀ d, (f d).placeless = f d.placeless) (d : TypeDef) :
    Acts r .plain name (modifyDefinition name f) c (some d) () (some (f d)) 0 :=
  acts_modifyDefinition (d := some d) hname hf fun _ => rfl

/-- A type that is not there yet is founded. -/
theorem acts_addDefinition {d : TypeDef} (hd : d.placeless = d) :
    Acts r .plain d.name (modifySubgraph fun s => { s with definitions := s.definitions ++ [d] }) c
      none () (some d) 0 := by
  intro p hp hnone
  refine ⟨rfl, ?_, hp⟩
  have hnew : p.subgraph.definition? d.name = none := Option.map_eq_none_iff.mp hnone
  rw [Summary.tell_zero]
  refine Summary.ext rfl (funext fun other => ?_) rfl rfl rfl rfl
  show (Subgraph.definition? { p.subgraph with definitions := _ } other).map TypeDef.placeless = _
  rw [Subgraph.definition?_append]
  by_cases heq : other = d.name
  · subst heq
    rw [hnew, if_pos rfl, Summary.types_put_self, Option.none_or, Option.map_some, hd]
  · rw [if_neg (Ne.symm heq), Option.or_none, Summary.types_put_of_ne _ heq]
    rfl

/-- What finding or founding a type does depends on the type only. -/
theorem acts_foundType_of {kind : TypeKind} {isExtension found : Bool} {description : Option String}
    {d d' : Option TypeDef} {n : Note}
    (h : Acts r .plain name (match d with
      | none => do
        mention name
        modifySubgraph fun s =>
          { s with definitions := s.definitions ++ [{ name, kind, description, isExtension }] }
        return true
      | some existing =>
        if existing.kind = kind then do
          modifyDefinition name fun d =>
            { d with
              isExtension := d.isExtension && isExtension
              description := d.description.or description }
          return true
        else do
          report .typeKindMismatch
            s!"Type \"{name}\" is defined both as {existing.kind.describe} and as {kind.describe}"
          return false) c d found d' n) :
    Acts r .plain name (foundType name kind isExtension description) c d found d' n := by
  refine acts_subgraph_bind (fun p _ hd => ?_) h
  have htypes : (p.subgraph.definition? name).map TypeDef.placeless = d := hd
  rw [← htypes]
  cases p.subgraph.definition? name <;> rfl

/-- A block of the kind of its type is accepted. -/
theorem acts_foundType {d : Option TypeDef} {kind : TypeKind}
    (hkind : ∀ e, d = some e → e.kind = kind) (isExtension : Bool) (description : Option String) :
    let d' := d.getD (.blank name kind)
    Acts r .plain name (foundType name kind isExtension description) c d true
      (some { d' with
        isExtension := d'.isExtension && isExtension
        description := d'.description.or description }) 0 := by
  refine acts_foundType_of ?_
  cases d with
  | none =>
    refine Acts.silent_seq (answers_mention name).acts (Acts.bind_pure (a := ()) ?_ true)
    exact acts_addDefinition (d := { name, kind, description, isExtension }) rfl
  | some e =>
    show Acts r .plain name (if e.kind = kind then _ else _) c (some e) true _ 0
    rw [if_pos (hkind e rfl)]
    exact Acts.bind_pure (acts_modifyDefinition_plain (f := fun d =>
      { d with
        isExtension := d.isExtension && isExtension
        description := d.description.or description }) (fun _ => rfl) (fun _ => rfl) e) true

variable (name) in
/-- A block of another kind than its type is refused. -/
theorem exists_acts_foundType_refused {e : TypeDef} {kind : TypeKind} (hkind : e.kind ≠ kind)
    (isExtension : Bool) (description : Option String) :
    ∃ n, Acts r .plain name (foundType name kind isExtension description) c (some e) false (some e)
      n := by
  obtain ⟨⟨⟩, n, hreport⟩ := isAside_report (r := r) .typeKindMismatch
    s!"Type \"{name}\" is defined both as {e.kind.describe} and as {kind.describe}" c
  refine ⟨n, acts_foundType_of ?_⟩
  show Acts r .plain name (if e.kind = kind then _ else _) c (some e) false (some e) _
  rw [if_neg hkind]
  exact hreport.acts.bind_pure false

/-! ### Roots -/

/-- A root is registered under its own name. -/
theorem RootTypes.rootName_of_matchName {roots : RootTypes} {root : RootOperation}
    (h : roots.matchName name = .root root) : roots.rootName root = roots.canonicalName name := by
  unfold matchName at h
  cases hfound : RootOperation.all.findSome? (roots.matchOne? name) with
  | none =>
    rw [hfound] at h
    cases h
  | some found =>
    rw [hfound] at h
    obtain rfl : found = .root root := h
    obtain ⟨other, -, hother⟩ := List.exists_of_findSome?_eq_some hfound
    unfold matchOne? at hother
    unfold rootName
    cases hget : roots.get other with
    | none =>
      rw [hget] at hother
      dsimp only at hother
      split at hother
      · rename_i hname
        obtain rfl : other = root := by simpa using hother
        rw [hget, hname]
        rfl
      · cases hother
    | some custom =>
      rw [hget] at hother
      dsimp only at hother
      split at hother
      · rename_i hname
        obtain rfl : other = root := by simpa using hother
        rw [hget, ← hname]
        rfl
      · split at hother <;> simp at hother

theorem RootTypes.get_set_eq (s : RootTypes) (root other : RootOperation) (name : String) :
    (s.set root name).get other = if other = root then some name else s.get other := by
  cases root <;> cases other <;> rfl

/-- The note that a type is a root. -/
def rootNote (roots : RootTypes) (name : String) : Note :=
  { roots := fun root => decide (roots.matchName name = .root root) }

/-- It makes no difference how often a root is registered. -/
theorem rootNote_add_self (roots : RootTypes) (name : String) :
    rootNote roots name + rootNote roots name = rootNote roots name :=
  Note.ext rfl rfl (funext fun _ => Bool.or_self _) rfl

/-- A type is registered as a root unless it only has the name of one. -/
theorem answers_registerRoot {roots : RootTypes} {block : TypeBlock}
    (h : roots.matchName block.name ≠ .displaced) :
    Answers roots (registerRoot roots block (roots.canonicalName block.name)) c ()
      (rootNote roots block.name) := by
  rintro p -
  unfold registerRoot rootNote
  cases hmatch : roots.matchName block.name with
  | displaced => exact absurd hmatch h
  | notRoot =>
    refine ⟨rfl, Summary.ext rfl rfl (Multiset.add_zero _).symm (Features.union_empty _).symm
      (funext fun other => ?_) (Bool.or_false _).symm⟩
    show p.subgraph.roots.get other =
      if decide (RootMatch.notRoot = .root other) then some (roots.rootName other)
      else p.subgraph.roots.get other
    simp
  | root root =>
    refine ⟨rfl, Summary.ext rfl rfl (Multiset.add_zero _).symm (Features.union_empty _).symm
      (funext fun other => ?_) (Bool.or_false _).symm⟩
    show (p.subgraph.roots.set root _).get other =
      if decide (RootMatch.root root = .root other) then some (roots.rootName other)
      else p.subgraph.roots.get other
    rw [RootTypes.get_set_eq]
    by_cases heq : other = root
    · subst heq
      simp [RootTypes.rootName_of_matchName hmatch]
    · simp [heq, Ne.symm heq]

theorem isAside_registerRoot (roots : RootTypes) (block : TypeBlock) :
    IsAside roots (registerRoot roots block (roots.canonicalName block.name)) := by
  by_cases h : roots.matchName block.name = .displaced
  · unfold registerRoot
    rw [h]
    exact isAside_report _ _
  · exact fun c => ⟨(), _, answers_registerRoot h⟩

/-! ### Directives of types -/

/-- The type with further keys. -/
def TypeDef.withKeys (d : TypeDef) (keys : List Key) : TypeDef :=
  { d with keys := d.keys ++ keys }

theorem TypeDef.withKeys_nil (d : TypeDef) : d.withKeys [] = d := by
  rw [withKeys, List.append_nil]

theorem TypeDef.withKeys_append (d : TypeDef) (keys keys' : List Key) :
    d.withKeys (keys ++ keys') = (d.withKeys keys).withKeys keys' := by
  rw [withKeys, ← List.append_assoc]
  rfl

variable (name) in
theorem exists_acts_ingestKey (directive : Directive) :
    ∃ keys n, ∀ d : TypeDef, Acts r .plain name (ingestKey name directive) c (some d) ()
      (some (d.withKeys keys)) n := by
  have hnone : ∀ {x : Ingestion Unit} {n : Note}, Answers r x c () n →
      ∃ keys n, ∀ d : TypeDef, Acts r .plain name x c (some d) () (some (d.withKeys keys)) n := by
    intro x n h
    refine ⟨[], n, fun d => ?_⟩
    rw [d.withKeys_nil]
    exact h.acts
  unfold ingestKey
  split
  · exact hnone (answers_report _ _)
  · rename_i text _
    obtain ⟨result, n, hread⟩ := isAside_readFieldSet (r := r) text c
    cases result with
    | ok selections =>
      let key : Key :=
        { selections
          isResolvable :=
            ((directive.argument? "resolvable").bind Document.Literal.asBoolean?).getD true }
      exact ⟨[key], n + 0, fun d => hread.acts.bind (acts_modifyDefinition_plain
        (f := fun d => d.withKeys [key]) (fun _ => rfl) (fun _ => rfl) d)⟩
    | error fault => exact hnone (hread.bind (answers_report _ _))

/-- Among the directives on a type, those that give it keys. -/
def keyDirectives (s : Subgraph) (directives : List Directive) : List Directive :=
  directives.filter fun directive => DirectiveRole.resolve? s directive.name == some .key

/-- The directives give keys, whatever the type is like. -/
def GivesKeys (r : RootTypes) (c : Subgraph) (name : String) (directives : List Directive)
    (keys : List Key) (n : Note) : Prop :=
  ∀ d : TypeDef, Acts r .plain name ((keyDirectives c directives).forM (ingestKey name)) c (some d)
    () (some (d.withKeys keys)) n

theorem GivesKeys.append {directives directives' : List Directive} {keys keys' : List Key}
    {n n' : Note} (h : GivesKeys r c name directives keys n)
    (h' : GivesKeys r c name directives' keys' n') :
    GivesKeys r c name (directives ++ directives') (keys ++ keys') (n + n') := by
  intro d
  rw [d.withKeys_append, keyDirectives, List.filter_append, run_append]
  exact (h d).seq (h' (d.withKeys keys))

variable (name) in
theorem exists_givesKeys (directives : List Directive) :
    ∃ keys n, GivesKeys r c name directives keys n := by
  unfold GivesKeys
  induction keyDirectives c directives with
  | nil =>
    refine ⟨[], 0, fun d => ?_⟩
    rw [d.withKeys_nil]
    exact (answers_pure ()).acts
  | cons directive others ih =>
    obtain ⟨keys, n, hfirst⟩ := exists_acts_ingestKey (r := r) (c := c) name directive
    obtain ⟨keys', n', hothers⟩ := ih
    refine ⟨keys ++ keys', n + n', fun d => ?_⟩
    rw [d.withKeys_append]
    exact (hfirst d).seq (hothers (d.withKeys keys))

/-- The type with other attributes and with further keys. Attributes may make it an extension. -/
def TypeDef.withDirectives (d : TypeDef) (attributes : Attributes) (keys : List Key) : TypeDef :=
  { d with
    attributes
    keys := d.keys ++ keys
    isExtension := attributes.isExtended || d.isExtension }

/-- The directives of a block give its type attributes and keys. -/
theorem acts_ingestTypeDirectives {block : TypeBlock} {d : TypeDef} {a : Attributes}
    {keys : List Key} {n m : Note}
    (ha : Answers r (Attributes.ingest name d.attributes block.directives) c a n)
    (hkeys : GivesKeys r c name block.directives keys m) :
    Acts r .plain name (ingestTypeDirectives name block) c (some d) ()
      (some (d.withDirectives a keys)) (n + m) := by
  let changed : TypeDef := { d with attributes := a }
  have hset : Acts r .plain name (modifyDefinition name fun d => { d with attributes := a }) c
      (some d) () (some changed) 0 :=
    acts_modifyDefinition_plain (f := fun d => { d with attributes := a }) (fun _ => rfl)
      (fun _ => rfl) d
  have hingest : Acts r .plain name (ingestKeys name block.directives) c (some changed) ()
      (some (changed.withKeys keys)) m :=
    acts_subgraph_bind (fun p hp _ => hp ▸ rfl) (hkeys changed)
  have hextend : Acts r .plain name (do
      if a.isExtended then modifyDefinition name fun d => { d with isExtension := true }) c
      (some (changed.withKeys keys)) () (some (d.withDirectives a keys)) 0 := by
    unfold TypeDef.withDirectives
    cases a.isExtended with
    | true =>
      exact acts_modifyDefinition_plain (f := fun d => { d with isExtension := true })
        (fun _ => rfl) (fun _ => rfl) _
    | false => exact (answers_pure ()).acts
  have hrest := hset.silent_seq (hingest.seq hextend)
  rw [add_zero] at hrest
  refine acts_subgraph_bind (fun p _ hd => ?_) (Acts.bind
    (k := fun a => modifyDefinition name (fun d => { d with attributes := a }) >>= fun _ =>
      ingestKeys name block.directives >>= fun _ =>
        if a.isExtended then modifyDefinition name fun d => { d with isExtension := true }
        else pure ()) ha.acts hrest)
  have hbefore : ((p.subgraph.definition? name).map TypeDef.attributes).getD {} = d.attributes := by
    obtain ⟨e, he, rfl⟩ := Option.map_eq_some_iff.mp hd
    rw [he]
    rfl
  dsimp only
  rw [hbefore]

/-! ### Heads of blocks -/

/-- What is left of a head once its type has been found or founded. -/
def ingestFound (roots : RootTypes) (block : TypeBlock) (name : String) (kind : TypeKind) :
    Ingestion Unit :=
  if kind = .object then
    registerRoot roots block name >>= fun _ => ingestTypeDirectives name block
  else ingestTypeDirectives name block

/-- A block that serves federation itself is passed over. -/
theorem run_ingestTypeHead_of_machinery {roots : RootTypes} {block : TypeBlock} {p : Progress}
    (h : isMachinery p.summary.context block = true) :
    (ingestTypeHead roots block).run p = ((), p) := by
  have hpassed : isMachinery p.subgraph block = true := h
  show (ite (isMachinery p.subgraph block = true) (pure ()) _ : Ingestion Unit).run p = _
  rw [if_pos hpassed]
  rfl

/-- The head of a block that is accepted tells something about its type. -/
theorem acts_ingestTypeHead {roots : RootTypes} {block : TypeBlock} {kind : TypeKind}
    {d : Option TypeDef} {description : Option String} {a : Attributes} {keys : List Key}
    {n₁ n₂ n₃ n₄ : Note} (hcomposed : isMachinery c block = false)
    (hname : roots.canonicalName block.name = name) (hblock : kindOf c block = kind)
    (hkind : ∀ e, d = some e → e.kind = kind)
    (hdescription : Answers r (describe block.description) c description n₁)
    (hroot : Answers r (do if kind = .object then registerRoot roots block name) c () n₂)
    (ha : Answers r (Attributes.ingest name (d.getD (.blank name kind)).attributes block.directives)
      c a n₃)
    (hkeys : GivesKeys r c name block.directives keys n₄) :
    Acts r .plain name (ingestTypeHead roots block) c d ()
      (some ((d.getD (.blank name kind)).withHead block.isExtension description a keys))
      (n₁ + (n₂ + (n₃ + n₄))) := by
  let before := d.getD (.blank name kind)
  let found : TypeDef :=
    { before with
      isExtension := before.isExtension && block.isExtension
      description := before.description.or description }
  have hfound : Acts r .plain name (foundType name kind block.isExtension description) c d true
      (some found) 0 :=
    acts_foundType hkind block.isExtension description
  have hdirectives : Acts r .plain name (ingestTypeDirectives name block) c (some found) ()
      (some (before.withHead block.isExtension description a keys)) (n₃ + n₄) :=
    acts_ingestTypeDirectives (d := found) ha hkeys
  -- the root is registered only where there may be one
  have hrest : Acts r .plain name (ingestFound roots block name kind) c (some found) ()
      (some (before.withHead block.isExtension description a keys)) (n₂ + (n₃ + n₄)) := by
    have hseq := hroot.acts.seq hdirectives
    unfold ingestFound
    split at hseq
    · rw [if_pos ‹_›]
      exact hseq
    · rw [if_neg ‹_›]
      exact hseq
  rw [← zero_add (n₂ + (n₃ + n₄))]
  have hall := Acts.bind
    (k := fun answer => if answer = true then ingestFound roots block name kind else pure ())
    hfound hrest
  refine acts_subgraph_bind (fun p hp _ => ?_) (hdescription.acts.bind (k := fun description =>
    foundType name kind block.isExtension description >>= _) hall)
  obtain rfl : p.summary.context = c := hp
  subst hname hblock
  exact if_neg (ne_true_of_eq_false hcomposed)

/-- The head of a block that is accepted makes its type one of its kind. -/
theorem exists_acts_ingestTypeHead (roots : RootTypes) {block : TypeBlock} {d : Option TypeDef}
    (hcomposed : isMachinery c block = false)
    (hkind : ∀ e, d = some e → e.kind = kindOf c block) :
    ∃ (e : TypeDef) (n : Note), e.kind = kindOf c block ∧ Acts roots .plain
      (roots.canonicalName block.name) (ingestTypeHead roots block) c d () (some e) n := by
  let name := roots.canonicalName block.name
  let before := d.getD (.blank name (kindOf c block))
  have hregister : IsAside roots (do
      if kindOf c block = .object then registerRoot roots block name) := by
    split
    · exact isAside_registerRoot roots block
    · exact isAside_pure ()
  obtain ⟨description, n₁, hdescription⟩ := isAside_describe (r := roots) block.description c
  obtain ⟨⟨⟩, n₂, hroot⟩ := hregister c
  obtain ⟨a, n₃, ha⟩ := Attributes.isAside_ingest (r := roots) name before.attributes
    block.directives c
  obtain ⟨keys, n₄, hkeys⟩ := exists_givesKeys (r := roots) (c := c) name block.directives
  refine ⟨_, _, ?_, acts_ingestTypeHead hcomposed rfl rfl hkind hdescription hroot ha hkeys⟩
  show before.kind = kindOf c block
  cases d with
  | none => rfl
  | some e => exact hkind e rfl

/-- The head of a block is about the type of the block. -/
theorem alikeAbout_ingestTypeHead (roots : RootTypes) (block : TypeBlock) :
    AlikeAbout roots .plain (roots.canonicalName block.name) (ingestTypeHead roots block)
      (ingestTypeHead roots block) := by
  intro c d
  by_cases hmachinery : isMachinery c block = true
  · have hnothing : Acts roots .plain (roots.canonicalName block.name)
        (ingestTypeHead roots block) c d () d 0 := by
      refine acts_subgraph_bind (fun p hp _ => ?_) (answers_pure ()).acts
      obtain rfl : p.summary.context = c := hp
      exact if_pos hmachinery
    exact ⟨(), d, 0, hnothing, hnothing⟩
  by_cases hkind : ∀ e, d = some e → e.kind = kindOf c block
  · obtain ⟨e, n, -, haccepted⟩ := exists_acts_ingestTypeHead roots
      (Bool.eq_false_iff.mpr hmachinery) hkind
    exact ⟨(), some e, n, haccepted, haccepted⟩
  · -- the block is refused, and nothing else is looked at
    simp only [not_forall] at hkind
    obtain ⟨e, rfl, hkind⟩ := hkind
    obtain ⟨description, n₁, hdescription⟩ := isAside_describe (r := roots) block.description c
    obtain ⟨n, hrefused⟩ := exists_acts_foundType_refused (r := roots) (c := c)
      (roots.canonicalName block.name) hkind block.isExtension description
    let name := roots.canonicalName block.name
    let kind := kindOf c block
    have hrest : Acts roots .plain name (foundType name kind block.isExtension description >>=
        fun found => if found = true then ingestFound roots block name kind else pure ()) c
        (some e) () (some e) (n + 0) :=
      hrefused.bind (answers_pure ()).acts
    have hhead : Acts roots .plain name (ingestTypeHead roots block) c (some e) () (some e)
        (n₁ + (n + 0)) := by
      refine acts_subgraph_bind (fun p hp _ => ?_) (hdescription.acts.bind (k := fun description =>
        foundType name kind block.isExtension description >>= _) hrest)
      obtain rfl : p.summary.context = c := hp
      exact if_neg hmachinery
    exact ⟨(), _, _, hhead, hhead⟩

end

end Federation
