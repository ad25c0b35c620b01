import Federation.Ingestion.Types
import Federation.Proofs.Shuffled
import Mathlib.Data.List.Forall2

/-!
# Outlines of types

The outline of a type lists what it consists of: its fields with their arguments and types, its
values, its members and its interfaces. Every block of a document has an outline, and the blocks of a
type add up to the type if it gains the outline of each of them.
-/

namespace Federation

open Document (Directive InputDecl FieldDecl TypeBlock TypeBody)

/-! ## Signatures and outlines -/

/-- A field by name, with its type and its arguments. Types are references or their texts. -/
structure Signature (τ : Type) where
  name : String
  type : τ
  arguments : List (String × τ) := []
deriving DecidableEq, Repr

/-- The signature with its types in another form. -/
def Signature.map {τ σ : Type} (f : τ → σ) (g : Signature τ) : Signature σ where
  name := g.name
  type := f g.type
  arguments := g.arguments.map fun a => (a.1, f a.2)

/-- What a type consists of. -/
structure Outline (τ : Type) where
  fields : List (Signature τ) := []
  values : List String := []
  members : List String := []
  interfaces : List String := []
deriving DecidableEq, Repr

/-- What one outline lists, then what another one lists. -/
def Outline.append {τ : Type} (o o' : Outline τ) : Outline τ where
  fields := o.fields ++ o'.fields
  values := o.values ++ o'.values
  members := o.members ++ o'.members
  interfaces := o.interfaces ++ o'.interfaces

/-- What some outlines list, one after the other. -/
def Outline.join {τ : Type} (outlines : List (Outline τ)) : Outline τ where
  fields := outlines.flatMap Outline.fields
  values := outlines.flatMap Outline.values
  members := outlines.flatMap Outline.members
  interfaces := outlines.flatMap Outline.interfaces

/-- Lists something for one name only. -/
def Outline.only {τ : Type} (name : String) (o : Outline τ) (other : String) : Outline τ :=
  if other = name then o else {}

theorem Outline.only_empty {τ : Type} (name : String) :
    Outline.only name ({} : Outline τ) = fun _ => {} :=
  funext fun _ => ite_self _

theorem Outline.append_only {τ : Type} (name : String) (o o' : Outline τ) :
    (fun other => (Outline.only name o other).append (Outline.only name o' other)) =
      Outline.only name (o.append o') := by
  funext other
  unfold Outline.only
  split
  · rfl
  · rfl

/-- The signature of a field. -/
def Field.signature (f : Field) : Signature TypeRef where
  name := f.name
  type := f.type
  arguments := f.arguments.map fun a => (a.name, a.type)

/-! ## Outlines of blocks -/

namespace Document

/-- The signature of an input field. -/
def InputDecl.signature (decl : InputDecl) : Signature TypeRef where
  name := decl.name
  type := decl.type

/-- The signature of an output field, whose type goes by its usual name. -/
def FieldDecl.signature (roots : RootTypes) (decl : FieldDecl) : Signature TypeRef where
  name := decl.name
  type := { decl.type with name := roots.canonicalName decl.type.name }
  arguments := decl.arguments.map fun a => (a.name, a.type)

/-- The field serves federation itself. -/
def FieldDecl.isMachinery (typeName : String) (decl : FieldDecl) : Bool :=
  typeName == RootOperation.query.typeName && machineryFields.contains decl.name

/-- The outline of a block of a type. Fields that serve federation itself are left out. -/
def TypeBody.outline (roots : RootTypes) (typeName : String) : TypeBody → Outline TypeRef
  | .object interfaces fields | .interface interfaces fields =>
    { interfaces
      fields := (fields.filter fun decl => !decl.isMachinery typeName).map
        (FieldDecl.signature roots) }
  | .union members => { members := members.map roots.canonicalName }
  | .enum values => { values := values.map EnumValueDecl.name }
  | .inputObject fields => { fields := fields.map InputDecl.signature }
  | .scalar => {}

/-- The directives on the parts of a block. -/
def TypeBody.directives : TypeBody → List Directive
  | .object _ fields | .interface _ fields =>
    fields.flatMap fun decl => decl.directives ++ decl.arguments.flatMap InputDecl.directives
  | .enum values => values.flatMap EnumValueDecl.directives
  | .inputObject fields => fields.flatMap InputDecl.directives
  | .union _ | .scalar => []

/-- All directives on a block and its parts. -/
def TypeBlock.allDirectives (block : TypeBlock) : List Directive :=
  block.directives ++ block.body.directives

/-- The blocks that do not serve federation itself. -/
def composedBlocks (s : Subgraph) (blocks : List TypeBlock) : List TypeBlock :=
  blocks.filter fun block => !isMachinery s block

/-- The outlines of all blocks of a type, one after the other. The blocks of a type are those with
its name, where the roots go by their usual names. -/
def outlineOf (s : Subgraph) (roots : RootTypes) (blocks : List TypeBlock) (typeName : String) :
    Outline TypeRef :=
  .join (((composedBlocks s blocks).filter fun block =>
    roots.canonicalName block.name == typeName).map fun block => block.body.outline roots typeName)

end Document

/-! ## Elements that stand alone -/

/-- A directive in this role neither leaves anything to other subgraphs nor hides anything. -/
def DirectiveRole.isStandalone : DirectiveRole → Bool
  | .external | .inaccessible | .interfaceObject | .override | .provides | .requires => false
  | _ => true

/-- No directive leaves anything to other subgraphs or hides anything. -/
def Subgraph.AppliesStandalone (s : Subgraph) (directives : List Directive) : Prop :=
  ∀ directive ∈ directives, ∀ role, DirectiveRole.resolve? s directive.name = some role →
    role.isStandalone = true

/-- Nothing about the element is left to other subgraphs, and it is not hidden. -/
structure Attributes.IsStandalone (a : Attributes) : Prop where
  isExternal : a.isExternal = false
  isInaccessible : a.isInaccessible = false
  isInterfaceObject : a.isInterfaceObject = false
  override : a.override = none
  requires : a.requires = none
  provides : a.provides = none

/-- The field and its arguments stand alone. -/
def Field.IsStandalone (f : Field) : Prop :=
  f.attributes.IsStandalone ∧ ∀ a ∈ f.arguments, a.attributes.IsStandalone

/-- The type and all its parts stand alone. -/
structure TypeDef.IsStandalone (d : TypeDef) : Prop where
  attributes : d.attributes.IsStandalone
  fields : ∀ field ∈ d.fields, field.IsStandalone
  enumValues : ∀ value ∈ d.enumValues, value.attributes.IsStandalone

/-- All types stand alone. -/
def Subgraph.IsStandalone (s : Subgraph) : Prop :=
  ∀ d ∈ s.definitions, d.IsStandalone

/-! ## Gaining what an outline lists -/

/-- The type with what an outline lists, and otherwise perhaps with other attributes and keys. -/
structure TypeDef.Gains (d : TypeDef) (o : Outline TypeRef) (e : TypeDef) : Prop where
  name : e.name = d.name
  kind : e.kind = d.kind
  fields : e.fields.map Field.signature = d.fields.map Field.signature ++ o.fields
  values : e.enumValues.map EnumValue.name = d.enumValues.map EnumValue.name ++ o.values
  members : e.members = o.members.foldl Attributes.addNew d.members
  interfaces : e.interfaces = o.interfaces.foldl Attributes.addNew d.interfaces

/-- A type with the same parts gains nothing. -/
theorem TypeDef.Gains.of_same {d e : TypeDef} (hname : e.name = d.name) (hkind : e.kind = d.kind)
    (hfields : e.fields = d.fields) (hvalues : e.enumValues = d.enumValues)
    (hmembers : e.members = d.members) (hinterfaces : e.interfaces = d.interfaces) :
    d.Gains {} e where
  name := hname
  kind := hkind
  fields := by rw [hfields, List.append_nil]
  values := by rw [hvalues, List.append_nil]
  members := hmembers
  interfaces := hinterfaces

theorem TypeDef.Gains.refl (d : TypeDef) : d.Gains {} d :=
  .of_same rfl rfl rfl rfl rfl rfl

theorem TypeDef.Gains.trans {d e f : TypeDef} {o o' : Outline TypeRef} (h : d.Gains o e)
    (h' : e.Gains o' f) : d.Gains (o.append o') f where
  name := h'.name.trans h.name
  kind := h'.kind.trans h.kind
  fields := by
    rw [h'.fields, h.fields, List.append_assoc]
    rfl
  values := by
    rw [h'.values, h.values, List.append_assoc]
    rfl
  members := by
    rw [h'.members, h.members, ← List.foldl_append]
    rfl
  interfaces := by
    rw [h'.interfaces, h.interfaces, ← List.foldl_append]
    rfl

namespace Subgraph

/-- The subgraph is the same up to its types. -/
def SameContext (s t : Subgraph) : Prop :=
  t = { s with definitions := t.definitions }

namespace SameContext

variable {s t u : Subgraph}

theorem trans (h : s.SameContext t) (h' : t.SameContext u) : s.SameContext u := by
  unfold SameContext at h h' ⊢
  rw [h', h]

/-- Directives have the same roles. -/
theorem resolve?_eq (h : s.SameContext t) (name : String) :
    DirectiveRole.resolve? t name = DirectiveRole.resolve? s name := by
  rw [h]
  rfl

theorem isMachinery_eq (h : s.SameContext t) (block : TypeBlock) :
    isMachinery t block = isMachinery s block := by
  rw [h]
  rfl

theorem composedBlocks_eq (h : s.SameContext t) (blocks : List TypeBlock) :
    Document.composedBlocks t blocks = Document.composedBlocks s blocks := by
  rw [h]
  rfl

theorem outlineOf_eq (h : s.SameContext t) : Document.outlineOf t = Document.outlineOf s := by
  rw [h]
  rfl

theorem kindOf_eq (h : s.SameContext t) (block : TypeBlock) : kindOf t block = kindOf s block := by
  rw [h]
  rfl

theorem appliesStandalone_iff (h : s.SameContext t) {directives : List Directive} :
    t.AppliesStandalone directives ↔ s.AppliesStandalone directives := by
  unfold AppliesStandalone
  simp only [h.resolve?_eq]

end SameContext

/-- Every type gains what an outline lists for its name. The members and interfaces are types of the
subgraph, and all types go on to stand alone if some directives let them. -/
structure Gains (s : Subgraph) (outline : String → Outline TypeRef) (directives : List Directive)
    (t : Subgraph) : Prop where
  context : s.SameContext t
  definitions : List.Forall₂ (fun d e => d.Gains (outline d.name) e) s.definitions t.definitions
  defined : ∀ d ∈ s.definitions, ∀ other,
    other ∈ (outline d.name).members ∨ other ∈ (outline d.name).interfaces → s.defines other = true
  standalone : s.AppliesStandalone directives → s.IsStandalone → t.IsStandalone

variable {s t u : Subgraph} {outline outline' : String → Outline TypeRef}
  {directives directives' : List Directive}

/-- Where no members and interfaces are listed, all of them are defined. -/
theorem defines_of_nil {o : Outline TypeRef} (hmembers : o.members = [])
    (hinterfaces : o.interfaces = []) (other : String)
    (h : other ∈ o.members ∨ other ∈ o.interfaces) : s.defines other = true := by
  rw [hmembers, hinterfaces] at h
  rcases h with h | h
  · cases h
  · cases h

/-- No type gains anything. -/
theorem gains_nothing (hcontext : s.SameContext t)
    (hsame : List.Forall₂ (fun d e => d.Gains {} e) s.definitions t.definitions)
    (hstandalone : s.AppliesStandalone directives → s.IsStandalone → t.IsStandalone) :
    s.Gains (fun _ => {}) directives t where
  context := hcontext
  definitions := hsame
  defined := fun _ _ => defines_of_nil rfl rfl
  standalone := hstandalone

theorem gains_refl (s : Subgraph) (directives : List Directive) :
    s.Gains (fun _ => {}) directives s :=
  gains_nothing rfl (List.forall₂_same.mpr fun d _ => .refl d) fun _ => id

/-- Types keep their names. -/
theorem Gains.names (h : s.Gains outline directives t) :
    t.definitions.map TypeDef.name = s.definitions.map TypeDef.name := by
  have hnames := h.definitions.imp fun d e hgains => hgains.name.symm
  have hmapped := List.forall₂_map_left_iff.mpr (List.forall₂_map_right_iff.mpr hnames)
  exact (List.forall₂_eq_eq_eq ▸ hmapped).symm

theorem defines_iff_mem_names {s : Subgraph} {name : String} :
    s.defines name = true ↔ name ∈ s.definitions.map TypeDef.name := by
  simp [defines]

theorem Gains.defines_eq (h : s.Gains outline directives t) (name : String) :
    t.defines name = s.defines name := by
  rw [Bool.eq_iff_iff, defines_iff_mem_names, defines_iff_mem_names, h.names]

/-- The type of a name goes on to have it. -/
theorem Gains.definition?_eq_some (h : s.Gains outline directives t) {name : String} {d : TypeDef}
    (hd : s.definition? name = some d) :
    ∃ e, t.definition? name = some e ∧ d.Gains (outline d.name) e := by
  have hdefinitions := h.definitions
  unfold definition? at hd ⊢
  generalize s.definitions = ds at hd hdefinitions
  generalize t.definitions = es at hdefinitions ⊢
  induction hdefinitions with
  | nil => cases hd
  | cons hfirst _ ih =>
    rw [List.find?_cons] at hd ⊢
    rw [hfirst.name]
    split at hd
    · obtain rfl := Option.some.inj hd
      exact ⟨_, rfl, hfirst⟩
    · exact ih hd

theorem Gains.trans (h : s.Gains outline directives t) (h' : t.Gains outline' directives' u) :
    s.Gains (fun name => (outline name).append (outline' name)) (directives ++ directives') u where
  context := h.context.trans h'.context
  definitions := by
    refine forall₂_trans (fun d e f hgains hgains' => ?_) h.definitions h'.definitions
    rw [hgains.name] at hgains'
    exact hgains.trans hgains'
  defined := by
    intro d hd other hother
    obtain ⟨e, he, hgains⟩ := exists_of_forall₂_left h.definitions hd
    have hlater := h'.defined e he other
    rw [hgains.name, h.defines_eq] at hlater
    simp only [Outline.append, List.mem_append] at hother
    rcases hother with (hold | hnew) | (hold | hnew)
    · exact h.defined d hd other (.inl hold)
    · exact hlater (.inl hnew)
    · exact h.defined d hd other (.inr hold)
    · exact hlater (.inr hnew)
  standalone := by
    intro hdirectives hs
    obtain ⟨hfirst, hsecond⟩ := List.forall_mem_append.mp hdirectives
    exact h'.standalone (h.context.appliesStandalone_iff.mpr hsecond) (h.standalone hfirst hs)

variable {name : String}

/-- A change of the type of a name by which it gains what an outline lists. -/
theorem gains_modifyDefinition {o : Outline TypeRef} {f : TypeDef → TypeDef}
    (hdefined : ∀ other, other ∈ o.members ∨ other ∈ o.interfaces → s.defines other = true)
    (hgains : ∀ d : TypeDef, d.Gains o (f d))
    (hstandalone : s.AppliesStandalone directives → s.IsStandalone →
      ∀ d : TypeDef, d.IsStandalone → (f d).IsStandalone) :
    s.Gains (Outline.only name o) directives (s.modifyDefinition name f) where
  context := rfl
  definitions := by
    show List.Forall₂ _ s.definitions (s.definitions.map _)
    refine List.forall₂_map_right_iff.mpr (List.forall₂_same.mpr fun d _ => ?_)
    unfold Outline.only
    by_cases hname : d.name = name
    · rw [if_pos hname, if_pos (beq_iff_eq.mpr hname)]
      exact hgains d
    · rw [if_neg hname, if_neg fun heq => hname (beq_iff_eq.mp heq)]
      exact .refl d
  defined := by
    intro d _ other hother
    unfold Outline.only at hother
    split at hother
    · exact hdefined other hother
    · exact defines_of_nil rfl rfl other hother
  standalone := by
    intro hdirectives hs e he
    obtain ⟨d, hd, rfl⟩ := List.mem_map.mp he
    split
    · exact hstandalone hdirectives hs d (hs d hd)
    · exact hs d hd

/-- A change of the type of a name that leaves its parts as they are. -/
theorem gains_modifyDefinition_same {f : TypeDef → TypeDef}
    (hsame : ∀ d : TypeDef, d.Gains {} (f d))
    (hstandalone : s.AppliesStandalone directives → s.IsStandalone →
      ∀ d : TypeDef, d.IsStandalone → (f d).IsStandalone) :
    s.Gains (fun _ => {}) directives (s.modifyDefinition name f) := by
  rw [← Outline.only_empty name]
  exact gains_modifyDefinition (defines_of_nil rfl rfl) hsame hstandalone

end Subgraph

end Federation
