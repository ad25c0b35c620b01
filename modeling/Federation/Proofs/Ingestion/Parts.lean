import Federation.Proofs.Ingestion.Reflection

/-!
# What types consist of

A type that reflects its blocks is of the kind that they declare, has only parts that types of its
kind have, and has a part if one of its blocks declares one. All of this is read off outlines: it
holds of the outline of each block, of what they add up to, and so of the type.
-/

namespace Federation

open Document (Directive InputDecl FieldDecl TypeBlock TypeBody)

/-! ## Outlines -/

/-- The outline with its types in another form. -/
def Outline.map {τ σ : Type} (f : τ → σ) (o : Outline τ) : Outline σ where
  fields := o.fields.map (Signature.map f)
  values := o.values
  members := o.members
  interfaces := o.interfaces

/-- The outline of a type. -/
def TypeDef.outline (d : TypeDef) : Outline TypeRef where
  fields := d.fields.map Field.signature
  values := d.enumValues.map EnumValue.name
  members := d.members
  interfaces := d.interfaces

namespace Outline

variable {τ σ : Type} {o o' : Outline τ} {kind : TypeKind}

/-- An outline lists what another one lists: its fields in some order, its values, and its members
and interfaces in some order and without repetitions. -/
structure Lists (o o' : Outline τ) : Prop where
  fields : o.fields.Perm o'.fields
  values : o.values = o'.values
  members : o.members.Perm (Attributes.distinct o'.members)
  interfaces : o.interfaces.Perm (Attributes.distinct o'.interfaces)

/-- The outline has only parts that types of a kind have. -/
structure Fits (kind : TypeKind) (o : Outline τ) : Prop where
  fields : kind ≠ .object → kind ≠ .interface → kind ≠ .inputObject → o.fields = []
  arguments : kind = .inputObject → ∀ g ∈ o.fields, g.arguments = []
  values : kind ≠ .enum → o.values = []
  members : kind ≠ .union → o.members = []
  interfaces : kind ≠ .object → kind ≠ .interface → o.interfaces = []

/-- The outline has a part of those that types of a kind consist of. Scalars need none. -/
def HasParts (kind : TypeKind) (o : Outline τ) : Prop :=
  match kind with
  | .object | .interface | .inputObject => o.fields ≠ []
  | .union => o.members ≠ []
  | .enum => o.values ≠ []
  | .scalar => True

/-- The outlines list the same with types in another form. -/
theorem Lists.map (h : o.Lists o') (f : τ → σ) : (o.map f).Lists (o'.map f) :=
  ⟨h.fields.map _, h.values, h.members, h.interfaces⟩

theorem Lists.fits (h : o.Lists o') (h' : o'.Fits kind) : o.Fits kind where
  fields := fun hobject hinterface hinput =>
    (h'.fields hobject hinterface hinput ▸ h.fields).eq_nil
  arguments := fun hinput g hg => h'.arguments hinput g (h.fields.mem_iff.mp hg)
  values := fun henum => h.values.trans (h'.values henum)
  members := fun hunion => (h'.members hunion ▸ h.members).eq_nil
  interfaces := fun hobject hinterface => (h'.interfaces hobject hinterface ▸ h.interfaces).eq_nil

theorem Lists.hasParts (h : o.Lists o') (h' : o'.HasParts kind) : o.HasParts kind := by
  cases kind with
  | object | interface | inputObject => exact fun hnil => h' (hnil ▸ h.fields).symm.eq_nil
  | union =>
    intro hnil
    obtain ⟨member, hmember⟩ := List.exists_mem_of_ne_nil _ h'
    have hmem := h.members.mem_iff.mpr (Attributes.mem_distinct.mpr hmember)
    exact List.ne_nil_of_mem hmem hnil
  | enum => exact fun hnil => h' (h.values.symm.trans hnil)
  | scalar => trivial

/-- What fitting outlines list together fits. -/
theorem Fits.join {outlines : List (Outline τ)} (h : ∀ o ∈ outlines, o.Fits kind) :
    (Outline.join outlines).Fits kind where
  fields := fun hobject hinterface hinput =>
    List.flatMap_eq_nil_iff.mpr fun o ho => (h o ho).fields hobject hinterface hinput
  arguments := fun hinput => List.forall_mem_flatMap.mpr fun o ho => (h o ho).arguments hinput
  values := fun henum => List.flatMap_eq_nil_iff.mpr fun o ho => (h o ho).values henum
  members := fun hunion => List.flatMap_eq_nil_iff.mpr fun o ho => (h o ho).members hunion
  interfaces := fun hobject hinterface =>
    List.flatMap_eq_nil_iff.mpr fun o ho => (h o ho).interfaces hobject hinterface

/-- If one outline has a part, so has what all of them list together. -/
theorem HasParts.join {outlines : List (Outline τ)} (ho : o ∈ outlines) (h : o.HasParts kind) :
    (Outline.join outlines).HasParts kind := by
  cases kind with
  | object | interface | inputObject | union | enum =>
    exact fun hnil => h (List.flatMap_eq_nil_iff.mp hnil o ho)
  | scalar => trivial

end Outline

/-- The outline of a type lists what the type is outlined by. -/
theorem TypeDef.IsOutlinedBy.lists {d : TypeDef} {o : Outline TypeRef} (h : d.IsOutlinedBy o) :
    d.outline.Lists o :=
  ⟨h.fields, h.values, h.members, h.interfaces⟩

/-! ## Blocks -/

namespace Document.TypeBody

/-- The kind of type that is declared, by the word that it starts with. -/
def kind : TypeBody → TypeKind
  | .object _ _ => .object
  | .interface _ _ => .interface
  | .union _ => .union
  | .enum _ => .enum
  | .inputObject _ => .inputObject
  | .scalar => .scalar

/-- A field, member or value is declared. Scalars need none. -/
def HasMember : TypeBody → Prop
  | .object _ fields | .interface _ fields => fields ≠ []
  | .union members => members ≠ []
  | .enum values => values ≠ []
  | .inputObject fields => fields ≠ []
  | .scalar => True

/-- The arguments of each field have different names. -/
def HasDistinctArguments : TypeBody → Prop
  | .object _ fields | .interface _ fields =>
    ∀ decl ∈ fields, (decl.arguments.map InputDecl.name).Nodup
  | _ => True

instance (body : TypeBody) : Decidable body.HasMember :=
  match body with
  | .object _ fields | .interface _ fields => inferInstanceAs (Decidable (fields ≠ []))
  | .union members => inferInstanceAs (Decidable (members ≠ []))
  | .enum values => inferInstanceAs (Decidable (values ≠ []))
  | .inputObject fields => inferInstanceAs (Decidable (fields ≠ []))
  | .scalar => isTrue trivial

instance (body : TypeBody) : Decidable body.HasDistinctArguments :=
  match body with
  | .object _ fields | .interface _ fields =>
    inferInstanceAs (Decidable (∀ decl ∈ fields, (decl.arguments.map InputDecl.name).Nodup))
  | .union _ | .enum _ | .inputObject _ | .scalar => isTrue trivial

variable {body : TypeBody} (roots : RootTypes) (typeName : String)

theorem fits_outline (body : TypeBody) : (body.outline roots typeName).Fits body.kind := by
  constructor
  · cases body <;> simp [outline, kind]
  · cases body <;> simp [outline, kind, InputDecl.signature]
  · cases body <;> simp [outline, kind]
  · cases body <;> simp [outline, kind]
  · cases body <;> simp [outline, kind]

/-- Apart from the query type, where fields may serve federation itself, whatever is declared is part
of the outline. -/
theorem hasParts_outline (hname : typeName ≠ RootOperation.query.typeName) (h : body.HasMember) :
    (body.outline roots typeName).HasParts body.kind := by
  have hkept : ∀ fields : List FieldDecl,
      (fields.filter fun decl => !decl.isMachinery typeName) = fields :=
    fun fields => List.filter_eq_self.mpr fun decl _ => by simp [FieldDecl.isMachinery, hname]
  cases body with
  | object interfaces fields | interface interfaces fields =>
    show List.map _ (fields.filter _) ≠ []
    rw [hkept]
    exact mt List.map_eq_nil_iff.mp h
  | union members => exact mt List.map_eq_nil_iff.mp h
  | enum values => exact mt List.map_eq_nil_iff.mp h
  | inputObject fields => exact mt List.map_eq_nil_iff.mp h
  | scalar => trivial

theorem nodup_arguments_outline (h : body.HasDistinctArguments) :
    ∀ g ∈ (body.outline roots typeName).fields, (g.arguments.map Prod.fst).Nodup := by
  cases body with
  | object interfaces fields | interface interfaces fields =>
    refine List.forall_mem_map.mpr fun decl hdecl => ?_
    show ((decl.arguments.map fun a => (a.name, a.type)).map Prod.fst).Nodup
    rw [List.map_map]
    exact h decl (List.mem_of_mem_filter hdecl)
  | inputObject fields => exact List.forall_mem_map.mpr fun _ _ => List.nodup_nil
  | union | enum | scalar => exact fun _ hg => absurd hg List.not_mem_nil

end Document.TypeBody

/-! ## Types -/

/-- Without directives that leave something to others, no object stands in for an interface. -/
theorem Subgraph.AppliesStandalone.kindOf_eq {s : Subgraph} {block : TypeBlock}
    (h : s.AppliesStandalone block.directives) : kindOf s block = block.body.kind := by
  have hnone : (block.directives.any fun d =>
      DirectiveRole.resolve? s d.name == some .interfaceObject) = false := by
    refine List.any_eq_false.mpr fun directive hdirective hrole => ?_
    exact absurd (h directive hdirective _ (eq_of_beq hrole)) Bool.false_ne_true
  unfold kindOf TypeBody.kind
  rw [hnone]
  cases block.body <;> rfl

/-- An object that stands in for an interface consists of the same as an object. -/
theorem Outline.hasParts_kindOf_iff {τ : Type} {o : Outline τ} {s : Subgraph} {block : TypeBlock} :
    o.HasParts (kindOf s block) ↔ o.HasParts block.body.kind := by
  unfold kindOf
  cases block.body with
  | object =>
    dsimp only [TypeBody.kind]
    split <;> exact Iff.rfl
  | interface | union | enum | inputObject | scalar => exact Iff.rfl

/-- Whether a block serves federation itself is a matter of its name and its kind. -/
theorem isMachinery_eq_of_kind_eq {s : Subgraph} {block other : TypeBlock}
    (hname : other.name = block.name) (hkind : other.body.kind = block.body.kind) :
    isMachinery s other = isMachinery s block := by
  unfold isMachinery
  unfold TypeBody.kind at hkind
  rw [hname]
  cases hother : other.body <;> cases hblock : block.body <;> simp_all

/-- Every type of a document has a part, in one of its blocks. -/
def Document.Schema.HasMembers (schema : Document.Schema) : Prop :=
  ∀ block ∈ schema.typeBlocks, ∃ other ∈ schema.typeBlocks,
    other.name = block.name ∧ other.body.kind = block.body.kind ∧ other.body.HasMember

instance (schema : Document.Schema) : Decidable schema.HasMembers :=
  inferInstanceAs (Decidable (∀ block ∈ schema.typeBlocks, ∃ other ∈ schema.typeBlocks,
    other.name = block.name ∧ other.body.kind = block.body.kind ∧ other.body.HasMember))

/-- Nothing in the blocks of a document is left to other subgraphs or hidden. Every type that is
composed has a part, and every field has arguments of different names. -/
structure Document.StandsAlone (s : Subgraph) (roots : RootTypes) (blocks : List TypeBlock) : Prop where
  standalone : s.AppliesStandalone (blocks.flatMap TypeBlock.allDirectives)
  members : ∀ block ∈ composedBlocks s blocks, ∃ other ∈ composedBlocks s blocks,
    roots.canonicalName other.name = roots.canonicalName block.name ∧ other.body.HasMember
  arguments : ∀ block ∈ composedBlocks s blocks, block.body.HasDistinctArguments

instance (s : Subgraph) (directives : List Directive) : Decidable (s.AppliesStandalone directives) :=
  decidable_of_iff (∀ directive ∈ directives,
      (DirectiveRole.resolve? s directive.name).all DirectiveRole.isStandalone = true)
    (forall₂_congr fun _ _ => Option.all_eq_true _ _)

instance (s : Subgraph) (roots : RootTypes) (blocks : List TypeBlock) :
    Decidable (Document.StandsAlone s roots blocks) :=
  decidable_of_iff (s.AppliesStandalone (blocks.flatMap TypeBlock.allDirectives) ∧
      (∀ block ∈ Document.composedBlocks s blocks, ∃ other ∈ Document.composedBlocks s blocks,
        roots.canonicalName other.name = roots.canonicalName block.name ∧ other.body.HasMember) ∧
      ∀ block ∈ Document.composedBlocks s blocks, block.body.HasDistinctArguments)
    ⟨fun ⟨hstandalone, hmembers, harguments⟩ => ⟨hstandalone, hmembers, harguments⟩,
      fun h => ⟨h.standalone, h.members, h.arguments⟩⟩

namespace Subgraph.Reflects

variable {s : Subgraph} {roots : RootTypes} {blocks : List TypeBlock} (h : s.Reflects roots blocks)
  {d : TypeDef}

include h

/-- Every type has a block. -/
theorem exists_block (hd : d ∈ s.definitions) :
    ∃ block ∈ Document.composedBlocks s blocks, roots.canonicalName block.name = d.name := by
  have hname := List.mem_map_of_mem (f := TypeDef.name) hd
  rw [h.names, Attributes.mem_distinct] at hname
  exact List.mem_map.mp hname

/-- Every type but the query type has a part, if the blocks of its name have one. -/
theorem hasParts_of_members
    (hmembers : ∀ block ∈ Document.composedBlocks s blocks,
      ∃ other ∈ Document.composedBlocks s blocks,
        roots.canonicalName other.name = roots.canonicalName block.name ∧ other.body.HasMember)
    (hd : d ∈ s.definitions) (hname : d.name ≠ RootOperation.query.typeName) :
    d.outline.HasParts d.kind := by
  obtain ⟨block, hblock, hblockname⟩ := h.exists_block hd
  obtain ⟨other, hother, hothername, hmember⟩ := hmembers block hblock
  have hothername := hothername.trans hblockname
  refine (h.outlines d hd).lists.hasParts (.join (o := other.body.outline roots d.name) ?_ ?_)
  · exact List.mem_map_of_mem (f := fun block : TypeBlock => block.body.outline roots d.name)
      (List.mem_filter.mpr ⟨hother, beq_iff_eq.mpr hothername⟩)
  · rw [h.kinds other hother d hd hothername.symm, Outline.hasParts_kindOf_iff]
    exact TypeBody.hasParts_outline roots d.name hname hmember

variable (hdoc : Document.StandsAlone s roots blocks)

include hdoc

/-- The type is of the kind that its blocks declare. -/
theorem kind_eq (hd : d ∈ s.definitions) {block : TypeBlock}
    (hblock : block ∈ Document.composedBlocks s blocks)
    (hname : roots.canonicalName block.name = d.name) : d.kind = block.body.kind := by
  refine (h.kinds block hblock d hd hname.symm).trans (AppliesStandalone.kindOf_eq ?_)
  intro directive hdirective
  exact hdoc.standalone directive (List.mem_flatMap.mpr
    ⟨block, List.mem_of_mem_filter hblock, List.mem_append_left _ hdirective⟩)

/-- What holds of the outlines of all blocks of a type. -/
theorem forall_outlines {P : Outline TypeRef → Prop} (hd : d ∈ s.definitions)
    (hP : ∀ block ∈ Document.composedBlocks s blocks, d.kind = block.body.kind →
      P (block.body.outline roots d.name)) :
    ∀ o ∈ ((Document.composedBlocks s blocks).filter fun block =>
        roots.canonicalName block.name == d.name).map fun block => block.body.outline roots d.name,
      P o := by
  refine List.forall_mem_map.mpr fun block hmem => ?_
  obtain ⟨hblock, hname⟩ := List.mem_filter.mp hmem
  exact hP block hblock (h.kind_eq hdoc hd hblock (eq_of_beq hname))

/-- The type has only parts that types of its kind have. -/
theorem fits (hd : d ∈ s.definitions) : d.outline.Fits d.kind :=
  (h.outlines d hd).lists.fits <| .join <| h.forall_outlines hdoc hd fun block _ hkind =>
    hkind ▸ block.body.fits_outline roots d.name

/-- The arguments of a field have different names. -/
theorem nodup_arguments (hd : d ∈ s.definitions) :
    ∀ field ∈ d.fields, (field.arguments.map Argument.name).Nodup := by
  have hblocks := h.forall_outlines hdoc hd
    (P := fun o => ∀ g ∈ o.fields, (g.arguments.map Prod.fst).Nodup) fun block hblock _ =>
      TypeBody.nodup_arguments_outline roots d.name (hdoc.arguments block hblock)
  intro field hfield
  have hlisted := (h.outlines d hd).fields.mem_iff.mp (List.mem_map_of_mem hfield)
  have hnodup := List.forall_mem_flatMap.mpr hblocks field.signature hlisted
  rw [Field.signature, List.map_map] at hnodup
  exact hnodup

end Subgraph.Reflects

end Federation
