import Federation.Proofs.Ingestion.Convergence

/-!
# Names of the roots

The roots of a schema may have any names that its schema blocks choose. They are composed under
their usual names, and nothing of the choice is left in the subgraph. This takes three things
wherever a root may be named: its chosen name is matched and composed like its usual name, other
names are not mistaken for it, and neither name makes a block serve federation itself.
-/

namespace Federation

open Document (Directive Literal Schema SchemaBlock TypeBlock TypeBody FieldDecl)
open Ingestion

/-! ## Chosen names -/

namespace RootOperation

theorem mem_all (root : RootOperation) : root ∈ all := by
  cases root <;> decide

theorem typeName_injective : Function.Injective typeName := by
  intro root other heq
  cases root <;> cases other <;> first | rfl | exact absurd heq (by decide)

end RootOperation

namespace RootTypes

/-- The name to use instead of a name if the roots go by the chosen names. -/
def rename (chosen : RootTypes) (name : String) : String :=
  match RootOperation.all.find? fun root => root.typeName == name with
  | some root => (chosen.get root).getD name
  | none => name

/-- The roots with chosen names are declared under them, and the others under their usual names or
not at all. -/
def Declares (declared chosen : RootTypes) : Prop :=
  ∀ root, declared.get root = chosen.get root ∨
    chosen.get root = none ∧ declared.get root = some root.typeName

/-- Chosen names tell the roots apart, and none of them is the usual name of a root. -/
structure AreDistinct (chosen : RootTypes) : Prop where
  injective : ∀ root other name, chosen.get root = some name → chosen.get other = some name →
    root = other
  unusual : ∀ (root other : RootOperation) (name : String), chosen.get root = some name →
    name ≠ other.typeName

/-- The name is not chosen for a root. -/
def Avoids (chosen : RootTypes) (name : String) : Prop :=
  ∀ root, chosen.get root ≠ some name

variable {chosen declared : RootTypes} {root : RootOperation} {name custom : String}

theorem rename_typeName (chosen : RootTypes) (root : RootOperation) :
    chosen.rename root.typeName = (chosen.get root).getD root.typeName := by
  cases root <;> rfl

theorem rename_of_ne (h : ∀ root : RootOperation, name ≠ root.typeName) :
    chosen.rename name = name := by
  have hnone : (RootOperation.all.find? fun root => root.typeName == name) = none :=
    List.find?_eq_none.mpr fun root _ heq => h root (beq_iff_eq.mp heq).symm
  unfold rename
  rw [hnone]

/-- A name stays as it is, unless it is the usual name of a root with a chosen name. -/
theorem rename_cases (chosen : RootTypes) (name : String) : chosen.rename name = name ∨
    ∃ root, name = root.typeName ∧ chosen.get root = some (chosen.rename name) := by
  by_cases husual : ∃ root : RootOperation, name = root.typeName
  · obtain ⟨root, rfl⟩ := husual
    rw [rename_typeName]
    cases hget : chosen.get root with
    | none => exact .inl rfl
    | some custom => exact .inr ⟨root, rfl, hget⟩
  · exact .inl (rename_of_ne (not_exists.mp husual))

@[simp] theorem rename_default (name : String) : ({} : RootTypes).rename name = name := by
  rcases rename_cases {} name with hsame | ⟨root, -, hget⟩
  · exact hsame
  · cases root <;> cases hget

theorem areDistinct_default : AreDistinct {} where
  injective root _ _ hget := by cases root <;> cases hget
  unusual root _ _ hget := by cases root <;> cases hget

theorem avoids_default (name : String) : Avoids {} name := by
  intro root hget
  cases root <;> cases hget

/-- Only a root without a chosen name keeps its usual name, and nothing else gets it. -/
theorem rename_eq_typeName_iff (h : chosen.AreDistinct) :
    chosen.rename name = root.typeName ↔ name = root.typeName ∧ chosen.get root = none := by
  constructor
  · intro heq
    rcases rename_cases chosen name with hsame | ⟨other, -, hget⟩
    · obtain rfl : name = root.typeName := hsame.symm.trans heq
      refine ⟨rfl, Option.eq_none_iff_forall_ne_some.mpr fun custom hget => ?_⟩
      rw [rename_typeName, hget] at heq
      exact h.unusual root root custom hget heq
    · exact absurd heq (h.unusual other root _ hget)
  · rintro ⟨rfl, hnone⟩
    rw [rename_typeName, hnone]
    rfl

/-- Only the root for which a name is chosen gets it. -/
theorem rename_eq_iff (h : chosen.AreDistinct) (havoids : chosen.Avoids name)
    (hget : chosen.get root = some custom) :
    chosen.rename name = custom ↔ name = root.typeName := by
  constructor
  · rintro rfl
    rcases rename_cases chosen name with hsame | ⟨other, rfl, hother⟩
    · rw [hsame] at hget
      exact absurd hget (havoids root)
    · rw [h.injective other root _ hother hget]
  · rintro rfl
    rw [rename_typeName, hget]
    rfl

/-- Under its chosen name a root is matched as under its usual name, and nothing is displaced. -/
theorem matchOne?_rename (h : chosen.AreDistinct) (hdeclared : declared.Declares chosen)
    (havoids : chosen.Avoids name) (root : RootOperation) :
    declared.matchOne? (chosen.rename name) root =
      if name = root.typeName then some (.root root) else none := by
  unfold matchOne?
  rcases hdeclared root with hget | ⟨hnone, hget⟩
  · rw [hget]
    cases hchosen : chosen.get root with
    | none => simp only [rename_eq_typeName_iff h, hchosen, and_true]
    | some custom =>
      simp only [eq_comm (a := custom), rename_eq_iff h havoids hchosen, rename_eq_typeName_iff h,
        hchosen, reduceCtorEq, and_false, if_false]
  · rw [hget]
    simp only [eq_comm (a := root.typeName), rename_eq_typeName_iff h, hnone, and_true]
    split <;> rfl

theorem matchName_rename (h : chosen.AreDistinct) (hdeclared : declared.Declares chosen)
    (havoids : chosen.Avoids name) :
    declared.matchName (chosen.rename name) = ({} : RootTypes).matchName name := by
  have hdefault : ∀ root, ({} : RootTypes).matchOne? name root =
      if name = root.typeName then some (.root root) else none := by
    intro root
    cases root <;> rfl
  unfold matchName
  rw [funext (matchOne?_rename h hdeclared havoids), funext hdefault]

/-- Under usual names nothing is displaced. -/
theorem matchName_default_ne (name : String) :
    ({} : RootTypes).matchName name ≠ .displaced := by
  unfold matchName
  cases hfound : RootOperation.all.findSome? (({} : RootTypes).matchOne? name) with
  | none => exact RootMatch.noConfusion
  | some found =>
    obtain ⟨root, -, hroot⟩ := List.exists_of_findSome?_eq_some hfound
    rintro rfl
    cases root <;> simp [matchOne?, RootTypes.get] at hroot

/-- **A renamed root is composed under the name it had.** -/
theorem canonicalName_rename (h : chosen.AreDistinct) (hdeclared : declared.Declares chosen)
    (havoids : chosen.Avoids name) : declared.canonicalName (chosen.rename name) = name := by
  unfold canonicalName
  cases hfound : RootOperation.all.find? fun root =>
      declared.get root == some (chosen.rename name) with
  | some root =>
    have hget : declared.get root = some (chosen.rename name) := by
      simpa using List.find?_some hfound
    rcases hdeclared root with hsame | ⟨-, husual⟩
    · exact ((rename_eq_iff h havoids (hsame ▸ hget)).mp rfl).symm
    · obtain heq := Option.some.inj (hget.symm.trans husual)
      exact ((rename_eq_typeName_iff h).mp heq).1.symm
  | none =>
    rcases rename_cases chosen name with hsame | ⟨root, -, hget⟩
    · exact hsame
    · -- a root with a chosen name would have been found
      have hne := List.find?_eq_none.mp hfound root root.mem_all
      rcases hdeclared root with hdeclares | ⟨hnone, -⟩
      · exact absurd (beq_iff_eq.mpr (hdeclares.trans hget)) hne
      · cases hnone.symm.trans hget

example : (canonicalName { query := some "RootQuery" } "RootQuery" = "Query") ∧
    matchName { query := some "RootQuery" } "Query" = .displaced := by decide

end RootTypes

/-! ## Documents under other root names -/

namespace Document

/-- The output field where the roots go by the chosen names. -/
def FieldDecl.renameRoots (chosen : RootTypes) (decl : FieldDecl) : FieldDecl :=
  { decl with type := { decl.type with name := chosen.rename decl.type.name } }

/-- The body where the roots go by the chosen names, in the types of output fields and among the
members of unions. -/
def TypeBody.renameRoots (chosen : RootTypes) : TypeBody → TypeBody
  | .object interfaces fields => .object interfaces (fields.map (FieldDecl.renameRoots chosen))
  | .interface interfaces fields =>
    .interface interfaces (fields.map (FieldDecl.renameRoots chosen))
  | .union members => .union (members.map chosen.rename)
  | body => body

/-- The block where the roots go by the chosen names. -/
def TypeBlock.renameRoots (chosen : RootTypes) (block : TypeBlock) : TypeBlock :=
  { block with name := chosen.rename block.name, body := block.body.renameRoots chosen }

/-- The types that output fields or members name. -/
def TypeBody.namedTypes : TypeBody → List String
  | .object _ fields | .interface _ fields => fields.map fun decl => decl.type.name
  | .union members => members
  | .enum _ | .inputObject _ | .scalar => []

/-- The types that a block names where there may be roots. -/
def TypeBlock.namedTypes (block : TypeBlock) : List String :=
  block.name :: block.body.namedTypes

/-- The local name of a type that an entry of an import list imports. -/
def importedType? (entry : Literal) : Option String :=
  match ImportRequest.read entry with
  | .ok request =>
    if request.mismatch? = none ∧ hasAtSign request.name = false then
      some (request.alias?.getD request.name)
    else none
  | .error _ => none

/-- The local names of the types that a link imports. -/
def Directive.importedTypes (directive : Directive) : List String :=
  (((directive.argument? "import").bind Literal.asItems?).getD []).filterMap importedType?

/-- The links of a document. -/
def Schema.links (schema : Schema) : List Directive :=
  (schema.schemaBlocks.flatMap SchemaBlock.directives).filter fun d => d.name == "link"

/-- The local names of the types that a document imports. -/
def Schema.importedTypes (schema : Schema) : List String :=
  schema.links.flatMap Directive.importedTypes

/-- The second document is the first where some roots go by chosen names: the names are exchanged
wherever blocks, output fields and members name a type, and the schema blocks declare them beside
the same links. Other places keep what they say. -/
structure Schema.RenamesRoots (schema : Schema) (chosen : RootTypes) (schema' : Schema) : Prop where
  typeBlocks : schema'.typeBlocks = schema.typeBlocks.map (TypeBlock.renameRoots chosen)
  links : schema'.links = schema.links
  declares : schema'.roots.Declares chosen

end Document

/-- The names that stand for federation itself, for some kind of type. -/
def machineryNames : List String :=
  "_Service" :: "_Entity" :: machineryTypes

/-- The chosen names are new to a document: none of them stands for federation itself, is imported
or is named where there may be a root. Usual names that are given up are not imported either. -/
structure RootTypes.AreNewTo (chosen : RootTypes) (schema : Schema) : Prop
    extends chosen.AreDistinct where
  composed : ∀ root name, chosen.get root = some name → name ∉ machineryNames
  unnamed : ∀ block ∈ schema.typeBlocks, ∀ name ∈ block.namedTypes, chosen.Avoids name
  imported : ∀ name ∈ schema.importedTypes, chosen.Avoids name ∧
    ∀ root : RootOperation, name = root.typeName → chosen.get root = none

/-! ## Imported types -/

/-- All types that are imported have one of the names. -/
def Subgraph.ImportsAmong (s : Subgraph) (names : List String) : Prop :=
  ∀ e ∈ s.imports, e.2.isDirective = false → e.1 ∈ names

theorem Subgraph.ImportsAmong.importsType_eq_false {s : Subgraph} {names : List String}
    (h : s.ImportsAmong names) {name : String} (hname : name ∉ names) :
    s.importsType name = false := by
  unfold importsType import?
  cases hlookup : s.imports.lookup name with
  | none => rfl
  | some found =>
    obtain ⟨front, back, heq, -⟩ := List.lookup_eq_some_iff.mp hlookup
    have hmem : (name, found) ∈ s.imports := heq ▸ List.mem_append_right front List.mem_cons_self
    cases hdirective : found.isDirective with
    | true => simp [hdirective]
    | false => exact absurd (h _ hmem hdirective) hname

theorem withoutAtSign_of_hasAtSign_eq_false {name : String} (h : hasAtSign name = false) :
    withoutAtSign name = name := by
  have hchars : name.toList.dropWhile (· == '@') = name.toList := by
    unfold hasAtSign at h
    cases hlist : name.toList with
    | nil => rfl
    | cons first others =>
      rw [hlist] at h
      have hfirst : (first == '@') = false := by simpa using h
      simp only [List.dropWhile_cons, hfirst, Bool.false_eq_true, if_false]
  unfold withoutAtSign
  rw [hchars, String.ofList_toList]

namespace Ingestion

variable {α β ι : Type} {names : List String}

/-- Only types of these names are imported. -/
def ImportsOnly (names : List String) (x : Ingestion α) : Prop :=
  ∀ p : Progress, p.subgraph.ImportsAmong names → (x.run p).2.subgraph.ImportsAmong names

theorem ImportsOnly.bind {x : Ingestion α} {k : α → Ingestion β} (hx : ImportsOnly names x)
    (hk : ∀ a, ImportsOnly names (k a)) : ImportsOnly names (x >>= k) :=
  fun p hp => hk (x.run p).1 (x.run p).2 (hx p hp)

theorem importsOnly_modifySubgraph {f : Subgraph → Subgraph}
    (hf : ∀ s, (f s).imports = s.imports) : ImportsOnly names (modifySubgraph f) := by
  intro p hp e he
  exact hp e (hf p.subgraph ▸ he)

theorem importsOnly_forM {items : List ι} {step : ι → Ingestion Unit}
    (h : ∀ i ∈ items, ImportsOnly names (step i)) : ImportsOnly names (items.forM step) := by
  induction items with
  | nil => exact fun _ hp => hp
  | cons first others ih =>
    obtain ⟨hfirst, hothers⟩ := List.forall_mem_cons.mp h
    exact hfirst.bind fun _ => ih hothers

end Ingestion

/-- A request of a type that does not contradict itself has a name without signs. -/
theorem ImportRequest.withoutAtSign_localName {request : ImportRequest}
    (hmismatch : request.mismatch? = none) (hsign : hasAtSign request.name = false) :
    withoutAtSign (request.alias?.getD request.name) = request.alias?.getD request.name := by
  refine withoutAtSign_of_hasAtSign_eq_false ?_
  unfold mismatch? at hmismatch
  cases halias : request.alias? with
  | none => exact hsign
  | some other =>
    rw [halias] at hmismatch
    dsimp only at hmismatch
    split at hmismatch
    · rename_i heq
      exact (beq_iff_eq.mp heq).trans hsign
    · split at hmismatch <;> cases hmismatch

/-- An entry imports a type under the local name that it says. -/
theorem importsOnly_ingestImport {names : List String} {entry : Literal}
    (h : ∀ name, Document.importedType? entry = some name → name ∈ names) (url : String)
    (spec : Spec) : ImportsOnly names (ingestImport url spec entry) := by
  unfold Document.importedType? at h
  unfold ingestImport
  cases hread : ImportRequest.read entry with
  | error fault => exact importsOnly_modifySubgraph fun _ => rfl
  | ok request =>
    rw [hread] at h
    dsimp only at h ⊢
    cases hmismatch : request.mismatch? with
    | some message => exact importsOnly_modifySubgraph fun _ => rfl
    | none =>
      intro p hp e he hdirective
      rcases List.mem_cons.mp he with rfl | he
      · have hsign : hasAtSign request.name = false := hdirective
        exact h _ (by rw [if_pos ⟨hmismatch, hsign⟩,
          ImportRequest.withoutAtSign_localName hmismatch hsign])
      · exact hp e he hdirective

theorem importsOnly_ingestSpec {names : List String} {directive : Directive}
    (h : ∀ name ∈ directive.importedTypes, name ∈ names) (url : String) (named : SpecUrl) :
    ImportsOnly names (ingestSpec directive url named) := by
  intro p hp
  refine importsOnly_forM (fun entry hentry => importsOnly_ingestImport (fun name hname => ?_)
    url (Spec.ofName named.name)) _ hp
  exact h name (List.mem_filterMap.mpr ⟨entry, hentry, hname⟩)

theorem importsOnly_ingestLink {names : List String} {directive : Directive}
    (h : ∀ name ∈ directive.importedTypes, name ∈ names) :
    ImportsOnly names (ingestLink directive) := by
  unfold ingestLink
  split
  · exact importsOnly_modifySubgraph fun _ => rfl
  · split
    · exact importsOnly_modifySubgraph fun _ => rfl
    · split
      · split
        · refine (importsOnly_modifySubgraph ?_).bind fun _ => importsOnly_ingestSpec h _ _
          exact fun _ => rfl
        · exact importsOnly_modifySubgraph fun _ => rfl
      · exact importsOnly_ingestSpec h _ _

/-! ## Schema blocks -/

/-- What schema blocks leave behind is what their links leave behind. -/
theorem run_ingestSchemaBlocks_eq_links (schema : Schema) (p : Progress) :
    ((ingestSchemaBlocks schema.schemaBlocks).run p).2 =
      ((schema.links.forM ingestLink).run p).2 := by
  unfold ingestSchemaBlocks Document.Schema.links
  generalize ({} : RootTypes) = roots
  induction schema.schemaBlocks generalizing roots p with
  | nil => rfl
  | cons first others ih =>
    rw [List.foldlM_cons, List.flatMap_cons, List.filter_append, run_append, StateT.run_bind]
    exact ih ((ingestSchemaBlock roots first).run p).2 (roots.choose first)

namespace SubgraphSet

variable {schema schema' : Schema} {names : NameTable} {empty : Subgraph}

/-- The types that are imported once the schema blocks have been taken in. -/
theorem importsAmong_linked (hempty : empty.imports = []) :
    (linked schema names empty).subgraph.ImportsAmong schema.importedTypes := by
  unfold linked
  rw [run_ingestSchemaBlocks_eq_links]
  refine importsOnly_forM (fun link hlink => importsOnly_ingestLink fun name hname =>
    List.mem_flatMap.mpr ⟨link, hlink, hname⟩) _ fun e he => ?_
  exact absurd (hempty ▸ he) List.not_mem_nil

end SubgraphSet

/-! ## Type blocks -/

namespace Ingestion

variable {ι ι' : Type} {f : ι → ι'} {step : ι → Ingestion Unit} {step' : ι' → Ingestion Unit}
  {items : List ι}

/-- A run over changed items is the run over the items if that is so for every step. -/
theorem run_forM_map {I : Progress → Prop}
    (hstep : ∀ i ∈ items, ∀ p, I p → (step' (f i)).run p = (step i).run p)
    (hkeeps : ∀ i ∈ items, ∀ p, I p → I ((step i).run p).2) {p : Progress} (hp : I p) :
    ((items.map f).forM step').run p = (items.forM step).run p := by
  induction items generalizing p with
  | nil => rfl
  | cons first others ih =>
    obtain ⟨hfirst, hothers⟩ := List.forall_mem_cons.mp hstep
    obtain ⟨hkeep, hkeeps⟩ := List.forall_mem_cons.mp hkeeps
    show (step' (f first) >>= fun _ => (others.map f).forM step').run p =
      (step first >>= fun _ => others.forM step).run p
    rw [StateT.run_bind, StateT.run_bind, hfirst p hp]
    exact ih hothers hkeeps (hkeep p hp)

theorem forM_map_eq (h : ∀ i ∈ items, step' (f i) = step i) :
    (items.map f).forM step' = items.forM step :=
  StateT.ext fun _ => run_forM_map (I := fun _ => True) (fun i hi p _ => by rw [h i hi])
    (fun _ _ _ _ => trivial) trivial

end Ingestion

/-- A name that stands for no type of federation itself makes no block serve it. -/
theorem isMachinery_eq_false {s : Subgraph} {block : TypeBlock}
    (hname : block.name ∉ machineryNames) (himport : s.importsType block.name = false) :
    isMachinery s block = false := by
  obtain ⟨hservice, hentity, htypes⟩ : block.name ≠ "_Service" ∧ block.name ≠ "_Entity" ∧
      block.name ∉ machineryTypes := by simpa [machineryNames] using hname
  unfold isMachinery
  split
  · exact beq_false_of_ne hservice
  · exact beq_false_of_ne hentity
  · simp [htypes, himport]
  · simp [htypes, himport]
  · rfl
  · rfl

theorem RootOperation.typeName_notMem_machineryNames (root : RootOperation) :
    root.typeName ∉ machineryNames := by
  cases root <;> decide

/-- What a block declares to be does not depend on the names of the roots. -/
theorem kindOf_renameRoots (s : Subgraph) (chosen : RootTypes) (block : TypeBlock) :
    kindOf s (block.renameRoots chosen) = kindOf s block := by
  obtain ⟨isExtension, description, name, directives, body⟩ := block
  cases body <;> rfl

section

variable {chosen declared : RootTypes} (h : chosen.AreDistinct)
  (hdeclared : declared.Declares chosen)

include h hdeclared

theorem ingestField_renameRoots {decl : FieldDecl} (havoids : chosen.Avoids decl.type.name)
    (typeName : String) (inExtension : Bool) :
    ingestField declared typeName inExtension (decl.renameRoots chosen) =
      ingestField {} typeName inExtension decl := by
  have htype : declared.canonicalName (decl.renameRoots chosen).type.name = decl.type.name :=
    RootTypes.canonicalName_rename h hdeclared havoids
  unfold ingestField
  rw [htype, RootTypes.canonicalName_default]
  rfl

theorem ingestMember_rename {member : String} (havoids : chosen.Avoids member)
    (typeName : String) :
    ingestMember declared typeName (chosen.rename member) = ingestMember {} typeName member := by
  unfold ingestMember
  rw [RootTypes.canonicalName_rename h hdeclared havoids, RootTypes.canonicalName_default]

/-- The parts of a block are taken in as under the usual names. -/
theorem ingestBody_renameRoots {body : TypeBody}
    (havoids : ∀ name ∈ body.namedTypes, chosen.Avoids name) (typeName : String)
    (inExtension : Bool) :
    ingestBody declared typeName inExtension (body.renameRoots chosen) =
      ingestBody {} typeName inExtension body := by
  have hfields : ∀ fields : List FieldDecl, (∀ decl ∈ fields, chosen.Avoids decl.type.name) →
      (fields.map (FieldDecl.renameRoots chosen)).forM (ingestField declared typeName inExtension) =
        fields.forM (ingestField {} typeName inExtension) := fun fields hfields =>
    forM_map_eq fun decl hdecl => ingestField_renameRoots h hdeclared (hfields decl hdecl) _ _
  cases body with
  | object interfaces fields | interface interfaces fields =>
    show (interfaces.forM _ >>= fun _ => (fields.map _).forM _ : Ingestion Unit) = _
    rw [hfields fields fun decl hdecl => havoids _ (List.mem_map_of_mem hdecl)]
    rfl
  | union members =>
    exact forM_map_eq fun member hmember => ingestMember_rename h hdeclared (havoids _ hmember) _
  | enum values => rfl
  | inputObject fields => rfl
  | scalar => rfl

/-- A root is registered under its chosen name as under its usual name. -/
theorem registerRoot_renameRoots {block : TypeBlock} (havoids : chosen.Avoids block.name)
    (typeName : String) :
    registerRoot declared (block.renameRoots chosen) typeName = registerRoot {} block typeName := by
  have hmatch : declared.matchName (block.renameRoots chosen).name =
      ({} : RootTypes).matchName block.name :=
    RootTypes.matchName_rename h hdeclared havoids
  have hplaced := RootTypes.matchName_default_ne block.name
  unfold registerRoot
  rw [hmatch]
  cases hfound : ({} : RootTypes).matchName block.name with
  | root root => rfl
  | displaced => exact absurd hfound hplaced
  | notRoot => rfl

variable {block : TypeBlock} (havoids : ∀ name ∈ block.namedTypes, chosen.Avoids name)
  {p : Progress}
  (hmachinery : isMachinery p.subgraph (block.renameRoots chosen) = isMachinery p.subgraph block)

include havoids hmachinery

theorem run_ingestTypeHead_renameRoots :
    (ingestTypeHead declared (block.renameRoots chosen)).run p =
      (ingestTypeHead {} block).run p := by
  have hblock := havoids block.name List.mem_cons_self
  have hname : declared.canonicalName (block.renameRoots chosen).name = block.name :=
    RootTypes.canonicalName_rename h hdeclared hblock
  show (ite (isMachinery p.subgraph (block.renameRoots chosen) = true) (pure ()) _ :
      Ingestion Unit).run p =
    (ite (isMachinery p.subgraph block = true) (pure ()) _ : Ingestion Unit).run p
  simp only [hmachinery, hname, kindOf_renameRoots, registerRoot_renameRoots h hdeclared hblock,
    RootTypes.canonicalName_default]
  rfl

theorem run_ingestTypeBody_renameRoots :
    (ingestTypeBody declared (block.renameRoots chosen)).run p =
      (ingestTypeBody {} block).run p := by
  have hname : declared.canonicalName (block.renameRoots chosen).name = block.name :=
    RootTypes.canonicalName_rename h hdeclared (havoids block.name List.mem_cons_self)
  have hbody : ∀ typeName inExtension,
      ingestBody declared typeName inExtension (block.renameRoots chosen).body =
        ingestBody {} typeName inExtension block.body :=
    ingestBody_renameRoots h hdeclared fun name hname => havoids name (List.mem_cons_of_mem _ hname)
  show (ite (isMachinery p.subgraph (block.renameRoots chosen) = true) (pure ()) _ :
      Ingestion Unit).run p =
    (ite (isMachinery p.subgraph block = true) (pure ()) _ : Ingestion Unit).run p
  simp only [hmachinery, hname, kindOf_renameRoots, hbody, RootTypes.canonicalName_default]
  rfl

end

/-- Blocks that serve federation itself have no names that can be chosen or given up. -/
theorem isMachinery_renameRoots {chosen : RootTypes} {schema : Schema} {s : Subgraph}
    (hnew : chosen.AreNewTo schema) (himports : s.ImportsAmong schema.importedTypes)
    (block : TypeBlock) : isMachinery s (block.renameRoots chosen) = isMachinery s block := by
  rcases chosen.rename_cases block.name with hsame | ⟨root, husual, hget⟩
  · have hkind : (block.body.renameRoots chosen).kind = block.body.kind := by
      cases block.body <;> rfl
    exact isMachinery_eq_of_kind_eq hsame hkind
  · have hcomposed : isMachinery s block = false := by
      refine isMachinery_eq_false (husual ▸ root.typeName_notMem_machineryNames)
        (himports.importsType_eq_false fun hmem => ?_)
      cases hget.symm.trans ((hnew.imported _ hmem).2 root husual)
    rw [hcomposed]
    exact isMachinery_eq_false (hnew.composed root _ hget)
      (himports.importsType_eq_false fun hmem => (hnew.imported _ hmem).1 root hget)

theorem Ingestion.AlikeAbout.importsOnly {V : Type} {r : RootTypes} {view : View V} {name : String}
    {x : Ingestion Unit} {names : List String} (h : AlikeAbout r view name x x) :
    ImportsOnly names x := by
  intro p hp e he
  have himports := congrArg Subgraph.imports (h.context_eq p)
  exact hp e (himports ▸ he)

/-- Type blocks are taken in as under the usual names of the roots. -/
theorem run_ingestTypeBlocks_renameRoots {chosen declared : RootTypes} {schema : Schema}
    (hnew : chosen.AreNewTo schema) (hdeclared : declared.Declares chosen) {p : Progress}
    (himports : p.subgraph.ImportsAmong schema.importedTypes) :
    (ingestTypeBlocks declared (schema.typeBlocks.map (TypeBlock.renameRoots chosen))).run p =
      (ingestTypeBlocks {} schema.typeBlocks).run p := by
  let I : Progress → Prop := fun p => p.subgraph.ImportsAmong schema.importedTypes
  have hhead : ∀ block, ImportsOnly schema.importedTypes (ingestTypeHead {} block) :=
    fun block => (alikeAbout_ingestTypeHead {} block).importsOnly
  have hbody : ∀ block, ImportsOnly schema.importedTypes (ingestTypeBody {} block) :=
    fun block => (alikeAbout_ingestTypeBody (r := {}) {} block).importsOnly
  unfold ingestTypeBlocks
  rw [StateT.run_bind, StateT.run_bind]
  have hheads := run_forM_map (I := I) (fun block hblock q hq =>
    run_ingestTypeHead_renameRoots hnew.toAreDistinct hdeclared (hnew.unnamed block hblock)
      (isMachinery_renameRoots hnew hq block)) (fun block _ => hhead block) himports
  rw [hheads]
  exact run_forM_map (I := I) (fun block hblock q hq =>
    run_ingestTypeBody_renameRoots hnew.toAreDistinct hdeclared (hnew.unnamed block hblock)
      (isMachinery_renameRoots hnew hq block)) (fun block _ => hbody block)
    (importsOnly_forM (fun block _ => hhead block) _ himports)

/-! ## Whole documents -/

namespace Document

theorem FieldDecl.renameRoots_default (decl : FieldDecl) : decl.renameRoots {} = decl := by
  unfold renameRoots
  rw [RootTypes.rename_default]

theorem TypeBody.renameRoots_default (body : TypeBody) : body.renameRoots {} = body := by
  have hfields : FieldDecl.renameRoots {} = id := funext FieldDecl.renameRoots_default
  have hmembers : RootTypes.rename {} = id := funext RootTypes.rename_default
  cases body <;> simp only [renameRoots, hfields, hmembers, List.map_id]

/-- A document under usual names is what it is if no name is chosen. -/
theorem Schema.renamesRoots_self {schema : Schema} (husual : schema.roots.Declares {}) :
    schema.RenamesRoots {} schema where
  typeBlocks := by
    have hself : TypeBlock.renameRoots {} = id := by
      funext block
      unfold TypeBlock.renameRoots
      rw [RootTypes.rename_default, TypeBody.renameRoots_default]
      rfl
    rw [hself, List.map_id]
  links := rfl
  declares := husual

end Document

theorem RootTypes.areNewTo_default (schema : Schema) : RootTypes.AreNewTo {} schema where
  toAreDistinct := areDistinct_default
  composed root _ hget := absurd hget (avoids_default _ root)
  unnamed _ _ name _ := avoids_default name
  imported name _ := ⟨avoids_default name, fun root _ => by cases root <;> rfl⟩

namespace SubgraphSet

variable {chosen : RootTypes} {schema schema' : Schema}

/-- Whatever names are chosen, a document is taken in as if none were. -/
theorem run_ingestSchema_of_renamesRoots (hnew : chosen.AreNewTo schema)
    (h : schema.RenamesRoots chosen schema') {names : NameTable} {empty : Subgraph}
    (hempty : empty.imports = []) :
    (ingestSchema schema').run { names, subgraph := empty } =
      (ingestTypeBlocks {} schema.typeBlocks).run (linked schema names empty) := by
  have hlinked : linked schema' names empty = linked schema names empty := by
    unfold linked
    rw [run_ingestSchemaBlocks_eq_links, run_ingestSchemaBlocks_eq_links, h.links]
  rw [run_ingestSchema, hlinked, h.typeBlocks]
  exact run_ingestTypeBlocks_renameRoots hnew h.declares (importsAmong_linked hempty)

/-- **Custom root names are invisible.** Take a document whose roots have their usual names. If some
of them go by chosen names instead, which tell them apart and are new to the document, the same
subgraph is added to the set, with the same texts mentioned in the same order. -/
theorem custom_root_names_are_invisible (husual : schema.roots.Declares {})
    (hnew : chosen.AreNewTo schema) (h : schema.RenamesRoots chosen schema') (set : SubgraphSet)
    (name : String) (url : Option String) : set.add schema' name url = set.add schema name url := by
  unfold add
  rcases hstart : set.start name url with ⟨names, empty⟩
  have hempty : empty.imports = [] :=
    (congrArg (fun start => start.2.imports) hstart).symm
  have hbuild : build schema' names empty = build schema names empty := by
    unfold build
    rw [run_ingestSchema_of_renamesRoots hnew h hempty, run_ingestSchema_of_renamesRoots
      (RootTypes.areNewTo_default schema) (Document.Schema.renamesRoots_self husual) hempty]
  dsimp only
  rw [hbuild]

end SubgraphSet

/-! ## A schema under two sorts of names

The roots of a schema name each other in fields, extensions and a union.
-/

namespace Rooted

open Document (Block)

/-- The version, and a type of federation itself. -/
def link : Directive :=
  ⟨"link", [("url", .string "https://specs.apollo.dev/federation/v2.3"),
    ("import", .list [.string "@key", .string "FieldSet"])]⟩

/-- A type block without descriptions and directives. -/
def blockOf (isExtension : Bool) (name : String) (body : TypeBody) : Block :=
  .type { isExtension, description := none, name, directives := [], body }

/-- An object type with a field. -/
def objectOf (isExtension : Bool) (name field type : String) : Block :=
  blockOf isExtension name (.object [] [⟨none, field, [], { name := type }, []⟩])

/-- The schema with names for its roots, which may be declared. -/
def schemaOf (declared : List (RootOperation × String)) (query mutation : String) : Schema :=
  [.schema { directives := [link], roots := declared }, objectOf false query "act" mutation,
    objectOf false mutation "ask" query, blockOf false "Root" (.union [query, mutation]),
    objectOf true query "root" "Root"]

/-- The schema under the usual names. -/
def usual : Schema :=
  schemaOf [] "Query" "Mutation"

/-- The names that are chosen. -/
def chosen : RootTypes where
  query := some "Ask"
  mutation := some "Act"

/-- The schema under the chosen names. -/
def custom : Schema :=
  schemaOf [(.query, "Ask"), (.mutation, "Act")] "Ask" "Act"

theorem get_chosen {root : RootOperation} {name : String} (h : chosen.get root = some name) :
    root = .query ∧ name = "Ask" ∨ root = .mutation ∧ name = "Act" := by
  cases root with
  | query => exact .inl ⟨rfl, (Option.some.inj h).symm⟩
  | mutation => exact .inr ⟨rfl, (Option.some.inj h).symm⟩
  | subscription => cases h

theorem avoids_chosen {name : String} (hquery : name ≠ "Ask") (hmutation : name ≠ "Act") :
    chosen.Avoids name := by
  intro root hget
  rcases get_chosen hget with ⟨-, rfl⟩ | ⟨-, rfl⟩
  · exact hquery rfl
  · exact hmutation rfl

theorem areNewTo_chosen : chosen.AreNewTo usual where
  injective root other name hroot hother := by
    rcases get_chosen hroot with ⟨rfl, rfl⟩ | ⟨rfl, rfl⟩ <;>
      rcases get_chosen hother with ⟨rfl, hname⟩ | ⟨rfl, hname⟩ <;>
        first | rfl | exact absurd hname (by decide)
  unusual root other name hroot := by
    rcases get_chosen hroot with ⟨-, rfl⟩ | ⟨-, rfl⟩ <;> cases other <;> decide
  composed root name hroot := by
    rcases get_chosen hroot with ⟨-, rfl⟩ | ⟨-, rfl⟩ <;> decide
  unnamed := by
    have hnames : ∀ block ∈ usual.typeBlocks, ∀ name ∈ block.namedTypes,
        name ≠ "Ask" ∧ name ≠ "Act" := by decide
    exact fun block hblock name hname =>
      avoids_chosen (hnames block hblock name hname).1 (hnames block hblock name hname).2
  imported name hname := by
    obtain rfl : name = "FieldSet" := by
      have himports : usual.importedTypes = ["FieldSet"] := by decide
      rw [himports] at hname
      exact List.mem_singleton.mp hname
    exact ⟨avoids_chosen (by decide) (by decide), fun root => by cases root <;> decide⟩

theorem renamesRoots_custom : usual.RenamesRoots chosen custom where
  typeBlocks := rfl
  links := rfl
  declares root := .inl (by cases root <;> rfl)

end Rooted

namespace SubgraphSet

/-- The two schemas are taken in alike. -/
theorem custom_root_names_are_invisible_of_rooted :
    Rooted.usual.roots.Declares {} ∧ Rooted.chosen.AreNewTo Rooted.usual ∧
      Rooted.usual.RenamesRoots Rooted.chosen Rooted.custom ∧
        add {} Rooted.custom "a" none = add {} Rooted.usual "a" none := by
  have husual : Rooted.usual.roots.Declares {} := fun root => .inl (by cases root <;> rfl)
  exact ⟨husual, Rooted.areNewTo_chosen, Rooted.renamesRoots_custom,
    custom_root_names_are_invisible husual Rooted.areNewTo_chosen Rooted.renamesRoots_custom {} "a"
      none⟩

end SubgraphSet

end Federation
