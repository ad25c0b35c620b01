import Federation.Proofs.Ingestion.Locality
import Federation.Proofs.Ingestion.Parts

/-!
# Joining blocks

Two blocks of one type can be joined into one that has the directives and parts of both. It is taken
in like the two blocks one after the other if they are of one kind and the type is not founded as
another kind. A block that is refused, or that only has the name of a root, is reported every time.
-/

namespace Federation

open Document (Directive TypeBlock TypeBody FieldDecl InputDecl EnumValueDecl)
open Ingestion

/-! ## Joined blocks -/

namespace Document

/-- What two bodies of one kind declare, one after the other. -/
def TypeBody.join : TypeBody → TypeBody → TypeBody
  | .object interfaces fields, .object interfaces' fields' =>
    .object (interfaces ++ interfaces') (fields ++ fields')
  | .interface interfaces fields, .interface interfaces' fields' =>
    .interface (interfaces ++ interfaces') (fields ++ fields')
  | .union members, .union members' => .union (members ++ members')
  | .enum values, .enum values' => .enum (values ++ values')
  | .inputObject fields, .inputObject fields' => .inputObject (fields ++ fields')
  | body, _ => body

/-- Two blocks of one type as one. It defines the type if one of them does, and has the directives
and the parts of both. -/
def TypeBlock.join (block other : TypeBlock) : TypeBlock where
  isExtension := block.isExtension && other.isExtension
  description := block.description.or other.description
  name := block.name
  directives := block.directives ++ other.directives
  body := block.body.join other.body

theorem TypeBody.kind_join (body other : TypeBody) : (body.join other).kind = body.kind := by
  cases body <;> cases other <;> rfl

end Document

/-- A joined block serves federation itself if the first block does. -/
theorem isMachinery_join (s : Subgraph) (block other : TypeBlock) :
    isMachinery s (block.join other) = isMachinery s block :=
  isMachinery_eq_of_kind_eq rfl (TypeBody.kind_join block.body other.body)

/-- Blocks of the same kind are joined to one of that kind. -/
theorem kindOf_join {s : Subgraph} {block other : TypeBlock}
    (hbody : other.body.kind = block.body.kind) (hkind : kindOf s other = kindOf s block) :
    kindOf s (block.join other) = kindOf s block := by
  have hjoined : (block.join other).body.kind = block.body.kind := TypeBody.kind_join _ _
  unfold kindOf at hkind ⊢
  cases hblock : block.body with
  | object interfaces fields =>
    rw [hblock] at hbody hjoined hkind
    cases hother : other.body with
    | object interfaces' fields' =>
      rw [hother] at hkind
      rw [show (block.join other).body = .object (interfaces ++ interfaces') (fields ++ fields') by
        rw [TypeBlock.join, hblock, hother]; rfl]
      show (if (block.directives ++ other.directives).any _ then _ else _) = _
      rw [List.any_append]
      -- either both blocks stand in for an interface, or none does
      dsimp only at hkind ⊢
      generalize block.directives.any _ = x at hkind ⊢
      generalize other.directives.any _ = y at hkind ⊢
      cases x <;> cases y <;> first | rfl | cases hkind
    | interface | union | enum | inputObject | scalar =>
      rw [hother] at hbody
      cases hbody
  | interface | union | enum | inputObject | scalar =>
    rw [hblock] at hjoined
    cases hboth : (block.join other).body <;> rw [hboth] at hjoined <;> first | rfl | cases hjoined

/-! ## Heads -/

/-- Every answer of a step has a property. -/
def Ingestion.Gives {α : Type} (P : α → Prop) (x : Ingestion α) : Prop :=
  ∀ p : Progress, P (x.run p).1

theorem Ingestion.gives_bind {α β : Type} {P : β → Prop} {x : Ingestion α} {k : α → Ingestion β}
    (h : ∀ a, Gives P (k a)) : Gives P (x >>= k) :=
  fun p => h (x.run p).1 (x.run p).2

namespace Attributes

/-- No directive takes back that a type is an extension. -/
theorem gives_ingestRole (location : String) {a : Attributes} (ha : a.isExtended = true)
    (directive : Directive) (role : DirectiveRole) :
    Gives (fun b => b.isExtended = true) (ingestRole location a directive role) := by
  have hreport : ∀ code message, Gives (fun b : Attributes => b.isExtended = true)
      (do report code message; return a) := fun _ _ => gives_bind fun _ _ => ha
  unfold ingestRole
  cases role with
  | key | external | interfaceObject | shareable => exact fun _ => ha
  | extended => exact fun _ => rfl
  | authenticated | inaccessible => exact gives_bind fun _ _ => ha
  | cost =>
    dsimp only
    split
    · exact gives_bind fun _ _ => ha
    · exact hreport _ _
  | listSize =>
    dsimp only
    split
    · exact gives_bind fun _ => gives_bind fun _ => gives_bind fun _ _ => ha
    · exact hreport _ _
  | deprecated =>
    dsimp only
    split
    · exact gives_bind fun _ _ => ha
    · exact hreport _ _
  | override =>
    refine gives_bind fun _ => gives_bind fun _ => ?_
    split
    · exact fun _ => ha
    · exact hreport _ _
  | policy | requiresScopes => exact gives_bind fun _ => gives_bind fun _ _ => ha
  | provides | requires =>
    refine gives_bind fun selections => ?_
    split
    · exact fun _ => ha
    · exact fun _ => ha
  | tag =>
    dsimp only
    split
    · exact fun _ => ha
    · exact gives_bind fun _ => gives_bind fun _ _ => ha

theorem gives_ingest (location : String) {a : Attributes} (ha : a.isExtended = true)
    (directives : List Directive) :
    Gives (fun b => b.isExtended = true) (Attributes.ingest location a directives) := by
  unfold ingest
  induction directives generalizing a with
  | nil => exact fun _ => ha
  | cons directive others ih =>
    intro p
    have hfirst : Gives (fun b => b.isExtended = true) (ingestDirective location a directive) := by
      refine gives_bind fun s => ?_
      split
      · exact gives_ingestRole location ha directive _
      · exact fun _ => ha
    rw [List.foldlM_cons]
    exact ih (hfirst p) _

/-- Directives are taken in one after the other. -/
theorem answers_ingest_append {r : RootTypes} {c : Subgraph} {location : String}
    {a b b' : Attributes} {directives directives' : List Directive} {n m : Note}
    (h : Answers r (Attributes.ingest location a directives) c b n)
    (h' : Answers r (Attributes.ingest location b directives') c b' m) :
    Answers r (Attributes.ingest location a (directives ++ directives')) c b' (n + m) := by
  unfold ingest
  rw [List.foldlM_append]
  exact h.bind h'

end Attributes

theorem TypeDef.withHead_withHead (d : TypeDef) {isExtension isExtension' : Bool}
    {description description' : Option String} {a a' : Attributes} {keys keys' : List Key}
    (h : a.isExtended = true → a'.isExtended = true) :
    (d.withHead isExtension description a keys).withHead isExtension' description' a' keys' =
      d.withHead (isExtension && isExtension') (description.or description') a' (keys ++ keys') := by
  have hextension :
      (a'.isExtended || (a.isExtended || (d.isExtension && isExtension)) && isExtension') =
        (a'.isExtended || (d.isExtension && (isExtension && isExtension'))) := by
    cases ha : a.isExtended with
    | true => rw [h ha, Bool.true_or, Bool.true_or]
    | false => rw [Bool.false_or, Bool.and_assoc]
  unfold withHead
  rw [hextension, Option.or_assoc, List.append_assoc]

/-- At most one of two descriptions is there to be taken in. -/
theorem exists_answers_describe {r : RootTypes} (c : Subgraph)
    {description description' : Option Document.Description}
    (h : description = none ∨ description' = none) :
    ∃ text text' n n', Answers r (describe description) c text n ∧
      Answers r (describe description') c text' n' ∧
        Answers r (describe (description.or description')) c (text.or text') (n + n') := by
  rcases h with rfl | rfl
  · obtain ⟨text, n, htext⟩ := isAside_describe (r := r) description' c
    refine ⟨none, text, 0, n, answers_pure none, htext, ?_⟩
    rw [Option.none_or, Option.none_or, zero_add]
    exact htext
  · obtain ⟨text, n, htext⟩ := isAside_describe (r := r) description c
    refine ⟨text, none, n, 0, htext, answers_pure none, ?_⟩
    rw [Option.or_none, Option.or_none, add_zero]
    exact htext

/-- The blocks of a type register the same root, and it makes no difference how often. -/
theorem exists_answers_registerRoot {roots : RootTypes} {c : Subgraph} {block other : TypeBlock}
    (hname : other.name = block.name) (kind : TypeKind)
    (hroot : kind = .object → roots.matchName block.name ≠ .displaced) :
    ∃ n : Note,
      Answers roots
        (do if kind = .object then registerRoot roots block (roots.canonicalName block.name))
        c () n ∧
      Answers roots
        (do if kind = .object then registerRoot roots other (roots.canonicalName block.name))
        c () n ∧ n + n = n := by
  by_cases hobject : kind = .object
  · have hother : Answers roots (registerRoot roots other (roots.canonicalName other.name))
        c () (rootNote roots other.name) :=
      answers_registerRoot (hname ▸ hroot hobject)
    rw [hname] at hother
    rw [if_pos hobject, if_pos hobject]
    exact ⟨_, answers_registerRoot (hroot hobject), hother, rootNote_add_self _ _⟩
  · rw [if_neg hobject, if_neg hobject]
    exact ⟨0, answers_pure (), answers_pure (), add_zero 0⟩

/-- Heads of blocks that serve federation itself are passed over, joined or not. -/
theorem agreeFrom_ingestTypeHead_join_of_machinery {roots : RootTypes} {c : Subgraph}
    {block other : TypeBlock} (hname : other.name = block.name)
    (hbody : other.body.kind = block.body.kind) (hmachinery : isMachinery c block = true) :
    AgreeFrom (fun σ => σ.context = c)
      (ingestTypeHead roots block >>= fun _ => ingestTypeHead roots other)
      (ingestTypeHead roots (block.join other)) := by
  rintro p q rfl heq
  have hother : isMachinery p.summary.context other = true :=
    (isMachinery_eq_of_kind_eq hname hbody).trans hmachinery
  have hjoined : isMachinery q.summary.context (block.join other) = true := by
    rw [← heq]
    exact (isMachinery_join _ block other).trans hmachinery
  have hrun :
      (ingestTypeHead roots block >>= fun _ => ingestTypeHead roots other).run p = ((), p) := by
    rw [StateT.run_bind, run_ingestTypeHead_of_machinery hmachinery]
    exact run_ingestTypeHead_of_machinery hother
  rw [hrun, run_ingestTypeHead_of_machinery hjoined]
  exact ⟨rfl, heq⟩

/-- In a context, the type of a name is not founded, or founded as a type of a kind. -/
def Accepts (c : Subgraph) (name : String) (kind : TypeKind) (σ : Summary) : Prop :=
  σ.context = c ∧ ∀ d, σ.types name = some d → d.kind = kind

/-- The heads of two blocks of one kind are taken in like the head of the joined block. -/
theorem agreeFrom_ingestTypeHead_join {roots : RootTypes} {c : Subgraph} {block other : TypeBlock}
    (hname : other.name = block.name) (hbody : other.body.kind = block.body.kind)
    (hkind : kindOf c other = kindOf c block)
    (hdescription : block.description = none ∨ other.description = none)
    (hroot : kindOf c block = .object → roots.matchName block.name ≠ .displaced) :
    AgreeFrom (Accepts c (roots.canonicalName block.name) (kindOf c block))
      (ingestTypeHead roots block >>= fun _ => ingestTypeHead roots other)
      (ingestTypeHead roots (block.join other)) := by
  by_cases hmachinery : isMachinery c block = true
  · exact fun p q hp => agreeFrom_ingestTypeHead_join_of_machinery hname hbody hmachinery p q hp.1
  rintro p q ⟨rfl, haccepts⟩ heq
  have hcomposed : isMachinery p.summary.context block = false := Bool.eq_false_iff.mpr hmachinery
  have hother : isMachinery p.summary.context other = false :=
    (isMachinery_eq_of_kind_eq hname hbody).trans hcomposed
  have hjoined : isMachinery p.summary.context (block.join other) = false :=
    (isMachinery_join _ block other).trans hcomposed
  let name := roots.canonicalName block.name
  let kind := kindOf p.summary.context block
  let before := (p.summary.types name).getD (.blank name kind)
  obtain ⟨n₂, hroot₁, hroot₂, htwice⟩ :=
    exists_answers_registerRoot (c := p.summary.context) hname kind hroot
  obtain ⟨text, text', n₁, m₁, htext, htext', hboth⟩ :=
    exists_answers_describe (r := roots) p.summary.context hdescription
  obtain ⟨a, n₃, ha⟩ := Attributes.isAside_ingest (r := roots) name before.attributes
    block.directives p.summary.context
  obtain ⟨a', m₃, ha'⟩ := Attributes.isAside_ingest (r := roots) name a other.directives
    p.summary.context
  obtain ⟨keys, n₄, hkeys⟩ := exists_givesKeys (r := roots) (c := p.summary.context) name
    block.directives
  obtain ⟨keys', m₄, hkeys'⟩ := exists_givesKeys (r := roots) (c := p.summary.context) name
    other.directives
  have hextended : a.isExtended = true → a'.isExtended = true := by
    intro hextended
    rw [← (ha' p rfl).1]
    exact Attributes.gives_ingest name hextended other.directives p
  -- the head of the one block, then the head of the other
  let between := before.withHead block.isExtension text a keys
  have hfirst : Acts roots .plain name (ingestTypeHead roots block) p.summary.context
      (p.summary.types name) () (some between) (n₁ + (n₂ + (n₃ + n₄))) :=
    acts_ingestTypeHead (d := p.summary.types name) hcomposed rfl rfl haccepts htext hroot₁ ha hkeys
  have hkept : between.kind = kind := by
    show ((p.summary.types name).getD (.blank name kind)).kind = kind
    cases hfound : p.summary.types name with
    | none => rfl
    | some d => exact haccepts d hfound
  have hsecond : Acts roots .plain name (ingestTypeHead roots other) p.summary.context
      (some between) () (some (between.withHead other.isExtension text' a' keys'))
      (m₁ + (n₂ + (m₃ + m₄))) :=
    acts_ingestTypeHead (d := some between) hother (congrArg _ hname) hkind
      (fun _ he => Option.some.inj he ▸ hkept) htext' hroot₂ ha' hkeys'
  -- the head of both blocks in one
  have hjoin : Acts roots .plain name (ingestTypeHead roots (block.join other)) p.summary.context
      (p.summary.types name) () (some (before.withHead (block.isExtension && other.isExtension)
        (text.or text') a' (keys ++ keys')))
      ((n₁ + m₁) + (n₂ + ((n₃ + m₃) + (n₄ + m₄)))) :=
    acts_ingestTypeHead (d := p.summary.types name) hjoined rfl
      (kindOf_join hbody hkind) haccepts hboth hroot₁ (Attributes.answers_ingest_append ha ha')
      (hkeys.append hkeys')
  have hnotes : n₁ + (n₂ + (n₃ + n₄)) + (m₁ + (n₂ + (m₃ + m₄))) =
      (n₁ + m₁) + (n₂ + ((n₃ + m₃) + (n₄ + m₄))) := by
    rw [add_add_add_comm, add_add_add_comm n₂, htwice, add_add_add_comm n₃]
  have hseq := hfirst.seq hsecond
  rw [TypeDef.withHead_withHead before hextended, hnotes] at hseq
  obtain ⟨-, hsummary, -⟩ := hseq p rfl rfl
  obtain ⟨-, hsummary', -⟩ := hjoin q (congrArg Summary.context heq.symm) (by rw [heq])
  exact ⟨rfl, by rw [hsummary, hsummary', heq]⟩

/-! ## Parts -/

/-- Two lists of items are taken in one after the other like both lists in one. -/
theorem agree_forM_append {ι : Type} {step step' step'' : ι → Ingestion Unit}
    (h : ∀ i, Agree (step i) (step'' i)) (h' : ∀ i, Agree (step' i) (step'' i))
    (items items' : List ι) :
    Agree (items.forM step >>= fun _ => items'.forM step') ((items ++ items').forM step'') := by
  rw [run_append]
  exact AgreeFrom.bind (agree_forM h items) fun _ => agree_forM h' items'

/-- The interfaces and fields of two bodies are taken in like those of both: the interfaces of the
second body pass the fields of the first one. -/
theorem agree_interfaces_fields_append (roots : RootTypes) (name : String)
    (inExtension inExtension' inExtension'' : Bool) (interfaces interfaces' : List String)
    (fields fields' : List FieldDecl) :
    Agree ((interfaces.forM (ingestInterface name) >>= fun _ =>
        fields.forM (ingestField roots name inExtension)) >>= fun _ =>
          interfaces'.forM (ingestInterface name) >>= fun _ =>
            fields'.forM (ingestField roots name inExtension'))
      ((interfaces ++ interfaces').forM (ingestInterface name) >>= fun _ =>
        (fields ++ fields').forM (ingestField roots name inExtension'')) := by
  have hinterface : ∀ i, Agree (ingestInterface name i) (ingestInterface name i) :=
    fun i => (alikeAbout_ingestInterface (r := roots) i).agree
  have hplace : ∀ (e : Bool) (decls : List FieldDecl),
      Agree (decls.forM (ingestField roots name e))
        (decls.forM (ingestField roots name inExtension'')) := fun e =>
    agree_forM fun decl => (alikeAbout_ingestField (r := roots) roots e inExtension'' decl).agree
  have hpass : Agree (fields.forM (ingestField roots name inExtension) >>= fun _ =>
        interfaces'.forM (ingestInterface name))
      (interfaces'.forM (ingestInterface name) >>= fun _ =>
        fields.forM (ingestField roots name inExtension'')) := by
    refine AgreeFrom.trans (agree_forM_comm (fun decl => ?_) hinterface (fun decl i => ?_) _ _)
      (AgreeFrom.bind (agree_forM hinterface _) fun _ => hplace inExtension fields)
    · exact (alikeAbout_ingestField (r := roots) roots inExtension inExtension decl).agree
    · exact (alikeAbout_ingestField_ingestInterface (r := roots) roots inExtension decl i).agree
  have hall := AgreeFrom.bind (agree_forM hinterface interfaces) fun _ =>
    AgreeFrom.bind hpass fun _ => hplace inExtension' fields'
  rw [run_append, run_append]
  simp only [bind_assoc] at hall ⊢
  exact hall

/-- The parts of two bodies of one kind are taken in like those of the joined body, wherever the
bodies stand. -/
theorem agree_ingestBody_join (roots : RootTypes) (name : String)
    (inExtension inExtension' inExtension'' : Bool) {body other : TypeBody}
    (hkind : other.kind = body.kind) :
    Agree (ingestBody roots name inExtension body >>= fun _ =>
        ingestBody roots name inExtension' other)
      (ingestBody roots name inExtension'' (body.join other)) := by
  cases body with
  | object interfaces fields =>
    cases other with
    | object => exact agree_interfaces_fields_append roots name _ _ _ _ _ _ _
    | interface | union | enum | inputObject | scalar => cases hkind
  | interface interfaces fields =>
    cases other with
    | interface => exact agree_interfaces_fields_append roots name _ _ _ _ _ _ _
    | object | union | enum | inputObject | scalar => cases hkind
  | union members =>
    cases other with
    | union members' =>
      have hmember : ∀ i, Agree (ingestMember roots name i) (ingestMember roots name i) :=
        fun i => (alikeAbout_ingestMember (r := roots) roots i).agree
      exact agree_forM_append hmember hmember members members'
    | object | interface | enum | inputObject | scalar => cases hkind
  | enum values =>
    cases other with
    | enum values' =>
      have hvalue : ∀ i, Agree (ingestEnumValue name i) (ingestEnumValue name i) :=
        fun i => (alikeAbout_ingestEnumValue (r := roots) i).agree
      exact agree_forM_append hvalue hvalue values values'
    | object | interface | union | inputObject | scalar => cases hkind
  | inputObject fields =>
    cases other with
    | inputObject fields' =>
      have hfield : ∀ e i,
          Agree (ingestInputField name e i) (ingestInputField name inExtension'' i) :=
        fun e i => (alikeAbout_ingestInputField (r := roots) e inExtension'' i).agree
      exact agree_forM_append (hfield inExtension) (hfield inExtension') fields fields'
    | object | interface | union | enum | scalar => cases hkind
  | scalar =>
    cases other with
    | scalar => exact fun _ _ _ heq => ⟨rfl, heq⟩
    | object | interface | union | enum | inputObject => cases hkind

/-- The parts of the block are taken in: its type is there and of its kind. -/
def Takes (roots : RootTypes) (block : TypeBlock) (σ : Summary) : Prop :=
  isMachinery σ.context block = false ∧
    (σ.types (roots.canonicalName block.name)).map TypeDef.kind = some (kindOf σ.context block)

/-- The parts of a block are passed over unless they are taken in. -/
theorem run_ingestTypeBody_of_not_takes {roots : RootTypes} {block : TypeBlock} {p : Progress}
    (h : ¬ Takes roots block p.summary) : (ingestTypeBody roots block).run p = ((), p) := by
  show (ite (isMachinery p.subgraph block = true) (pure ()) _ : Ingestion Unit).run p = _
  by_cases hmachinery : isMachinery p.subgraph block = true
  · rw [if_pos hmachinery]
    rfl
  · rw [if_neg hmachinery]
    cases hfound : p.subgraph.definition? (roots.canonicalName block.name) with
    | none => rfl
    | some d =>
      have hkind : d.kind ≠ kindOf p.subgraph block := by
        refine fun hkind => h ⟨Bool.eq_false_iff.mpr hmachinery, ?_⟩
        show ((p.subgraph.definition? _).map _).map _ = some (kindOf p.subgraph block)
        rw [hfound, ← hkind]
        rfl
      show (ite (d.kind = kindOf p.subgraph block) _ (pure ()) : Ingestion Unit).run p = _
      rw [if_neg hkind]
      rfl

/-- Parts that are taken in are those of the body. -/
theorem exists_run_ingestTypeBody {roots : RootTypes} {block : TypeBlock} {p : Progress}
    (h : Takes roots block p.summary) : ∃ inExtension, (ingestTypeBody roots block).run p =
      (ingestBody roots (roots.canonicalName block.name) inExtension block.body).run p := by
  obtain ⟨hcomposed, htype⟩ := h
  have hmachinery : ¬ isMachinery p.subgraph block = true := ne_true_of_eq_false hcomposed
  have htype' : ((p.subgraph.definition? (roots.canonicalName block.name)).map
    TypeDef.placeless).map TypeDef.kind = some (kindOf p.subgraph block) := htype
  rw [Option.map_map] at htype'
  obtain ⟨d, hfound, hkind⟩ := Option.map_eq_some_iff.mp htype'
  replace hkind : d.kind = kindOf p.subgraph block := hkind
  refine ⟨block.isExtension || d.attributes.isExtended, ?_⟩
  show (ite (isMachinery p.subgraph block = true) (pure ()) _ : Ingestion Unit).run p = _
  rw [if_neg hmachinery, hfound]
  show (ite (d.kind = kindOf p.subgraph block) _ (pure ()) : Ingestion Unit).run p = _
  rw [if_pos hkind]

/-- The parts of two blocks of one kind are taken in like the parts of the joined block. -/
theorem agreeFrom_ingestTypeBody_join {roots : RootTypes} {c : Subgraph} {block other : TypeBlock}
    (hname : other.name = block.name) (hbody : other.body.kind = block.body.kind)
    (hkind : kindOf c other = kindOf c block) :
    AgreeFrom (fun σ => σ.context = c)
      (ingestTypeBody roots block >>= fun _ => ingestTypeBody roots other)
      (ingestTypeBody roots (block.join other)) := by
  rintro p q rfl heq
  have htakes : ∀ {σ : Summary}, σ.context = p.summary.context →
      (σ.types (roots.canonicalName block.name)).map TypeDef.kind =
        (p.summary.types (roots.canonicalName block.name)).map TypeDef.kind →
      (Takes roots other σ ↔ Takes roots block p.summary) := by
    intro σ hcontext htype
    unfold Takes
    rw [hcontext, hname, htype, hkind, isMachinery_eq_of_kind_eq hname hbody]
  have hjoined : Takes roots (block.join other) q.summary ↔ Takes roots block p.summary := by
    unfold Takes
    rw [← heq, kindOf_join hbody hkind, isMachinery_join]
    rfl
  by_cases htaken : Takes roots block p.summary
  · obtain ⟨e, hfirst⟩ := exists_run_ingestTypeBody htaken
    obtain ⟨e'', hjoin⟩ := exists_run_ingestTypeBody (hjoined.mpr htaken)
    -- the parts of the first block leave the kinds of all types as they are
    obtain ⟨_, d, n, hacts, -⟩ := alikeAbout_ingestBody (r := roots) roots e e block.body
      (View.kinds.see p.summary) (p.summary.types (roots.canonicalName block.name))
    obtain ⟨-, hsummary, hsee⟩ := hacts p rfl rfl
    have hkept := (View.kinds.see_tell roots _ n).trans hsee
    rw [← hsummary] at hkept
    obtain ⟨e', hsecond⟩ := exists_run_ingestTypeBody ((htakes (congrArg Prod.fst hkept)
      (congrFun (congrArg Prod.snd hkept) (roots.canonicalName block.name))).mpr htaken)
    have hrun : (ingestTypeBody roots block >>= fun _ => ingestTypeBody roots other).run p =
        (ingestBody roots (roots.canonicalName block.name) e block.body >>= fun _ =>
          ingestBody roots (roots.canonicalName block.name) e' other.body).run p := by
      rw [StateT.run_bind, StateT.run_bind, hfirst]
      rw [hname] at hsecond
      exact hsecond
    rw [hrun, hjoin]
    exact agree_ingestBody_join roots _ e e' e'' hbody p q trivial heq
  · have hrun : (ingestTypeBody roots block >>= fun _ => ingestTypeBody roots other).run p =
        ((), p) := by
      rw [StateT.run_bind, run_ingestTypeBody_of_not_takes htaken]
      exact run_ingestTypeBody_of_not_takes (mt (htakes rfl rfl).mp htaken)
    rw [hrun, run_ingestTypeBody_of_not_takes (mt hjoined.mp htaken)]
    exact ⟨rfl, heq⟩

end Federation
