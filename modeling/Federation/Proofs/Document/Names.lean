import Federation.Document.Schema
import Federation.Proofs.Document.Runs
import Federation.Proofs.TypeRef.Text

/-!
# Names and types in documents

A name is made of letters, digits and underscores and holds none of the marks that types are written
with. So the types that a document declares are named by names without marks.

A type that can be held has a proper name and not too many list levels. Its text is read back as the
same type, wherever it stands in a document, as long as no further mark comes behind it. And what is
read as a type anywhere in a document can be held, if it has not too many list levels.
-/

namespace Federation

/-! ## Names -/

namespace Text

/-- The characters are those of a name. -/
def isNameText : List Char → Bool
  | [] => false
  | c :: cs => isNameStart c && cs.all isNamePart

theorem isNameText_iff {name : String} : isNameText name.toList = true ↔ IsName name := by
  constructor
  · intro h
    cases hname : name.toList with
    | nil =>
      rw [hname] at h
      cases h
    | cons c cs =>
      rw [hname, isNameText, Bool.and_eq_true, List.all_eq_true] at h
      exact ⟨c, cs, by rw [← hname, String.ofList_toList], h⟩
  · rintro ⟨c, cs, rfl, h⟩
    rw [String.toList_ofList, isNameText, Bool.and_eq_true, List.all_eq_true]
    exact h

instance decidableIsName (name : String) : Decidable (IsName name) :=
  decidable_of_iff _ isNameText_iff

end Text

namespace Document

theorem isMark_of_isNamePart {c : Char} (h : Text.isNamePart c = true) :
    TypeRef.isMark c = false := by
  cases hmark : TypeRef.isMark c with
  | false => rfl
  | true =>
    simp only [TypeRef.isMark, Bool.or_eq_true, beq_iff_eq] at hmark
    rcases hmark with (rfl | rfl) | rfl <;> exact absurd h (by decide)

/-- A name holds no marks. -/
theorem isMark_of_isName {name : String} (h : Text.IsName name) :
    ∀ c ∈ name.toList, TypeRef.isMark c = false := by
  obtain ⟨c, cs, rfl, hstart, hcs⟩ := h
  rw [String.toList_ofList]
  refine List.forall_mem_cons.mpr ⟨?_, fun c' hc' => isMark_of_isNamePart (hcs c' hc')⟩
  exact isMark_of_isNamePart (Text.isNamePart_of_isNameStart hstart)

end Document

/-! ## Types that are held -/

/-- The mark of a wrapper as it is scanned. -/
def Wrapper.scanned : Wrapper → Document.Mark
  | .list => .bracketClose
  | .nonNull => .bang

namespace TypeRef

open Document

/-- The type can be held: it is named by a name and has not too many list levels. -/
structure IsHeld (t : TypeRef) : Prop where
  name : Text.IsName t.name
  levels : t.wrapping.lists.length ≤ maxListLevels

/-- The tokens of a type. -/
def tokens (t : TypeRef) : List Token :=
  List.replicate t.wrapping.lists.length (.mark .bracketOpen) ++
    .name t.name :: t.wrapping.outward.map fun w => .mark w.scanned

theorem IsHeld.hasPlainName {t : TypeRef} (h : t.IsHeld) : t.HasPlainName :=
  isMark_of_isName h.name

end TypeRef

namespace Document

/-! ## Scanning types -/

namespace Token.Spells

variable {word : List Char} {tokens : List Token}

/-- Marks of wrappers behind a word. -/
theorem append_wrappers (h : Spells word tokens) (ws : List Wrapper) :
    Spells (word ++ ws.map Wrapper.mark) (tokens ++ ws.map fun w => .mark w.scanned) := by
  induction ws generalizing word tokens with
  | nil =>
    rw [List.map_nil, List.map_nil, List.append_nil, List.append_nil]
    exact h
  | cons w ws ih =>
    have hmark : markOf? w.mark = some w.scanned := by cases w <;> rfl
    rw [List.map_cons, List.map_cons, List.append_cons word, List.append_cons tokens]
    exact ih (h.append_mark hmark)

/-- Opening brackets before a word. -/
theorem openings (h : Spells word tokens) (n : Nat) :
    Spells (List.replicate n '[' ++ word) (List.replicate n (.mark .bracketOpen) ++ tokens) := by
  induction n with
  | zero => exact h
  | succ n ih => exact ih.mark rfl

end Token.Spells

/-- The text of a type is scanned as its tokens. -/
theorem spells_typeText {t : TypeRef} (h : Text.IsName t.name) :
    Token.Spells t.text.toList t.tokens := by
  rw [t.toList_text]
  exact ((Token.Spells.name h).append_wrappers _).openings _

/-! ## Reading types -/

/-- What comes next is no mark of a wrapper. -/
structure EndsType (rest : List Token) : Prop where
  bang : rest.head? ≠ some (.mark .bang)
  bracketClose : rest.head? ≠ some (.mark .bracketClose)

namespace Reader

/-- Opening brackets are moved past. -/
theorem run_openings {rest : List Token} (hrest : rest.head? ≠ some (.mark .bracketOpen))
    {n times : Nat} (htimes : n ≤ times) :
    StateT.run (repeatFor (fun tokens => tokens.head? == some (.mark .bracketOpen)) advance times)
        (List.replicate n (.mark .bracketOpen) ++ rest) =
      .ok (List.replicate n (), rest) := by
  induction n generalizing times with
  | zero =>
    cases times with
    | zero => rfl
    | succ times =>
      rw [repeatFor, run_bind_ok (run_get _), List.replicate_zero, List.nil_append,
        if_neg (by simpa using hrest)]
      rfl
  | succ n ih =>
    cases times with
    | zero => cases htimes
    | succ times =>
      have hmore := ih (Nat.le_of_succ_le_succ htimes)
      rw [repeatFor, run_bind_ok (run_get _), List.replicate_succ, List.cons_append,
        if_pos (by simp), run_bind_ok (run_advance _ _), run_bind_ok hmore]
      rfl

end Reader

open Reader

/-- The marks of wrappers are read one after the other. -/
theorem run_readMarksFor {rest : List Token} (hrest : EndsType rest) {ws : List Wrapper}
    {times : Nat} (htimes : ws.length ≤ times) (w : Wrapping) :
    StateT.run (readMarksFor times w) ((ws.map fun v => .mark v.scanned) ++ rest) =
      .ok (ws.foldl Wrapper.applyTo w, rest) := by
  induction ws generalizing times w with
  | nil =>
    cases times with
    | zero => rfl
    | succ times =>
      rw [readMarksFor, List.map_nil, List.nil_append,
        run_bind_ok (run_accept_of_ne hrest.bang), if_neg Bool.false_ne_true,
        run_bind_ok (run_accept_of_ne hrest.bracketClose), if_neg Bool.false_ne_true]
      rfl
  | cons v ws ih =>
    cases times with
    | zero => cases htimes
    | succ times =>
      have hmore := ih (Nat.le_of_succ_le_succ htimes)
      rw [readMarksFor, List.map_cons, List.cons_append, List.foldl_cons]
      cases v with
      | nonNull =>
        rw [Wrapper.scanned, run_bind_ok (run_accept_mark .bang _), if_pos rfl]
        exact hmore w.require
      | list =>
        rw [Wrapper.scanned, run_bind_ok (run_accept_of_ne (by simp)), if_neg Bool.false_ne_true,
          run_bind_ok (run_accept_mark .bracketClose _), if_pos rfl]
        exact hmore w.wrapList

/-- **A type that can be held is read back from its tokens.** -/
theorem run_readType {t : TypeRef} (h : t.wrapping.lists.length < unreadableListLevels)
    {rest : List Token} (hrest : EndsType rest) (mayFollow : Token → Bool) :
    StateT.run (readType mayFollow) (t.tokens ++ rest) = .ok (t, rest) := by
  -- the number of brackets in front is not looked at: the marks behind the name make the lists
  have hopenings : ∀ behind : List Token, behind.head? ≠ some (.mark .bracketOpen) →
      StateT.run (repeatWhile (fun tokens => tokens.head? == some (.mark .bracketOpen)) advance)
        (List.replicate t.wrapping.lists.length (.mark .bracketOpen) ++ behind) =
          .ok (List.replicate t.wrapping.lists.length (), behind) := by
    intro behind hbehind
    rw [repeatWhile, run_bind_ok (run_get _)]
    exact run_openings hbehind (by simp)
  rw [readType, TypeRef.tokens, List.append_assoc, run_bind_ok (hopenings _ (by simp)),
    List.cons_append, run_bind_ok (run_name _ _), run_bind_ok (run_get _),
    run_bind_ok (run_readMarksFor hrest (by simp) _), Wrapping.foldl_applyTo_outward,
    if_neg (Nat.not_le.mpr h)]
  rfl

/-- The text of a type is read back wherever it stands. -/
theorem run_readType_text {t : TypeRef} (h : t.IsHeld) {more : String}
    (hbreaks : Token.Breaks more.toList) (hmore : EndsType (Token.scan more))
    (mayFollow : Token → Bool) :
    StateT.run (readType mayFollow) (Token.scan (t.text ++ more)) = .ok (t, Token.scan more) := by
  have hlevels : t.wrapping.lists.length < unreadableListLevels :=
    Nat.lt_of_le_of_lt h.levels (by decide)
  rw [Token.scan_eq_scanChars, String.toList_append, spells_typeText h.name _ hbreaks,
    ← Token.scan_eq_scanChars]
  exact run_readType hlevels hmore mayFollow

/-- The text of a type is read back when it stands alone. -/
theorem read_typeText {t : TypeRef} (h : t.IsHeld) (mayFollow : Token → Bool) :
    Reader.run (readType mayFollow) t.text = .ok t := by
  have hbreaks : Token.Breaks "".toList := trivial
  have hrun := run_readType_text h hbreaks ⟨nofun, nofun⟩ mayFollow
  rw [String.append_empty] at hrun
  rw [Reader.run, hrun]
  rfl

/-! ## Types that are read -/

theorem keeps_readMarksFor (times : Nat) (w : Wrapping) : Keeps (readMarksFor times w) := by
  induction times generalizing w with
  | zero => exact keeps_pure w
  | succ times ih =>
    refine (keeps_accept .bang).bind fun found => ?_
    split
    · exact ih w.require
    · refine (keeps_accept .bracketClose).bind fun found => ?_
      split
      · exact ih w.wrapList
      · exact keeps_pure w

/-- A type is named by a name. -/
theorem yields_readType (mayFollow : Token → Bool) :
    Yields (fun t => Text.IsName t.name) (readType mayFollow) := by
  refine (yields_repeatWhile keeps_advance).bind fun _ _ => ?_
  refine yields_name.bind fun name hname => yields_get.keeps.bind fun _ => ?_
  refine (keeps_readMarksFor _ _).bind fun wrapping => ?_
  split
  · exact Keeps.bind (yields_overLimit _) fun _ => yields_pure hname
  · exact yields_pure hname

/-- Somewhere in a document a type is read. -/
def ReadsType (document : String) (t : TypeRef) : Prop :=
  ∃ tokens mayFollow rest, tokens <:+ Token.scan document ∧
    StateT.run (readType mayFollow) tokens = .ok (t, rest)

theorem ReadsType.isName {document : String} {t : TypeRef} (h : ReadsType document t) :
    Text.IsName t.name := by
  obtain ⟨tokens, mayFollow, rest, hsuffix, hrun⟩ := h
  refine (yields_readType mayFollow tokens (fun token htoken => ?_) t rest hrun).1
  exact Token.isProper_scanFor token (hsuffix.mem htoken)

theorem readsType_text {t : TypeRef} (h : t.IsHeld) : ReadsType t.text t :=
  ⟨_, fun _ => true, [], List.suffix_rfl, run_eq_ok (read_typeText h _)⟩

/-! ## Declarations -/

theorem keeps_readDefault : Keeps readDefault := by
  refine (keeps_accept .equals).bind fun found => ?_
  split
  · exact (Literal.yields_read false).keeps.bind fun _ => keeps_pure _
  · exact keeps_pure none

theorem yields_readInputDecl : Yields (fun decl => decl.type.HasPlainName) readInputDecl :=
  Description.yields_readOptional.keeps.bind fun _ => yields_name.keeps.bind fun _ =>
    (keeps_expect .colon).bind fun _ => (yields_readType mayFollowType).bind fun _ htype =>
      keeps_readDefault.bind fun _ => (Directive.keeps_readAll false).bind fun _ =>
        yields_pure (isMark_of_isName htype)

theorem yields_readArgumentDecls :
    Yields (fun decls => ∀ decl ∈ decls, decl.type.HasPlainName) readArgumentDecls :=
  yields_optionalGroup (yields_someUpTo yields_readInputDecl)

/-- The types of a field and of its arguments are named by names without marks. -/
def FieldDecl.HasPlainTypes (decl : FieldDecl) : Prop :=
  decl.type.HasPlainName ∧ ∀ a ∈ decl.arguments, a.type.HasPlainName

theorem yields_readFieldDecl : Yields FieldDecl.HasPlainTypes readFieldDecl :=
  Description.yields_readOptional.keeps.bind fun _ => yields_name.keeps.bind fun _ =>
    yields_readArgumentDecls.bind fun _ harguments => (keeps_expect .colon).bind fun _ =>
      (yields_readType mayFollowType).bind fun _ htype =>
        (Directive.keeps_readAll false).bind fun _ =>
          yields_pure ⟨isMark_of_isName htype, harguments⟩

theorem keeps_readEnumValueDecl : Keeps readEnumValueDecl := by
  refine Description.yields_readOptional.keeps.bind fun _ => yields_peek.keeps.bind fun token => ?_
  split
  · split
    · exact yields_reject
    · exact keeps_advance.bind fun _ => (Directive.keeps_readAll false).bind fun _ => keeps_pure _
  · exact yields_reject

/-- The types of all declared fields are named by names without marks. -/
def TypeBody.HasPlainTypes : TypeBody → Prop
  | .object _ fields | .interface _ fields => ∀ decl ∈ fields, decl.HasPlainTypes
  | .inputObject fields => ∀ decl ∈ fields, decl.type.HasPlainName
  | .union _ | .enum _ | .scalar => True

/-- The same for all type blocks of a document. -/
def Schema.HasPlainTypes (schema : Schema) : Prop :=
  ∀ block ∈ schema.typeBlocks, block.body.HasPlainTypes

theorem keeps_readInterfaces : Keeps readInterfaces := by
  refine (keeps_acceptName "implements").bind fun found => ?_
  split
  · exact keeps_separatedNames yields_name.keeps
  · exact keeps_pure []

theorem yields_readMembers {α : Type} {P : α → Prop} {member : Reader α} (h : Yields P member) :
    Yields (fun members => ∀ a ∈ members, P a) (readMembers member) :=
  yields_optionalGroup (yields_someUpTo h)

theorem yields_readTypeBlock (isExtension : Bool) (description : Option Description)
    (keyword : String) :
    Yields (fun block => block.body.HasPlainTypes)
      (readTypeBlock isExtension description keyword) := by
  have hdirectives := Directive.keeps_readAll false
  refine yields_name.keeps.bind fun name => ?_
  split
  · exact keeps_readInterfaces.bind fun _ => hdirectives.bind fun _ =>
      (yields_readMembers yields_readFieldDecl).bind fun _ hfields => yields_pure hfields
  · exact keeps_readInterfaces.bind fun _ => hdirectives.bind fun _ =>
      (yields_readMembers yields_readFieldDecl).bind fun _ hfields => yields_pure hfields
  · exact hdirectives.bind fun _ =>
      Yields.bind (yields_optionalGroup (keeps_separatedNames yields_name.keeps).all) fun _ _ =>
        yields_pure trivial
  · exact hdirectives.bind fun _ =>
      (yields_readMembers keeps_readEnumValueDecl).bind fun _ _ => yields_pure trivial
  · exact hdirectives.bind fun _ =>
      (yields_readMembers yields_readInputDecl).bind fun _ hfields => yields_pure hfields
  · exact hdirectives.bind fun _ => yields_pure trivial

/-! ## Blocks -/

/-- If the block declares fields, their types are named by names without marks. -/
def Block.HasPlainTypes (block : Block) : Prop :=
  ∀ typeBlock, block.type? = some typeBlock → typeBlock.body.HasPlainTypes

theorem keeps_readSchemaBlock (isExtension : Bool) : Keeps (readSchemaBlock isExtension) := by
  have hroot : Keeps readRoot := by
    refine yields_peek.keeps.bind fun token => ?_
    split
    · split
      · exact keeps_advance.bind fun _ => (keeps_expect .colon).bind fun _ =>
          yields_name.keeps.bind fun _ => keeps_pure _
      · exact yields_reject
    · exact yields_reject
  refine (Directive.keeps_readAll false).bind fun _ => ?_
  split
  · exact (yields_optionalGroup (yields_upTo hroot)).bind fun _ _ => keeps_pure _
  · exact (keeps_expect .braceOpen).bind fun _ => (yields_upTo hroot).bind fun _ _ => keeps_pure _

theorem keeps_readDirectiveDefinition : Keeps readDirectiveDefinition := by
  have hlocation : Keeps readLocation := by
    refine yields_peek.keeps.bind fun token => ?_
    split
    · refine keeps_advance.bind fun _ => ?_
      split
      · exact keeps_pure _
      · exact yields_reject
    · exact yields_reject
  exact (keeps_expect .atSign).bind fun _ => yields_name.keeps.bind fun _ =>
    yields_readArgumentDecls.keeps.bind fun _ => (keeps_acceptName "repeatable").bind fun _ =>
      (keeps_expectName "on").bind fun _ => (keeps_separatedNames hlocation).bind fun _ =>
        keeps_pure _

theorem yields_readBlock : Yields Block.HasPlainTypes readBlock := by
  refine Description.yields_readOptional.keeps.bind fun description => ?_
  refine (keeps_acceptName "extend").bind fun isExtension => yields_peek.keeps.bind fun token => ?_
  split
  · split
    · refine keeps_advance.bind fun _ => (yields_readTypeBlock _ _ _).bind fun block hblock => ?_
      refine yields_pure fun typeBlock htypeBlock => ?_
      obtain rfl := Option.some.inj htypeBlock
      exact hblock
    · split
      · exact keeps_advance.bind fun _ => (keeps_readSchemaBlock _).bind fun _ =>
          yields_pure nofun
      · split
        · exact keeps_advance.bind fun _ => keeps_readDirectiveDefinition.bind fun _ =>
            yields_pure nofun
        · exact yields_reject
  · exact yields_reject

/-- **A document declares plain types.** -/
theorem Schema.hasPlainTypes_read {text : String} {schema : Schema}
    (h : Schema.read text = .ok schema) : schema.HasPlainTypes := by
  have hblocks : Yields (fun blocks => ∀ block ∈ blocks, Block.HasPlainTypes block) readBlocks :=
    yields_readBlock.bind fun first hfirst => (yields_repeatWhile yields_readBlock).bind
      fun others hothers => yields_pure (List.forall_mem_cons.mpr ⟨hfirst, hothers⟩)
  intro block hblock
  obtain ⟨b, hb, htype⟩ := List.mem_filterMap.mp hblock
  exact hblocks.of_run h b hb block htype

end Document

end Federation
