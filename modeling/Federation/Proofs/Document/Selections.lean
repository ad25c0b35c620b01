import Federation.Proofs.Document.Constants
import Federation.Proofs.Ingestion.Schema
import Federation.Supergraph.Emission

/-!
# Field sets from their texts

The normal spelling of selections is a word for their tokens. These are read as the selections of a
document, from which the same selections are taken. So whatever a field set looked like when it was
read, what is printed for it reads the same.
-/

namespace Federation

open Document Document.Reader

/-! ## Selections of a document -/

namespace FieldSetReading

variable {α β : Type} {x : FieldSetReading α} {k : α → FieldSetReading β} {a : α} {b : β}

/-- Whatever was mentioned before, this is what is read. -/
def Reads (x : FieldSetReading α) (a : α) : Prop :=
  ∀ names : NameTable, (x.run.run names).1 = .ok a

theorem reads_pure (a : α) : Reads (pure a) a :=
  fun _ => rfl

theorem reads_modify (f : NameTable → NameTable) : Reads (modify f) () :=
  fun _ => rfl

theorem Reads.bind (hx : Reads x a) (hk : Reads (k a) b) : Reads (x >>= k) b := by
  intro names
  rw [run_bind, hx names]
  exact hk _

/-- A sequence reads something if each part does. -/
theorem of_run_bind {names : NameTable} (h : ((x >>= k).run.run names).1 = .ok b) :
    ∃ a names', (x.run.run names).1 = .ok a ∧ ((k a).run.run names').1 = .ok b := by
  rw [run_bind] at h
  cases hx : (x.run.run names).1 with
  | error e =>
    rw [hx] at h
    cases h
  | ok a =>
    rw [hx] at h
    exact ⟨a, _, rfl, h⟩

end FieldSetReading

open FieldSetReading

namespace Selection

mutual

/-- The selection as a document writes it. -/
def toRaw : Selection → RawSelection
  | .field name arguments selections =>
    .field name (Value.toFields arguments) (toRaws selections)
  | .inlineFragment condition selections => .inlineFragment (some condition) (toRaws selections)

/-- The selections as a document writes them. -/
def toRaws : List Selection → List RawSelection
  | [] => []
  | first :: others => toRaw first :: toRaws others

end

@[simp] theorem toRaws_eq_map (selections : List Selection) :
    toRaws selections = selections.map toRaw := by
  induction selections with
  | nil => rw [toRaws, List.map_nil]
  | cons first others ih => rw [toRaws, ih, List.map_cons]

theorem reads_readArguments (arguments : List (String × Value)) :
    Reads (SelectionSet.readArguments (Value.toFields arguments)) arguments := by
  induction arguments with
  | nil =>
    rw [Value.toFields]
    exact reads_pure []
  | cons first others ih =>
    rw [Value.toFields, SelectionSet.readArguments]
    refine (reads_modify _).bind ?_
    rw [Value.ofLiteral?_toLiteral]
    exact (reads_modify _).bind (ih.bind (reads_pure _))

theorem eq_of_readArguments {raw : List (String × Literal)} {arguments : List (String × Value)}
    {names : NameTable} (h : ((SelectionSet.readArguments raw).run.run names).1 = .ok arguments) :
    raw = Value.toFields arguments := by
  induction raw generalizing arguments names with
  | nil =>
    obtain rfl := Except.ok.inj h
    rw [Value.toFields]
  | cons first others ih =>
    rw [SelectionSet.readArguments] at h
    obtain ⟨_, _, -, h⟩ := of_run_bind h
    split at h
    · cases h
    · rename_i value hvalue
      obtain ⟨_, _, -, h⟩ := of_run_bind h
      obtain ⟨arguments', _, hothers, h⟩ := of_run_bind h
      obtain rfl := Except.ok.inj h
      rw [Value.toFields, ← ih hothers, ← Value.eq_toLiteral hvalue]

mutual

theorem reads_readSelection (s : Selection) : Reads (SelectionSet.readSelection s.toRaw) s := by
  cases s with
  | field name arguments selections =>
    rw [toRaw, SelectionSet.readSelection]
    exact (reads_modify _).bind ((reads_readArguments arguments).bind
      ((reads_readSelections selections).bind (reads_pure _)))
  | inlineFragment condition selections =>
    rw [toRaw, SelectionSet.readSelection]
    exact (reads_readSelections selections).bind ((reads_modify _).bind (reads_pure _))

theorem reads_readSelections (selections : List Selection) :
    Reads (SelectionSet.readSelections (toRaws selections)) selections := by
  cases selections with
  | nil =>
    rw [toRaws, SelectionSet.readSelections]
    exact reads_pure []
  | cons first others =>
    rw [toRaws, SelectionSet.readSelections]
    exact (reads_readSelection first).bind ((reads_readSelections others).bind (reads_pure _))

end

mutual

theorem eq_of_readSelection {raw : RawSelection} {s : Selection} {names : NameTable}
    (h : ((SelectionSet.readSelection raw).run.run names).1 = .ok s) : raw = s.toRaw := by
  cases raw with
  | field name arguments selections =>
    rw [SelectionSet.readSelection] at h
    obtain ⟨_, _, -, h⟩ := of_run_bind h
    obtain ⟨arguments', _, harguments, h⟩ := of_run_bind h
    obtain ⟨selections', _, hselections, h⟩ := of_run_bind h
    obtain rfl := Except.ok.inj h
    rw [toRaw, ← eq_of_readArguments harguments, ← eq_of_readSelections hselections]
  | inlineFragment condition selections =>
    rw [SelectionSet.readSelection] at h
    obtain ⟨selections', _, hselections, h⟩ := of_run_bind h
    split at h
    · cases h
    · obtain ⟨_, _, -, h⟩ := of_run_bind h
      obtain rfl := Except.ok.inj h
      rw [toRaw, ← eq_of_readSelections hselections]
  | fragmentSpread name =>
    rw [SelectionSet.readSelection] at h
    cases h

theorem eq_of_readSelections {raws : List RawSelection} {selections : List Selection}
    {names : NameTable}
    (h : ((SelectionSet.readSelections raws).run.run names).1 = .ok selections) :
    raws = toRaws selections := by
  cases raws with
  | nil =>
    rw [SelectionSet.readSelections] at h
    obtain rfl := Except.ok.inj h
    rw [toRaws]
  | cons first others =>
    rw [SelectionSet.readSelections] at h
    obtain ⟨s, _, hfirst, h⟩ := of_run_bind h
    obtain ⟨selections', _, hothers, h⟩ := of_run_bind h
    obtain rfl := Except.ok.inj h
    rw [toRaws, ← eq_of_readSelection hfirst, ← eq_of_readSelections hothers]

end

/-- No argument in the selection holds a float. -/
inductive IsFloatFree : Selection → Prop where
  | field {name : String} {arguments : List (String × Value)} {selections : List Selection}
    (harguments : ∀ a ∈ arguments, a.2.IsFloatFree) (h : ∀ s ∈ selections, IsFloatFree s) :
    IsFloatFree (.field name arguments selections)
  | inlineFragment {condition : String} {selections : List Selection}
    (h : ∀ s ∈ selections, IsFloatFree s) : IsFloatFree (.inlineFragment condition selections)

/-! ## Tokens of a selection -/

/-- The tokens of the arguments of a field, if there are any. -/
def argumentTokens : List (String × Value) → List Token
  | [] => []
  | arguments =>
    .mark .parenOpen :: (arguments.flatMap Value.tokensOfField ++ [.mark .parenClose])

mutual

/-- The tokens that a selection is written with. -/
def tokens : Selection → List Token
  | .field name arguments selections =>
    .name name :: (argumentTokens arguments ++ groupTokens selections)
  | .inlineFragment condition selections =>
    .mark .spread :: .name "on" :: .name condition :: groupTokens selections

/-- The tokens of selections in braces, if there are any. -/
def groupTokens : List Selection → List Token
  | [] => []
  | first :: others =>
    .mark .braceOpen :: (tokens first ++ followingTokens others ++ [.mark .braceClose])

/-- The tokens of selections one after the other. -/
def followingTokens : List Selection → List Token
  | [] => []
  | first :: others => tokens first ++ followingTokens others

end

@[simp] theorem followingTokens_eq_flatMap (selections : List Selection) :
    followingTokens selections = selections.flatMap tokens := by
  induction selections with
  | nil => rw [followingTokens, List.flatMap_nil]
  | cons first others ih => rw [followingTokens, ih, List.flatMap_cons]

theorem groupTokens_of_ne_nil {selections : List Selection} (h : selections ≠ []) :
    groupTokens selections =
      .mark .braceOpen :: (selections.flatMap tokens ++ [.mark .braceClose]) := by
  cases selections with
  | nil => exact absurd rfl h
  | cons first others => rw [groupTokens, followingTokens_eq_flatMap, List.flatMap_cons]

/-- Selections in braces are separated like those of a whole field set. -/
theorem groupText_of_ne_nil {selections : List Selection} (h : selections ≠ []) :
    groupText selections = " \x7b " ++ SelectionSet.text selections ++ " \x7d" := by
  have hfollowing : ∀ first others, text first ++ followingText others =
      SelectionSet.text (first :: others) := by
    intro first others
    induction others generalizing first with
    | nil =>
      rw [followingText, SelectionSet.text, List.map_singleton, String.intercalate_singleton,
        String.append_empty]
    | cons second others ih =>
      rw [followingText, String.append_assoc, ih second]
      simp only [SelectionSet.text, List.map_cons, String.intercalate_cons_cons,
        String.append_assoc]
  cases selections with
  | nil => exact absurd rfl h
  | cons first others =>
    rw [groupText, ← hfollowing]
    simp only [String.append_assoc]

/-! ## From the text to the tokens -/

theorem isName_on : Text.IsName "on" :=
  ⟨'o', ['n'], rfl, rfl, List.all_eq_true.mp rfl⟩

theorem spells_selections {selections : List Selection}
    (h : ∀ s ∈ selections, Token.Spells s.text.toList s.tokens) :
    Token.Spells (SelectionSet.text selections).toList (selections.flatMap tokens) := by
  have hall : Token.Spells ([' '].intercalate (selections.map fun s => s.text.toList))
      (selections.flatMap tokens) :=
    Token.Spells.intercalate h rfl nofun
  rw [SelectionSet.text, String.toList_intercalate, List.map_map]
  exact hall

/-- Selections in braces are spelled with spaces inside. -/
theorem spells_braced {selections : List Selection} (hne : selections ≠ [])
    (h : ∀ s ∈ selections, Token.Spells s.text.toList s.tokens) :
    Token.Spells ('\x7b' :: ' ' :: ((SelectionSet.text selections).toList ++ [' ', '\x7d']))
      (groupTokens selections) := by
  have hclose : Token.Spells [' ', '\x7d'] [.mark .braceClose] :=
    .separator rfl (.mark rfl .nil)
  have hbody := (spells_selections h).append (Token.breaks_of_isSeparator rfl _) hclose
  rw [groupTokens_of_ne_nil hne]
  exact (hbody.separator (c := ' ') rfl).mark rfl

theorem spells_groupText {selections : List Selection}
    (h : ∀ s ∈ selections, Token.Spells s.text.toList s.tokens) :
    Token.Spells (groupText selections).toList (groupTokens selections) ∧
      Token.Breaks (groupText selections).toList := by
  by_cases hne : selections = []
  · subst hne
    rw [groupText, groupTokens]
    exact ⟨.nil, trivial⟩
  · have hgroup := (spells_braced hne h).separator (c := ' ') rfl
    have htext : (groupText selections).toList =
        ' ' :: '\x7b' :: ' ' :: ((SelectionSet.text selections).toList ++ [' ', '\x7d']) := by
      rw [groupText_of_ne_nil hne, String.toList_append, String.toList_append]
      rfl
    rw [htext]
    exact ⟨hgroup, Token.breaks_of_isSeparator rfl _⟩

theorem spells_argumentsText {arguments : List (String × Value)}
    (hfree : ∀ a ∈ arguments, a.2.IsFloatFree)
    (h : ∀ a ∈ arguments, Literal.IsProperField (Value.toField a)) :
    Token.Spells (argumentsText arguments).toList (argumentTokens arguments) ∧
      Token.Breaks (argumentsText arguments).toList := by
  cases arguments with
  | nil => exact ⟨.nil, trivial⟩
  | cons first others =>
    have hfields : ∀ a ∈ first :: others,
        Token.Spells (Value.textOfField a).toList (Value.tokensOfField a) := by
      intro a ha
      exact Value.spells_textOfField (h a ha).1 (Value.spells_text (hfree a ha) (h a ha).2)
    have hgroup := Value.spells_group hfields '(' ')' rfl rfl
    have htext : (argumentsText (first :: others)).toList = '(' ::
        ((", ".intercalate ((first :: others).map Value.textOfField)).toList ++ [')']) := by
      rw [argumentsText, Value.fieldTexts_eq_map, String.toList_append, String.toList_append]
      · rfl
      · nofun
    rw [htext]
    exact ⟨hgroup, Token.breaks_of_markOf? rfl _⟩

/-- **A selection is spelled as its tokens.** -/
theorem spells_text {s : Selection} (hfree : s.IsFloatFree) (h : s.toRaw.IsProper) :
    Token.Spells s.text.toList s.tokens := by
  induction hfree with
  | @field name arguments selections harguments _ ih =>
    rw [toRaw, toRaws_eq_map, Value.toFields_eq_map] at h
    cases h with
    | field hname hproper h =>
      have hspells := spells_groupText fun s hs => ih s hs (h _ (List.mem_map_of_mem hs))
      have harguments := spells_argumentsText harguments fun a ha =>
        hproper _ (List.mem_map_of_mem ha)
      have hbehind := harguments.1.append hspells.2 hspells.1
      rw [text, tokens, String.append_assoc, String.toList_append, String.toList_append]
      exact (Token.Spells.name hname).append (harguments.2.append hspells.2) hbehind
  | @inlineFragment condition selections _ ih =>
    rw [toRaw, toRaws_eq_map] at h
    cases h with
    | inlineFragment hcondition hne h =>
      have hspells := spells_groupText fun s hs => ih s hs (h _ (List.mem_map_of_mem hs))
      have hname := (Token.Spells.name (hcondition _ rfl)).append hspells.2 hspells.1
      have hon := (Token.Spells.name isName_on).append (Token.breaks_of_isSeparator rfl _)
        (hname.separator (c := ' ') rfl)
      have htext : (text (.inlineFragment condition selections)).toList = '.' :: '.' :: '.' :: ' ' ::
          ("on".toList ++ ' ' :: (condition.toList ++ (groupText selections).toList)) := by
        rw [text, String.append_assoc, String.toList_append, String.toList_append]
        rfl
      rw [htext, tokens]
      exact .spread (hon.separator rfl)

/-! ## From the tokens to the selection -/

/-- What may come right behind a selection: nothing that goes on with a field. -/
def Follows (t : Token) : Prop :=
  t ≠ .mark .colon ∧ t ≠ .mark .parenOpen ∧ t ≠ .mark .atSign ∧ t ≠ .mark .braceOpen

instance (t : Token) : Decidable (Follows t) :=
  inferInstanceAs (Decidable (_ ∧ _))

theorem run_readArgument {field : String × Value} (hfree : field.2.IsFloatFree)
    (h : field.2.toLiteral.IsProper) (rest : List Token) :
    StateT.run (Directive.readArgument true) (Value.tokensOfField field ++ rest) =
      .ok (Value.toField field, rest) := by
  refine Value.run_fieldReader ?_
  rw [Literal.read, run_bind_ok (run_get _)]
  refine Value.run_readFor true hfree h ?_ rest
  rw [List.length_append]
  exact Nat.le_add_right _ _

theorem run_arguments {arguments : List (String × Value)}
    (hfree : ∀ a ∈ arguments, a.2.IsFloatFree)
    (h : ∀ a ∈ arguments, Literal.IsProperField (Value.toField a)) {rest : List Token}
    (hrest : rest.head? ≠ some (.mark .parenOpen)) :
    StateT.run (optionalGroup .parenOpen (upTo .parenClose (Directive.readArgument true)))
        (argumentTokens arguments ++ rest) = .ok (arguments.map Value.toField, rest) := by
  cases arguments with
  | nil =>
    rw [argumentTokens, List.nil_append, optionalGroup, run_bind_ok (run_accept_of_ne hrest)]
    rfl
  | cons first others =>
    have hread : ∀ a ∈ first :: others, ∀ t rest, True →
        StateT.run (Directive.readArgument true) (Value.tokensOfField a ++ t :: rest) =
          .ok (Value.toField a, t :: rest) := by
      intro a ha t rest _
      exact run_readArgument (hfree a ha) (h a ha).2 (t :: rest)
    have hstart : ∀ a ∈ first :: others, ∃ t ts, Value.tokensOfField a = t :: ts ∧
        t ≠ .mark .parenClose ∧ True := by
      intro a _
      exact ⟨_, _, rfl, nofun, trivial⟩
    have hitems := run_upTo hread hstart trivial rest
    have htokens : argumentTokens (first :: others) ++ rest = .mark .parenOpen ::
        ((first :: others).flatMap Value.tokensOfField ++ .mark .parenClose :: rest) := by
      rw [argumentTokens, List.cons_append, List.append_assoc]
      · rfl
      · nofun
    rw [htokens, optionalGroup, run_bind_ok (run_accept_mark _ _), if_pos rfl]
    exact hitems

theorem run_readAll_of_ne {rest : List Token} (h : rest.head? ≠ some (.mark .atSign)) :
    StateT.run (Directive.readAll true) rest = .ok ([], rest) := by
  rw [Directive.readAll, repeatWhile, run_bind_ok (run_get _)]
  cases rest with
  | nil => rfl
  | cons t rest =>
    rw [List.length_cons, repeatFor, run_bind_ok (run_get _),
      if_neg (by simpa using h)]
    rfl

/-- The reader of one of the selections in braces. -/
def selectionReader (depth : Nat) : Reader RawSelection := do
  if ← Reader.accept .spread then readFragment (readSelectionSetFor depth)
  else readField (readSelectionSetFor depth)

/-- Each selection starts with a name or three points. -/
theorem exists_tokens_eq_cons (s : Selection) :
    ∃ t ts, s.tokens = t :: ts ∧ t ≠ .mark .braceClose ∧ Follows t := by
  cases s with
  | field name arguments selections =>
    rw [tokens]
    exact ⟨_, _, rfl, nofun, nofun, nofun, nofun, nofun⟩
  | inlineFragment condition selections =>
    rw [tokens]
    exact ⟨_, _, rfl, nofun, by decide⟩

/-- The tokens of selections in braces are more than those of each selection. -/
theorem length_lt_groupTokens {selections : List Selection} {s : Selection} (h : s ∈ selections) :
    s.tokens.length < (groupTokens selections).length := by
  have hle : s.tokens.length ≤ (selections.flatMap tokens).length := Value.length_le_of_mem h
  rw [groupTokens_of_ne_nil (List.ne_nil_of_mem h), List.length_cons, List.length_append]
  omega

/-- With depth enough for its tokens, the selection is read, whatever may follow it. -/
def IsRead (s : Selection) : Prop :=
  ∀ depth, s.tokens.length ≤ depth → ∀ t, Follows t → ∀ rest,
    StateT.run (selectionReader depth) (s.tokens ++ t :: rest) = .ok (s.toRaw, t :: rest)

/-- Selections in braces are read one after the other. -/
theorem run_braced {selections : List Selection} (hne : selections ≠ [])
    (hread : ∀ s ∈ selections, s.IsRead) {depth : Nat}
    (hdepth : (groupTokens selections).length ≤ depth) (rest : List Token) :
    StateT.run (readSelectionSetFor depth) (groupTokens selections ++ rest) =
      .ok (selections.map toRaw, rest) := by
  obtain ⟨depth, rfl⟩ : ∃ depth', depth = depth' + 1 := by
    rw [groupTokens_of_ne_nil hne, List.length_cons] at hdepth
    exact Nat.exists_eq_succ_of_ne_zero (by omega)
  have hitems : ∀ s ∈ selections, ∀ t rest, Follows t →
      StateT.run (selectionReader depth) (s.tokens ++ t :: rest) = .ok (s.toRaw, t :: rest) := by
    intro s hs t rest ht
    refine hread s hs depth ?_ t ht rest
    have hlt := length_lt_groupTokens hs
    omega
  have hall := run_upTo hitems (fun s _ => exists_tokens_eq_cons s) (by decide) rest
  have hopen : ((selections.flatMap tokens ++ .mark .braceClose :: rest).head? ==
      some (.mark .braceClose)) = false := by
    cases selections with
    | nil => exact absurd rfl hne
    | cons first others =>
      obtain ⟨t, ts, hts, hclose, -⟩ := exists_tokens_eq_cons first
      simp [List.flatMap_cons, hts, hclose]
  rw [groupTokens_of_ne_nil hne, List.cons_append, List.append_assoc, readSelectionSetFor,
    run_bind_ok (run_expect _ _), someUpTo, run_bind_ok (run_atMark _ _), List.singleton_append,
    hopen, if_neg Bool.false_ne_true]
  exact hall

/-- What comes behind the name of a field, or behind its arguments. -/
theorem head?_groupTokens_ne (selections : List Selection) {m : Mark} (hm : m ≠ .braceOpen)
    {t : Token} (ht : t ≠ .mark m) (rest : List Token) :
    (groupTokens selections ++ t :: rest).head? ≠ some (.mark m) := by
  by_cases hne : selections = []
  · subst hne
    rw [groupTokens]
    simpa using ht
  · rw [groupTokens_of_ne_nil hne]
    simpa using hm.symm

theorem head?_argumentTokens_ne (arguments : List (String × Value)) {m : Mark}
    (hm : m ≠ .parenOpen) {rest : List Token} (hrest : rest.head? ≠ some (.mark m)) :
    (argumentTokens arguments ++ rest).head? ≠ some (.mark m) := by
  cases arguments with
  | nil => exact hrest
  | cons first others =>
    rw [argumentTokens]
    · simpa using hm.symm
    · nofun

/-- The word behind three points tells that a condition comes. -/
theorem run_readFragment_on (selectionSet : Reader (List RawSelection)) (rest : List Token) :
    StateT.run (readFragment selectionSet) (.name "on" :: rest) =
      StateT.run (do
        let condition ← Reader.name
        let _ ← Directive.readAll true
        return .inlineFragment (some condition) (← selectionSet)) rest := by
  rw [readFragment, run_bind_ok (run_peek _ _)]
  exact run_bind_ok (run_advance _ _)

/-- **The tokens of a selection are read as the selection.** What stands behind them is left. -/
theorem isRead {s : Selection} (hfree : s.IsFloatFree) (h : s.toRaw.IsProper) : s.IsRead := by
  induction hfree with
  | @field name arguments selections harguments _ ih =>
    intro depth hdepth t ht rest
    rw [toRaw, toRaws_eq_map, Value.toFields_eq_map] at h ⊢
    rw [tokens, List.length_cons, List.length_append] at hdepth
    cases h with
    | field hname hproper h =>
      -- what is left out leaves nothing behind that could be taken for it
      obtain ⟨hcolon, hparen, hat, hbrace⟩ := ht
      have hnoColon := head?_argumentTokens_ne arguments (by decide)
        (head?_groupTokens_ne selections (by decide) hcolon rest)
      have hargumentsRun := run_arguments harguments
        (fun a ha => hproper _ (List.mem_map_of_mem ha))
        (head?_groupTokens_ne selections (by decide) hparen rest)
      have hdirectives := run_readAll_of_ne
        (head?_groupTokens_ne selections (by decide) hat rest)
      rw [tokens, List.cons_append, List.append_assoc, selectionReader,
        run_bind_ok (run_accept_of_ne (by simp)), if_neg Bool.false_ne_true, readField,
        run_bind_ok (run_name _ _), run_bind_ok (run_accept_of_ne hnoColon)]
      dsimp only
      rw [if_neg Bool.false_ne_true, pure_bind, run_bind_ok hargumentsRun, run_bind_ok hdirectives,
        run_bind_ok (run_atMark _ _)]
      by_cases hne : selections = []
      · subst hne
        rw [groupTokens, List.nil_append, if_neg (by simpa using hbrace)]
        rfl
      · have hread : ∀ s ∈ selections, s.IsRead :=
          fun s hs => ih s hs (h _ (List.mem_map_of_mem hs))
        have hlength : (groupTokens selections).length ≤ depth := by omega
        have hgroup := run_braced hne hread hlength (t :: rest)
        rw [if_pos (by simp [groupTokens_of_ne_nil hne]), run_bind_ok hgroup]
        rfl
  | @inlineFragment condition selections _ ih =>
    intro depth hdepth t ht rest
    rw [toRaw, toRaws_eq_map] at h ⊢
    rw [tokens, List.length_cons, List.length_cons, List.length_cons] at hdepth
    cases h with
    | inlineFragment hcondition hne h =>
      have hne : selections ≠ [] := by simpa using hne
      have hread : ∀ s ∈ selections, s.IsRead :=
        fun s hs => ih s hs (h _ (List.mem_map_of_mem hs))
      obtain ⟨-, -, hat, -⟩ := ht
      have hlength : (groupTokens selections).length ≤ depth := by omega
      have hgroup := run_braced hne hread hlength (t :: rest)
      have hdirectives :=
        run_readAll_of_ne (head?_groupTokens_ne selections (by decide) hat rest)
      rw [tokens, List.cons_append, List.cons_append, List.cons_append, selectionReader,
        run_bind_ok (run_accept_mark _ _), if_pos rfl, run_readFragment_on,
        run_bind_ok (run_name _ _), run_bind_ok hdirectives, run_bind_ok hgroup]
      rfl

end Selection

/-! ## Whole field sets -/

namespace SelectionSet

open Selection

/-- What is written for a field set is a document whose first operation selects what it selects. -/
theorem readFirstOperation_text {selections : SelectionSet} (hne : selections ≠ [])
    (hfree : ∀ s ∈ selections, s.IsFloatFree) (h : ∀ s ∈ selections, s.toRaw.IsProper) :
    readFirstOperation ("\x7b " ++ selections.text ++ " \x7d") =
      .ok (some (selections.map toRaw)) := by
  have hspells := spells_braced hne fun s hs => Selection.spells_text (hfree s hs) (h s hs)
  have htext : ("\x7b " ++ selections.text ++ " \x7d").toList =
      '\x7b' :: ' ' :: (selections.text.toList ++ [' ', '\x7d']) := by
    rw [String.toList_append, String.toList_append]
    rfl
  rw [← htext] at hspells
  have hset : StateT.run readSelectionSet (groupTokens selections) =
      .ok (selections.map toRaw, []) := by
    have hbraced := run_braced hne (fun s hs => isRead (hfree s hs) (h s hs)) (Nat.le_refl _) []
    rw [List.append_nil] at hbraced
    rw [readSelectionSet, run_bind_ok (run_get _)]
    exact hbraced
  have hexecutable : StateT.run readExecutable (groupTokens selections) =
      .ok (some (selections.map toRaw), []) := by
    rw [groupTokens_of_ne_nil hne] at hset ⊢
    rw [readExecutable, run_bind_ok (run_peek _ _)]
    exact run_bind_ok hset
  rw [readFirstOperation, Reader.run, hspells.scan_eq, readOperations, run_bind_ok hexecutable]
  rfl

/-- A field set that can be read selects something. -/
theorem areProperSelections_of_readFirstOperation {text : String}
    {operation : Option (List RawSelection)}
    (h : readFirstOperation ("\x7b " ++ text ++ " \x7d") = .ok operation) :
    ∃ raws, operation = some raws ∧ AreProperSelections raws := by
  obtain ⟨tokens, htokens⟩ : ∃ tokens,
      Token.scan ("\x7b " ++ text ++ " \x7d") = .mark .braceOpen :: tokens := by
    rw [Token.scan_eq_scanChars, String.toList_append, String.toList_append]
    exact ⟨_, Token.scanChars_mark rfl _⟩
  have hproper : AreProper (.mark .braceOpen :: tokens) := by
    rw [← htokens]
    exact Token.isProper_scanFor
  obtain ⟨operations, hoperations, rfl⟩ : ∃ operations,
      Reader.run readOperations ("\x7b " ++ text ++ " \x7d") = .ok operations ∧
        operation = operations.head? := by
    rw [readFirstOperation] at h
    cases hoperations : Reader.run readOperations ("\x7b " ++ text ++ " \x7d") with
    | error e =>
      rw [hoperations] at h
      cases h
    | ok operations =>
      rw [hoperations] at h
      exact ⟨operations, rfl, (Except.ok.inj h).symm⟩
  have hrun := run_eq_ok hoperations
  rw [htokens] at hrun
  obtain ⟨first, left, hfirst, hrun⟩ := of_run_bind hrun
  rw [readExecutable, run_bind_ok (run_peek _ _)] at hfirst
  obtain ⟨raws, left', hraws, hfirst⟩ := of_run_bind hfirst
  obtain ⟨rfl, -⟩ := Prod.mk.inj (Except.ok.inj hfirst)
  -- the other operations of the document do not matter
  obtain ⟨others, _, -, hrun⟩ := of_run_bind hrun
  obtain ⟨rfl, -⟩ := Prod.mk.inj (Except.ok.inj hrun)
  exact ⟨raws, rfl, (yields_readSelectionSet _ hproper raws left' hraws).1⟩

/-- Whatever was mentioned before, a field set that is read comes from its document. -/
theorem exists_of_read {text : String} {names : NameTable} {selections : SelectionSet}
    (h : ((SelectionSet.read text).run.run names).1 = .ok selections) :
    selections ≠ [] ∧ ∀ s ∈ selections, s.toRaw.IsProper := by
  rw [SelectionSet.read] at h
  split at h
  · cases h
  · cases h
  · rename_i operation hoperation
    obtain ⟨raws, rfl, hne, hproper⟩ := areProperSelections_of_readFirstOperation hoperation
    obtain ⟨read, _, hread, h⟩ := of_run_bind h
    obtain ⟨_, _, -, h⟩ := of_run_bind h
    obtain rfl := Except.ok.inj h
    have hraws := eq_of_readSelections hread
    rw [Option.getD_some, toRaws_eq_map] at hraws
    subst hraws
    exact ⟨by simpa using hne, fun s hs => hproper _ (List.mem_map_of_mem hs)⟩

/-- A field set reads as what the first operation of its document selects. -/
theorem reads_of_readFirstOperation {text : String} {selections : SelectionSet}
    (h : readFirstOperation ("\x7b " ++ text ++ " \x7d") = .ok (some (toRaws selections))) :
    Reads (SelectionSet.read text) selections := by
  rw [SelectionSet.read, h]
  exact (reads_readSelections selections).bind ((reads_modify _).bind (reads_pure _))

/-- **The normal spelling of a field set reads as the field set.** -/
theorem reads_text {selections : SelectionSet} (hne : selections ≠ [])
    (hfree : ∀ s ∈ selections, s.IsFloatFree) (h : ∀ s ∈ selections, s.toRaw.IsProper) :
    Reads (SelectionSet.read selections.text) selections := by
  refine reads_of_readFirstOperation ?_
  rw [toRaws_eq_map]
  exact readFirstOperation_text hne hfree h

end SelectionSet

/-! ## Field sets in a supergraph -/

/-- The text of a constant is made of characters of the basic plane. -/
theorem Value.isBasicText_text {v : Value} (hfree : v.IsFloatFree) (h : v.toLiteral.IsProper) :
    Text.IsBasicText v.text := by
  have hcomma : Text.IsBasicText ", " := by decide
  induction hfree with
  | null =>
    rw [text]
    decide
  | boolean b =>
    cases b <;> rw [text] <;> decide
  | int n =>
    rw [text]
    exact Text.isBasicText_int n
  | string s =>
    rw [toLiteral] at h
    cases h with
    | string h =>
      rw [text]
      exact Text.isBasicText_quote h
  | enum name =>
    rw [toLiteral] at h
    cases h with
    | enum h _ =>
      rw [text]
      exact h.isBasicText
  | @list items _ ih =>
    rw [toLiteral, toLiterals_eq_map] at h
    cases h with
    | list h =>
      rw [text, itemTexts_eq_map]
      refine .append (.append (by decide) (.intercalate hcomma fun t ht => ?_)) (by decide)
      obtain ⟨v, hv, rfl⟩ := List.mem_map.mp ht
      exact ih v hv (h _ (List.mem_map_of_mem hv))
  | @object fields _ ih =>
    rw [toLiteral, toFields_eq_map] at h
    cases h with
    | object hnames h =>
      rw [text, fieldTexts_eq_map]
      refine .append (.append (by decide) (.intercalate hcomma fun t ht => ?_)) (by decide)
      obtain ⟨f, hf, rfl⟩ := List.mem_map.mp ht
      have hmem : toField f ∈ fields.map toField := List.mem_map_of_mem hf
      have hname : Text.IsBasicText f.1 := (hnames _ hmem).isBasicText
      exact (hname.append (by decide)).append (ih f hf (h _ hmem))

theorem Selection.isBasicText_argumentsText {arguments : List (String × Value)}
    (hfree : ∀ a ∈ arguments, a.2.IsFloatFree)
    (h : ∀ a ∈ arguments, Literal.IsProperField (Value.toField a)) :
    Text.IsBasicText (argumentsText arguments) := by
  cases arguments with
  | nil => decide
  | cons first others =>
    rw [argumentsText, Value.fieldTexts_eq_map]
    · refine .append (.append (by decide) (.intercalate (by decide) fun t ht => ?_)) (by decide)
      obtain ⟨a, ha, rfl⟩ := List.mem_map.mp ht
      have hname : Text.IsBasicText a.1 := (h a ha).1.isBasicText
      exact (hname.append (by decide)).append (Value.isBasicText_text (hfree a ha) (h a ha).2)
    · nofun

/-- The text of a selection is made of characters of the basic plane. -/
theorem Selection.isBasicText_text {s : Selection} (hfree : s.IsFloatFree) (h : s.toRaw.IsProper) :
    Text.IsBasicText s.text := by
  have hgroup : ∀ {selections : List Selection}, (∀ s ∈ selections, Text.IsBasicText s.text) →
      Text.IsBasicText (groupText selections) := by
    intro selections hselections
    by_cases hne : selections = []
    · subst hne
      rw [groupText]
      decide
    · rw [groupText_of_ne_nil hne]
      refine .append (.append (by decide) (.intercalate (by decide) fun t ht => ?_)) (by decide)
      obtain ⟨s, hs, rfl⟩ := List.mem_map.mp ht
      exact hselections s hs
  induction hfree with
  | @field name arguments selections harguments _ ih =>
    rw [toRaw, toRaws_eq_map, Value.toFields_eq_map] at h
    cases h with
    | field hname hproper h =>
      have harguments := isBasicText_argumentsText harguments fun a ha =>
        hproper _ (List.mem_map_of_mem ha)
      rw [text]
      exact (hname.isBasicText.append harguments).append
        (hgroup fun s hs => ih s hs (h _ (List.mem_map_of_mem hs)))
  | @inlineFragment condition selections _ ih =>
    rw [toRaw, toRaws_eq_map] at h
    cases h with
    | inlineFragment hcondition hne h =>
      have hname : Text.IsBasicText condition := (hcondition _ rfl).isBasicText
      rw [text]
      exact (Text.IsBasicText.append (by decide) hname).append
        (hgroup fun s hs => ih s hs (h _ (List.mem_map_of_mem hs)))

/-- The argument of a directive is a string, and the string is a field set that selects this. -/
def Supergraph.Value.Denotes (v : Supergraph.Value) (selections : SelectionSet) : Prop :=
  ∃ text, Reader.run (Literal.read false) v.text = .ok (.string text) ∧
    Reads (SelectionSet.read text) selections

theorem SelectionSet.denotes_text {selections : SelectionSet} (hne : selections ≠ [])
    (hfree : ∀ s ∈ selections, s.IsFloatFree) (h : ∀ s ∈ selections, s.toRaw.IsProper) :
    (Supergraph.Value.string selections.text).Denotes selections := by
  have hbasic : Text.IsBasicText selections.text := by
    refine .intercalate (by decide) fun t ht => ?_
    obtain ⟨s, hs, rfl⟩ := List.mem_map.mp ht
    exact Selection.isBasicText_text (hfree s hs) (h s hs)
  have hread := Value.read_text false (v := .string selections.text) (.string _) (.string hbasic)
  refine ⟨selections.text, ?_, reads_text hne hfree h⟩
  rw [← Supergraph.Value.text_constant]
  exact hread

/-- **Field sets survive rendering.** Whatever a field set looked like, if no argument in it holds a
float, then its normal spelling reads as the same selections and stays as it is from then on. The
`key` of a type and what a field requires and provides are printed in a supergraph as strings that
denote what was read. -/
theorem field_sets_survive_rendering {text : String} {names : NameTable} {selections : SelectionSet}
    (h : ((SelectionSet.read text).run.run names).1 = .ok selections)
    (hfree : ∀ s ∈ selections, s.IsFloatFree) :
    Reads (SelectionSet.read selections.text) selections ∧
      (∀ again names', ((SelectionSet.read selections.text).run.run names').1 = .ok again →
        again.text = selections.text) ∧
      (∀ graphs id d (key : Key), key.selections = selections →
        ∃ v, (Supergraph.joinType graphs id d (some key)).argument? "key" = some v ∧
          v.Denotes selections) ∧
      (∀ graphs field id (f : FieldInGraph), f.requires = some selections →
        ∃ v, (Supergraph.joinField graphs field id f).argument? "requires" = some v ∧
          v.Denotes selections) ∧
      ∀ graphs field id (f : FieldInGraph), f.provides = some selections →
        ∃ v, (Supergraph.joinField graphs field id f).argument? "provides" = some v ∧
          v.Denotes selections := by
  obtain ⟨hne, hproper⟩ := SelectionSet.exists_of_read h
  have hreads := SelectionSet.reads_text hne hfree hproper
  have hdenotes := SelectionSet.denotes_text hne hfree hproper
  refine ⟨hreads, ?_, ?_, ?_, ?_⟩
  · intro again names' hagain
    obtain rfl := Except.ok.inj ((hreads names').symm.trans hagain)
    rfl
  · rintro graphs id d key rfl
    exact ⟨_, rfl, hdenotes⟩
  · intro graphs field id f hf
    refine ⟨_, ?_, hdenotes⟩
    unfold Supergraph.joinField
    rw [hf]
    rfl
  · intro graphs field id f hf
    refine ⟨_, ?_, hdenotes⟩
    unfold Supergraph.joinField
    rw [hf]
    cases f.requires <;> rfl

/-- A field set with an alias, a comment, commas, a nested argument and a condition. -/
theorem field_sets_survive_rendering_nested :
    let text := "id, a: org(at: \x7b on: [-1 \"x\\n\"] \x7d)\x7b # both\nid \x7d ... on A\x7bon\x7d"
    let org : Selection := .field "org"
      [("at", .object [("on", .list [.int (-1), .string "x\n"])])] [.field "id" [] []]
    let selections : SelectionSet :=
      [.field "id" [] [], org, .inlineFragment "A" [.field "on" [] []]]
    ((SelectionSet.read text).run.run {}).1 = .ok selections ∧
      Reads (SelectionSet.read selections.text) selections := by
  intro text org selections
  have hread : ((SelectionSet.read text).run.run {}).1 = .ok selections :=
    SelectionSet.reads_of_readFirstOperation (by dsimp only [text, selections, org]; rfl) {}
  have hplain : ∀ name, (Selection.field name [] []).IsFloatFree :=
    fun _ => .field nofun nofun
  have hvalue : (Value.object [("on", .list [.int (-1), .string "x\n"])]).IsFloatFree :=
    .object (List.forall_mem_singleton.mpr (.list
      (List.forall_mem_cons.mpr ⟨.int _, List.forall_mem_singleton.mpr (.string _)⟩)))
  have horg : org.IsFloatFree :=
    .field (List.forall_mem_singleton.mpr hvalue) (List.forall_mem_singleton.mpr (hplain "id"))
  have hfragment : (Selection.inlineFragment "A" [.field "on" [] []]).IsFloatFree :=
    .inlineFragment (List.forall_mem_singleton.mpr (hplain "on"))
  have hfree : ∀ s ∈ selections, s.IsFloatFree :=
    List.forall_mem_cons.mpr ⟨hplain "id", List.forall_mem_cons.mpr
      ⟨horg, List.forall_mem_singleton.mpr hfragment⟩⟩
  exact ⟨hread, (field_sets_survive_rendering hread hfree).1⟩

end Federation
