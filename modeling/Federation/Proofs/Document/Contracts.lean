import Federation.Document.Operation
import Federation.Proofs.Document.Scanning
import Federation.Proofs.Text.Block

/-!
# What readers get

A reader takes what it gets from tokens only, and what it leaves are tokens that were there before. So
whatever holds of all tokens of a text is passed on to all that is read: names have the form of names,
strings hold characters of the basic plane, integers can be held, and selections in braces are never
empty.
-/

namespace Federation.Document

/-! ## Readers -/

namespace Reader

variable {α β : Type}

/-- All tokens that are left are proper. -/
def AreProper (tokens : List Token) : Prop :=
  ∀ t ∈ tokens, t.IsProper

/-- From proper tokens on, a reader leaves proper tokens and gives only what satisfies a condition.
-/
def Yields (P : α → Prop) (x : Reader α) : Prop :=
  ∀ tokens, AreProper tokens → ∀ a rest, StateT.run x tokens = .ok (a, rest) →
    P a ∧ AreProper rest

/-- From proper tokens on, a reader leaves proper tokens. -/
abbrev Keeps (x : Reader α) : Prop :=
  Yields (fun _ => True) x

variable {P : α → Prop} {Q : β → Prop}

theorem yields_pure {a : α} (h : P a) : Yields P (pure a) := by
  intro tokens htokens a' rest hrun
  obtain ⟨rfl, rfl⟩ := Prod.mk.inj (Except.ok.inj hrun)
  exact ⟨h, htokens⟩

theorem keeps_pure (a : α) : Keeps (pure a) :=
  yields_pure trivial

theorem yields_throw (e : ReadError) : Yields P (throw e) := by
  intro tokens _ a rest hrun
  cases hrun

theorem Yields.bind {x : Reader α} {k : α → Reader β} (hx : Yields P x)
    (hk : ∀ a, P a → Yields Q (k a)) : Yields Q (x >>= k) := by
  intro tokens htokens b rest hrun
  rw [StateT.run_bind] at hrun
  cases hfirst : StateT.run x tokens with
  | error e =>
    rw [hfirst] at hrun
    cases hrun
  | ok result =>
    rw [hfirst] at hrun
    obtain ⟨ha, hleft⟩ := hx tokens htokens result.1 result.2 hfirst
    exact hk result.1 ha result.2 hleft b rest hrun

theorem Yields.keeps {x : Reader α} (hx : Yields P x) : Keeps x :=
  fun tokens htokens a rest hrun => ⟨trivial, (hx tokens htokens a rest hrun).2⟩

theorem Keeps.bind {x : Reader α} {k : α → Reader β} (hx : Keeps x) (hk : ∀ a, Yields Q (k a)) :
    Yields Q (x >>= k) :=
  Yields.bind hx fun a _ => hk a

/-- Nothing has to be said about the items of a list. -/
theorem Yields.all {x : Reader (List α)} (hx : Keeps x) :
    Yields (fun items => ∀ a ∈ items, True) x :=
  fun tokens htokens a rest hrun => ⟨fun _ _ => trivial, (hx tokens htokens a rest hrun).2⟩

/-- A reader may look at the tokens. -/
theorem yields_get : Yields AreProper (get : Reader (List Token)) := by
  intro tokens htokens a rest hrun
  obtain ⟨rfl, rfl⟩ := Prod.mk.inj (Except.ok.inj hrun)
  exact ⟨htokens, htokens⟩

/-! ### Single tokens -/

theorem yields_reject : Yields P reject := by
  refine yields_get.keeps.bind fun tokens => ?_
  split
  · exact yields_throw _
  · exact yields_throw _

theorem yields_overLimit (mayFollow : Token → Bool) : Yields P (overLimit mayFollow) := by
  refine yields_get.keeps.bind fun tokens => ?_
  split
  · split
    · exact yields_throw _
    · exact yields_reject
  · exact yields_reject

theorem yields_peek : Yields (fun token => ∀ t, token = some t → t.IsProper) peek := by
  refine yields_get.bind fun tokens htokens => yields_pure fun t ht => ?_
  exact htokens t (List.mem_of_mem_head? ht)

theorem keeps_advance : Keeps advance := by
  intro tokens htokens a rest hrun
  obtain ⟨-, rfl⟩ := Prod.mk.inj (Except.ok.inj hrun)
  exact ⟨trivial, fun t ht => htokens t (List.mem_of_mem_tail ht)⟩

theorem keeps_accept (m : Mark) : Keeps (accept m) := by
  refine Keeps.bind (yields_peek.keeps.bind fun _ => keeps_pure _) fun found => ?_
  split
  · exact keeps_advance.bind fun _ => keeps_pure true
  · exact keeps_pure false

theorem keeps_acceptName (text : String) : Keeps (acceptName text) := by
  refine Keeps.bind (yields_peek.keeps.bind fun _ => keeps_pure _) fun found => ?_
  split
  · exact keeps_advance.bind fun _ => keeps_pure true
  · exact keeps_pure false

theorem keeps_expect (m : Mark) : Keeps (expect m) := by
  refine (keeps_accept m).bind fun found => ?_
  split
  · exact keeps_pure _
  · exact yields_reject

theorem keeps_expectName (text : String) : Keeps (expectName text) := by
  refine (keeps_acceptName text).bind fun found => ?_
  split
  · exact keeps_pure _
  · exact yields_reject

/-- A name has the form of one. -/
theorem yields_name : Yields Text.IsName name := by
  refine yields_peek.bind fun token htoken => ?_
  split
  · exact keeps_advance.bind fun _ => yields_pure (htoken _ rfl)
  · exact yields_reject

/-! ### Repetition -/

theorem yields_repeatFor {more : List Token → Bool} {item : Reader α} (h : Yields P item)
    (times : Nat) : Yields (fun items => ∀ a ∈ items, P a) (repeatFor more item times) := by
  induction times with
  | zero => exact yields_pure fun _ ha => absurd ha List.not_mem_nil
  | succ times ih =>
    refine yields_get.keeps.bind fun tokens => ?_
    split
    · exact h.bind fun first hfirst => ih.bind fun others hothers =>
        yields_pure (List.forall_mem_cons.mpr ⟨hfirst, hothers⟩)
    · exact yields_pure fun _ ha => absurd ha List.not_mem_nil

theorem yields_repeatWhile {more : List Token → Bool} {item : Reader α} (h : Yields P item) :
    Yields (fun items => ∀ a ∈ items, P a) (repeatWhile more item) :=
  yields_get.keeps.bind fun _ => yields_repeatFor h _

theorem yields_upTo {close : Mark} {item : Reader α} (h : Yields P item) :
    Yields (fun items => ∀ a ∈ items, P a) (upTo close item) :=
  (yields_repeatWhile h).bind fun _ hitems => (keeps_expect close).bind fun _ => yields_pure hitems

theorem yields_someUpTo {close : Mark} {item : Reader α} (h : Yields P item) :
    Yields (fun items => ∀ a ∈ items, P a) (someUpTo close item) := by
  refine Keeps.bind (yields_peek.keeps.bind fun _ => keeps_pure _) fun found => ?_
  split
  · exact yields_reject
  · exact yields_upTo h

theorem yields_optionalGroup {openMark : Mark} {items : Reader (List α)}
    (h : Yields (fun items => ∀ a ∈ items, P a) items) :
    Yields (fun items => ∀ a ∈ items, P a) (optionalGroup openMark items) := by
  refine (keeps_accept openMark).bind fun found => ?_
  split
  · exact h
  · exact yields_pure fun _ ha => absurd ha List.not_mem_nil

theorem keeps_separatedNames {separator : Mark} {item : Reader String} (h : Keeps item) :
    Keeps (separatedNames separator item) :=
  (keeps_accept separator).bind fun _ => h.bind fun _ =>
    (yields_repeatWhile ((keeps_expect separator).bind fun _ => h)).bind fun _ _ => keeps_pure _

/-! ### At least one item -/

/-- A sequence of readers gives a result if each of them does. -/
theorem of_run_bind {x : Reader α} {k : α → Reader β} {tokens rest : List Token} {b : β}
    (h : StateT.run (x >>= k) tokens = .ok (b, rest)) :
    ∃ a left, StateT.run x tokens = .ok (a, left) ∧ StateT.run (k a) left = .ok (b, rest) := by
  rw [StateT.run_bind] at h
  cases hfirst : StateT.run x tokens with
  | error e =>
    rw [hfirst] at h
    cases h
  | ok result =>
    rw [hfirst] at h
    exact ⟨result.1, result.2, rfl, h⟩

theorem run_reject_ne {tokens rest : List Token} {a : α} :
    StateT.run (reject : Reader α) tokens ≠ .ok (a, rest) := by
  intro h
  obtain ⟨state, left, hstate, h⟩ := of_run_bind h
  split at h <;> cases h

/-- Something stands before the closing mark. -/
theorem ne_nil_of_run_someUpTo {close : Mark} {item : Reader α} {tokens rest : List Token}
    {items : List α} (h : StateT.run (someUpTo close item) tokens = .ok (items, rest)) :
    items ≠ [] := by
  obtain ⟨found, left, hfound, h⟩ := of_run_bind h
  obtain ⟨rfl, rfl⟩ := Prod.mk.inj (Except.ok.inj hfound)
  split at h
  · exact absurd h run_reject_ne
  · rename_i hclose
    obtain ⟨read, left, hread, h⟩ := of_run_bind h
    obtain ⟨_, left', hexpect, h⟩ := of_run_bind h
    obtain ⟨rfl, rfl⟩ := Prod.mk.inj (Except.ok.inj h)
    cases tokens with
    | nil =>
      -- without tokens the closing mark is missing
      cases hread
      cases hexpect
    | cons t tokens =>
      obtain ⟨state, _, hstate, hread⟩ := of_run_bind hread
      obtain ⟨rfl, rfl⟩ := Prod.mk.inj (Except.ok.inj hstate)
      obtain ⟨state, _, hstate, hread⟩ := of_run_bind hread
      obtain ⟨rfl, rfl⟩ := Prod.mk.inj (Except.ok.inj hstate)
      split at hread
      · obtain ⟨first, _, -, hread⟩ := of_run_bind hread
        obtain ⟨others, _, -, hread⟩ := of_run_bind hread
        obtain ⟨rfl, -⟩ := Prod.mk.inj (Except.ok.inj hread)
        exact List.cons_ne_nil first others
      · rename_i hmore
        exact absurd (by simpa using hmore) hclose

/-! ### Whole texts -/

/-- A text that can be read is used up. -/
theorem run_eq_ok {reader : Reader α} {text : String} {value : α}
    (h : Reader.run reader text = .ok value) :
    StateT.run reader (Token.scan text) = .ok (value, []) := by
  rw [Reader.run] at h
  cases hrun : StateT.run reader (Token.scan text) with
  | error e =>
    rw [hrun] at h
    cases h
  | ok result =>
    obtain ⟨found, rest⟩ := result
    rw [hrun] at h
    cases rest with
    | nil =>
      obtain rfl := Except.ok.inj h
      rfl
    | cons t rest => cases t <;> cases h

theorem Yields.of_run {reader : Reader α} {text : String} {value : α} (h : Yields P reader)
    (hrun : Reader.run reader text = .ok value) : P value :=
  (h _ Token.isProper_scanFor value [] (run_eq_ok hrun)).1

end Reader

open Reader

/-! ## Literals and directives -/

/-- Every part of a literal is something that a document can write. -/
inductive Literal.IsProper : Literal → Prop where
  | null : IsProper .null
  | int {n : Int} (h : isHeld n = true) : IsProper (.int n)
  | float (x : Number.Binary64) : IsProper (.float x)
  | string {s : String} (h : Text.IsBasicText s) : IsProper (.string s)
  | boolean (b : Bool) : IsProper (.boolean b)
  | enum {name : String} (h : Text.IsName name) (hword : name ∉ ["true", "false", "null"]) :
    IsProper (.enum name)
  | list {items : List Literal} (h : ∀ item ∈ items, IsProper item) : IsProper (.list items)
  | object {fields : List (String × Literal)} (hnames : ∀ f ∈ fields, Text.IsName f.1)
    (h : ∀ f ∈ fields, IsProper f.2) : IsProper (.object fields)
  | variable {name : String} (h : Text.IsName name) : IsProper (.variable name)

/-- A named literal is proper. -/
def Literal.IsProperField (field : String × Literal) : Prop :=
  Text.IsName field.1 ∧ field.2.IsProper

theorem Literal.isProper_ofName {text : String} (h : Text.IsName text) : (ofName text).IsProper := by
  unfold ofName
  split
  · exact .boolean true
  · split
    · exact .boolean false
    · split
      · exact .null
      · rename_i htrue hfalse hnull
        exact .enum h (by simp [htrue, hfalse, hnull])

theorem Literal.yields_readQuoted {raw : List Char} (h : (Token.string raw).IsProper) :
    Yields Text.IsBasicText (readQuoted raw) := by
  refine keeps_advance.bind fun _ => ?_
  split
  · rename_i cs hcs
    refine yields_pure ?_
    rw [Text.IsBasicText, String.toList_ofList]
    exact h cs hcs
  · exact yields_reject

theorem Literal.yields_readFor (allowVariables : Bool) (depth : Nat) :
    Yields IsProper (readFor allowVariables depth) := by
  induction depth with
  | zero => exact yields_reject
  | succ depth ih =>
    refine yields_peek.bind fun token htoken => ?_
    -- one case for each token that starts a literal, in the order of the reader
    split
    · exact (yields_readQuoted (htoken _ rfl)).bind fun _ hs => yields_pure (.string hs)
    · refine keeps_advance.bind fun _ => ?_
      split
      · rename_i cs hcs
        refine yields_pure (.string ?_)
        rw [Text.IsBasicText, String.toList_ofList]
        exact Text.isBasic_of_blockValue? (htoken _ rfl) hcs
      · exact yields_overLimit _
    · refine keeps_advance.bind fun _ => ?_
      split
      · rename_i hheld
        exact yields_pure (.int hheld)
      · exact yields_overLimit _
    · exact keeps_advance.bind fun _ => yields_pure (.float _)
    · exact keeps_advance.bind fun _ => yields_pure (isProper_ofName (htoken _ rfl))
    · exact keeps_advance.bind fun _ => (yields_upTo ih).bind fun _ hitems =>
        yields_pure (.list hitems)
    · have hfield := yields_name.bind fun name hname => (keeps_expect .colon).bind fun _ =>
        ih.bind fun value hvalue => yields_pure (P := IsProperField) (a := (name, value))
          ⟨hname, hvalue⟩
      exact keeps_advance.bind fun _ => (yields_upTo hfield).bind fun _ hfields =>
        yields_pure (.object (fun f hf => (hfields f hf).1) fun f hf => (hfields f hf).2)
    · refine keeps_advance.bind fun _ => yields_name.bind fun name hname => ?_
      split
      · exact yields_pure (.variable hname)
      · exact yields_reject
    · exact yields_reject

theorem Literal.yields_read (allowVariables : Bool) : Yields IsProper (read allowVariables) :=
  yields_get.keeps.bind fun _ => yields_readFor allowVariables _

/-- A description holds only characters that may stand between its quotes. -/
def Description.IsProper : Description → Prop
  | .quoted text => Text.IsBasicText text
  | .block raw => ∀ c ∈ raw, Text.isPlainInBlock c = true

theorem Description.IsProper.isBasicText_text {d : Description} (h : d.IsProper) {text : String}
    (htext : d.text? = some text) : Text.IsBasicText text := by
  cases d with
  | quoted s =>
    obtain rfl := Option.some.inj htext
    exact h
  | block raw =>
    obtain ⟨cs, hcs, rfl⟩ := Option.map_eq_some_iff.mp htext
    rw [Text.IsBasicText, String.toList_ofList]
    exact Text.isBasic_of_blockValue? h hcs

theorem Description.yields_readOptional :
    Yields (fun description => ∀ d, description = some d → d.IsProper) readOptional := by
  refine yields_peek.bind fun token htoken => ?_
  split
  · refine (Literal.yields_readQuoted (htoken _ rfl)).bind fun s hs => yields_pure ?_
    rintro d ⟨⟩
    exact hs
  · refine keeps_advance.bind fun _ => yields_pure ?_
    rintro d ⟨⟩
    exact htoken _ rfl
  · exact yields_pure nofun

theorem Directive.yields_readArgument (allowVariables : Bool) :
    Yields Literal.IsProperField (readArgument allowVariables) :=
  yields_name.bind fun _ hname => (keeps_expect .colon).bind fun _ =>
    (Literal.yields_read allowVariables).bind fun _ hvalue => yields_pure ⟨hname, hvalue⟩

theorem Directive.keeps_readAll (allowVariables : Bool) : Keeps (readAll allowVariables) := by
  refine Yields.keeps (yields_repeatWhile (P := fun _ => True) ?_)
  exact (keeps_expect .atSign).bind fun _ => yields_name.keeps.bind fun _ =>
    (yields_optionalGroup (yields_upTo (Directive.yields_readArgument allowVariables))).bind
      fun _ _ => keeps_pure _

/-! ## Selections -/

/-- Every part of a selection is something that a document can write. -/
inductive RawSelection.IsProper : RawSelection → Prop where
  | field {name : String} {arguments : List (String × Literal)} {selections : List RawSelection}
    (hname : Text.IsName name) (harguments : ∀ a ∈ arguments, Literal.IsProperField a)
    (h : ∀ s ∈ selections, IsProper s) : IsProper (.field name arguments selections)
  | inlineFragment {condition : Option String} {selections : List RawSelection}
    (hcondition : ∀ name, condition = some name → Text.IsName name) (hne : selections ≠ [])
    (h : ∀ s ∈ selections, IsProper s) : IsProper (.inlineFragment condition selections)
  | fragmentSpread (name : String) : IsProper (.fragmentSpread name)

/-- Selections in braces are proper, and there are some. -/
def AreProperSelections (selections : List RawSelection) : Prop :=
  selections ≠ [] ∧ ∀ s ∈ selections, s.IsProper

theorem yields_readFragment {selectionSet : Reader (List RawSelection)}
    (h : Yields AreProperSelections selectionSet) :
    Yields RawSelection.IsProper (readFragment selectionSet) := by
  have hdirectives := Directive.keeps_readAll true
  refine yields_peek.keeps.bind fun token => ?_
  split
  · exact keeps_advance.bind fun _ => yields_name.bind fun condition hcondition =>
      hdirectives.bind fun _ => h.bind fun selections hselections => yields_pure <|
        .inlineFragment (fun _ hname => Option.some.inj hname ▸ hcondition) hselections.1
          hselections.2
  · exact keeps_advance.bind fun _ => hdirectives.bind fun _ => yields_pure (.fragmentSpread _)
  · exact hdirectives.bind fun _ => h.bind fun selections hselections => yields_pure <|
      .inlineFragment nofun hselections.1 hselections.2

theorem yields_readField {selectionSet : Reader (List RawSelection)}
    (h : Yields AreProperSelections selectionSet) :
    Yields RawSelection.IsProper (readField selectionSet) := by
  -- what is read behind the name, with and without an alias
  have hbehind : ∀ name, Text.IsName name → Yields RawSelection.IsProper (do
      let arguments ←
        Reader.optionalGroup .parenOpen (Reader.upTo .parenClose (Directive.readArgument true))
      let _ ← Directive.readAll true
      let selections ← if ← Reader.atMark .braceOpen then selectionSet else pure []
      return .field name arguments selections) := by
    intro name hname
    refine (yields_optionalGroup (yields_upTo (Directive.yields_readArgument true))).bind
      fun arguments harguments => (Directive.keeps_readAll true).bind fun _ => ?_
    refine Keeps.bind (yields_peek.keeps.bind fun _ => keeps_pure _) fun isBraced => ?_
    split
    · exact h.bind fun _ hselections => yields_pure (.field hname harguments hselections.2)
    · exact yields_pure (.field hname harguments fun _ hs => absurd hs List.not_mem_nil)
  refine yields_name.bind fun first hfirst => (keeps_accept .colon).bind fun isAlias => ?_
  dsimp only
  split
  · exact yields_name.bind hbehind
  · exact hbehind first hfirst

theorem yields_readSelectionSetFor (depth : Nat) :
    Yields AreProperSelections (readSelectionSetFor depth) := by
  induction depth with
  | zero => exact yields_reject
  | succ depth ih =>
    refine (keeps_expect .braceOpen).bind fun _ => ?_
    have hselection : Yields RawSelection.IsProper (do
        if ← Reader.accept .spread then readFragment (readSelectionSetFor depth)
        else readField (readSelectionSetFor depth)) := by
      refine (keeps_accept .spread).bind fun isFragment => ?_
      split
      · exact yields_readFragment ih
      · exact yields_readField ih
    intro tokens htokens selections rest hrun
    obtain ⟨hall, hrest⟩ := yields_someUpTo hselection tokens htokens selections rest hrun
    exact ⟨⟨ne_nil_of_run_someUpTo hrun, hall⟩, hrest⟩

theorem yields_readSelectionSet : Yields AreProperSelections readSelectionSet :=
  yields_get.keeps.bind fun _ => yields_readSelectionSetFor _

end Federation.Document
