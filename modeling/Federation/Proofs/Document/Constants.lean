import Federation.Proofs.Document.Runs
import Federation.Supergraph.Render
import Federation.Value

/-!
# Constants from their texts

A constant is written as a word for its tokens, and these tokens are read as the literal for it, with
whatever stands behind it left alone. So the text of a constant without floats stands for the constant:
wherever a document holds such a constant, and for all arguments of the directives in a supergraph.
-/

namespace Federation

open Document Document.Reader

/-! ## The literal for a constant -/

namespace Value

mutual

/-- The literal that writes a value. -/
def toLiteral : Value → Literal
  | .null => .null
  | .int n => .int n
  | .float x => .float x
  | .string s => .string s
  | .boolean b => .boolean b
  | .enum name => .enum name
  | .list items => .list (toLiterals items)
  | .object fields => .object (toFields fields)

/-- The literals that write the items of a list. -/
def toLiterals : List Value → List Literal
  | [] => []
  | first :: others => toLiteral first :: toLiterals others

/-- The named literals that write the fields of an object. -/
def toFields : List (String × Value) → List (String × Literal)
  | [] => []
  | (name, first) :: others => (name, toLiteral first) :: toFields others

end

@[simp] theorem toLiterals_eq_map (items : List Value) : toLiterals items = items.map toLiteral := by
  induction items with
  | nil => rw [toLiterals, List.map_nil]
  | cons first others ih => rw [toLiterals, ih, List.map_cons]

/-- A field with its literal. -/
def toField (field : String × Value) : String × Literal :=
  (field.1, field.2.toLiteral)

@[simp] theorem toFields_eq_map (fields : List (String × Value)) :
    toFields fields = fields.map toField := by
  induction fields with
  | nil => rw [toFields, List.map_nil]
  | cons first others ih => rw [toFields, ih, List.map_cons, toField]

mutual

theorem ofLiteral?_toLiteral (v : Value) : ofLiteral? v.toLiteral = some v := by
  cases v with
  | list items =>
    rw [toLiteral, ofLiteral?, ofLiterals?_toLiterals items]
    rfl
  | object fields =>
    rw [toLiteral, ofLiteral?, ofFields?_toFields fields]
    rfl
  | null => rw [toLiteral, ofLiteral?]
  | int n => rw [toLiteral, ofLiteral?]
  | float x => rw [toLiteral, ofLiteral?]
  | string s => rw [toLiteral, ofLiteral?]
  | boolean b => rw [toLiteral, ofLiteral?]
  | enum name => rw [toLiteral, ofLiteral?]

theorem ofLiterals?_toLiterals (items : List Value) :
    ofLiterals? (toLiterals items) = some items := by
  cases items with
  | nil => rw [toLiterals, ofLiterals?]
  | cons first others =>
    rw [toLiterals, ofLiterals?, ofLiteral?_toLiteral first, ofLiterals?_toLiterals others]
    rfl

theorem ofFields?_toFields (fields : List (String × Value)) :
    ofFields? (toFields fields) = some fields := by
  match fields with
  | [] => rw [toFields, ofFields?]
  | (name, first) :: others =>
    rw [toFields, ofFields?, ofLiteral?_toLiteral first, ofFields?_toFields others]
    rfl

end

mutual

theorem eq_toLiteral {l : Literal} {v : Value} (h : ofLiteral? l = some v) : l = v.toLiteral := by
  cases l with
  | list items =>
    rw [ofLiteral?] at h
    obtain ⟨vs, hvs, rfl⟩ := Option.map_eq_some_iff.mp h
    rw [toLiteral, eq_toLiterals hvs]
  | object fields =>
    rw [ofLiteral?] at h
    obtain ⟨vs, hvs, rfl⟩ := Option.map_eq_some_iff.mp h
    rw [toLiteral, eq_toFields hvs]
  | «variable» name =>
    -- no constant
    rw [ofLiteral?] at h
    cases h
  | null | int n | float x | string s | boolean b | enum name =>
    rw [ofLiteral?] at h
    obtain rfl := Option.some.inj h
    rw [toLiteral]

theorem eq_toLiterals {ls : List Literal} {vs : List Value} (h : ofLiterals? ls = some vs) :
    ls = toLiterals vs := by
  cases ls with
  | nil =>
    rw [ofLiterals?] at h
    obtain rfl := Option.some.inj h
    rw [toLiterals]
  | cons first others =>
    rw [ofLiterals?] at h
    obtain ⟨v, hv, h⟩ := Option.bind_eq_some_iff.mp h
    obtain ⟨vs', hvs', h⟩ := Option.bind_eq_some_iff.mp h
    obtain rfl := Option.some.inj h
    rw [toLiterals, eq_toLiteral hv, eq_toLiterals hvs']

theorem eq_toFields {fields : List (String × Literal)} {vs : List (String × Value)}
    (h : ofFields? fields = some vs) : fields = toFields vs := by
  match fields with
  | [] =>
    rw [ofFields?] at h
    obtain rfl := Option.some.inj h
    rw [toFields]
  | (name, first) :: others =>
    rw [ofFields?] at h
    obtain ⟨v, hv, h⟩ := Option.bind_eq_some_iff.mp h
    obtain ⟨vs', hvs', h⟩ := Option.bind_eq_some_iff.mp h
    obtain rfl := Option.some.inj h
    rw [toFields, eq_toLiteral hv, eq_toFields hvs']

end

/-- No part of the constant is a float. -/
inductive IsFloatFree : Value → Prop where
  | null : IsFloatFree .null
  | int (n : Int) : IsFloatFree (.int n)
  | string (s : String) : IsFloatFree (.string s)
  | boolean (b : Bool) : IsFloatFree (.boolean b)
  | enum (name : String) : IsFloatFree (.enum name)
  | list {items : List Value} (h : ∀ item ∈ items, IsFloatFree item) : IsFloatFree (.list items)
  | object {fields : List (String × Value)} (h : ∀ f ∈ fields, IsFloatFree f.2) :
    IsFloatFree (.object fields)

/-! ## Tokens of a constant -/

mutual

/-- The tokens that a value is written with. -/
def tokens : Value → List Token
  | .null => [.name "null"]
  | .int n => [.int n]
  | .float x => [.float x]
  | .string s => [.string (Text.escape s.toList)]
  | .boolean true => [.name "true"]
  | .boolean false => [.name "false"]
  | .enum name => [.name name]
  | .list items => .mark .bracketOpen :: (itemTokens items ++ [.mark .bracketClose])
  | .object fields => .mark .braceOpen :: (fieldTokens fields ++ [.mark .braceClose])

/-- The tokens of the items of a list. -/
def itemTokens : List Value → List Token
  | [] => []
  | first :: others => tokens first ++ itemTokens others

/-- The tokens of the fields of an object. -/
def fieldTokens : List (String × Value) → List Token
  | [] => []
  | (name, first) :: others =>
    .name name :: .mark .colon :: (tokens first ++ fieldTokens others)

end

@[simp] theorem itemTokens_eq_flatMap (items : List Value) :
    itemTokens items = items.flatMap tokens := by
  induction items with
  | nil => rw [itemTokens, List.flatMap_nil]
  | cons first others ih => rw [itemTokens, ih, List.flatMap_cons]

/-- The tokens of a field. -/
def tokensOfField (field : String × Value) : List Token :=
  .name field.1 :: .mark .colon :: field.2.tokens

@[simp] theorem fieldTokens_eq_flatMap (fields : List (String × Value)) :
    fieldTokens fields = fields.flatMap tokensOfField := by
  induction fields with
  | nil => rw [fieldTokens, List.flatMap_nil]
  | cons first others ih => rw [fieldTokens, ih, List.flatMap_cons, tokensOfField]; rfl

/-- The text of a field. -/
def textOfField (field : String × Value) : String :=
  field.1 ++ ": " ++ field.2.text

@[simp] theorem fieldTexts_eq_map (fields : List (String × Value)) :
    fieldTexts fields = fields.map textOfField := by
  induction fields with
  | nil => rw [fieldTexts, List.map_nil]
  | cons first others ih => rw [fieldTexts, ih, List.map_cons, textOfField]

/-! ## From the text to the tokens -/

theorem isName_null : Text.IsName "null" :=
  ⟨'n', ['u', 'l', 'l'], rfl, rfl, List.all_eq_true.mp rfl⟩

theorem isName_true : Text.IsName "true" :=
  ⟨'t', ['r', 'u', 'e'], rfl, rfl, List.all_eq_true.mp rfl⟩

theorem isName_false : Text.IsName "false" :=
  ⟨'f', ['a', 'l', 's', 'e'], rfl, rfl, List.all_eq_true.mp rfl⟩

/-- A field is spelled as its name, a colon and its value. -/
theorem spells_textOfField {field : String × Value} (hname : Text.IsName field.1)
    (h : Token.Spells field.2.text.toList field.2.tokens) :
    Token.Spells (textOfField field).toList (tokensOfField field) := by
  have hvalue := (h.separator (c := ' ') rfl).mark (c := ':') rfl
  have hfield := (Token.Spells.name hname).append (Token.breaks_of_markOf? (c := ':') rfl _) hvalue
  rw [textOfField, tokensOfField, String.toList_append, String.toList_append, List.append_assoc]
  exact hfield

/-- Words between commas and marks around them. -/
theorem spells_group {α : Type} {text : α → String} {tokens : α → List Token} {items : List α}
    (h : ∀ a ∈ items, Token.Spells (text a).toList (tokens a)) (c c' : Char) {m m' : Mark}
    (hc : Token.markOf? c = some m) (hc' : Token.markOf? c' = some m') :
    Token.Spells (c :: ((", ".intercalate (items.map text)).toList ++ [c']))
      (.mark m :: (items.flatMap tokens ++ [.mark m'])) := by
  have hitems : Token.Spells ([',', ' '].intercalate (items.map fun a => (text a).toList))
      (items.flatMap tokens) :=
    Token.Spells.intercalate h rfl (List.forall_mem_singleton.mpr rfl)
  refine Token.Spells.mark hc (Token.Spells.append_mark ?_ hc')
  rw [String.toList_intercalate, List.map_map]
  exact hitems

/-- **A constant is spelled as its tokens.** -/
theorem spells_text {v : Value} (hfree : v.IsFloatFree) (h : v.toLiteral.IsProper) :
    Token.Spells v.text.toList v.tokens := by
  induction hfree with
  | null =>
    rw [text, tokens]
    exact .name isName_null
  | int n =>
    rw [text, tokens]
    exact .int n
  | string s =>
    rw [toLiteral] at h
    cases h with
    | string h =>
      rw [text, tokens]
      exact .quote h
  | boolean b =>
    cases b with
    | true =>
      rw [text, tokens]
      exact .name isName_true
    | false =>
      rw [text, tokens]
      exact .name isName_false
  | enum name =>
    rw [toLiteral] at h
    cases h with
    | enum h hword =>
      rw [text, tokens]
      exact .name h
  | @list items _ ih =>
    rw [toLiteral, toLiterals_eq_map] at h
    cases h with
    | list h =>
      have hitems : ∀ v ∈ items, Token.Spells v.text.toList v.tokens := by
        intro v hv
        exact ih v hv (h _ (List.mem_map_of_mem hv))
      have hgroup := spells_group hitems '[' ']' rfl rfl
      rw [text, tokens, itemTexts_eq_map, itemTokens_eq_flatMap, String.toList_append,
        String.toList_append]
      exact hgroup
  | @object fields _ ih =>
    rw [toLiteral, toFields_eq_map] at h
    cases h with
    | object hnames h =>
      have hfields : ∀ f ∈ fields, Token.Spells (textOfField f).toList (tokensOfField f) := by
        intro f hf
        have hmem : toField f ∈ fields.map toField := List.mem_map_of_mem hf
        exact spells_textOfField (hnames _ hmem) (ih f hf (h _ hmem))
      have hgroup := spells_group hfields '\x7b' '\x7d' rfl rfl
      rw [text, tokens, fieldTexts_eq_map, fieldTokens_eq_flatMap, String.toList_append,
        String.toList_append]
      exact hgroup

/-! ## From the tokens to the literal -/

/-- A constant takes at least one token, and never starts with a closing mark. -/
theorem exists_tokens_eq_cons (v : Value) :
    ∃ t ts, v.tokens = t :: ts ∧ t ≠ .mark .bracketClose := by
  cases v with
  | boolean b =>
    cases b <;> rw [tokens] <;> exact ⟨_, _, rfl, nofun⟩
  | null | int n | float x | string s | enum name | list items | object fields =>
    rw [tokens]
    exact ⟨_, _, rfl, nofun⟩

/-- Reading a constant takes a level at least. -/
theorem exists_eq_succ_of_tokens_le {v : Value} {depth : Nat} (h : v.tokens.length ≤ depth) :
    ∃ depth', depth = depth' + 1 := by
  obtain ⟨t, ts, hts, -⟩ := exists_tokens_eq_cons v
  rw [hts, List.length_cons] at h
  exact Nat.exists_eq_succ_of_ne_zero (by omega)

/-- The tokens between marks are fewer than those with the marks. -/
theorem length_le_of_group {t t' : Token} {ts : List Token} {depth : Nat}
    (h : (t :: (ts ++ [t'])).length ≤ depth + 1) : ts.length ≤ depth := by
  rw [List.length_cons, List.length_append] at h
  omega

theorem ofName_of_notMem {name : String} (h : name ∉ ["true", "false", "null"]) :
    Literal.ofName name = .enum name := by
  have hne : name ≠ "true" ∧ name ≠ "false" ∧ name ≠ "null" := by simpa using h
  rw [Literal.ofName, if_neg hne.1, if_neg hne.2.1, if_neg hne.2.2]

/-- The reader of a field of an object. -/
def fieldReader (value : Reader Literal) : Reader (String × Literal) := do
  let name ← Reader.name
  Reader.expect .colon
  return (name, ← value)

theorem run_fieldReader {value : Reader Literal} {field : String × Value} {rest : List Token}
    (h : StateT.run value (field.2.tokens ++ rest) = .ok (field.2.toLiteral, rest)) :
    StateT.run (fieldReader value) (tokensOfField field ++ rest) = .ok (toField field, rest) := by
  rw [tokensOfField, List.cons_append, List.cons_append, fieldReader, run_bind_ok (run_name _ _),
    run_bind_ok (run_expect _ _), run_bind_ok h]
  rfl

section Step

variable (allowVariables : Bool) (depth : Nat) {left rest : List Token}

theorem run_readFor_name (name : String) :
    StateT.run (Literal.readFor allowVariables (depth + 1)) (.name name :: rest) =
      .ok (Literal.ofName name, rest) :=
  rfl

theorem run_readFor_int {n : Int} (h : Literal.isHeld n = true) :
    StateT.run (Literal.readFor allowVariables (depth + 1)) (.int n :: rest) =
      .ok (.int n, rest) := by
  rw [Literal.readFor, run_bind_ok (run_peek _ _)]
  dsimp only
  rw [run_bind_ok (run_advance _ _), if_pos h]
  rfl

theorem run_readFor_string {raw s : List Char} (h : Text.unescape? raw = some s) :
    StateT.run (Literal.readFor allowVariables (depth + 1)) (.string raw :: rest) =
      .ok (.string (String.ofList s), rest) := by
  have hquoted : StateT.run (Literal.readQuoted raw) (.string raw :: rest) =
      .ok (String.ofList s, rest) := by
    rw [Literal.readQuoted, run_bind_ok (run_advance _ _), h]
    rfl
  rw [Literal.readFor, run_bind_ok (run_peek _ _)]
  dsimp only
  rw [run_bind_ok hquoted]
  rfl

theorem run_readFor_list {items : List Literal}
    (h : StateT.run (upTo .bracketClose (Literal.readFor allowVariables depth)) left =
      .ok (items, rest)) :
    StateT.run (Literal.readFor allowVariables (depth + 1)) (.mark .bracketOpen :: left) =
      .ok (.list items, rest) := by
  rw [Literal.readFor, run_bind_ok (run_peek _ _)]
  dsimp only
  rw [run_bind_ok (run_advance _ _), run_bind_ok h]
  rfl

theorem run_readFor_object {fields : List (String × Literal)}
    (h : StateT.run (upTo .braceClose (fieldReader (Literal.readFor allowVariables depth))) left =
      .ok (fields, rest)) :
    StateT.run (Literal.readFor allowVariables (depth + 1)) (.mark .braceOpen :: left) =
      .ok (.object fields, rest) := by
  rw [Literal.readFor, run_bind_ok (run_peek _ _)]
  dsimp only
  rw [run_bind_ok (run_advance _ _)]
  exact run_bind_ok h

end Step

theorem length_le_of_mem {α : Type} {tokens : α → List Token} {items : List α} {a : α}
    (h : a ∈ items) : (tokens a).length ≤ (items.flatMap tokens).length :=
  (List.sublist_flatten_of_mem (List.mem_map_of_mem h)).length_le

/-- **The tokens of a constant are read as its literal.** What stands behind them is left. -/
theorem run_readFor (allowVariables : Bool) {v : Value} (hfree : v.IsFloatFree)
    (h : v.toLiteral.IsProper) {depth : Nat} (hdepth : v.tokens.length ≤ depth)
    (rest : List Token) :
    StateT.run (Literal.readFor allowVariables depth) (v.tokens ++ rest) =
      .ok (v.toLiteral, rest) := by
  induction hfree generalizing depth rest with
  | null =>
    obtain ⟨depth, rfl⟩ := exists_eq_succ_of_tokens_le hdepth
    rw [tokens, toLiteral]
    exact run_readFor_name allowVariables depth "null"
  | boolean b =>
    obtain ⟨depth, rfl⟩ := exists_eq_succ_of_tokens_le hdepth
    cases b with
    | true =>
      rw [tokens, toLiteral]
      exact run_readFor_name allowVariables depth "true"
    | false =>
      rw [tokens, toLiteral]
      exact run_readFor_name allowVariables depth "false"
  | int n =>
    obtain ⟨depth, rfl⟩ := exists_eq_succ_of_tokens_le hdepth
    rw [toLiteral] at h
    cases h with
    | int h =>
      rw [tokens, toLiteral]
      exact run_readFor_int allowVariables depth h
  | string s =>
    obtain ⟨depth, rfl⟩ := exists_eq_succ_of_tokens_le hdepth
    rw [toLiteral] at h
    cases h with
    | string h =>
      have hread : StateT.run (Literal.readFor allowVariables (depth + 1))
          (.string (Text.escape s.toList) :: rest) = .ok (.string (String.ofList s.toList), rest) :=
        run_readFor_string allowVariables depth (Text.unescape?_escape h)
      rw [String.ofList_toList] at hread
      rw [tokens, toLiteral]
      exact hread
  | enum name =>
    obtain ⟨depth, rfl⟩ := exists_eq_succ_of_tokens_le hdepth
    rw [toLiteral] at h
    cases h with
    | enum h hword =>
      rw [tokens, toLiteral, ← ofName_of_notMem hword]
      exact run_readFor_name allowVariables depth name
  | @list items _ ih =>
    obtain ⟨depth, rfl⟩ := exists_eq_succ_of_tokens_le hdepth
    rw [toLiteral, toLiterals_eq_map] at h
    rw [tokens, itemTokens_eq_flatMap] at hdepth
    cases h with
    | list h =>
      have hread : ∀ v ∈ items, ∀ t rest, True →
          StateT.run (Literal.readFor allowVariables depth) (v.tokens ++ t :: rest) =
            .ok (v.toLiteral, t :: rest) := by
        intro v hv t rest _
        -- one level less is enough, since the marks around the items are tokens as well
        refine ih v hv (h _ (List.mem_map_of_mem hv)) ?_ _
        exact (length_le_of_mem hv).trans (length_le_of_group hdepth)
      have hstart : ∀ v ∈ items, ∃ t ts, v.tokens = t :: ts ∧ t ≠ .mark .bracketClose ∧ True := by
        intro v _
        obtain ⟨t, ts, hts, hne⟩ := exists_tokens_eq_cons v
        exact ⟨t, ts, hts, hne, trivial⟩
      have hitems := run_readFor_list allowVariables depth (run_upTo hread hstart trivial rest)
      rw [tokens, itemTokens_eq_flatMap, toLiteral, toLiterals_eq_map, List.cons_append,
        List.append_assoc]
      exact hitems
  | @object fields _ ih =>
    obtain ⟨depth, rfl⟩ := exists_eq_succ_of_tokens_le hdepth
    rw [toLiteral, toFields_eq_map] at h
    rw [tokens, fieldTokens_eq_flatMap] at hdepth
    cases h with
    | object hnames h =>
      have hread : ∀ f ∈ fields, ∀ t rest, True →
          StateT.run (fieldReader (Literal.readFor allowVariables depth))
            (tokensOfField f ++ t :: rest) = .ok (toField f, t :: rest) := by
        intro f hf t rest _
        refine run_fieldReader (ih f hf (h _ (List.mem_map_of_mem (f := toField) hf)) ?_ _)
        have hlength : (tokensOfField f).length ≤ (fields.flatMap tokensOfField).length :=
          length_le_of_mem hf
        rw [tokensOfField, List.length_cons, List.length_cons] at hlength
        have hgroup := length_le_of_group hdepth
        omega
      have hstart : ∀ f ∈ fields, ∃ t ts, tokensOfField f = t :: ts ∧
          t ≠ .mark .braceClose ∧ True := by
        intro f _
        exact ⟨_, _, rfl, nofun, trivial⟩
      have hfields := run_readFor_object allowVariables depth (run_upTo hread hstart trivial rest)
      rw [tokens, fieldTokens_eq_flatMap, toLiteral, toFields_eq_map, List.cons_append,
        List.append_assoc]
      exact hfields

/-- Of the text of a constant, nothing is left. -/
theorem read_text (allowVariables : Bool) {v : Value} (hfree : v.IsFloatFree)
    (h : v.toLiteral.IsProper) :
    Reader.run (Literal.read allowVariables) v.text = .ok v.toLiteral := by
  have hread := run_readFor allowVariables hfree h (Nat.le_refl v.tokens.length) []
  rw [List.append_nil] at hread
  rw [Reader.run, (spells_text hfree h).scan_eq, Literal.read,
    run_bind_ok (run_get _), hread]
  rfl

end Value

/-! ## Arguments of directives -/

namespace Supergraph.Value

mutual

/-- The value as a constant. -/
def constant : Supergraph.Value → Federation.Value
  | .string s => .string s
  | .int n => .int n
  | .boolean b => .boolean b
  | .enum name => .enum name
  | .list items => .list (constants items)

/-- The values as constants. -/
def constants : List Supergraph.Value → List Federation.Value
  | [] => []
  | first :: others => constant first :: constants others

end

mutual

/-- The value is written like the constant. -/
theorem text_constant (v : Supergraph.Value) : v.constant.text = v.text := by
  cases v with
  | list items =>
    rw [constant, Federation.Value.text, text, Federation.Value.itemTexts_eq_map,
      map_text_constants items]
  | boolean b => cases b <;> rw [constant, Federation.Value.text, text]
  | string s | int n | enum name => rw [constant, Federation.Value.text, text]

theorem map_text_constants (items : List Supergraph.Value) :
    (constants items).map Federation.Value.text = texts items := by
  cases items with
  | nil => rw [constants, texts, List.map_nil]
  | cons first others =>
    rw [constants, texts, List.map_cons, text_constant first, map_text_constants others]

end

mutual

theorem isFloatFree_constant (v : Supergraph.Value) : v.constant.IsFloatFree := by
  cases v with
  | list items =>
    rw [constant]
    exact .list (isFloatFree_constants items)
  | string s => exact .string s
  | int n => exact .int n
  | boolean b => exact .boolean b
  | enum name => exact .enum name

theorem isFloatFree_constants (items : List Supergraph.Value) :
    ∀ v ∈ constants items, v.IsFloatFree := by
  cases items with
  | nil => exact fun _ hv => absurd hv List.not_mem_nil
  | cons first others =>
    rw [constants]
    exact List.forall_mem_cons.mpr ⟨isFloatFree_constant first, isFloatFree_constants others⟩

end

mutual

/-- Different values are different constants. -/
theorem constant_injective {v w : Supergraph.Value} (h : v.constant = w.constant) : v = w := by
  cases v <;> cases w <;> simp only [constant] at h <;> first | cases h | skip
  · rfl
  · rfl
  · rfl
  · rfl
  · rename_i items items'
    rw [constants_injective (Federation.Value.list.inj h)]

theorem constants_injective {vs ws : List Supergraph.Value} (h : constants vs = constants ws) :
    vs = ws := by
  cases vs with
  | nil =>
    cases ws with
    | nil => rfl
    | cons w ws => cases h
  | cons v vs =>
    cases ws with
    | nil => cases h
    | cons w ws =>
      rw [constants, constants, List.cons.injEq] at h
      rw [constant_injective h.1, constants_injective h.2]

end

end Supergraph.Value

/-! ## Both ways of writing -/

/-- **Printed constants read back as themselves.** Any constant without floats that is read somewhere
in a document has a text from which the same literal is read, with nothing left over. So has every
argument of a directive in a supergraph whose strings hold characters of the basic plane, whose
integers can be held, and whose enum values are names other than `true`, `false` and `null`. In
particular a quoted string stands for the string. -/
theorem printed_constants_read_back :
    (∀ (document : String) (tokens rest : List Token) (allowVariables : Bool) (l : Literal)
      (v : Value), tokens <:+ Token.scan document →
        StateT.run (Literal.read allowVariables) tokens = .ok (l, rest) →
          Value.ofLiteral? l = some v → v.IsFloatFree →
            Reader.run (Literal.read false) v.text = .ok l) ∧
      (∀ v : Supergraph.Value, v.constant.toLiteral.IsProper →
        ∃ l, Reader.run (Literal.read false) v.text = .ok l ∧
          Value.ofLiteral? l = some v.constant) ∧
      Function.Injective Supergraph.Value.constant ∧
      ∀ cs : List Char, (∀ c ∈ cs, Text.IsBasic c) → Text.unescape? (Text.escape cs) = some cs := by
  refine ⟨?_, ?_, ?_, ?_⟩
  · intro document tokens rest allowVariables l v htokens hrun hl hfree
    have hproper : AreProper tokens := fun t ht => Token.isProper_scanFor t (htokens.subset ht)
    obtain ⟨h, -⟩ := Literal.yields_read allowVariables tokens hproper l rest hrun
    obtain rfl := Value.eq_toLiteral hl
    exact Value.read_text false hfree h
  · intro v h
    refine ⟨v.constant.toLiteral, ?_, Value.ofLiteral?_toLiteral v.constant⟩
    rw [← Supergraph.Value.text_constant]
    exact Value.read_text false v.isFloatFree_constant h
  · intro v w h
    exact Supergraph.Value.constant_injective h
  · intro cs h
    exact Text.unescape?_escape h

/-- A constant that nests, with a negative number and a string that needs escapes, from a document;
and lists of strings as an argument of a directive. -/
theorem printed_constants_read_back_nested :
    let v : Value := .list [.int (-3), .object [("on", .string "a\"\n")], .null]
    let scopes : Supergraph.Value := .list [.list [.string "read\t"], .list []]
    StateT.run (Literal.read false) (Token.scan "[-3 \x7b on: \"a\\u0022\\n\" \x7d, null] @a") =
        .ok (v.toLiteral, [.mark .atSign, .name "a"]) ∧
      Reader.run (Literal.read false) v.text = .ok v.toLiteral ∧
      ∃ l, Reader.run (Literal.read false) scopes.text = .ok l ∧
        Value.ofLiteral? l = some scopes.constant := by
  intro v scopes
  have hread : StateT.run (Literal.read false)
      (Token.scan "[-3 \x7b on: \"a\\u0022\\n\" \x7d, null] @a") =
        .ok (v.toLiteral, [.mark .atSign, .name "a"]) := by rfl
  have hobject : (Value.object [("on", .string "a\"\n")]).IsFloatFree :=
    .object (List.forall_mem_singleton.mpr (.string _))
  have hfree : v.IsFloatFree :=
    .list (List.forall_mem_cons.mpr
      ⟨.int _, List.forall_mem_cons.mpr ⟨hobject, List.forall_mem_singleton.mpr .null⟩⟩)
  have hstrings : (Literal.list [.string "read\t"]).IsProper := by
    refine .list fun l hl => ?_
    obtain rfl := List.mem_singleton.mp hl
    exact .string (by decide)
  have hscopes : scopes.constant.toLiteral.IsProper :=
    .list (List.forall_mem_cons.mpr ⟨hstrings, List.forall_mem_singleton.mpr (.list nofun)⟩)
  obtain ⟨hdocuments, harguments, -⟩ := printed_constants_read_back
  exact ⟨hread, hdocuments _ _ _ false _ v (List.suffix_refl _) hread rfl hfree,
    harguments scopes hscopes⟩

end Federation
