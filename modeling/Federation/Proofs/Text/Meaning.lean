import Federation.Proofs.Text.Block
import Mathlib.Data.List.DropRight

/-!
# What string literals denote

GraphQL has its own rules for the value of a string literal. Between quotes, escapes stand for
characters. In a block string, lines end at line feeds and carriage returns, only spaces and tabs are
indentation, and what all lines but the first share of it goes, as do blank lines at both ends.

A quoted string is written so that it denotes the string. A block string can only denote a text without
carriage returns that begins and ends with lines that are not blank and has a line without indentation.
-/

namespace Federation.Text

/-! ## Quoted strings -/

/-- The character that GraphQL has a backslash and a letter stand for: `b` is a backspace. -/
def standardEscape? (e : Char) : Option Char :=
  if e = 'b' then some '\x08' else simpleEscape? e

/-- The string that GraphQL has a raw text between quotes stand for. -/
def quotedMeaning? : List Char → Option (List Char)
  | '\\' :: 'u' :: a :: b :: c :: d :: rest => do
    let char ← hexEscape? a b c d
    return char :: (← quotedMeaning? rest)
  | '\\' :: e :: rest => do
    let char ← standardEscape? e
    return char :: (← quotedMeaning? rest)
  | c :: rest => (quotedMeaning? rest).map (c :: ·)
  | [] => some []

theorem quotedMeaning?_escapeChar {c : Char} (hc : IsBasic c) (rest : List Char) :
    quotedMeaning? (escapeChar c ++ rest) = (quotedMeaning? rest).map (c :: ·) := by
  rcases escapeChar_cases hc with ⟨hwritten, hbackslash, -⟩ | ⟨e, hwritten, hu, he⟩ | hwritten
  · rw [hwritten, List.singleton_append, quotedMeaning?]
    · rintro _ _ _ _ _ rfl
      exact absurd rfl hbackslash
    · rintro _ _ rfl
      exact absurd rfl hbackslash
  · have hb : e ≠ 'b' := by
      -- a reader takes this letter for another character than the backspace, and nobody writes it
      rintro rfl
      obtain rfl := Option.some.inj he
      exact absurd hwritten (by decide)
    have hstandard : standardEscape? e = some c := by
      rw [standardEscape?, if_neg hb, he]
    rw [hwritten, List.cons_append, List.singleton_append,
      quotedMeaning?.eq_2 e rest (by rintro _ _ _ _ _ rfl; exact absurd rfl hu), hstandard]
    cases quotedMeaning? rest <;> rfl
  · rw [hwritten, fourHexDigits]
    simp only [List.cons_append, List.nil_append, quotedMeaning?, hexEscape?_hexDigits hc]
    cases quotedMeaning? rest <;> rfl

/-- What a string is written as denotes the string. -/
theorem quotedMeaning?_escape {cs : List Char} (h : ∀ c ∈ cs, IsBasic c) :
    quotedMeaning? (escape cs) = some cs := by
  induction cs with
  | nil => rfl
  | cons c cs ih =>
    obtain ⟨hc, hcs⟩ := List.forall_mem_cons.mp h
    rw [escape_cons, quotedMeaning?_escapeChar hc, ih hcs]
    rfl

/-! ## Block strings -/

/-- The lines of a text. A line ends at a line feed, at a carriage return, or at both together. -/
def splitLines : List Char → List (List Char)
  | [] => [[]]
  | '\r' :: '\n' :: rest => [] :: splitLines rest
  | c :: rest =>
    if c = '\n' ∨ c = '\r' then [] :: splitLines rest else (splitLines rest).modifyHead (c :: ·)

/-- The white space of GraphQL: spaces and tabs. -/
def isSpace (c : Char) : Bool :=
  c == ' ' || c == '\t'

/-- A line of spaces and tabs only. -/
def isSpaceLine (line : List Char) : Bool :=
  line.all isSpace

/-- The number of spaces and tabs in front of a line. -/
def leadingSpaces (line : List Char) : Nat :=
  (line.takeWhile isSpace).length

/-- The indentation that all lines which are not blank share. -/
def sharedSpaces (ls : List (List Char)) : Nat :=
  (((ls.filter fun line => !isSpaceLine line).map leadingSpaces).min?).getD 0

/-- Cuts the shared indentation off all lines but the first. -/
def dedent : List (List Char) → List (List Char)
  | [] => []
  | first :: others => first :: others.map (List.drop (sharedSpaces others))

/-- The value that GraphQL gives to a block string. -/
def blockMeaning (raw : List Char) : List Char :=
  unlines (trimBlankLines isSpaceLine (dedent (splitLines (unescapeTriples raw))))

/-! ## Triple quotes -/

/-- A written text only begins with a quote if the text does. -/
theorem exists_of_escapeTriples_append {cs rest after : List Char} (hrest : rest.head? ≠ some '\"')
    (h : escapeTriples cs ++ rest = '\"' :: after) :
    ∃ others, cs = '\"' :: others ∧ after = escapeTriples others ++ rest := by
  fun_cases escapeTriples cs with
  | case1 others =>
    rw [escapeTriples] at h
    cases h
  | case2 c others hno =>
    rw [escapeTriples] at h
    · obtain ⟨rfl, rfl⟩ := List.cons.inj h
      exact ⟨others, rfl, rfl⟩
    · exact hno
  | case3 =>
    rw [escapeTriples, List.nil_append] at h
    rw [h] at hrest
    exact absurd rfl hrest

/-- No triple quotes are left without a backslash, wherever the text is cut. -/
theorem escapeTriples_append_ne {cs rest after : List Char} (hrest : rest.head? ≠ some '\"') :
    escapeTriples cs ++ rest ≠ '\"' :: '\"' :: '\"' :: after := by
  intro h
  obtain ⟨second, rfl, hsecond⟩ := exists_of_escapeTriples_append hrest h
  obtain ⟨third, rfl, hthird⟩ := exists_of_escapeTriples_append hrest hsecond.symm
  obtain ⟨others, rfl, -⟩ := exists_of_escapeTriples_append hrest hthird.symm
  rw [escapeTriples] at h
  cases h

theorem BlockScan.prepend_prepend (scan : BlockScan) (front front' : List Char) :
    (scan.prepend front).prepend front' = scan.prepend (front' ++ front) := by
  cases scan with
  | closed raw rest => rw [prepend, prepend, prepend, List.append_assoc]
  | unclosed => rfl
  | outsideRange => rfl

theorem BlockScan.prepend_nil (scan : BlockScan) : scan.prepend [] = scan := by
  cases scan <;> rfl

/-- A character that stands for itself. -/
theorem scanBlock_cons {c : Char} {rest : List Char}
    (htriple : ∀ after, c :: rest ≠ '\"' :: '\"' :: '\"' :: after)
    (hescape : ∀ after, c :: rest ≠ '\\' :: '\"' :: '\"' :: '\"' :: after) :
    scanBlock (c :: rest) =
      if isPlainInBlock c then (scanBlock rest).prepend [c] else .outsideRange := by
  rw [scanBlock]
  · rintro after rfl rfl
    exact htriple after rfl
  · rintro after rfl rfl
    exact hescape after rfl

theorem scanBlock_plain {c : Char} (hquote : c ≠ '\"') (hbackslash : c ≠ '\\')
    (hplain : isPlainInBlock c = true) (rest : List Char) :
    scanBlock (c :: rest) = (scanBlock rest).prepend [c] := by
  rw [scanBlock_cons, if_pos hplain]
  · exact fun _ h => hquote (List.cons.inj h).1
  · exact fun _ h => hbackslash (List.cons.inj h).1

/-- A reader goes over a written line, or stops in it. -/
theorem scanBlock_escapeTriples {rest : List Char} (hrest : rest.head? ≠ some '\"')
    (line : List Char) :
    scanBlock (escapeTriples line ++ rest) =
      if line.all isPlainInBlock then (scanBlock rest).prepend (escapeTriples line)
      else .outsideRange := by
  fun_induction escapeTriples line with
  | case1 line ih =>
    have hquotes : ('\"' :: '\"' :: '\"' :: line).all isPlainInBlock = line.all isPlainInBlock := by
      simp [isPlainInBlock]
    rw [List.cons_append, List.cons_append, List.cons_append, List.cons_append, scanBlock, ih,
      hquotes]
    split
    · rw [BlockScan.prepend_prepend]
      rfl
    · rfl
  | case2 c line hno ih =>
    -- neither the closing quotes nor escaped ones begin here, even if the text goes on with quotes
    rw [List.cons_append, scanBlock_cons, ih, List.all_cons]
    · cases isPlainInBlock c with
      | false => rfl
      | true =>
        rw [if_pos rfl, Bool.true_and]
        split
        · rw [BlockScan.prepend_prepend]
          rfl
        · rfl
    · intro after h
      obtain ⟨rfl, hbehind⟩ := List.cons.inj h
      obtain ⟨second, rfl, hsecond⟩ := exists_of_escapeTriples_append hrest hbehind
      obtain ⟨third, rfl, -⟩ := exists_of_escapeTriples_append hrest hsecond.symm
      exact hno third rfl rfl
    · intro after h
      exact escapeTriples_append_ne hrest (List.cons.inj h).2
  | case3 => rw [List.nil_append, List.all_nil, if_pos rfl, BlockScan.prepend_nil]

theorem unescapeTriples_cons {c : Char} (h : c ≠ '\\') (rest : List Char) :
    unescapeTriples (c :: rest) = c :: unescapeTriples rest := by
  rw [unescapeTriples]
  rintro _ rfl _
  exact h rfl

/-- Escaped triple quotes lose their backslashes again. -/
theorem unescapeTriples_escapeTriples {rest : List Char} (hrest : rest.head? ≠ some '\"')
    (line : List Char) :
    unescapeTriples (escapeTriples line ++ rest) = line ++ unescapeTriples rest := by
  fun_induction escapeTriples line with
  | case1 line ih =>
    rw [List.cons_append, List.cons_append, List.cons_append, List.cons_append, unescapeTriples, ih]
    rfl
  | case2 c line hno ih =>
    rw [List.cons_append, unescapeTriples, ih, List.cons_append]
    rintro after rfl h
    exact escapeTriples_append_ne hrest h
  | case3 => rw [List.nil_append, List.nil_append]

/-! ## Lines -/

/-- No line ends in the text. -/
def IsLine (line : List Char) : Prop :=
  ∀ c ∈ line, c ≠ '\n' ∧ c ≠ '\r'

theorem splitLines_ne_nil (cs : List Char) : splitLines cs ≠ [] := by
  fun_induction splitLines cs with
  | case1 => exact List.cons_ne_nil _ _
  | case2 => exact List.cons_ne_nil _ _
  | case3 => exact List.cons_ne_nil _ _
  | case4 c rest _ _ ih => simpa [List.modifyHead_eq_nil_iff] using ih

/-- A character that ends no line goes to the front of the first line. -/
theorem splitLines_cons {c : Char} (hnewline : c ≠ '\n') (hreturn : c ≠ '\r') (rest : List Char) :
    splitLines (c :: rest) = (splitLines rest).modifyHead (c :: ·) := by
  rw [splitLines]
  · rw [if_neg (by simp [hnewline, hreturn])]
  · rintro _ rfl
    exact absurd rfl hreturn

theorem splitLines_newline (rest : List Char) : splitLines ('\n' :: rest) = [] :: splitLines rest := by
  rw [splitLines]
  · rw [if_pos (.inl rfl)]
  · nofun

theorem splitLines_append {line : List Char} (h : IsLine line) (rest : List Char) :
    splitLines (line ++ '\n' :: rest) = line :: splitLines rest := by
  induction line with
  | nil => exact splitLines_newline rest
  | cons c line ih =>
    obtain ⟨⟨hnewline, hreturn⟩, hline⟩ := List.forall_mem_cons.mp h
    rw [List.cons_append, splitLines_cons hnewline hreturn, ih hline, List.modifyHead_cons]

theorem splitLines_of_isLine {line : List Char} (h : IsLine line) : splitLines line = [line] := by
  induction line with
  | nil => rfl
  | cons c line ih =>
    obtain ⟨⟨hnewline, hreturn⟩, hline⟩ := List.forall_mem_cons.mp h
    rw [splitLines_cons hnewline hreturn, ih hline, List.modifyHead_cons]

theorem isLine_of_mem_splitLines {cs : List Char} : ∀ line ∈ splitLines cs, IsLine line := by
  have hnil : IsLine [] := fun _ hc => absurd hc List.not_mem_nil
  fun_induction splitLines cs with
  | case1 => exact List.forall_mem_singleton.mpr hnil
  | case2 rest ih => exact List.forall_mem_cons.mpr ⟨hnil, ih⟩
  | case3 c rest _ _ ih => exact List.forall_mem_cons.mpr ⟨hnil, ih⟩
  | case4 c rest _ hc ih =>
    cases hlines : splitLines rest with
    | nil => exact absurd hlines (splitLines_ne_nil rest)
    | cons line others =>
      rw [hlines] at ih
      obtain ⟨hline, hothers⟩ := List.forall_mem_cons.mp ih
      rw [List.modifyHead_cons]
      exact List.forall_mem_cons.mpr ⟨List.forall_mem_cons.mpr ⟨not_or.mp hc, hline⟩, hothers⟩

/-- Lines that are put together split again. -/
theorem splitLines_unlines {ls : List (List Char)} (hne : ls ≠ []) (h : ∀ line ∈ ls, IsLine line) :
    splitLines (unlines ls) = ls := by
  fun_induction unlines ls with
  | case1 => exact absurd rfl hne
  | case2 line => exact splitLines_of_isLine (h line (List.mem_singleton_self line))
  | case3 line others hothers ih =>
    obtain ⟨hline, hrest⟩ := List.forall_mem_cons.mp h
    have hne' : others ≠ [] := by
      rintro rfl
      exact hothers rfl
    rw [splitLines_append hline, ih hne' hrest]

theorem unlines_modifyHead (c : Char) {ls : List (List Char)} (hne : ls ≠ []) :
    unlines (ls.modifyHead (c :: ·)) = c :: unlines ls := by
  cases ls with
  | nil => exact absurd rfl hne
  | cons line others =>
    cases others with
    | nil => rfl
    | cons second others => rfl

theorem unlines_cons {line : List Char} {others : List (List Char)} (hne : others ≠ []) :
    unlines (line :: others) = line ++ '\n' :: unlines others := by
  cases others with
  | nil => exact absurd rfl hne
  | cons second others => rfl

/-- The lines of a text without carriage returns make up the text. -/
theorem unlines_splitLines {cs : List Char} (h : '\r' ∉ cs) : unlines (splitLines cs) = cs := by
  induction cs with
  | nil => rfl
  | cons c rest ih =>
    obtain ⟨hreturn, hrest⟩ : c ≠ '\r' ∧ '\r' ∉ rest := by
      rw [List.mem_cons, not_or] at h
      exact ⟨Ne.symm h.1, h.2⟩
    by_cases hnewline : c = '\n'
    · subst hnewline
      rw [splitLines_newline, unlines_cons (splitLines_ne_nil rest), ih hrest, List.nil_append]
    · rw [splitLines_cons hnewline hreturn, unlines_modifyHead c (splitLines_ne_nil rest), ih hrest]

/-- Where there are no carriage returns, lines are counted alike, but for an empty last one. -/
theorem splitLines_eq_lines {cs : List Char} (h : '\r' ∉ cs) :
    splitLines cs = lines cs ∨ splitLines cs = lines cs ++ [[]] := by
  induction cs with
  | nil => exact .inr rfl
  | cons c rest ih =>
    obtain ⟨hreturn, hrest⟩ : c ≠ '\r' ∧ '\r' ∉ rest := by
      rw [List.mem_cons, not_or] at h
      exact ⟨Ne.symm h.1, h.2⟩
    by_cases hnewline : c = '\n'
    · subst hnewline
      rw [splitLines_newline, lines_newline]
      -- behind a last line feed there is an empty line for GraphQL, and none otherwise
      refine (ih hrest).imp ?_ ?_ <;> intro hlines <;> rw [hlines]
      rfl
    · have hlines : lines (c :: rest) = match lines rest with
          | [] => [[c]]
          | line :: others => (c :: line) :: others := by
        rw [lines] <;> first | rfl | exact hnewline | exact fun _ hc _ => absurd hc hreturn
      rw [splitLines_cons hnewline hreturn, hlines]
      have hcases := ih hrest
      cases hothers : lines rest with
      | nil =>
        rw [hothers] at hcases
        rcases hcases with hsplit | hsplit
        · exact absurd hsplit (splitLines_ne_nil rest)
        · exact .inl (by rw [hsplit]; rfl)
      | cons line others =>
        rw [hothers] at hcases
        refine hcases.imp ?_ ?_ <;> intro hsplit <;> rw [hsplit] <;> rfl

/-- If the last line is not blank, then it is not empty, and lines are counted alike. -/
theorem lines_eq_splitLines {cs : List Char} (hreturn : '\r' ∉ cs)
    (hlast : ∀ line ∈ (splitLines cs).getLast?, isSpaceLine line = false) :
    lines cs = splitLines cs := by
  rcases splitLines_eq_lines hreturn with heq | heq
  · exact heq.symm
  · have hblank := hlast [] (by rw [heq, List.getLast?_concat]; rfl)
    cases hblank

/-! ## Indentation -/

theorem eq_of_isSpace {c : Char} (h : isSpace c = true) : c = ' ' ∨ c = '\t' := by
  simpa [isSpace] using h

theorem eq_false_of_dropWhile_eq_cons {α : Type} {p : α → Bool} {l rest : List α} {a : α}
    (h : l.dropWhile p = a :: rest) : p a = false := by
  have hhead := List.head_dropWhile_not p (l := l) (by simp [h])
  simpa [h] using hhead

/-- Without its indentation, a line that is not blank starts with something else. -/
theorem drop_leadingSpaces (line : List Char) :
    line.drop (leadingSpaces line) = line.dropWhile isSpace := by
  have hdrop : (line.takeWhile isSpace ++ line.dropWhile isSpace).drop (leadingSpaces line) =
      line.dropWhile isSpace := List.drop_left
  rw [List.takeWhile_append_dropWhile] at hdrop
  exact hdrop

theorem leadingSpaces_append {front : List Char} (hfront : ∀ c ∈ front, isSpace c = true)
    (line : List Char) : leadingSpaces (front ++ line) = front.length + leadingSpaces line := by
  rw [leadingSpaces, List.takeWhile_append_of_pos hfront, List.length_append, leadingSpaces]

theorem isSpaceLine_append {front : List Char} (hfront : ∀ c ∈ front, isSpace c = true)
    (line : List Char) : isSpaceLine (front ++ line) = isSpaceLine line := by
  rw [isSpaceLine, List.all_append, List.all_eq_true.mpr hfront, Bool.true_and, isSpaceLine]

/-- A line that is not blank and has no indentation. -/
def IsFlush (line : List Char) : Prop :=
  isSpaceLine line = false ∧ leadingSpaces line = 0

theorem isFlush_dropWhile {line : List Char} (h : isSpaceLine line = false) :
    IsFlush (line.dropWhile isSpace) := by
  cases hrest : line.dropWhile isSpace with
  | nil =>
    have hall : isSpaceLine line = true :=
      List.all_eq_true.mpr (List.dropWhile_eq_nil_iff.mp hrest)
    rw [h] at hall
    cases hall
  | cons c rest =>
    have hc : isSpace c = false := eq_false_of_dropWhile_eq_cons hrest
    exact ⟨by simp [isSpaceLine, hc], by simp [leadingSpaces, hc]⟩

/-- Among the items that count, the least number is that of some item, and no item has less. -/
theorem least_of_filter {α : Type} (counts : α → Bool) (number : α → Nat) {items : List α} {a : α}
    (ha : a ∈ items) (h : counts a = true) :
    (∃ least ∈ items, counts least = true ∧
      number least = (((items.filter counts).map number).min?).getD 0) ∧
      (((items.filter counts).map number).min?).getD 0 ≤ number a := by
  have hmem : number a ∈ (items.filter counts).map number :=
    List.mem_map_of_mem (List.mem_filter.mpr ⟨ha, h⟩)
  cases hmin : ((items.filter counts).map number).min? with
  | none =>
    rw [List.min?_eq_none_iff] at hmin
    rw [hmin] at hmem
    cases hmem
  | some n =>
    obtain ⟨hn, hle⟩ := List.min?_eq_some_iff.mp hmin
    obtain ⟨least, hleast, heq⟩ := List.mem_map.mp hn
    obtain ⟨hleast, hcounts⟩ := List.mem_filter.mp hleast
    exact ⟨⟨least, hleast, hcounts, heq⟩, hle _ hmem⟩

/-- Some line has no more indentation than all lines share. -/
theorem exists_leadingSpaces_eq {ls : List (List Char)} {line : List Char} (hline : line ∈ ls)
    (h : isSpaceLine line = false) :
    ∃ least ∈ ls, isSpaceLine least = false ∧ leadingSpaces least = sharedSpaces ls := by
  obtain ⟨⟨least, hleast, hblank, heq⟩, -⟩ :=
    least_of_filter (fun line => !isSpaceLine line) leadingSpaces hline (by rw [h]; rfl)
  exact ⟨least, hleast, by simpa using hblank, heq⟩

theorem sharedSpaces_le {ls : List (List Char)} {line : List Char} (hline : line ∈ ls)
    (h : isSpaceLine line = false) : sharedSpaces ls ≤ leadingSpaces line :=
  (least_of_filter (fun line => !isSpaceLine line) leadingSpaces hline (by rw [h]; rfl)).2

/-- After the shared indentation is cut off, a line without indentation is among the lines. -/
theorem exists_isFlush_of_dedent {first : List Char} {others : List (List Char)} {line : List Char}
    (hline : line ∈ others) (h : isSpaceLine line = false) :
    ∃ flush ∈ dedent (first :: others), IsFlush flush := by
  obtain ⟨least, hleast, hblank, heq⟩ := exists_leadingSpaces_eq hline h
  refine ⟨least.drop (sharedSpaces others), List.mem_cons_of_mem _ (List.mem_map_of_mem hleast), ?_⟩
  rw [← heq, drop_leadingSpaces]
  exact isFlush_dropWhile hblank

/-! ## Blank lines at the ends -/

section Trim

variable {α : Type} {blank : α → Bool}

theorem trimBlankLines_eq_rdropWhile (ls : List α) :
    trimBlankLines blank ls = (ls.dropWhile blank).rdropWhile blank :=
  rfl

/-- What begins and ends with lines that are not blank stays. -/
theorem trimBlankLines_append {front mid back : List α} (hfront : ∀ a ∈ front, blank a = true)
    (hback : ∀ a ∈ back, blank a = true) (hne : mid ≠ [])
    (hfirst : ∀ a ∈ mid.head?, blank a = false) (hlast : ∀ a ∈ mid.getLast?, blank a = false) :
    trimBlankLines blank (front ++ (mid ++ back)) = mid := by
  have hdrop : (front ++ (mid ++ back)).dropWhile blank = mid ++ back := by
    rw [List.dropWhile_append_of_pos hfront]
    cases mid with
    | nil => exact absurd rfl hne
    | cons a mid => rw [List.cons_append, List.dropWhile_cons, hfirst a rfl, if_neg Bool.false_ne_true]
  have hrdrop : (mid ++ back).reverse.dropWhile blank = mid.reverse := by
    rw [List.reverse_append, List.dropWhile_append_of_pos (by simpa using hback)]
    cases hreverse : mid.reverse with
    | nil => exact absurd (List.reverse_eq_nil_iff.mp hreverse) hne
    | cons a rest =>
      have ha : blank a = false := by
        refine hlast a ?_
        rw [← List.head?_reverse, hreverse]
        rfl
      rw [List.dropWhile_cons, ha, if_neg Bool.false_ne_true]
  rw [trimBlankLines, hdrop, hrdrop, List.reverse_reverse]

theorem trimBlankLines_isInfix (ls : List α) : trimBlankLines blank ls <:+: ls :=
  (List.rdropWhile_prefix blank (ls.dropWhile blank)).isInfix.trans
    (List.dropWhile_suffix blank).isInfix

theorem mem_trimBlankLines {ls : List α} {a : α} (ha : a ∈ ls) (h : blank a = false) :
    a ∈ trimBlankLines blank ls := by
  -- it stops the search for blank lines at either end
  have hkeep : ∀ {ls : List α}, a ∈ ls → a ∈ ls.dropWhile blank := by
    intro ls ha
    rw [← List.takeWhile_append_dropWhile (p := blank) (l := ls)] at ha
    rcases List.mem_append.mp ha with ha | ha
    · rw [List.mem_takeWhile_imp ha] at h
      cases h
    · exact ha
  exact List.mem_reverse.mpr (hkeep (List.mem_reverse.mpr (hkeep ha)))

theorem getLast?_trimBlankLines {ls : List α} :
    ∀ a ∈ (trimBlankLines blank ls).getLast?, blank a = false := by
  intro a ha
  obtain ⟨hne, rfl⟩ := List.mem_getLast?_eq_getLast ha
  exact Bool.not_eq_true _ ▸ List.rdropWhile_last_not blank (ls.dropWhile blank) hne

theorem head?_trimBlankLines {ls : List α} :
    ∀ a ∈ (trimBlankLines blank ls).head?, blank a = false := by
  intro a ha
  obtain ⟨back, hback⟩ := List.rdropWhile_prefix blank (ls.dropWhile blank)
  rw [trimBlankLines_eq_rdropWhile] at ha
  cases hkept : (ls.dropWhile blank).rdropWhile blank with
  | nil =>
    rw [hkept] at ha
    cases ha
  | cons b kept =>
    rw [hkept] at ha hback
    obtain rfl := Option.some.inj ha
    exact eq_false_of_dropWhile_eq_cons hback.symm

end Trim

/-! ## Texts that block strings denote -/

/-- A text that a block string can denote: it has no carriage returns, no blank line at either end, and
not all of its lines are indented. -/
structure StandsInBlock (cs : List Char) : Prop where
  return_notMem : '\r' ∉ cs
  isPlain : ∀ c ∈ cs, isPlainInBlock c = true
  first : ∀ line ∈ (splitLines cs).head?, isSpaceLine line = false
  last : ∀ line ∈ (splitLines cs).getLast?, isSpaceLine line = false
  flush : ∃ line ∈ splitLines cs, IsFlush line

theorem isLine_of_mem_dedent {ls : List (List Char)} (h : ∀ line ∈ ls, IsLine line) :
    ∀ line ∈ dedent ls, IsLine line := by
  cases ls with
  | nil => exact h
  | cons first others =>
    obtain ⟨hfirst, hothers⟩ := List.forall_mem_cons.mp h
    refine List.forall_mem_cons.mpr ⟨hfirst, fun line hline => ?_⟩
    obtain ⟨whole, hwhole, rfl⟩ := List.mem_map.mp hline
    exact fun c hc => hothers whole hwhole c (List.mem_of_mem_drop hc)

/-- The lines of a value are those that are left of the block string. -/
theorem splitLines_blockMeaning {raw : List Char} (h : blockMeaning raw ≠ []) :
    splitLines (blockMeaning raw) =
      trimBlankLines isSpaceLine (dedent (splitLines (unescapeTriples raw))) := by
  refine splitLines_unlines ?_ fun line hline => ?_
  · intro hnil
    exact h (by rw [blockMeaning, hnil, unlines])
  · exact isLine_of_mem_dedent isLine_of_mem_splitLines line (mem_of_mem_trimBlankLines hline)

theorem return_notMem_blockMeaning (raw : List Char) : '\r' ∉ blockMeaning raw := by
  intro hmem
  rcases eq_or_mem_of_mem_unlines hmem with heq | ⟨line, hline, hc⟩
  · exact absurd heq (by decide)
  · have hisLine := isLine_of_mem_dedent isLine_of_mem_splitLines line
      (mem_of_mem_trimBlankLines hline)
    exact (hisLine _ hc).2 rfl

/-- What is left of a line that has something left was not blank. -/
theorem isSpaceLine_of_drop {line : List Char} {n : Nat} (h : isSpaceLine (line.drop n) = false) :
    isSpaceLine line = false := by
  rw [← Bool.not_eq_true] at h ⊢
  intro hall
  refine h (List.all_eq_true.mpr fun c hc => ?_)
  exact List.all_eq_true.mp hall c (List.mem_of_mem_drop hc)

/-- If nothing stands behind the opening quotes, the value has a line without indentation. -/
theorem exists_isFlush_of_blockMeaning {raw : List Char} {others : List (List Char)}
    (hraw : splitLines (unescapeTriples raw) = [] :: others) (h : blockMeaning raw ≠ []) :
    ∃ line ∈ splitLines (blockMeaning raw), IsFlush line := by
  have hlines := splitLines_blockMeaning h
  rw [hraw] at hlines
  -- the first line that is left is not blank, so it is not the one behind the quotes
  cases hkept : splitLines (blockMeaning raw) with
  | nil => exact absurd hkept (splitLines_ne_nil _)
  | cons first kept =>
    have hblank : isSpaceLine first = false := by
      have hhead : first ∈ (trimBlankLines isSpaceLine (dedent ([] :: others))).head? := by
        rw [← hlines, hkept]
        rfl
      exact head?_trimBlankLines first hhead
    have hmem : first ∈ dedent ([] :: others) := by
      have hmem : first ∈ trimBlankLines isSpaceLine (dedent ([] :: others)) := by
        rw [← hlines, hkept]
        exact List.mem_cons_self
      exact mem_of_mem_trimBlankLines hmem
    rcases List.mem_cons.mp hmem with rfl | hmem
    · cases hblank
    · obtain ⟨line, hline, rfl⟩ := List.mem_map.mp hmem
      have hflush : ∃ flush ∈ dedent ([] :: others), IsFlush flush :=
        exists_isFlush_of_dedent hline (isSpaceLine_of_drop hblank)
      obtain ⟨flush, hflush, hisFlush⟩ := hflush
      refine ⟨flush, ?_, hisFlush⟩
      rw [← hkept, hlines]
      exact mem_trimBlankLines hflush hisFlush.1

end Federation.Text
