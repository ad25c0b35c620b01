import Federation.Proofs.Document.Contracts
import Federation.Proofs.Text.BlockValue
import Federation.Supergraph.Render

/-!
# Descriptions in schema texts

A description without line feeds is quoted and denotes what it should. Any other description becomes a
block string, with each line indented like the element it describes. The indentation goes again when
the block string is read, but so do carriage returns, blank lines at the ends and whatever indentation
the lines had in common before. So such a description survives exactly if a block string can denote it
at all.
-/

namespace Federation.Supergraph

open Document Text

/-! ## The rules of GraphQL -/

/-- The string that a token denotes, if it is the token of a string literal. -/
def meaning? : Token → Option (List Char)
  | .string raw => quotedMeaning? raw
  | .block raw => some (blockMeaning raw)
  | _ => none

/-- The text is a string literal, and this is the string that it denotes. -/
def Denotes (text s : String) : Prop :=
  ∃ token, Token.scan text = [token] ∧ meaning? token = some s.toList

/-! ## Descriptions as block strings -/

/-- What stands in front of a line. Empty lines are not indented. -/
def lineFront (front line : List Char) : List Char :=
  if line.isEmpty then [] else front

/-- A line as it is written in a block string. -/
def blockLineChars (front line : List Char) : List Char :=
  lineFront front line ++ (escapeTriples line ++ ['\n'])

/-- What stands between the triple quotes. -/
def blockRaw (front : List Char) (ls : List (List Char)) : List Char :=
  '\n' :: (ls.flatMap (blockLineChars front) ++ front)

theorem toList_descriptionText_block {front text : String} (h : '\n' ∈ text.toList) :
    (descriptionText front (some text)).toList =
      front.toList ++ '\"' :: '\"' :: '\"' ::
        (blockRaw front.toList (lines text.toList) ++ ['\"', '\"', '\"', '\n']) := by
  have hline : ∀ line, (blockLine front line).toList = blockLineChars front.toList line := by
    intro line
    rw [blockLine, blockLineChars, lineFront, String.toList_append, String.toList_append,
      String.toList_ofList, List.append_assoc]
    split <;> rfl
  rw [descriptionText, if_pos (List.contains_iff_mem.mpr h)]
  simp only [String.toList_append, String.toList_join, List.flatMap_map, hline, blockRaw]
  simp

theorem toList_descriptionText_quoted {front text : String} (h : '\n' ∉ text.toList) :
    (descriptionText front (some text)).toList =
      front.toList ++ (Text.quote text).toList ++ ['\n'] := by
  rw [descriptionText, if_neg (by simpa using h), String.toList_append, String.toList_append]
  rfl

/-- A line is cut back to what it was when the indentation of the element is taken away. -/
theorem drop_lineFront (front line : List Char) :
    (lineFront front line ++ line).drop front.length = line := by
  rw [lineFront]
  split
  · rename_i hempty
    rw [List.isEmpty_iff.mp hempty, List.nil_append, List.drop_nil]
  · exact List.drop_left

section Block

variable {front : List Char} (hfront : ∀ c ∈ front, isSpace c = true)

include hfront

theorem scanBlock_spaces (rest : List Char) :
    scanBlock (front ++ rest) = (scanBlock rest).prepend front := by
  induction front with
  | nil => rw [List.nil_append, BlockScan.prepend_nil]
  | cons c front ih =>
    obtain ⟨hc, hfront⟩ := List.forall_mem_cons.mp hfront
    have hplain : c ≠ '\"' ∧ c ≠ '\\' ∧ isPlainInBlock c = true := by
      rcases eq_of_isSpace hc with rfl | rfl <;> decide
    rw [List.cons_append, scanBlock_plain hplain.1 hplain.2.1 hplain.2.2, ih hfront,
      BlockScan.prepend_prepend]
    rfl

theorem isSpace_of_mem_lineFront (line : List Char) :
    ∀ c ∈ lineFront front line, isSpace c = true := by
  rw [lineFront]
  split
  · exact fun _ hc => absurd hc List.not_mem_nil
  · exact hfront

theorem scanBlock_blockLineChars (line rest : List Char) :
    scanBlock (blockLineChars front line ++ rest) =
      if line.all isPlainInBlock then (scanBlock rest).prepend (blockLineChars front line)
      else .outsideRange := by
  have hnewline : scanBlock ('\n' :: rest) = (scanBlock rest).prepend ['\n'] :=
    scanBlock_plain (by decide) (by decide) rfl rest
  rw [blockLineChars, List.append_assoc, List.append_assoc,
    scanBlock_spaces (isSpace_of_mem_lineFront hfront line), List.singleton_append,
    scanBlock_escapeTriples (by simp), hnewline]
  split
  · rw [BlockScan.prepend_prepend, BlockScan.prepend_prepend, List.append_assoc]
  · rfl

/-- The block string ends where it should, unless a line holds a character that cannot stand in it. -/
theorem scanBlock_blockRaw (ls : List (List Char)) (rest : List Char) :
    scanBlock (blockRaw front ls ++ '\"' :: '\"' :: '\"' :: rest) =
      if ls.all fun line => line.all isPlainInBlock then .closed (blockRaw front ls) rest
      else .outsideRange := by
  have hlines : scanBlock (ls.flatMap (blockLineChars front) ++
      (front ++ '\"' :: '\"' :: '\"' :: rest)) =
      if ls.all fun line => line.all isPlainInBlock then
        .closed (ls.flatMap (blockLineChars front) ++ front) rest else .outsideRange := by
    induction ls with
    | nil =>
      rw [List.flatMap_nil, List.nil_append, scanBlock_spaces hfront, scanBlock, List.all_nil,
        if_pos rfl, BlockScan.prepend, List.append_nil, List.nil_append]
    | cons line ls ih =>
      rw [List.flatMap_cons, List.append_assoc, scanBlock_blockLineChars hfront, ih, List.all_cons]
      cases line.all isPlainInBlock with
      | false => rfl
      | true =>
        rw [if_pos rfl, Bool.true_and]
        split
        · rw [BlockScan.prepend, List.append_assoc]
        · rfl
  rw [blockRaw, List.cons_append, List.append_assoc,
    scanBlock_plain (by decide) (by decide) rfl, hlines]
  split <;> rfl

theorem unescapeTriples_spaces (rest : List Char) :
    unescapeTriples (front ++ rest) = front ++ unescapeTriples rest := by
  induction front with
  | nil => rfl
  | cons c front ih =>
    obtain ⟨hc, hfront⟩ := List.forall_mem_cons.mp hfront
    have hbackslash : c ≠ '\\' := by
      rintro rfl
      cases hc
    rw [List.cons_append, unescapeTriples_cons hbackslash, ih hfront, List.cons_append]

/-- Escapes apart, the block string holds the lines as they were, with their indentation. -/
theorem unescapeTriples_blockRaw (ls : List (List Char)) :
    unescapeTriples (blockRaw front ls) =
      '\n' :: (ls.flatMap (fun line => lineFront front line ++ (line ++ ['\n'])) ++ front) := by
  have hend : unescapeTriples front = front := by
    have hnil := unescapeTriples_spaces hfront []
    rw [List.append_nil, unescapeTriples, List.append_nil] at hnil
    exact hnil
  have hlines : unescapeTriples (ls.flatMap (blockLineChars front) ++ front) =
      ls.flatMap (fun line => lineFront front line ++ (line ++ ['\n'])) ++ front := by
    induction ls with
    | nil => exact hend
    | cons line ls ih =>
      rw [List.flatMap_cons, List.flatMap_cons, blockLineChars, List.append_assoc,
        List.append_assoc, List.append_assoc,
        unescapeTriples_spaces (isSpace_of_mem_lineFront hfront line), List.singleton_append,
        unescapeTriples_escapeTriples (by simp), unescapeTriples_cons (by decide), ih]
      simp
  rw [blockRaw, unescapeTriples_cons (by decide), hlines]

theorem isLine_of_isSpace : IsLine front := by
  intro c hc
  have hspace := hfront c hc
  constructor <;> rintro rfl <;> exact absurd hspace (by decide)

/-- GraphQL finds the lines that were written, between two blank ones. -/
theorem splitLines_blockRaw {ls : List (List Char)} (h : ∀ line ∈ ls, IsLine line) :
    splitLines (unescapeTriples (blockRaw front ls)) =
      [] :: (ls.map (fun line => lineFront front line ++ line) ++ [front]) := by
  have hlines : splitLines (ls.flatMap (fun line => lineFront front line ++ (line ++ ['\n'])) ++
      front) = ls.map (fun line => lineFront front line ++ line) ++ [front] := by
    induction ls with
    | nil => exact splitLines_of_isLine (isLine_of_isSpace hfront)
    | cons line ls ih =>
      obtain ⟨hline, hls⟩ := List.forall_mem_cons.mp h
      have hwhole : IsLine (lineFront front line ++ line) :=
        List.forall_mem_append.mpr
          ⟨isLine_of_isSpace (isSpace_of_mem_lineFront hfront line), hline⟩
      rw [List.flatMap_cons, List.map_cons, ← List.append_assoc (lineFront front line) line,
        List.append_assoc, List.append_assoc, List.singleton_append, splitLines_append hwhole,
        ih hls, List.cons_append]
  rw [unescapeTriples_blockRaw hfront, splitLines_newline, hlines]

/-- The lines of the block string share the indentation of the element and no more. -/
theorem sharedSpaces_blockRaw {ls : List (List Char)} (h : ∃ line ∈ ls, IsFlush line) :
    sharedSpaces (ls.map (fun line => lineFront front line ++ line) ++ [front]) = front.length := by
  obtain ⟨flush, hflush, hblank, hleading⟩ := h
  have hmem : lineFront front flush ++ flush ∈
      ls.map (fun line => lineFront front line ++ line) ++ [front] :=
    List.mem_append_left _ (List.mem_map_of_mem hflush)
  have hwhole : isSpaceLine (lineFront front flush ++ flush) = false := by
    rw [isSpaceLine_append (isSpace_of_mem_lineFront hfront flush), hblank]
  have hlength : ∀ line, isSpaceLine line = false →
      leadingSpaces (lineFront front line ++ line) = front.length + leadingSpaces line := by
    intro line hline
    have hne : line.isEmpty = false := by
      rw [← Bool.not_eq_true]
      intro hempty
      rw [List.isEmpty_iff.mp hempty] at hline
      cases hline
    rw [leadingSpaces_append (isSpace_of_mem_lineFront hfront line), lineFront, hne,
      if_neg Bool.false_ne_true]
  refine Nat.le_antisymm ?_ ?_
  · -- a line that was not indented has the indentation of the element only
    have hle := sharedSpaces_le hmem hwhole
    rw [hlength flush hblank, hleading] at hle
    exact hle
  · obtain ⟨least, hleast, hleastBlank, heq⟩ := exists_leadingSpaces_eq hmem hwhole
    rw [← heq]
    -- the line in front of the closing quotes is blank and does not count
    rcases List.mem_append.mp hleast with hleast | hleast
    · obtain ⟨line, _, rfl⟩ := List.mem_map.mp hleast
      rw [isSpaceLine_append (isSpace_of_mem_lineFront hfront line)] at hleastBlank
      rw [hlength line hleastBlank]
      exact Nat.le_add_right _ _
    · rw [List.mem_singleton.mp hleast, isSpaceLine, List.all_eq_true.mpr hfront] at hleastBlank
      cases hleastBlank

/-- **A text that a block string can denote survives in one.** -/
theorem blockMeaning_blockRaw {cs : List Char} (h : StandsInBlock cs) :
    blockMeaning (blockRaw front (lines cs)) = cs := by
  have hlines : lines cs = splitLines cs := lines_eq_splitLines h.return_notMem h.last
  have hdedent : dedent (splitLines (unescapeTriples (blockRaw front (lines cs)))) =
      [[]] ++ (splitLines cs ++ [[]]) := by
    rw [hlines, splitLines_blockRaw hfront isLine_of_mem_splitLines, dedent,
      sharedSpaces_blockRaw hfront h.flush, List.map_append, List.map_map]
    simp only [Function.comp_def, drop_lineFront, List.map_id', List.map_singleton,
      List.drop_length]
    rfl
  have hblank : ∀ line ∈ [([] : List Char)], isSpaceLine line = true :=
    List.forall_mem_singleton.mpr rfl
  rw [blockMeaning, hdedent, trimBlankLines_append hblank hblank (splitLines_ne_nil cs) h.first
    h.last, unlines_splitLines h.return_notMem]

end Block

/-- **Only a text that a block string can denote survives in one.** -/
theorem standsInBlock_of_blockMeaning {front cs : List Char} (hfront : ∀ c ∈ front, isSpace c = true)
    (hne : cs ≠ []) (hplain : (lines cs).all fun line => line.all isPlainInBlock)
    (h : blockMeaning (blockRaw front (lines cs)) = cs) : StandsInBlock cs := by
  have hreturn : '\r' ∉ cs := by
    rw [← h]
    exact return_notMem_blockMeaning _
  have hmeaning : blockMeaning (blockRaw front (lines cs)) ≠ [] := by
    rw [h]
    exact hne
  have hkept := splitLines_blockMeaning hmeaning
  rw [h] at hkept
  have hfirst : ∀ line ∈ (splitLines cs).head?, isSpaceLine line = false := by
    rw [hkept]
    exact head?_trimBlankLines
  have hlast : ∀ line ∈ (splitLines cs).getLast?, isSpaceLine line = false := by
    rw [hkept]
    exact getLast?_trimBlankLines
  have hlines : lines cs = splitLines cs := lines_eq_splitLines hreturn hlast
  refine ⟨hreturn, ?_, hfirst, hlast, ?_⟩
  · -- the scan would have stopped at any other character
    intro c hc
    rw [← unlines_splitLines hreturn] at hc
    rcases eq_or_mem_of_mem_unlines hc with rfl | ⟨line, hline, hc⟩
    · decide
    · rw [← hlines] at hline
      exact List.all_eq_true.mp (List.all_eq_true.mp hplain line hline) c hc
  · have hraw : splitLines (unescapeTriples (blockRaw front (lines cs))) =
        [] :: ((lines cs).map (fun line => lineFront front line ++ line) ++ [front]) := by
      refine splitLines_blockRaw hfront ?_
      rw [hlines]
      exact isLine_of_mem_splitLines
    have hflush := exists_isFlush_of_blockMeaning hraw hmeaning
    rw [h] at hflush
    exact hflush

/-! ## Tokens of a description -/

section Tokens

variable {front text : String} (hfront : ∀ c ∈ front.toList, isSpace c = true)

include hfront

theorem scanChars_front (rest : List Char) :
    Token.scanChars (front.toList ++ rest) = Token.scanChars rest := by
  refine Token.scanChars_separators (fun c hc => ?_) rest
  rcases eq_of_isSpace (hfront c hc) with rfl | rfl <;> decide

/-- A description of one line is one token. -/
theorem scan_descriptionText_quoted (h : '\n' ∉ text.toList) (hbasic : IsBasicText text) :
    Token.scan (descriptionText front (some text)) = [.string (escape text.toList)] := by
  rw [Token.scan_eq_scanChars, toList_descriptionText_quoted h, List.append_assoc,
    scanChars_front hfront, Token.Spells.quote hbasic _ (Token.breaks_of_isSeparator rfl [])]
  rfl

/-- A description of several lines is one token, too, if it can be read. -/
theorem scan_descriptionText_block (h : '\n' ∈ text.toList) :
    Token.scan (descriptionText front (some text)) =
      if (lines text.toList).all fun line => line.all isPlainInBlock then
        [.block (blockRaw front.toList (lines text.toList))]
      else [.outsideRange] := by
  have hscan := scanBlock_blockRaw hfront (lines text.toList) ['\n']
  rw [Token.scan_eq_scanChars, toList_descriptionText_block h, scanChars_front hfront,
    Token.scanChars_token (by decide) (by decide)]
  by_cases hplain : ((lines text.toList).all fun line => line.all isPlainInBlock) = true
  · rw [if_pos hplain] at hscan ⊢
    rw [Token.read_block hscan]
    rfl
  · rw [if_neg hplain] at hscan ⊢
    rw [Token.read_block_outsideRange hscan]
    rfl

/-- **A description denotes what it should if it has one line or can stand in a block string**, and
not otherwise. -/
theorem denotes_descriptionText_iff (hbasic : IsBasicText text) :
    Denotes (descriptionText front (some text)) text ↔
      ('\n' ∈ text.toList → StandsInBlock text.toList) := by
  by_cases h : '\n' ∈ text.toList
  · have hne : text.toList ≠ [] := List.ne_nil_of_mem h
    rw [Denotes, scan_descriptionText_block hfront h]
    constructor
    · rintro ⟨token, htoken, hmeaning⟩ -
      split at htoken
      · rename_i hplain
        obtain rfl := (List.cons.inj htoken).1
        exact standsInBlock_of_blockMeaning hfront hne hplain (Option.some.inj hmeaning)
      · obtain rfl := (List.cons.inj htoken).1
        cases hmeaning
    · intro hstands
      have hall := hstands h
      have hplain : ((lines text.toList).all fun line => line.all isPlainInBlock) = true := by
        refine List.all_eq_true.mpr fun line hline => List.all_eq_true.mpr fun c hc => ?_
        exact hall.isPlain c (mem_of_mem_lines hline hc)
      rw [if_pos hplain]
      exact ⟨_, rfl, congrArg some (blockMeaning_blockRaw hfront hall)⟩
  · refine ⟨fun _ hmem => absurd hmem h, fun _ => ?_⟩
    exact ⟨_, scan_descriptionText_quoted hfront h hbasic, quotedMeaning?_escape hbasic⟩

end Tokens

/-! ## Descriptions from documents -/

/-- **Which descriptions survive rendering.** A description that is read somewhere in a document, and
then printed with any of the indentations in use, denotes what was read exactly if it has no line feed,
or if it can stand in a block string: without carriage returns and other characters that block strings
cannot hold, without blank lines at either end, and with a line that is not indented. All of this holds
of a description that was a block string already, carriage returns apart. -/
theorem descriptions_survive_iff {document : String} {tokens rest : List Token}
    {written : Description} {description front : String} (htokens : tokens <:+ Token.scan document)
    (hrun : StateT.run Description.readOptional tokens = .ok (some written, rest))
    (hdescription : written.text? = some description) (hfront : front ∈ ["", indent, deepIndent]) :
    (Denotes (descriptionText front (some description)) description ↔
      ('\n' ∈ description.toList → StandsInBlock description.toList)) ∧
      ∀ raw, written = .block raw →
        (Denotes (descriptionText front (some description)) description ↔
          ('\n' ∈ description.toList → '\r' ∉ description.toList)) := by
  have hspaces : ∀ front ∈ ["", indent, deepIndent], front.toList.all isSpace = true := by decide
  have hproper : Reader.AreProper tokens := fun t ht => Token.isProper_scanFor t (htokens.subset ht)
  obtain ⟨hwritten, -⟩ := Description.yields_readOptional tokens hproper _ rest hrun
  have hwritten := hwritten written rfl
  have hiff := denotes_descriptionText_iff (List.all_eq_true.mp (hspaces front hfront))
    (hwritten.isBasicText_text hdescription)
  refine ⟨hiff, ?_⟩
  rintro raw rfl
  obtain ⟨cs, hcs, rfl⟩ := Option.map_eq_some_iff.mp hdescription
  rw [hiff, String.toList_ofList]
  refine forall_congr' fun hnewline => ⟨fun hstands => hstands.return_notMem, fun hreturn => ?_⟩
  exact standsInBlock_of_blockValue? hwritten hcs hnewline hreturn

/-- A block string with triple quotes, printed in front of a field. -/
theorem descriptions_survive_iff_of_block :
    let document := "\"\"\"\n\tone\n\n\t  \\\"\"\" two\n\"\"\" x"
    let raw := "\n\tone\n\n\t  \\\"\"\" two\n".toList
    let description := "one\n\n  \"\"\" two"
    StateT.run Description.readOptional (Token.scan document) = .ok (some (.block raw), [.name "x"]) ∧
      (Description.block raw).text? = some description ∧
      Denotes (descriptionText indent (some description)) description := by
  intro document raw description
  have hrun : StateT.run Description.readOptional (Token.scan document) =
      .ok (some (.block raw), [.name "x"]) := by
    dsimp only [document, raw]
    rfl
  have htext : (Description.block raw).text? = some description := by
    dsimp only [raw, description]
    rfl
  have hindent : indent ∈ ["", indent, deepIndent] := by decide
  obtain ⟨-, hblock⟩ := descriptions_survive_iff (List.suffix_refl _) hrun htext hindent
  exact ⟨hrun, htext, (hblock raw rfl).mpr fun _ => by decide⟩

/-- A string between quotes may hold a control character, and a block string for it cannot be read. One
that ends with a line feed loses it. -/
theorem description_may_be_lost :
    (∃ document rest, StateT.run Description.readOptional (Token.scan document) =
        .ok (some (.quoted "a\n\x07b"), rest) ∧
      Token.scan (descriptionText "" (some "a\n\x07b")) = [.outsideRange] ∧
      ¬ Denotes (descriptionText "" (some "a\n\x07b")) "a\n\x07b") ∧
    ∃ document rest, StateT.run Description.readOptional (Token.scan document) =
        .ok (some (.quoted "a\n"), rest) ∧
      Denotes (descriptionText "" (some "a\n")) "a" ∧
      ¬ Denotes (descriptionText "" (some "a\n")) "a\n" := by
  have hcontrol : Token.scan (descriptionText "" (some "a\n\x07b")) = [.outsideRange] := by rfl
  have hblock : Token.scan (descriptionText "" (some "a\n")) = [.block "\na\n".toList] := by rfl
  have hmeaning : meaning? (.block "\na\n".toList) = some ['a'] := by decide
  refine ⟨⟨"\"a\\n\\u0007b\"", [], by rfl, hcontrol, ?_⟩, "\"a\\n\"", [], by rfl, ?_, ?_⟩
  · rintro ⟨token, htoken, hdenoted⟩
    rw [hcontrol] at htoken
    obtain rfl := (List.cons.inj htoken).1
    cases hdenoted
  · exact ⟨_, hblock, hmeaning⟩
  · rintro ⟨token, htoken, hdenoted⟩
    rw [hblock] at htoken
    obtain rfl := (List.cons.inj htoken).1
    rw [hmeaning] at hdenoted
    exact absurd hdenoted (by decide)

end Federation.Supergraph
