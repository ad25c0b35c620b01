import Federation.Proofs.Text.Meaning

/-!
# What readers get from block strings

A reader follows rules of its own: all white space of Unicode counts as indentation, and is counted in
bytes, and only line feeds end lines. But what it gets from a block string has no blank lines at either
end, and if it has several lines, then one of them without indentation. So, carriage returns apart, it
can be denoted by a block string again.
-/

namespace Federation.Text

/-! ## Bytes of white space -/

theorem utf8Length_cons (c : Char) (cs : List Char) :
    utf8Length (c :: cs) = utf8Width c + utf8Length cs := by
  have hshift : ∀ n, cs.foldl (fun n c => n + utf8Width c) n = n + utf8Length cs := by
    intro n
    rw [utf8Length]
    induction cs generalizing n with
    | nil => rfl
    | cons c cs ih =>
      rw [List.foldl_cons, List.foldl_cons, ih (n + utf8Width c), ih (0 + utf8Width c)]
      omega
  rw [utf8Length, List.foldl_cons, hshift, Nat.zero_add]

theorem utf8Width_pos (c : Char) : 0 < utf8Width c := by
  unfold utf8Width
  split
  · decide
  · split
    · decide
    · split <;> decide

/-- White space only is cut off as long as no more bytes are cut off than there are of it. -/
theorem dropWhile_suffix_of_dropBytes? {n : Nat} {line rest : List Char}
    (h : dropBytes? n line = some rest) (hle : n ≤ indentation line) :
    line.dropWhile isBlank <:+ rest ∧ (n = indentation line → rest = line.dropWhile isBlank) := by
  fun_induction dropBytes? n line with
  | case1 line =>
    obtain rfl := Option.some.inj h
    refine ⟨List.dropWhile_suffix isBlank, fun hzero => ?_⟩
    cases line with
    | nil => rfl
    | cons c line =>
      cases hc : isBlank c with
      | false => rw [List.dropWhile_cons, hc, if_neg Bool.false_ne_true]
      | true =>
        have hpos := utf8Width_pos c
        rw [indentation, List.takeWhile_cons, hc, if_pos rfl, utf8Length_cons] at hzero
        omega
  | case2 n =>
    cases hle
  | case3 n c rest' hwidth ih =>
    cases hc : isBlank c with
    | false =>
      rw [indentation, List.takeWhile_cons, hc, if_neg Bool.false_ne_true] at hle
      cases hle
    | true =>
      have hindent : indentation (c :: rest') = utf8Width c + indentation rest' := by
        rw [indentation, List.takeWhile_cons, hc, if_pos rfl, utf8Length_cons, indentation]
      rw [hindent] at hle ⊢
      rw [List.dropWhile_cons, hc, if_pos rfl]
      obtain ⟨hsuffix, heq⟩ := ih h (by omega)
      exact ⟨hsuffix, fun hn => heq (by omega)⟩
  | case4 => cases h

/-- What is left of a line that is not blank is not blank. -/
theorem exists_of_suffix_dropWhile {line rest : List Char} (hline : isBlankLine line = false)
    (h : line.dropWhile isBlank <:+ rest) : ∃ c ∈ rest, isBlank c = false := by
  cases hdrop : line.dropWhile isBlank with
  | nil =>
    rw [isBlankLine, List.all_eq_true.mpr (List.dropWhile_eq_nil_iff.mp hdrop)] at hline
    cases hline
  | cons c cs =>
    exact ⟨c, h.subset (hdrop ▸ List.mem_cons_self), eq_false_of_dropWhile_eq_cons hdrop⟩

theorem isBlank_of_isSpace {c : Char} (h : isSpace c = true) : isBlank c = true := by
  rcases eq_of_isSpace h with rfl | rfl <;> decide

/-! ## Triple quotes in lines -/

/-- Neither blank lines nor indentation depend on triple quotes. -/
theorem isSpaceLine_unescapeTriples (line : List Char) :
    isSpaceLine (unescapeTriples line) = isSpaceLine line ∧
      leadingSpaces (unescapeTriples line) = leadingSpaces line := by
  fun_induction unescapeTriples line with
  | case1 rest ih => exact ⟨rfl, rfl⟩
  | case2 c rest hno ih =>
    constructor
    · rw [isSpaceLine, List.all_cons, isSpaceLine, List.all_cons]
      exact congrArg _ ih.1
    · simp only [leadingSpaces, List.takeWhile_cons]
      split
      · rw [List.length_cons, List.length_cons]
        exact congrArg _ ih.2
      · rfl
  | case3 => exact ⟨rfl, rfl⟩

/-- Triple quotes stand in one line. -/
theorem unescapeTriples_append (line rest : List Char) :
    unescapeTriples (line ++ '\n' :: rest) = unescapeTriples line ++ '\n' :: unescapeTriples rest := by
  fun_induction unescapeTriples line with
  | case1 line ih =>
    rw [List.cons_append, List.cons_append, List.cons_append, List.cons_append, unescapeTriples, ih]
    rfl
  | case2 c line hno ih =>
    rw [List.cons_append, unescapeTriples, ih, List.cons_append]
    -- quotes behind a backslash that go on into the next line are not three
    rintro after rfl h
    rcases line with _ | ⟨first, _ | ⟨second, _ | ⟨third, others⟩⟩⟩
    · exact absurd (List.cons.inj h).1 (by decide)
    · exact absurd (List.cons.inj (List.cons.inj h).2).1 (by decide)
    · exact absurd (List.cons.inj (List.cons.inj (List.cons.inj h).2).2).1 (by decide)
    · simp only [List.cons_append, List.cons.injEq] at h
      obtain ⟨rfl, rfl, rfl, -⟩ := h
      exact hno others rfl rfl
  | case3 =>
    rw [List.nil_append, unescapeTriples_cons (by decide), List.nil_append]

theorem unescapeTriples_unlines (ls : List (List Char)) :
    unescapeTriples (unlines ls) = unlines (ls.map unescapeTriples) := by
  fun_induction unlines ls with
  | case1 => rfl
  | case2 line => rfl
  | case3 line others hothers ih =>
    have hne : others.map unescapeTriples ≠ [] := by
      intro hnil
      exact hothers (List.map_eq_nil_iff.mp hnil)
    rw [unescapeTriples_append, ih, List.map_cons, unlines_cons hne]

/-! ## Lines that are kept -/

theorem newline_notMem_of_mem_lines {cs : List Char} : ∀ line ∈ lines cs, '\n' ∉ line := by
  fun_induction lines cs with
  | case1 => exact fun _ h => absurd h List.not_mem_nil
  | case2 rest ih => exact List.forall_mem_cons.mpr ⟨List.not_mem_nil, ih⟩
  | case3 rest ih => exact List.forall_mem_cons.mpr ⟨List.not_mem_nil, ih⟩
  | case4 c rest hnewline _ hlines ih =>
    refine List.forall_mem_singleton.mpr fun h => hnewline ?_
    exact (List.mem_singleton.mp h).symm
  | case5 c rest hnewline _ line others hlines ih =>
    rw [hlines] at ih
    obtain ⟨hline, hothers⟩ := List.forall_mem_cons.mp ih
    refine List.forall_mem_cons.mpr ⟨fun h => ?_, hothers⟩
    rcases List.mem_cons.mp h with h | h
    · exact hnewline h.symm
    · exact hline h

/-- What a line becomes: whether it is blank, and what is left of it. -/
def cutLine (indent : Nat) (line : List Char) : Bool × Option (List Char) :=
  (isBlankLine line, dropBytes? indent line)

/-- The first line stands as it is, the others lose the indentation that they share. -/
def cutLines (first : List Char) (others : List (List Char)) : List (Bool × Option (List Char)) :=
  (isBlankLine first, some first) :: others.map (cutLine (commonIndentation others))

theorem mapIdx_eq_cutLines (first : List Char) (others : List (List Char)) :
    ((first :: others).mapIdx fun i line =>
      (isBlankLine line, if i = 0 then some line else dropBytes? (commonIndentation others) line)) =
      cutLines first others := by
  rw [List.mapIdx_cons, if_pos rfl, cutLines]
  congr 1
  refine List.ext_getElem (by rw [List.length_mapIdx, List.length_map]) fun i _ _ => ?_
  simp [cutLine]

/-- What is left of a line that is not blank is not blank for GraphQL either. -/
theorem isSpaceLine_unescape_of_suffix {line rest : List Char} (hline : isBlankLine line = false)
    (h : line.dropWhile isBlank <:+ rest) : isSpaceLine (unescapeTriples rest) = false := by
  obtain ⟨c, hc, hblank⟩ := exists_of_suffix_dropWhile hline h
  rw [(isSpaceLine_unescapeTriples rest).1, ← Bool.not_eq_true]
  intro hall
  rw [isBlank_of_isSpace (List.all_eq_true.mp hall c hc)] at hblank
  cases hblank

section Cut

variable {first : List Char} {others : List (List Char)} {entry : Bool × Option (List Char)}

theorem of_mem_cutLines {rest : List Char} (hentry : entry ∈ cutLines first others)
    (hrest : entry.2 = some rest) :
    (∃ line ∈ first :: others, rest <:+ line) ∧
      (entry.1 = false → isSpaceLine (unescapeTriples rest) = false) := by
  rcases List.mem_cons.mp hentry with rfl | hentry
  · obtain rfl := Option.some.inj hrest
    refine ⟨⟨first, List.mem_cons_self, List.suffix_rfl⟩, fun hblank => ?_⟩
    exact isSpaceLine_unescape_of_suffix hblank (List.dropWhile_suffix isBlank)
  · obtain ⟨line, hline, rfl⟩ := List.mem_map.mp hentry
    refine ⟨⟨line, List.mem_cons_of_mem _ hline, suffix_of_dropBytes? hrest⟩, fun hblank => ?_⟩
    have hle : commonIndentation others ≤ indentation line :=
      (least_of_filter (fun line => !isBlankLine line) indentation hline
        (by rw [show isBlankLine line = false from hblank]; rfl)).2
    exact isSpaceLine_unescape_of_suffix hblank (dropWhile_suffix_of_dropBytes? hrest hle).1

/-- If some line but the first is not blank, then one of them is left without indentation. -/
theorem exists_isFlush_of_mem_cutLines (hentry : entry ∈ (cutLines first others).tail)
    (hblank : entry.1 = false) :
    ∃ flush ∈ cutLines first others, flush.1 = false ∧
      ∀ rest, flush.2 = some rest → IsFlush (unescapeTriples rest) := by
  obtain ⟨line, hline, rfl⟩ := List.mem_map.mp hentry
  obtain ⟨⟨least, hleast, hcounts, heq⟩, -⟩ :=
    least_of_filter (fun line => !isBlankLine line) indentation hline
      (by rw [show isBlankLine line = false from hblank]; rfl)
  have hleastBlank : isBlankLine least = false := by simpa using hcounts
  have hmem : cutLine (commonIndentation others) least ∈ cutLines first others :=
    List.mem_cons_of_mem _ (List.mem_map_of_mem hleast)
  refine ⟨_, hmem, hleastBlank, fun rest hrest => ?_⟩
  refine ⟨(of_mem_cutLines hmem hrest).2 hleastBlank, ?_⟩
  -- exactly the indentation of this line is cut off
  have hcut := (dropWhile_suffix_of_dropBytes? hrest (Nat.le_of_eq heq.symm)).2 heq.symm
  rw [(isSpaceLine_unescapeTriples rest).2, hcut]
  cases hdrop : least.dropWhile isBlank with
  | nil => rfl
  | cons c cs =>
    have hc : isBlank c = false := eq_false_of_dropWhile_eq_cons hdrop
    have hspace : isSpace c = false := by
      rw [← Bool.not_eq_true]
      intro hspace
      rw [isBlank_of_isSpace hspace] at hc
      cases hc
    rw [leadingSpaces, List.takeWhile_cons, hspace, if_neg Bool.false_ne_true, List.length_nil]

end Cut

/-- What comes second or later in a part of a list comes second or later in the list. -/
theorem mem_tail_of_isInfix {α : Type} {part whole : List α} (h : part <:+: whole) {a : α}
    (ha : a ∈ part.tail) : a ∈ whole.tail := by
  obtain ⟨front, back, rfl⟩ := h
  cases front with
  | nil =>
    cases part with
    | nil => cases ha
    | cons b part => exact List.mem_append_left _ ha
  | cons b front =>
    exact List.mem_append_left _ (List.mem_append_right _ (List.mem_of_mem_tail ha))

/-- The first of the one list goes with the first of the other. -/
theorem head?_of_forall₂ {α β : Type} {R : α → β → Prop} {l : List α} {l' : List β}
    (h : List.Forall₂ R l l') {b : β} (hb : b ∈ l'.head?) : ∃ a ∈ l.head?, R a b := by
  cases h with
  | nil => cases hb
  | cons hfirst _ =>
    obtain rfl := Option.some.inj hb
    exact ⟨_, rfl, hfirst⟩

theorem getLast?_of_forall₂ {α β : Type} {R : α → β → Prop} {l : List α} {l' : List β}
    (h : List.Forall₂ R l l') {b : β} (hb : b ∈ l'.getLast?) : ∃ a ∈ l.getLast?, R a b := by
  rw [← List.head?_reverse] at hb ⊢
  exact head?_of_forall₂ (List.forall₂_reverse_iff.mpr h) hb

/-- The last of several items is not the first. -/
theorem exists_getLast?_mem_tail {α : Type} {l : List α} (h : 2 ≤ l.length) :
    ∃ last ∈ l.getLast?, last ∈ l.tail := by
  rcases l with _ | ⟨first, _ | ⟨second, others⟩⟩
  · cases h
  · exact absurd h (Nat.not_succ_le_self 1)
  · refine ⟨(second :: others).getLast (List.cons_ne_nil second others), ?_, List.getLast_mem _⟩
    rw [List.getLast?_cons_cons, List.getLast?_eq_some_getLast (List.cons_ne_nil second others)]
    rfl

theorem mem_unlines {ls : List (List Char)} {line : List Char} (hline : line ∈ ls) {c : Char}
    (hc : c ∈ line) : c ∈ unlines ls := by
  fun_induction unlines ls with
  | case1 => cases hline
  | case2 first => exact List.mem_singleton.mp hline ▸ hc
  | case3 first others _ ih =>
    rcases List.mem_cons.mp hline with rfl | hline
    · exact List.mem_append_left _ hc
    · exact List.mem_append_right _ (List.mem_cons_of_mem _ (ih hline))

/-- A value that is not empty consists of the lines that are kept. -/
theorem exists_of_blockValue? {raw cs : List Char} (h : blockValue? raw = some cs) (hne : cs ≠ []) :
    ∃ first others ls, lines raw = first :: others ∧
      List.Forall₂ (fun entry line => entry.2 = some line)
        (trimBlankLines Prod.fst (cutLines first others)) ls ∧
      cs = unlines (ls.map unescapeTriples) := by
  unfold blockValue? at h
  dsimp only at h
  cases hlines : lines raw with
  | nil =>
    rw [hlines] at h
    cases h
    exact absurd rfl hne
  | cons first others =>
    rw [hlines, List.drop_one, List.tail_cons, mapIdx_eq_cutLines] at h
    split at h
    · cases h
      exact absurd rfl hne
    · split at h
      · cases h
      · obtain ⟨ls, hls, rfl⟩ := Option.map_eq_some_iff.mp h
        exact ⟨first, others, ls, rfl, forall₂_of_mapM_eq_some hls, unescapeTriples_unlines ls⟩

section Kept

variable {first : List Char} {others ls : List (List Char)}
  (hpairs : List.Forall₂ (fun entry line => entry.2 = some line)
    (trimBlankLines Prod.fst (cutLines first others)) ls)

include hpairs

/-- No line feed comes into a line that is kept. -/
theorem isLine_of_mem_kept (hnewlines : ∀ line ∈ first :: others, '\n' ∉ line)
    (hreturn : '\r' ∉ unlines (ls.map unescapeTriples)) :
    ∀ line ∈ ls.map unescapeTriples, IsLine line := by
  intro line hline c hc
  constructor
  · rintro rfl
    obtain ⟨rest, hrest, rfl⟩ := List.mem_map.mp hline
    obtain ⟨entry, hentry, hcut⟩ := exists_of_forall₂_right hpairs hrest
    obtain ⟨⟨whole, hwhole, hsuffix⟩, -⟩ :=
      of_mem_cutLines (mem_of_mem_trimBlankLines hentry) hcut
    exact hnewlines whole hwhole (hsuffix.subset (mem_of_mem_unescapeTriples hc))
  · rintro rfl
    exact hreturn (mem_unlines hline hc)

/-- The lines that are kept do not begin with a blank one. -/
theorem isSpaceLine_head?_kept :
    ∀ line ∈ (ls.map unescapeTriples).head?, isSpaceLine line = false := by
  intro line hline
  rw [List.head?_map] at hline
  obtain ⟨rest, hrest, rfl⟩ := Option.map_eq_some_iff.mp hline
  obtain ⟨entry, hentry, hcut⟩ := head?_of_forall₂ hpairs hrest
  have hmem := mem_of_mem_trimBlankLines (List.mem_of_mem_head? hentry)
  exact (of_mem_cutLines hmem hcut).2 (head?_trimBlankLines entry hentry)

/-- Neither do they end with one. -/
theorem isSpaceLine_getLast?_kept :
    ∀ line ∈ (ls.map unescapeTriples).getLast?, isSpaceLine line = false := by
  intro line hline
  rw [List.getLast?_map] at hline
  obtain ⟨rest, hrest, rfl⟩ := Option.map_eq_some_iff.mp hline
  obtain ⟨entry, hentry, hcut⟩ := getLast?_of_forall₂ hpairs hrest
  have hmem := mem_of_mem_trimBlankLines (List.mem_of_mem_getLast? hentry)
  exact (of_mem_cutLines hmem hcut).2 (getLast?_trimBlankLines entry hentry)

/-- Among several lines that are kept is one without indentation. -/
theorem exists_isFlush_of_kept (hseveral : 2 ≤ ls.length) :
    ∃ line ∈ ls.map unescapeTriples, IsFlush line := by
  -- the last of several lines is not the first one, and it is not blank
  obtain ⟨last, hlast, htail⟩ := exists_getLast?_mem_tail (hpairs.length_eq ▸ hseveral)
  obtain ⟨flush, hflush, hfalse, hcut⟩ := exists_isFlush_of_mem_cutLines
    (mem_tail_of_isInfix (trimBlankLines_isInfix _) htail) (getLast?_trimBlankLines last hlast)
  obtain ⟨line, hline, hvalue⟩ := exists_of_forall₂_left hpairs (mem_trimBlankLines hflush hfalse)
  exact ⟨unescapeTriples line, List.mem_map_of_mem hline, hcut line hvalue⟩

end Kept

/-- **What a block string is read as can stand in a block string again**, if it has several lines and
no carriage returns. -/
theorem standsInBlock_of_blockValue? {raw cs : List Char}
    (hraw : ∀ c ∈ raw, isPlainInBlock c = true) (h : blockValue? raw = some cs)
    (hnewline : '\n' ∈ cs) (hreturn : '\r' ∉ cs) : StandsInBlock cs := by
  have hplain : ∀ c ∈ cs, isPlainInBlock c = true := by
    intro c hc
    rcases mem_of_blockValue? h hc with rfl | hc
    · decide
    · exact hraw c hc
  obtain ⟨first, others, ls, hlines, hpairs, rfl⟩ :=
    exists_of_blockValue? h (List.ne_nil_of_mem hnewline)
  have hnewlines : ∀ line ∈ first :: others, '\n' ∉ line := by
    rw [← hlines]
    exact newline_notMem_of_mem_lines
  have hisLine := isLine_of_mem_kept hpairs hnewlines hreturn
  have hne : ls.map unescapeTriples ≠ [] := by
    intro hnil
    rw [hnil] at hnewline
    cases hnewline
  have hseveral : 2 ≤ ls.length := by
    rcases ls with _ | ⟨line, _ | ⟨second, others⟩⟩
    · exact absurd rfl hne
    · -- a single line has no line feed
      exact absurd rfl (hisLine _ (List.mem_singleton_self _) '\n' hnewline).1
    · exact Nat.le_add_left 2 _
  have hsplit := splitLines_unlines hne hisLine
  exact {
    return_notMem := hreturn
    isPlain := hplain
    first := hsplit.symm ▸ isSpaceLine_head?_kept hpairs
    last := hsplit.symm ▸ isSpaceLine_getLast?_kept hpairs
    flush := hsplit.symm ▸ exists_isFlush_of_kept hpairs hseveral }

end Federation.Text
