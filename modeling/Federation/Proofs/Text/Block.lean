import Federation.Proofs.Shuffled
import Federation.Proofs.Text.Quoted
import Federation.Text.Block

/-!
# Characters of block strings

What a reader gets from a block string are characters that stand in it, and line ends. So the value
belongs to the basic plane, like everything that may stand in a block string.
-/

namespace Federation.Text

/-! ## Characters of a value -/

theorem mem_of_mem_lines {cs line : List Char} (h : line ∈ lines cs) {c : Char} (hc : c ∈ line) :
    c ∈ cs := by
  fun_induction lines cs generalizing line with
  | case1 => cases h
  | case2 rest ih =>
    rcases List.mem_cons.mp h with rfl | h
    · cases hc
    · exact List.mem_cons_of_mem _ (ih h hc)
  | case3 rest ih =>
    rcases List.mem_cons.mp h with rfl | h
    · cases hc
    · exact List.mem_cons_of_mem _ (List.mem_cons_of_mem _ (ih h hc))
  | case4 c' rest _ _ hlines ih =>
    rw [List.mem_singleton.mp h, List.mem_singleton] at hc
    exact hc ▸ List.mem_cons_self
  | case5 c' rest _ _ first others hlines ih =>
    rw [hlines] at ih
    rcases List.mem_cons.mp h with rfl | h
    · rcases List.mem_cons.mp hc with rfl | hc
      · exact List.mem_cons_self
      · exact List.mem_cons_of_mem _ (ih List.mem_cons_self hc)
    · exact List.mem_cons_of_mem _ (ih (List.mem_cons_of_mem _ h) hc)

theorem eq_or_mem_of_mem_unlines {ls : List (List Char)} {c : Char} (h : c ∈ unlines ls) :
    c = '\n' ∨ ∃ line ∈ ls, c ∈ line := by
  fun_induction unlines ls with
  | case1 => cases h
  | case2 line => exact .inr ⟨line, List.mem_singleton_self line, h⟩
  | case3 line others _ ih =>
    rcases List.mem_append.mp h with h | h
    · exact .inr ⟨line, List.mem_cons_self, h⟩
    · rcases List.mem_cons.mp h with rfl | h
      · exact .inl rfl
      · refine (ih h).imp_right ?_
        rintro ⟨l, hl, hc⟩
        exact ⟨l, List.mem_cons_of_mem _ hl, hc⟩

theorem suffix_of_dropBytes? {n : Nat} {line rest : List Char} (h : dropBytes? n line = some rest) :
    rest <:+ line := by
  fun_induction dropBytes? n line with
  | case1 line =>
    cases h
    exact List.suffix_rfl
  | case2 =>
    cases h
    exact List.suffix_rfl
  | case3 n c after hwidth ih => exact (ih h).trans (List.suffix_cons c after)
  | case4 => cases h

theorem mem_of_mem_unescapeTriples {cs : List Char} {c : Char} (h : c ∈ unescapeTriples cs) :
    c ∈ cs := by
  fun_induction unescapeTriples cs with
  | case1 rest ih =>
    simp only [List.mem_cons] at h ⊢
    tauto
  | case2 c' rest _ ih =>
    rcases List.mem_cons.mp h with rfl | h
    · exact List.mem_cons_self
    · exact List.mem_cons_of_mem _ (ih h)
  | case3 => cases h

theorem mem_of_mem_trimBlankLines {α : Type} {blank : α → Bool} {ls : List α} {line : α}
    (h : line ∈ trimBlankLines blank ls) : line ∈ ls := by
  have h := (List.dropWhile_suffix blank).subset (List.mem_reverse.mp h)
  exact (List.dropWhile_suffix blank).subset (List.mem_reverse.mp h)

theorem isBasic_of_isPlainInBlock {c : Char} (h : isPlainInBlock c = true) : IsBasic c := by
  simp only [isPlainInBlock, Bool.or_eq_true, Bool.and_eq_true, decide_eq_true_eq] at h
  rcases h with ((rfl | rfl) | rfl) | h
  · decide
  · decide
  · decide
  · exact h.2

/-- Where a partial function is applied to all items, it gives each item its own result. -/
theorem forall₂_of_mapM_eq_some {α β : Type} {f : α → Option β} {items : List α} {results : List β}
    (h : items.mapM f = some results) :
    List.Forall₂ (fun item result => f item = some result) items results := by
  induction items generalizing results with
  | nil =>
    cases h
    exact .nil
  | cons item items ih =>
    rw [List.mapM_cons] at h
    obtain ⟨result, hresult, h⟩ := Option.bind_eq_some_iff.mp h
    obtain ⟨others, hothers, h⟩ := Option.bind_eq_some_iff.mp h
    cases h
    exact .cons hresult (ih hothers)

/-- Apart from line ends, a value is made of characters that stand in the block string. -/
theorem mem_of_blockValue? {raw cs : List Char} (h : blockValue? raw = some cs) {c : Char}
    (hc : c ∈ cs) : c = '\n' ∨ c ∈ raw := by
  unfold blockValue? at h
  dsimp only at h
  generalize hindent : commonIndentation _ = indent at h
  split at h
  · cases h
    cases hc
  · split at h
    · cases h
    · obtain ⟨ls, hls, rfl⟩ := Option.map_eq_some_iff.mp h
      rcases eq_or_mem_of_mem_unlines (mem_of_mem_unescapeTriples hc) with hnewline | ⟨l, hl, hcl⟩
      · exact .inl hnewline
      · obtain ⟨entry, hentry, hcut⟩ := exists_of_forall₂_right (forall₂_of_mapM_eq_some hls) hl
        obtain ⟨i, hi, rfl⟩ := List.mem_mapIdx.mp (mem_of_mem_trimBlankLines hentry)
        refine .inr (mem_of_mem_lines (List.getElem_mem hi) ?_)
        -- the first line stands as it is, the others are cut in front
        split at hcut
        · cases hcut
          exact hcl
        · exact (suffix_of_dropBytes? hcut).subset hcl

/-- The value of a block string holds characters of the basic plane only. -/
theorem isBasic_of_blockValue? {raw cs : List Char} (hraw : ∀ c ∈ raw, isPlainInBlock c = true)
    (h : blockValue? raw = some cs) : ∀ c ∈ cs, IsBasic c := by
  intro c hc
  rcases mem_of_blockValue? h hc with rfl | hc
  · decide
  · exact isBasic_of_isPlainInBlock (hraw c hc)

end Federation.Text
