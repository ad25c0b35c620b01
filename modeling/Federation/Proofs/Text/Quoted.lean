import Federation.Text.Quoted
import Mathlib.Data.List.Basic

/-!
# Quoted strings from their texts

Between quotes every character of the basic plane is written in a way of its own: as itself, behind a
backslash, or by its number. A reader goes over each of these ways in one step and gets back the
character, so it comes to the closing quote with the whole string. The other way round, a reader only
ever gets characters of the basic plane.
-/

namespace Federation.Text

/-- The character belongs to the basic plane, the first 65536 code points. -/
def IsBasic (c : Char) : Prop :=
  c.toNat ≤ 0xFFFF

instance (c : Char) : Decidable (IsBasic c) :=
  inferInstanceAs (Decidable (c.toNat ≤ 0xFFFF))

/-- All characters of the text belong to the basic plane. -/
def IsBasicText (s : String) : Prop :=
  ∀ c ∈ s.toList, IsBasic c

-- goes over the text, not over all characters there are
instance (s : String) : Decidable (IsBasicText s) :=
  List.decidableBAll IsBasic s.toList

/-! ## Numbers of characters -/

theorem lt_of_hexValue? {c : Char} {n : Nat} (h : hexValue? c = some n) : n < 16 := by
  unfold hexValue? at h
  split at h
  · rename_i hrange
    have hrange : '0' ≤ c ∧ c ≤ '9' := by simpa using hrange
    have hbounds : 48 ≤ c.toNat ∧ c.toNat ≤ 57 := hrange
    have hzero : '0'.toNat = 48 := rfl
    cases h
    omega
  · split at h
    · rename_i hrange
      have hrange : 'a' ≤ c ∧ c ≤ 'f' := by simpa using hrange
      have hbounds : 97 ≤ c.toNat ∧ c.toNat ≤ 102 := hrange
      have ha : 'a'.toNat = 97 := rfl
      cases h
      omega
    · split at h
      · rename_i hrange
        have hrange : 'A' ≤ c ∧ c ≤ 'F' := by simpa using hrange
        have hbounds : 65 ≤ c.toNat ∧ c.toNat ≤ 70 := hrange
        have hA : 'A'.toNat = 65 := rfl
        cases h
        omega
      · cases h

theorem fourHexValue?_hexDigits {n : Nat} (h : n ≤ 0xFFFF) :
    fourHexValue? (hexDigit (n / 4096 % 16)) (hexDigit (n / 256 % 16)) (hexDigit (n / 16 % 16))
      (hexDigit (n % 16)) = some n := by
  have hdigit : ∀ m, hexValue? (hexDigit (m % 16)) = some (m % 16) := by
    intro m
    exact hexValue?_hexDigit (Nat.mod_lt m (by decide))
  simp only [fourHexValue?, hdigit, Option.bind_eq_bind, Option.bind_some, Option.pure_def]
  congr 1
  omega

theorem le_of_fourHexValue? {a b c d : Char} {n : Nat} (h : fourHexValue? a b c d = some n) :
    n ≤ 0xFFFF := by
  obtain ⟨x, hx, h⟩ := Option.bind_eq_some_iff.mp h
  obtain ⟨y, hy, h⟩ := Option.bind_eq_some_iff.mp h
  obtain ⟨z, hz, h⟩ := Option.bind_eq_some_iff.mp h
  obtain ⟨w, hw, h⟩ := Option.bind_eq_some_iff.mp h
  have hx := lt_of_hexValue? hx
  have hy := lt_of_hexValue? hy
  have hz := lt_of_hexValue? hz
  have hw := lt_of_hexValue? hw
  cases h
  omega

/-- The escape by number stands for a character that is no surrogate, as no character is. -/
theorem hexEscape?_hexDigits {c : Char} (hc : IsBasic c) :
    hexEscape? (hexDigit (c.toNat / 4096 % 16)) (hexDigit (c.toNat / 256 % 16))
      (hexDigit (c.toNat / 16 % 16)) (hexDigit (c.toNat % 16)) = some c := by
  have hvalid : ¬ (0xD800 ≤ c.toNat ∧ c.toNat ≤ 0xDFFF) := by
    intro hsurrogate
    have := c.valid
    rcases this with h | h
    · have : c.toNat < 0xD800 := h
      omega
    · have : 0xDFFF < c.toNat := h.1
      omega
  rw [hexEscape?, fourHexValue?_hexDigits hc]
  simp only [Option.bind_eq_bind, Option.bind_some, Bool.and_eq_true, decide_eq_true_eq,
    if_neg hvalid, Char.ofNat_toNat]

/-! ## One character -/

/-- A character of the basic plane that needs no escape may stand for itself. -/
theorem isPlainInQuotes_of_not_isControl {c : Char} (hc : IsBasic c) (hquote : c ≠ '\"')
    (hbackslash : c ≠ '\\') (hcontrol : isControl c = false) : isPlainInQuotes c = true := by
  have hlower : 0x20 ≤ c.toNat := by
    by_contra hlt
    have hmem : c.toNat ≤ 0x1F := by omega
    simp [isControl, hmem] at hcontrol
  have hupper : c.toNat ≤ 0xFFFF := hc
  simp [isPlainInQuotes, hlower, hupper, hquote, hbackslash]

/-- The ways in which a character is written: as it is, behind a backslash, or by its number. -/
theorem escapeChar_cases {c : Char} (hc : IsBasic c) :
    (escapeChar c = [c] ∧ c ≠ '\\' ∧ isPlainInQuotes c = true) ∨
      (∃ e, escapeChar c = ['\\', e] ∧ e ≠ 'u' ∧ simpleEscape? e = some c) ∨
      escapeChar c = '\\' :: 'u' :: fourHexDigits c.toNat := by
  by_cases hquote : c = '\"'
  · exact .inr (.inl ⟨'\"', by simp [escapeChar, hquote], by decide, by rw [hquote]; rfl⟩)
  by_cases hbackslash : c = '\\'
  · exact .inr (.inl ⟨'\\', by simp [escapeChar, hbackslash], by decide, by rw [hbackslash]; rfl⟩)
  by_cases hn : c = '\n'
  · exact .inr (.inl ⟨'n', by simp [escapeChar, hn], by decide, by rw [hn]; rfl⟩)
  by_cases hr : c = '\r'
  · exact .inr (.inl ⟨'r', by simp [escapeChar, hr], by decide, by rw [hr]; rfl⟩)
  by_cases ht : c = '\t'
  · exact .inr (.inl ⟨'t', by simp [escapeChar, ht], by decide, by rw [ht]; rfl⟩)
  by_cases hcontrol : isControl c = true
  · exact .inr (.inr (by simp [escapeChar, hquote, hbackslash, hn, hr, ht, hcontrol]))
  · rw [Bool.not_eq_true] at hcontrol
    exact .inl ⟨by simp [escapeChar, hquote, hbackslash, hn, hr, ht, hcontrol], hbackslash,
      isPlainInQuotes_of_not_isControl hc hquote hbackslash hcontrol⟩

/-- A reader looks behind an escape with one letter. -/
theorem spanQuoted?_simple {e : Char} (hu : e ≠ 'u') {c : Char} (he : simpleEscape? e = some c)
    (rest : List Char) :
    spanQuoted? ('\\' :: e :: rest) =
      (spanQuoted? rest).map fun found => ('\\' :: e :: found.1, found.2) := by
  rw [spanQuoted?.eq_3 e rest (by rintro _ _ _ _ _ rfl; exact absurd rfl hu), he]
  cases spanQuoted? rest <;> rfl

theorem unescape?_simple {e : Char} (hu : e ≠ 'u') {c : Char} (he : simpleEscape? e = some c)
    (rest : List Char) : unescape? ('\\' :: e :: rest) = (unescape? rest).map (c :: ·) := by
  rw [unescape?.eq_2 e rest (by rintro _ _ _ _ _ rfl; exact absurd rfl hu), he]
  cases unescape? rest <;> rfl

/-- Other characters than the backslash stand for themselves. -/
theorem unescape?_plain {c : Char} (hc : c ≠ '\\') (rest : List Char) :
    unescape? (c :: rest) = (unescape? rest).map (c :: ·) := by
  rw [unescape?]
  · rintro _ _ _ _ _ rfl
    exact absurd rfl hc
  · rintro _ _ rfl
    exact absurd rfl hc

/-- A reader goes over a written character. -/
theorem spanQuoted?_escapeChar {c : Char} (hc : IsBasic c) (rest : List Char) :
    spanQuoted? (escapeChar c ++ rest) =
      (spanQuoted? rest).map fun found => (escapeChar c ++ found.1, found.2) := by
  rcases escapeChar_cases hc with ⟨hwritten, hbackslash, hplain⟩ | ⟨e, hwritten, hu, he⟩ | hwritten
  · have hquote : c ≠ '\"' := by
      rintro rfl
      exact absurd hplain (by decide)
    rw [hwritten, List.singleton_append, spanQuoted?]
    · rw [if_pos hplain]
      cases spanQuoted? rest <;> rfl
    · exact hquote
    · rintro _ _ _ _ _ rfl
      exact absurd rfl hbackslash
    · rintro _ _ rfl
      exact absurd rfl hbackslash
  · rw [hwritten]
    exact spanQuoted?_simple hu he rest
  · rw [hwritten, fourHexDigits]
    simp only [List.cons_append, List.nil_append, spanQuoted?]
    rw [if_pos (by rw [fourHexValue?_hexDigits hc]; rfl)]
    cases spanQuoted? rest <;> rfl

theorem unescape?_escapeChar {c : Char} (hc : IsBasic c) (rest : List Char) :
    unescape? (escapeChar c ++ rest) = (unescape? rest).map (c :: ·) := by
  rcases escapeChar_cases hc with ⟨hwritten, hbackslash, -⟩ | ⟨e, hwritten, hu, he⟩ | hwritten
  · rw [hwritten]
    exact unescape?_plain hbackslash rest
  · rw [hwritten]
    exact unescape?_simple hu he rest
  · rw [hwritten, fourHexDigits]
    simp only [List.cons_append, List.nil_append, unescape?, hexEscape?_hexDigits hc]
    cases unescape? rest <;> rfl

/-! ## Whole strings -/

/-- The closing quote behind a written string is found. -/
theorem spanQuoted?_escape {cs : List Char} (h : ∀ c ∈ cs, IsBasic c) (rest : List Char) :
    spanQuoted? (escape cs ++ '\"' :: rest) = some (escape cs, rest) := by
  induction cs with
  | nil => rfl
  | cons c cs ih =>
    obtain ⟨hc, hcs⟩ := List.forall_mem_cons.mp h
    rw [escape_cons, List.append_assoc, spanQuoted?_escapeChar hc, ih hcs]
    rfl

/-- **What a string is written as stands for the string.** -/
theorem unescape?_escape {cs : List Char} (h : ∀ c ∈ cs, IsBasic c) :
    unescape? (escape cs) = some cs := by
  induction cs with
  | nil => rfl
  | cons c cs ih =>
    obtain ⟨hc, hcs⟩ := List.forall_mem_cons.mp h
    rw [escape_cons, unescape?_escapeChar hc, ih hcs]
    rfl

/-- No written string begins with a quote. -/
theorem head?_escape_ne {cs : List Char} (h : ∀ c ∈ cs, IsBasic c) :
    (escape cs).head? ≠ some '\"' := by
  cases cs with
  | nil => nofun
  | cons c cs =>
    rcases escapeChar_cases (h c List.mem_cons_self) with ⟨hw, -, hplain⟩ | ⟨e, hw, -⟩ | hw
    · rw [escape_cons, hw]
      intro hquote
      obtain rfl : c = '\"' := by simpa using hquote
      exact absurd hplain (by decide)
    · simp [hw]
    · simp [hw]

/-! ## What readers get -/

theorem isBasic_of_isPlainInQuotes {c : Char} (h : isPlainInQuotes c = true) : IsBasic c := by
  simp only [isPlainInQuotes, Bool.or_eq_true, Bool.and_eq_true, decide_eq_true_eq] at h
  rcases h with rfl | h
  · decide
  · exact h.1.1.2

theorem isBasic_of_simpleEscape? {e c : Char} (h : simpleEscape? e = some c) : IsBasic c := by
  unfold simpleEscape? at h
  split at h <;> cases h <;> decide

theorem isBasic_of_hexEscape? {a b c d char : Char} (h : hexEscape? a b c d = some char) :
    IsBasic char := by
  obtain ⟨n, hn, h⟩ := Option.bind_eq_some_iff.mp h
  have hle := le_of_fourHexValue? hn
  split at h
  · cases h
  · rename_i hvalid
    have hchar : n.isValidChar := by
      have : ¬ (0xD800 ≤ n ∧ n ≤ 0xDFFF) := by simpa using hvalid
      unfold Nat.isValidChar
      omega
    cases h
    have hnumber : (Char.ofNat n).toNat = n := by
      rw [Char.ofNat, dif_pos hchar]
      rfl
    rw [IsBasic, hnumber]
    exact hle

/-- Whatever is read between quotes stands for characters of the basic plane. -/
theorem isBasic_of_spanQuoted? {cs raw rest s : List Char} (h : spanQuoted? cs = some (raw, rest))
    (hs : unescape? raw = some s) : ∀ c ∈ s, IsBasic c := by
  fun_induction spanQuoted? cs generalizing raw rest s with
  | case1 rest =>
    cases h
    cases hs
    exact fun _ hc => absurd hc List.not_mem_nil
  | case2 a b c d rest hdigits ih =>
    obtain ⟨⟨raw', after⟩, hrest, h⟩ := Option.bind_eq_some_iff.mp h
    cases h
    obtain ⟨char, hchar, hs⟩ := Option.bind_eq_some_iff.mp hs
    obtain ⟨s', hs', hs⟩ := Option.bind_eq_some_iff.mp hs
    cases hs
    exact List.forall_mem_cons.mpr ⟨isBasic_of_hexEscape? hchar, ih hrest hs'⟩
  | case3 => cases h
  | case4 e rest hu hletter ih =>
    obtain ⟨⟨raw', after⟩, hrest, h⟩ := Option.bind_eq_some_iff.mp h
    cases h
    obtain ⟨char, hchar⟩ := Option.isSome_iff_exists.mp hletter
    have hne : e ≠ 'u' := by
      rintro rfl
      cases hchar
    rw [unescape?_simple hne hchar] at hs
    obtain ⟨s', hs', rfl⟩ := Option.map_eq_some_iff.mp hs
    exact List.forall_mem_cons.mpr ⟨isBasic_of_simpleEscape? hchar, ih hrest hs'⟩
  | case5 => cases h
  -- a backslash is never plain, so what stands here stands for itself
  | case6 c rest hquote hu hletter hplain ih =>
    obtain ⟨⟨raw', after⟩, hrest, h⟩ := Option.bind_eq_some_iff.mp h
    cases h
    have hne : c ≠ '\\' := by
      rintro rfl
      exact absurd hplain (by decide)
    rw [unescape?_plain hne] at hs
    obtain ⟨s', hs', rfl⟩ := Option.map_eq_some_iff.mp hs
    exact List.forall_mem_cons.mpr ⟨isBasic_of_isPlainInQuotes hplain, ih hrest hs'⟩
  | case7 => cases h
  | case8 => cases h

end Federation.Text
