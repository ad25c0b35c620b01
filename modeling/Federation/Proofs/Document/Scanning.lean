import Federation.Document.Token
import Federation.Proofs.Text.Quoted
import Mathlib.Data.List.TakeWhile
import Mathlib.Data.Option.Basic

/-!
# Scanning

A token is read off the front of a text and leaves less text, so there are always enough steps to
scan all of it, and the tokens of a text follow from its characters alone. A word stands for tokens
if these are what is scanned of it before anything that does not go on with its last token; such
words can be put together. Names, integers and quoted strings are such words. They are written with
characters of the basic plane, so texts that are put together from them can be quoted and read back
themselves.
-/

namespace Federation

/-- A text with the form of a name. -/
def Text.IsName (name : String) : Prop :=
  ∃ c cs, name = String.ofList (c :: cs) ∧ isNameStart c = true ∧ ∀ c' ∈ cs, isNamePart c' = true

theorem Text.isDigit_iff (c : Char) : c.isDigit = true ↔ 48 ≤ c.toNat ∧ c.toNat ≤ 57 := by
  have h : c.isDigit = true ↔ decide (48 ≤ c.toNat) = true ∧ decide (c.toNat ≤ 57) = true :=
    Bool.and_eq_true_iff
  rw [h, decide_eq_true_iff, decide_eq_true_iff]

theorem Text.isAlpha_iff (c : Char) :
    c.isAlpha = true ↔ 65 ≤ c.toNat ∧ c.toNat ≤ 90 ∨ 97 ≤ c.toNat ∧ c.toNat ≤ 122 := by
  have hupper : c.isUpper = true ↔ 65 ≤ c.toNat ∧ c.toNat ≤ 90 := decide_eq_true_iff
  have hlower : c.isLower = true ↔ decide (97 ≤ c.toNat) = true ∧ decide (c.toNat ≤ 122) = true :=
    Bool.and_eq_true_iff
  have h : c.isAlpha = true ↔ c.isUpper = true ∨ c.isLower = true := Bool.or_eq_true_iff
  rw [h, hupper, hlower, decide_eq_true_iff, decide_eq_true_iff]

namespace Document.Token

/-! ## Less text is left -/

/-- What is scanned with more raw text in front. -/
theorem prepend_eq_closed {scan : Text.BlockScan} {front raw rest : List Char}
    (h : scan.prepend front = .closed raw rest) :
    ∃ raw', scan = .closed raw' rest ∧ raw = front ++ raw' := by
  cases scan with
  | closed raw' rest' =>
    cases h
    exact ⟨raw', rfl, rfl⟩
  | unclosed => cases h
  | outsideRange => cases h

theorem length_of_scanBlock {cs raw rest : List Char} (h : Text.scanBlock cs = .closed raw rest) :
    rest.length < cs.length := by
  fun_induction Text.scanBlock cs generalizing raw with
  | case1 after =>
    cases h
    simp only [List.length_cons]
    omega
  | case2 after ih =>
    obtain ⟨raw', hafter, -⟩ := prepend_eq_closed h
    have hlt := ih hafter
    simp only [List.length_cons]
    omega
  | case3 c after _ _ _ ih =>
    obtain ⟨raw', hafter, -⟩ := prepend_eq_closed h
    have hlt := ih hafter
    simp only [List.length_cons]
    omega
  | case4 => cases h
  | case5 => cases h

theorem length_of_spanQuoted? {cs raw rest : List Char}
    (h : Text.spanQuoted? cs = some (raw, rest)) : rest.length < cs.length := by
  fun_induction Text.spanQuoted? cs generalizing raw with
  | case1 after =>
    cases h
    exact Nat.lt_succ_self _
  | case2 a b c d after _ ih =>
    obtain ⟨⟨raw', rest'⟩, hafter, h⟩ := Option.bind_eq_some_iff.mp h
    cases h
    have hlt := ih hafter
    simp only [List.length_cons]
    omega
  | case4 e after _ _ ih =>
    obtain ⟨⟨raw', rest'⟩, hafter, h⟩ := Option.bind_eq_some_iff.mp h
    cases h
    have hlt := ih hafter
    simp only [List.length_cons]
    omega
  | case6 c after _ _ _ _ ih =>
    obtain ⟨⟨raw', rest'⟩, hafter, h⟩ := Option.bind_eq_some_iff.mp h
    cases h
    have hlt := ih hafter
    simp only [List.length_cons]
    omega
  | case3 => cases h
  | case5 => cases h
  | case7 => cases h
  | case8 => cases h

theorem length_readString_le (cs : List Char) : (readString cs).2.length ≤ cs.length := by
  unfold readString
  split
  · rename_i rest
    split
    · rename_i raw after hscan
      have hlt := length_of_scanBlock hscan
      simp only [List.length_cons]
      omega
    · exact Nat.zero_le _
    · exact Nat.zero_le _
  · split
    · rename_i raw after hspan
      exact Nat.le_of_lt (length_of_spanQuoted? hspan)
    · exact Nat.zero_le _

theorem length_of_readFraction? {cs fraction rest : List Char}
    (h : readFraction? cs = some (fraction, rest)) : rest.length ≤ cs.length := by
  unfold readFraction? at h
  split at h
  · rename_i after
    have hle := List.length_dropWhile_le Char.isDigit after
    split at h
    · cases h
    · cases h
      simp only [List.length_cons]
      omega
  · cases h
    exact Nat.le_refl _

theorem length_of_readExponent? {cs rest : List Char} {exponent : Int}
    (h : Number.readExponent? cs = some (exponent, rest)) : rest.length ≤ cs.length := by
  unfold Number.readExponent? at h
  split at h
  · rename_i c after
    split at h
    · dsimp only at h
      split at h
      · cases h
      · rename_i ds rest' hnonempty hspan
        cases h
        have hle : ∀ cs, (Number.spanDigits cs).2.length ≤ cs.length :=
          fun cs => List.length_dropWhile_le Char.isDigit cs
        obtain rfl : _ = rest := congrArg Prod.snd hspan
        -- a sign makes the text shorter still
        refine (hle _).trans (Nat.le_succ_of_le ?_)
        split <;> simp
    · cases h
      exact Nat.le_refl _
  · cases h
    exact Nat.le_refl _

/-- A number has a digit. -/
theorem length_of_readNumber? {negative : Bool} {cs : List Char} {found : Token × List Char}
    (h : readNumber? negative cs = some found) : found.2.length < cs.length := by
  unfold readNumber? at h
  obtain ⟨_, hwhole, h⟩ := Option.bind_eq_some_iff.mp h
  obtain ⟨⟨fraction, rest⟩, hfraction, h⟩ := Option.bind_eq_some_iff.mp h
  obtain ⟨⟨exponent, rest'⟩, hexponent, h⟩ := Option.bind_eq_some_iff.mp h
  obtain ⟨-, -, h⟩ := Option.bind_eq_some_iff.mp h
  -- the digits in front are not part of what is left
  have hpos : 0 < (cs.takeWhile Char.isDigit).length := by
    cases hdigits : cs.takeWhile Char.isDigit with
    | nil =>
      rw [hdigits] at hwhole
      cases hwhole
    | cons d ds => exact Nat.succ_pos _
  have hlength := congrArg List.length (List.takeWhile_append_dropWhile (p := Char.isDigit) (l := cs))
  rw [List.length_append] at hlength
  have hle := length_of_readFraction? hfraction
  have hle' := length_of_readExponent? hexponent
  split at h <;> cases h <;> exact Nat.lt_of_le_of_lt (Nat.le_trans hle' hle) (by omega)

theorem length_read_le (c : Char) (rest : List Char) : (read c rest).2.length ≤ rest.length := by
  unfold read
  split
  · exact Nat.le_refl _
  · split
    · exact List.length_dropWhile_le _ _
    · split
      · exact length_readString_le rest
      · split
        · split
          · simp only [List.length_cons]
            omega
          · exact Nat.zero_le _
        · generalize hnumber : (if c == '-' then readNumber? true rest else _) = number
          cases number with
          | none => exact Nat.zero_le _
          | some found =>
            split at hnumber
            · exact Nat.le_of_lt (length_of_readNumber? hnumber)
            · have hlt := length_of_readNumber? hnumber
              simpa [Nat.lt_succ_iff] using hlt

/-! ## Scanning characters -/

/-- The tokens of a text that is given by its characters. -/
def scanChars (cs : List Char) : List Token :=
  scanFor cs.length cs

/-- More steps than there are characters make no difference. -/
theorem scanFor_eq_scanChars {steps : Nat} {cs : List Char} (h : cs.length ≤ steps) :
    scanFor steps cs = scanChars cs := by
  -- by induction on the steps: a token and a comment both leave less text than there was
  have hall : ∀ steps steps' cs, cs.length ≤ steps → cs.length ≤ steps' →
      scanFor steps cs = scanFor steps' cs := by
    intro steps
    induction steps with
    | zero =>
      intro steps' cs h h'
      obtain rfl := List.length_eq_zero_iff.mp (Nat.le_zero.mp h)
      cases steps' <;> rfl
    | succ steps ih =>
      intro steps' cs h h'
      cases cs with
      | nil => cases steps' <;> rfl
      | cons c rest =>
        cases steps' with
        | zero => cases h'
        | succ steps' =>
          have hrest : rest.length ≤ steps := Nat.le_of_succ_le_succ h
          have hrest' : rest.length ≤ steps' := Nat.le_of_succ_le_succ h'
          have hcomment := List.length_dropWhile_le (fun c => !endsComment c) rest
          have hread := length_read_le c rest
          cases hfound : read c rest with
          | mk token after =>
            rw [hfound] at hread
            have hafter : after.length ≤ rest.length := hread
            rw [scanFor, scanFor, hfound, ih steps' rest hrest hrest',
              ih steps' (rest.dropWhile _) (by omega) (by omega)]
            exact if_congr Iff.rfl rfl (if_congr Iff.rfl rfl
              (congrArg _ (ih steps' after (by omega) (by omega))))
  exact hall steps cs.length cs h (Nat.le_refl _)

theorem scan_eq_scanChars (text : String) : scan text = scanChars text.toList := by
  rw [scan, scanChars, String.length_toList]

@[simp] theorem scanChars_nil : scanChars [] = [] := rfl

/-- Separators are dropped. -/
theorem scanChars_separator {c : Char} (hc : isSeparator c = true) (rest : List Char) :
    scanChars (c :: rest) = scanChars rest := by
  rw [scanChars, List.length_cons, scanFor, if_pos hc]
  rfl

theorem scanChars_separators {cs : List Char} (hcs : ∀ c ∈ cs, isSeparator c = true)
    (rest : List Char) : scanChars (cs ++ rest) = scanChars rest := by
  induction cs with
  | nil => rfl
  | cons c cs ih =>
    obtain ⟨hc, hcs⟩ := List.forall_mem_cons.mp hcs
    rw [List.cons_append, scanChars_separator hc, ih hcs]

/-- Where no separator and no comment stands, a token is read. -/
theorem scanChars_token {c : Char} (hc : isSeparator c = false) (hhash : c ≠ '#')
    (rest : List Char) :
    scanChars (c :: rest) = (read c rest).1 :: scanChars (read c rest).2 := by
  have hle := length_read_le c rest
  rw [scanChars, List.length_cons, scanFor, hc, if_neg Bool.false_ne_true,
    if_neg (by simpa using hhash)]
  exact congrArg _ (scanFor_eq_scanChars hle)

/-- A mark is a token, whatever comes after it. -/
theorem scanChars_mark {c : Char} {m : Mark} (hc : markOf? c = some m) (rest : List Char) :
    scanChars (c :: rest) = .mark m :: scanChars rest := by
  have hseparator : isSeparator c = false ∧ c ≠ '#' := by
    unfold markOf? at hc
    split at hc <;> first | exact ⟨by decide, by decide⟩ | cases hc
  have hread : read c rest = (.mark m, rest) := by
    unfold read
    rw [hc]
  rw [scanChars_token hseparator.1 hseparator.2, hread]

/-! ## Words -/

/-- What comes next does not go on with a token that came before. -/
def Breaks : List Char → Prop
  | [] => True
  | c :: _ => Text.isNamePart c = false ∧ c ≠ '.' ∧ c ≠ '\"'

/-- The tokens that are scanned of a word, whatever comes next. -/
def Spells (word : List Char) (tokens : List Token) : Prop :=
  ∀ rest, Breaks rest → scanChars (word ++ rest) = tokens ++ scanChars rest

theorem Breaks.append {cs rest : List Char} (hcs : Breaks cs) (hrest : Breaks rest) :
    Breaks (cs ++ rest) := by
  cases cs with
  | nil => exact hrest
  | cons c cs => exact hcs

theorem breaks_of_isSeparator {c : Char} (hc : isSeparator c = true) (rest : List Char) :
    Breaks (c :: rest) := by
  simp only [isSeparator, Bool.or_eq_true, beq_iff_eq] at hc
  rcases hc with (((((rfl | rfl) | rfl) | rfl) | rfl) | rfl) | rfl <;>
    exact ⟨by decide, by decide, by decide⟩

theorem breaks_of_markOf? {c : Char} {m : Mark} (hc : markOf? c = some m) (rest : List Char) :
    Breaks (c :: rest) := by
  unfold markOf? at hc
  split at hc <;> first | exact ⟨by decide, by decide, by decide⟩ | cases hc

theorem Breaks.dropWhile_isNamePart {rest : List Char} (h : Breaks rest) :
    rest.takeWhile Text.isNamePart = [] ∧ rest.dropWhile Text.isNamePart = rest := by
  cases rest with
  | nil => exact ⟨rfl, rfl⟩
  | cons c rest => simp [h.1]

/-- The tokens of a word that stands alone. -/
theorem Spells.scan_eq {word : String} {tokens : List Token} (h : Spells word.toList tokens) :
    scan word = tokens := by
  rw [scan_eq_scanChars, ← List.append_nil word.toList, h [] trivial, scanChars_nil,
    List.append_nil]

namespace Spells

variable {word word' : List Char} {tokens tokens' : List Token}

theorem nil : Spells [] [] :=
  fun _ _ => rfl

/-- Words can be put together where the second one breaks off the first. -/
theorem append (h : Spells word tokens) (hbreaks : Breaks word') (h' : Spells word' tokens') :
    Spells (word ++ word') (tokens ++ tokens') := by
  intro rest hrest
  rw [List.append_assoc, h (word' ++ rest) (hbreaks.append hrest), h' rest hrest,
    List.append_assoc]

theorem mark {c : Char} {m : Mark} (hc : markOf? c = some m) (h : Spells word tokens) :
    Spells (c :: word) (.mark m :: tokens) := by
  intro rest hrest
  rw [List.cons_append, scanChars_mark hc, h rest hrest, List.cons_append]

/-- Three points are a mark of their own. -/
theorem spread (h : Spells word tokens) :
    Spells ('.' :: '.' :: '.' :: word) (.mark .spread :: tokens) := by
  intro rest hrest
  have hread : read '.' ('.' :: '.' :: (word ++ rest)) = (.mark .spread, word ++ rest) := rfl
  rw [List.cons_append, List.cons_append, List.cons_append,
    scanChars_token (by decide) (by decide), hread, h rest hrest, List.cons_append]

theorem separators {cs : List Char} (hcs : ∀ c ∈ cs, isSeparator c = true)
    (h : Spells word tokens) : Spells (cs ++ word) tokens := by
  intro rest hrest
  rw [List.append_assoc, scanChars_separators hcs, h rest hrest]

theorem separator {c : Char} (hc : isSeparator c = true) (h : Spells word tokens) :
    Spells (c :: word) tokens :=
  h.separators (List.forall_mem_singleton.mpr hc)

/-- A mark behind a word. -/
theorem append_mark (h : Spells word tokens) {c : Char} {m : Mark} (hc : markOf? c = some m) :
    Spells (word ++ [c]) (tokens ++ [.mark m]) :=
  h.append (breaks_of_markOf? hc []) (nil.mark hc)

/-- Words with a separator between neighbours. -/
theorem intercalate {α : Type} {text : α → List Char} {tokens : α → List Token} {items : List α}
    (h : ∀ a ∈ items, Spells (text a) (tokens a)) {c : Char} (hc : isSeparator c = true)
    {between : List Char} (hbetween : ∀ c ∈ between, isSeparator c = true) :
    Spells ((c :: between).intercalate (items.map text)) (items.flatMap tokens) := by
  induction items with
  | nil => exact nil
  | cons a items ih =>
    obtain ⟨ha, hitems⟩ := List.forall_mem_cons.mp h
    cases items with
    | nil => simpa using ha
    | cons b items =>
      have hothers := (ih hitems).separators (List.forall_mem_cons.mpr ⟨hc, hbetween⟩)
      rw [List.map_cons, List.map_cons, List.intercalate_cons_cons, List.append_assoc,
        List.flatMap_cons]
      exact ha.append (breaks_of_isSeparator hc _) hothers

end Spells

/-! ### Names -/

theorem not_token_of_isNameStart {c : Char} (hc : Text.isNameStart c = true) :
    isSeparator c = false ∧ c ≠ '#' ∧ markOf? c = none := by
  refine ⟨?_, ?_, ?_⟩
  · rw [← Bool.not_eq_true]
    intro hseparator
    simp only [isSeparator, Bool.or_eq_true, beq_iff_eq] at hseparator
    rcases hseparator with (((((rfl | rfl) | rfl) | rfl) | rfl) | rfl) | rfl <;>
      exact absurd hc (by decide)
  · rintro rfl
    exact absurd hc (by decide)
  · unfold markOf?
    split <;> first | rfl | exact absurd hc (by decide)

/-- A name is scanned as it stands. -/
theorem Spells.name {name : String} (h : Text.IsName name) :
    Spells name.toList [.name name] := by
  intro rest hrest
  obtain ⟨c, cs, rfl, hc, hcs⟩ := h
  obtain ⟨hseparator, hhash, hmark⟩ := not_token_of_isNameStart hc
  obtain ⟨htake, hdrop⟩ := hrest.dropWhile_isNamePart
  have hread : read c (cs ++ rest) = (.name (String.ofList (c :: cs)), rest) := by
    unfold read
    rw [hmark]
    dsimp only
    rw [if_pos hc, List.takeWhile_append_of_pos hcs, List.dropWhile_append_of_pos hcs, htake,
      hdrop, List.append_nil]
  rw [String.toList_ofList, List.cons_append, scanChars_token hseparator hhash, hread]
  rfl

/-! ### Integers -/

/-- Only zero is written with a zero in front. -/
theorem isWhole_toDigits (n : Nat) : isWhole (Nat.toDigits 10 n) = true := by
  -- the first digit is that of the number after all divisions by ten
  have hhead : ∀ n, n ≠ 0 → ∃ d ds, Nat.toDigits 10 n = d :: ds ∧ d ≠ '0' := by
    intro n
    induction n using Nat.strongRecOn with
    | ind n ih =>
      intro hn
      rw [Nat.toDigits_eq_if (by decide)]
      split
      · rename_i hlt
        have hdigit : ∀ m < 10, m ≠ 0 → Nat.digitChar m ≠ '0' := by decide
        exact ⟨_, [], rfl, hdigit n hlt hn⟩
      · obtain ⟨d, ds, hdigits, hd⟩ := ih (n / 10) (by omega) (by omega)
        exact ⟨d, ds ++ [(n % 10).digitChar], by rw [hdigits, List.cons_append], hd⟩
  by_cases hn : n = 0
  · subst hn
    rfl
  · obtain ⟨d, ds, hdigits, hd⟩ := hhead n hn
    rw [hdigits]
    unfold isWhole
    split
    · rename_i heq
      cases heq
    · rfl
    · rename_i heq
      cases heq
      exact absurd rfl hd
    · rfl

/-- Digits are read up to where the word ends. -/
theorem readNumber?_toDigits (negative : Bool) (n : Nat) {rest : List Char} (h : Breaks rest) :
    readNumber? negative (Nat.toDigits 10 n ++ rest) =
      some (.int (if negative then -(n : Int) else n), rest) := by
  have hdigits : ∀ c ∈ Nat.toDigits 10 n, c.isDigit = true := by
    intro c hc
    exact Nat.isDigit_of_mem_toDigits (by decide) (by decide) hc
  have hspan : Number.spanDigits (Nat.toDigits 10 n ++ rest) = (Nat.toDigits 10 n, rest) := by
    have hrest : rest.takeWhile Char.isDigit = [] ∧ rest.dropWhile Char.isDigit = rest := by
      cases rest with
      | nil => exact ⟨rfl, rfl⟩
      | cons c rest =>
        have hc : c.isDigit = false := by
          rw [← Bool.not_eq_true]
          intro hdigit
          exact absurd h.1 (by simp [Text.isNamePart, Char.isAlphanum, hdigit])
        simp [hc]
    rw [Number.spanDigits, List.takeWhile_append_of_pos hdigits,
      List.dropWhile_append_of_pos hdigits, hrest.1, hrest.2, List.append_nil]
  have hfraction : readFraction? rest = some ([], rest) := by
    unfold readFraction?
    split
    · exact absurd rfl h.2.1
    · rfl
  have hexponent : startsExponent rest = false ∧ Number.readExponent? rest = some (0, rest) ∧
      continuesNumber rest = false := by
    cases rest with
    | nil => exact ⟨rfl, rfl, rfl⟩
    | cons c rest =>
      have hne : c ≠ 'e' ∧ c ≠ 'E' := by
        constructor <;> rintro rfl <;> exact absurd h.1 (by decide)
      have hstart : Text.isNameStart c = false := by
        rw [← Bool.not_eq_true]
        intro hc
        exact absurd (Text.isNamePart_of_isNameStart hc) (by simp [h.1])
      refine ⟨by simp [startsExponent, hne], by simp [Number.readExponent?, hne], ?_⟩
      simp [continuesNumber, hstart, h.2.1]
  obtain ⟨hstart, hexponent, hcontinues⟩ := hexponent
  have hvalue : Number.ofDigits (Nat.toDigits 10 n) = n := Nat.ofDigitChars_ten_toDigits
  unfold readNumber?
  rw [hspan]
  simp [isWhole_toDigits, hfraction, hstart, hexponent, hcontinues, hvalue]

/-- A sign or a digit starts a number. -/
theorem read_of_startsNumber {c : Char} (hc : c = '-' ∨ c.isDigit = true) (rest : List Char) :
    isSeparator c = false ∧ c ≠ '#' ∧ read c rest =
      (if c == '-' then readNumber? true rest else readNumber? false (c :: rest)).getD
        (.unreadable, []) := by
  -- every other way to read a token starts with a character of its own
  have hne : ∀ x, (x ≠ '-' ∧ x.isDigit = false) → c ≠ x := by
    rintro x ⟨hminus, hdigit⟩ rfl
    rcases hc with rfl | hc
    · exact hminus rfl
    · exact absurd hc (by simp [hdigit])
  have hmark : markOf? c = none := by
    unfold markOf?
    split <;> first | rfl | exact absurd rfl (hne _ (by decide))
  have hstart : Text.isNameStart c = false := by
    rcases hc with rfl | hc
    · decide
    · have hunderscore : c ≠ '_' := hne '_' (by decide)
      have halpha : c.isAlpha = false := by
        rw [← Bool.not_eq_true, Text.isAlpha_iff]
        rw [Text.isDigit_iff] at hc
        omega
      rw [Text.isNameStart, halpha, Bool.false_or]
      exact beq_eq_false_iff_ne.mpr hunderscore
  refine ⟨?_, hne _ (by decide), ?_⟩
  · simp only [isSeparator, Bool.or_eq_false_iff, beq_eq_false_iff_ne]
    refine ⟨⟨⟨⟨⟨⟨?_, ?_⟩, ?_⟩, ?_⟩, ?_⟩, ?_⟩, ?_⟩ <;> exact hne _ (by decide)
  · unfold read
    rw [hmark]
    dsimp only
    rw [hstart, if_neg Bool.false_ne_true, if_neg (by simpa using hne '\"' (by decide)),
      if_neg (by simpa using hne '.' (by decide))]

/-- An integer is scanned as it stands. -/
theorem Spells.int (n : Int) : Spells (toString n).toList [.int n] := by
  intro rest hrest
  cases n with
  | ofNat n =>
    have htext : (toString (Int.ofNat n)).toList = Nat.toDigits 10 n := by
      show (Nat.repr n).toList = _
      rw [Nat.repr_eq_ofList_toDigits, String.toList_ofList]
    obtain ⟨d, ds, hdigits⟩ := List.exists_cons_of_ne_nil (Nat.toDigits_ne_nil (n := n) (b := 10))
    have hd : d.isDigit = true :=
      Nat.isDigit_of_mem_toDigits (by decide) (by decide) (hdigits ▸ List.mem_cons_self)
    obtain ⟨hseparator, hhash, hread⟩ := read_of_startsNumber (.inr hd) (ds ++ rest)
    have hminus : (d == '-') = false := by
      rw [beq_eq_false_iff_ne]
      rintro rfl
      exact absurd hd (by decide)
    rw [hminus, if_neg Bool.false_ne_true, ← List.cons_append, ← hdigits,
      readNumber?_toDigits false n hrest] at hread
    rw [htext, hdigits, List.cons_append, scanChars_token hseparator hhash, hread]
    rfl
  | negSucc n =>
    have htext : (toString (Int.negSucc n)).toList = '-' :: Nat.toDigits 10 (n + 1) := by
      show ("-" ++ Nat.repr (n + 1)).toList = _
      simp [Nat.repr_eq_ofList_toDigits]
    obtain ⟨hseparator, hhash, hread⟩ :=
      read_of_startsNumber (.inl rfl) (Nat.toDigits 10 (n + 1) ++ rest)
    rw [if_pos (by decide), readNumber?_toDigits true (n + 1) hrest] at hread
    rw [htext, List.cons_append, scanChars_token hseparator hhash, hread]
    rfl

/-! ### Strings -/

/-- Only an empty string can be taken for the beginning of triple quotes. -/
theorem readString_quoted {cs raw rest : List Char} (h : Text.spanQuoted? cs = some (raw, rest))
    (hcs : cs.head? ≠ some '\"' ∨ rest.head? ≠ some '\"') :
    readString cs = (.string raw, rest) := by
  unfold readString
  split
  · rename_i after
    cases h
    rcases hcs with hcs | hcs <;> exact absurd rfl hcs
  · rw [h]

/-- Between triple quotes stands a block string. -/
theorem read_block {cs raw rest : List Char} (h : Text.scanBlock cs = .closed raw rest) :
    read '\"' ('\"' :: '\"' :: cs) = (.block raw, rest) := by
  have hread : read '\"' ('\"' :: '\"' :: cs) = readString ('\"' :: '\"' :: cs) := rfl
  rw [hread, readString, h]

theorem read_block_outsideRange {cs : List Char} (h : Text.scanBlock cs = .outsideRange) :
    read '\"' ('\"' :: '\"' :: cs) = (.outsideRange, []) := by
  have hread : read '\"' ('\"' :: '\"' :: cs) = readString ('\"' :: '\"' :: cs) := rfl
  rw [hread, readString, h]

/-- A quoted string is scanned as it stands. -/
theorem Spells.quote {s : String} (h : Text.IsBasicText s) :
    Spells (Text.quote s).toList [.string (Text.escape s.toList)] := by
  intro rest hrest
  have hspan := Text.spanQuoted?_escape h rest
  have hread : read '\"' (Text.escape s.toList ++ '\"' :: rest) =
      (.string (Text.escape s.toList), rest) := by
    refine readString_quoted hspan ?_
    cases hs : Text.escape s.toList with
    | nil =>
      refine .inr ?_
      cases rest with
      | nil => nofun
      | cons c rest =>
        intro hc
        exact hrest.2.2 (Option.some.inj hc)
    | cons c cs =>
      refine .inl ?_
      have hhead := Text.head?_escape_ne h
      rw [hs] at hhead
      exact hhead
  have htext : (Text.quote s).toList = '\"' :: (Text.escape s.toList ++ ['\"']) := by
    rw [Text.quote, String.toList_ofList]
  rw [htext, List.cons_append, List.append_assoc, List.singleton_append,
    scanChars_token (by decide) (by decide), hread]
  rfl

/-! ## What tokens hold -/

/-- A name has the form of one, and only characters that may stand between quotes stand there. -/
def IsProper : Token → Prop
  | .name text => Text.IsName text
  | .string raw => ∀ cs, Text.unescape? raw = some cs → ∀ c ∈ cs, Text.IsBasic c
  | .block raw => ∀ c ∈ raw, Text.isPlainInBlock c = true
  | _ => True

theorem isPlainInBlock_of_scanBlock {cs raw rest : List Char}
    (h : Text.scanBlock cs = .closed raw rest) : ∀ c ∈ raw, Text.isPlainInBlock c = true := by
  fun_induction Text.scanBlock cs generalizing raw with
  | case1 after =>
    cases h
    exact fun _ hc => absurd hc List.not_mem_nil
  | case2 after ih =>
    obtain ⟨raw', hafter, rfl⟩ := prepend_eq_closed h
    have hfront : ∀ c ∈ ['\\', '\"', '\"', '\"'], Text.isPlainInBlock c = true :=
      List.all_eq_true.mp rfl
    exact List.forall_mem_append.mpr ⟨hfront, ih hafter⟩
  | case3 c after _ _ hc ih =>
    obtain ⟨raw', hafter, rfl⟩ := prepend_eq_closed h
    exact List.forall_mem_cons.mpr ⟨hc, ih hafter⟩
  | case4 => cases h
  | case5 => cases h

theorem isProper_readNumber? {negative : Bool} {cs : List Char} {found : Token × List Char}
    (h : readNumber? negative cs = some found) : found.1.IsProper := by
  unfold readNumber? at h
  -- the digits, the fraction, the exponent and what follows are looked at before a token is made
  obtain ⟨-, _, h⟩ := Option.bind_eq_some_iff.mp h
  obtain ⟨fraction, _, h⟩ := Option.bind_eq_some_iff.mp h
  obtain ⟨exponent, _, h⟩ := Option.bind_eq_some_iff.mp h
  obtain ⟨-, _, h⟩ := Option.bind_eq_some_iff.mp h
  split at h
  · obtain rfl := Option.some.inj h
    exact trivial
  · obtain rfl := Option.some.inj h
    exact trivial

theorem isProper_readString (cs : List Char) : (readString cs).1.IsProper := by
  unfold readString
  split
  · split
    · rename_i raw after hscan
      exact isPlainInBlock_of_scanBlock hscan
    · exact trivial
    · exact trivial
  · split
    · rename_i raw after hspan
      exact fun s hs => Text.isBasic_of_spanQuoted? hspan hs
    · exact trivial

/-- A token that is read is proper. -/
theorem isProper_read (c : Char) (rest : List Char) : (read c rest).1.IsProper := by
  unfold read
  split
  · exact trivial
  · split
    · rename_i hstart
      exact ⟨c, rest.takeWhile Text.isNamePart, rfl, hstart, fun _ hc => List.mem_takeWhile_imp hc⟩
    · split
      · exact isProper_readString rest
      · split
        · split <;> exact trivial
        · generalize hnumber : (if c == '-' then readNumber? true rest else _) = number
          cases number with
          | none => exact trivial
          | some found =>
            split at hnumber
            · exact isProper_readNumber? hnumber
            · exact isProper_readNumber? hnumber

theorem isProper_scanFor {steps : Nat} {cs : List Char} : ∀ t ∈ scanFor steps cs, t.IsProper := by
  induction steps generalizing cs with
  | zero => exact fun _ ht => absurd ht List.not_mem_nil
  | succ steps ih =>
    cases cs with
    | nil => exact fun _ ht => absurd ht List.not_mem_nil
    | cons c rest =>
      unfold scanFor
      split
      · exact ih
      · split
        · exact ih
        · exact List.forall_mem_cons.mpr ⟨isProper_read c rest, ih⟩

end Document.Token

/-! ## Texts of the basic plane -/

namespace Text

theorem IsBasicText.append {s t : String} (hs : IsBasicText s) (ht : IsBasicText t) :
    IsBasicText (s ++ t) := by
  rw [IsBasicText, String.toList_append]
  exact List.forall_mem_append.mpr ⟨hs, ht⟩

theorem IsBasicText.intercalate {between : String} (hbetween : IsBasicText between)
    {texts : List String} (h : ∀ t ∈ texts, IsBasicText t) :
    IsBasicText (between.intercalate texts) := by
  induction texts with
  | nil => exact fun _ hc => absurd hc (by simp)
  | cons first others ih =>
    obtain ⟨hfirst, hothers⟩ := List.forall_mem_cons.mp h
    cases others with
    | nil =>
      rw [String.intercalate_singleton]
      exact hfirst
    | cons second others =>
      rw [String.intercalate_cons_cons]
      exact (hfirst.append hbetween).append (ih hothers)

theorem isBasic_of_isNamePart {c : Char} (h : isNamePart c = true) : IsBasic c := by
  simp only [isNamePart, Char.isAlphanum, isAlpha_iff, isDigit_iff, Bool.or_eq_true,
    beq_iff_eq] at h
  rcases h with (h | h) | rfl
  · rw [IsBasic]
    omega
  · rw [IsBasic]
    omega
  · decide

theorem IsName.isBasicText {name : String} (h : IsName name) : IsBasicText name := by
  obtain ⟨c, cs, rfl, hc, hcs⟩ := h
  rw [IsBasicText, String.toList_ofList]
  refine List.forall_mem_cons.mpr ⟨?_, fun c' hc' => isBasic_of_isNamePart (hcs c' hc')⟩
  exact isBasic_of_isNamePart (isNamePart_of_isNameStart hc)

theorem isBasic_of_mem_escapeChar {c : Char} (hc : IsBasic c) : ∀ x ∈ escapeChar c, IsBasic x := by
  have hhex : ∀ n < 16, IsBasic (hexDigit n) := by decide
  have hdigit : ∀ n, IsBasic (hexDigit (n % 16)) := by
    intro n
    exact hhex _ (Nat.mod_lt n (by decide))
  rcases escapeChar_cases hc with ⟨hwritten, -⟩ | ⟨e, hwritten, -, he⟩ | hwritten
  · rw [hwritten]
    exact List.forall_mem_singleton.mpr hc
  · have hbasic : IsBasic e := by
      unfold simpleEscape? at he
      split at he <;> first | decide | cases he
    rw [hwritten]
    exact List.forall_mem_cons.mpr ⟨by decide, List.forall_mem_singleton.mpr hbasic⟩
  · rw [hwritten, fourHexDigits]
    simp only [List.forall_mem_cons, hdigit, List.not_mem_nil, false_implies, implies_true,
      and_true]
    decide

/-- An escape is made of characters of the basic plane. -/
theorem isBasicText_quote {s : String} (h : IsBasicText s) : IsBasicText (quote s) := by
  have hescape : ∀ c ∈ escape s.toList, IsBasic c := by
    intro c hc
    obtain ⟨c', hc', hmem⟩ := List.mem_flatMap.mp hc
    exact isBasic_of_mem_escapeChar (h c' hc') c hmem
  rw [IsBasicText, quote, String.toList_ofList]
  refine List.forall_mem_cons.mpr ⟨by decide, List.forall_mem_append.mpr ⟨hescape, ?_⟩⟩
  exact List.forall_mem_singleton.mpr (by decide)

theorem isBasicText_int (n : Int) : IsBasicText (toString n) := by
  have hnat : ∀ n : Nat, IsBasicText n.repr := by
    intro n c hc
    rw [Nat.repr_eq_ofList_toDigits, String.toList_ofList] at hc
    have hdigit : c.isDigit = true := Nat.isDigit_of_mem_toDigits (by decide) (by decide) hc
    exact isBasic_of_isNamePart (by simp [isNamePart, Char.isAlphanum, hdigit])
  cases n with
  | ofNat n => exact hnat n
  | negSucc n => exact IsBasicText.append (s := "-") (by decide) (hnat (n + 1))

end Text

end Federation
