import Federation.TypeRef
import Mathlib.Data.List.Basic
import Mathlib.Data.List.Induction
import Mathlib.Data.List.TakeWhile

/-!
# Types from their texts

The text of a type is its name between marks, and no name holds a mark. So the type can be read off
its text: what is left without the marks is the name, and the marks behind it apply one after the
other to all that stands before them.

A syntax tree lists what a type is wrapped in from the outside in. To hold the type, the wrappers
are gone through from the inside out, and behind each list one looks ahead for the mark that makes it
non-null. This gets every wrapping back from its wrappers, and it fails on all other wrappers: those
where a type would be made non-null twice.
-/

namespace Federation

/-! ## Wrappers -/

/-- What a type can be wrapped in. -/
inductive Wrapper where
  | list
  | nonNull
deriving DecidableEq, Repr

/-- The mark behind the type that shows the wrapper. -/
def Wrapper.mark : Wrapper → Char
  | .list => ']'
  | .nonNull => '!'

/-- A wrapper around all that is there. -/
def Wrapper.applyTo (w : Wrapping) : Wrapper → Wrapping
  | .list => w.wrapList
  | .nonNull => w.require

namespace Wrapping

/-- The wrappers of one list level, from the inside out. -/
def wrappersOfLevel (isRequired : Bool) : List Wrapper :=
  if isRequired then [.list, .nonNull] else [.list]

/-- All wrappers from the inside out. -/
def outward (w : Wrapping) : List Wrapper :=
  (if w.innerRequired then [.nonNull] else []) ++ w.lists.flatMap wrappersOfLevel

/-- All wrappers from the outside in, as a syntax tree lists them. -/
def wrappers (w : Wrapping) : List Wrapper :=
  w.outward.reverse

/-- Goes through wrappers. A list is non-null if the next wrapper says so; elsewhere such a wrapper
is not possible. -/
def wrapLists? (w : Wrapping) : List Wrapper → Option Wrapping
  | [] => some w
  | .nonNull :: _ => none
  | .list :: .nonNull :: rest => w.wrapList.require.wrapLists? rest
  | .list :: rest => w.wrapList.wrapLists? rest

/-- The wrapping that a syntax tree has the wrappers of. -/
def ofWrappers? (wrappers : List Wrapper) : Option Wrapping :=
  match wrappers.reverse with
  | .nonNull :: rest => wrapLists? (require {}) rest
  | rest => wrapLists? {} rest

/-! ### Wrappings and their wrappers -/

/-- A mark behind a list type makes the list non-null. -/
theorem require_concat (inner : Bool) (lists : List Bool) (isRequired : Bool) :
    require ⟨inner, lists ++ [isRequired]⟩ = ⟨inner, lists ++ [true]⟩ := by
  unfold require
  split
  · rename_i hnil
    exact absurd hnil (by simp)
  · rw [List.dropLast_concat]

theorem outward_concat (inner : Bool) (lists : List Bool) (isRequired : Bool) :
    outward ⟨inner, lists ++ [isRequired]⟩ =
      outward ⟨inner, lists⟩ ++ wrappersOfLevel isRequired := by
  simp only [outward, List.flatMap_append, List.flatMap_singleton, List.append_assoc]

/-- The wrappers, one after the other, make the wrapping. -/
theorem foldl_applyTo_outward (w : Wrapping) : w.outward.foldl Wrapper.applyTo {} = w := by
  obtain ⟨inner, lists⟩ := w
  induction lists using List.reverseRecOn with
  | nil => cases inner <;> rfl
  | append_singleton lists isRequired ih =>
    rw [outward_concat, List.foldl_append, ih]
    cases isRequired with
    | false => rfl
    | true => exact require_concat inner lists false

/-- More list levels around everything. -/
def addLevels (w : Wrapping) (levels : List Bool) : Wrapping :=
  { w with lists := w.lists ++ levels }

@[simp] theorem addLevels_nil (w : Wrapping) : w.addLevels [] = w := by
  rw [addLevels, List.append_nil]

@[simp] theorem addLevels_wrapList (w : Wrapping) (levels : List Bool) :
    w.wrapList.addLevels levels = w.addLevels (false :: levels) := by
  rw [addLevels, wrapList, List.append_assoc]
  rfl

@[simp] theorem addLevels_require_wrapList (w : Wrapping) (levels : List Bool) :
    w.wrapList.require.addLevels levels = w.addLevels (true :: levels) := by
  rw [wrapList, require_concat, addLevels, List.append_assoc]
  rfl

/-- No list level starts with a non-null wrapper. -/
theorem flatMap_wrappersOfLevel_ne (levels : List Bool) (rest : List Wrapper) :
    levels.flatMap wrappersOfLevel ≠ .nonNull :: rest := by
  intro h
  cases levels with
  | nil => cases h
  | cons isRequired levels => cases isRequired <;> cases h

/-- Wrappers can be gone through exactly if they are those of list levels, which are then added. -/
theorem wrapLists?_eq_some_iff {w w' : Wrapping} {ws : List Wrapper} :
    w.wrapLists? ws = some w' ↔
      ∃ levels, ws = levels.flatMap wrappersOfLevel ∧ w' = w.addLevels levels := by
  -- each call adds a level, the first one of those that are left
  fun_induction wrapLists? w ws with
  | case1 w =>
    constructor
    · rintro ⟨⟩
      exact ⟨[], rfl, (addLevels_nil _).symm⟩
    · rintro ⟨levels, hnil, rfl⟩
      cases levels with
      | nil => rw [addLevels_nil]
      | cons isRequired levels => cases isRequired <;> cases hnil
  | case2 w rest =>
    refine iff_of_false nofun ?_
    rintro ⟨levels, heq, -⟩
    exact flatMap_wrappersOfLevel_ne levels rest heq.symm
  | case3 w rest ih =>
    rw [ih]
    simp only [addLevels_require_wrapList]
    constructor
    · rintro ⟨levels, rfl, rfl⟩
      exact ⟨true :: levels, rfl, rfl⟩
    · rintro ⟨levels, heq, rfl⟩
      -- the first level is non-null, or the next one would start with its mark
      cases levels with
      | nil => cases heq
      | cons isRequired levels =>
        cases isRequired with
        | true => exact ⟨levels, (List.cons.inj (List.cons.inj heq).2).2, rfl⟩
        | false => exact absurd (List.cons.inj heq).2.symm (flatMap_wrappersOfLevel_ne levels rest)
  | case4 w rest hnot ih =>
    rw [ih]
    simp only [addLevels_wrapList]
    constructor
    · rintro ⟨levels, rfl, rfl⟩
      exact ⟨false :: levels, rfl, rfl⟩
    · rintro ⟨levels, heq, rfl⟩
      cases levels with
      | nil => cases heq
      | cons isRequired levels =>
        cases isRequired with
        | true => exact absurd (List.cons.inj heq).2 (hnot _)
        | false => exact ⟨levels, (List.cons.inj heq).2, rfl⟩

/-- **Wrappers stand for one wrapping, the one that they are the wrappers of.** -/
theorem ofWrappers?_eq_some_iff {ws : List Wrapper} {w : Wrapping} :
    ofWrappers? ws = some w ↔ ws = w.wrappers := by
  rw [wrappers, ← List.reverse_eq_iff]
  unfold ofWrappers?
  obtain ⟨inner, lists⟩ := w
  split
  · rename_i rest hrest
    rw [hrest, wrapLists?_eq_some_iff]
    constructor
    · rintro ⟨levels, rfl, heq⟩
      obtain ⟨rfl, rfl⟩ := Wrapping.mk.inj heq
      rfl
    · intro heq
      cases inner with
      | true => exact ⟨lists, (List.cons.inj heq).2, rfl⟩
      | false => exact absurd heq.symm (flatMap_wrappersOfLevel_ne lists rest)
  · rename_i hnot
    rw [wrapLists?_eq_some_iff]
    constructor
    · rintro ⟨levels, hlevels, heq⟩
      obtain ⟨rfl, rfl⟩ := Wrapping.mk.inj heq
      exact hlevels
    · intro heq
      cases inner with
      | true => exact absurd heq (hnot _)
      | false => exact ⟨lists, heq, rfl⟩

end Wrapping

namespace TypeRef

/-! ## Texts -/

/-- The name of the type holds no marks. -/
def HasPlainName (t : TypeRef) : Prop :=
  ∀ c ∈ t.name.toList, isMark c = false

/-- A mark behind a type applies to the whole type. -/
def applyMark (w : Wrapping) (c : Char) : Wrapping :=
  if c = ']' then w.wrapList else if c = '!' then w.require else w

/-- The type that a text stands for. -/
def ofText (text : String) : TypeRef where
  name := String.ofList (text.toList.filter fun c => !isMark c)
  wrapping := text.toList.foldl applyMark {}

/-- Characters that are no marks leave the marks as they are. -/
theorem foldl_applyMark_of_plain {cs : List Char} (h : ∀ c ∈ cs, isMark c = false) (w : Wrapping) :
    cs.foldl applyMark w = w := by
  induction cs with
  | nil => rfl
  | cons c cs ih =>
    obtain ⟨hc, hcs⟩ := List.forall_mem_cons.mp h
    have hsame : applyMark w c = w := by
      rw [isMark, Bool.or_eq_false_iff, Bool.or_eq_false_iff] at hc
      rw [applyMark, if_neg (by simpa using hc.1.2), if_neg (by simpa using hc.2)]
    rw [List.foldl_cons, hsame, ih hcs]

theorem applyMark_mark (w : Wrapping) (v : Wrapper) : applyMark w v.mark = v.applyTo w := by
  cases v <;> rfl

theorem isMark_mark (v : Wrapper) : isMark v.mark = true := by
  cases v <;> rfl

/-- The text of a type with one more list level. -/
theorem text_concat (name : String) (inner : Bool) (lists : List Bool) (isRequired : Bool) :
    text ⟨name, ⟨inner, lists ++ [isRequired]⟩⟩ =
      textOfLevel (text ⟨name, ⟨inner, lists⟩⟩) isRequired :=
  List.foldl_concat _ _ _ _

/-- The text of a type is its name between the marks of its wrappers. -/
theorem toList_text (t : TypeRef) :
    t.text.toList = List.replicate t.wrapping.lists.length '[' ++
      (t.name.toList ++ t.wrapping.outward.map Wrapper.mark) := by
  obtain ⟨name, inner, lists⟩ := t
  induction lists using List.reverseRecOn with
  | nil => cases inner <;> simp [text, Wrapping.outward, Wrapper.mark]
  | append_singleton lists isRequired ih =>
    rw [text_concat, List.length_append, List.length_singleton, List.replicate_succ,
      Wrapping.outward_concat]
    cases isRequired <;> simp [textOfLevel, ih, Wrapping.wrappersOfLevel, Wrapper.mark]

/-- **A type is determined by its text.** -/
theorem ofText_text {t : TypeRef} (h : t.HasPlainName) : ofText t.text = t := by
  have hname : t.text.toList.filter (fun c => !isMark c) = t.name.toList := by
    have hplain : t.name.toList.filter (fun c => !isMark c) = t.name.toList :=
      List.filter_eq_self.mpr fun c hc => by rw [h c hc]; rfl
    have hopenings : (List.replicate t.wrapping.lists.length '[').filter (fun c => !isMark c) = [] :=
      List.filter_eq_nil_iff.mpr fun c hc => by rw [List.eq_of_mem_replicate hc]; decide
    have hmarks : (t.wrapping.outward.map Wrapper.mark).filter (fun c => !isMark c) = [] :=
      List.filter_eq_nil_iff.mpr (List.forall_mem_map.mpr fun v _ => by rw [isMark_mark]; decide)
    rw [toList_text, List.filter_append, List.filter_append, hopenings, hplain, hmarks,
      List.nil_append, List.append_nil]
  have hwrapping : t.text.toList.foldl applyMark {} = t.wrapping := by
    have hbrackets : ∀ n, (List.replicate n '[').foldl applyMark {} = {} := by
      intro n
      induction n with
      | zero => rfl
      | succ n ih => exact ih
    rw [toList_text, List.foldl_append, List.foldl_append, hbrackets, foldl_applyMark_of_plain h,
      List.foldl_map]
    simp only [applyMark_mark]
    exact t.wrapping.foldl_applyTo_outward
  rw [ofText, hname, hwrapping, String.ofList_toList]

/-! ## Names from texts -/

/-- Only marks stand around the name. -/
theorem exists_toList_text (t : TypeRef) : ∃ front back, (∀ c ∈ front, isMark c = true) ∧
    (∀ c ∈ back, isMark c = true) ∧ t.text.toList = front ++ (t.name.toList ++ back) := by
  refine ⟨_, _, fun c hc => ?_, List.forall_mem_map.mpr fun v _ => isMark_mark v, t.toList_text⟩
  rw [List.eq_of_mem_replicate hc]
  rfl

/-- Cutting marks off leaves what stands behind them and holds none. -/
theorem dropWhile_isMark {marks plain more : List Char} (hmarks : ∀ c ∈ marks, isMark c = true)
    (hplain : ∀ c ∈ plain, isMark c = false) (hmore : plain = [] → ∀ c ∈ more, isMark c = true) :
    (marks ++ (plain ++ more)).dropWhile isMark = if plain = [] then [] else plain ++ more := by
  rw [List.dropWhile_append_of_pos hmarks]
  cases plain with
  | nil =>
    rw [if_pos rfl, List.nil_append, List.dropWhile_eq_nil_iff]
    exact hmore rfl
  | cons c cs =>
    rw [if_neg (List.cons_ne_nil c cs)]
    exact List.dropWhile_cons_of_neg (by simp [hplain c List.mem_cons_self])

/-- **The name in the text of a type is its name.** -/
theorem nameOfText_text {t : TypeRef} (h : t.HasPlainName) : nameOfText t.text = t.name := by
  obtain ⟨front, back, hfront, hback, htext⟩ := t.exists_toList_text
  rw [nameOfText, htext, dropWhile_isMark hfront h fun _ => hback]
  split
  · rename_i hempty
    rw [← String.ofList_toList (s := t.name), hempty]
    rfl
  · rename_i hname
    have hreverse : ∀ c ∈ t.name.toList.reverse, isMark c = false := fun c hc =>
      h c (List.mem_reverse.mp hc)
    have hmarks : ∀ c ∈ back.reverse, isMark c = true := fun c hc => hback c (List.mem_reverse.mp hc)
    have hrest : (back.reverse ++ (t.name.toList.reverse ++ [])).dropWhile isMark = _ :=
      dropWhile_isMark hmarks hreverse fun hnil => absurd (List.reverse_eq_nil_iff.mp hnil) hname
    rw [List.append_nil, if_neg (by simpa using hname)] at hrest
    rw [List.reverse_append, hrest, List.reverse_reverse, String.ofList_toList]

end TypeRef

end Federation
