import Federation.TypeRef
import Mathlib.Data.List.Basic
import Mathlib.Data.List.Induction
import Mathlib.Logic.Basic
import Mathlib.Tactic.ByContra
import Mathlib.Tactic.SplitIfs

/-!
# Agreement of types

Two types agree if they differ at most in the mark of their outermost level. Composing succeeds for
types that agree, and for one more kind of pair: a list type and the same type one list level
deeper, with the deeper one first. So the types of a whole sequence agree exactly if composing them
one after the other succeeds without ever meeting such a pair.
-/

namespace Federation.TypeRef

/-! ## Marks -/

/-- The non-null marks of all levels, from the named type outwards. -/
def marks (t : TypeRef) : List Bool :=
  t.wrapping.innerRequired :: t.wrapping.lists

/-- The marks of all levels but the outermost. -/
def innerMarks (t : TypeRef) : List Bool :=
  t.marks.dropLast

/-- The number of list levels. -/
def depth (t : TypeRef) : Nat :=
  t.wrapping.lists.length

/-- The outermost level is non-null. -/
def isRequired (t : TypeRef) : Bool :=
  t.wrapping.isRequired

theorem innerMarks_of_lists_nil {t : TypeRef} (h : t.wrapping.lists = []) : t.innerMarks = [] := by
  simp [innerMarks, marks, h]

theorem innerMarks_of_lists_ne_nil {t : TypeRef} (h : t.wrapping.lists ≠ []) :
    t.innerMarks = t.wrapping.innerRequired :: t.wrapping.lists.dropLast := by
  rw [innerMarks, marks, List.dropLast_cons_of_ne_nil h]

theorem dropLast_innerMarks {t : TypeRef} (h : 1 < t.depth) :
    t.innerMarks.dropLast =
      t.wrapping.innerRequired :: t.wrapping.lists.dropLast.dropLast := by
  rw [depth] at h
  have hlists : t.wrapping.lists ≠ [] := List.length_pos_iff.mp (by omega)
  have htail : t.wrapping.lists.dropLast ≠ [] := by
    rw [← List.length_pos_iff, List.length_dropLast]
    omega
  rw [innerMarks_of_lists_ne_nil hlists, List.dropLast_cons_of_ne_nil htail]

theorem isRequired_of_lists_nil {t : TypeRef} (h : t.wrapping.lists = []) :
    t.isRequired = t.wrapping.innerRequired := by
  simp [isRequired, Wrapping.isRequired, h]

theorem getLast?_lists {t : TypeRef} (h : t.wrapping.lists ≠ []) :
    t.wrapping.lists.getLast? = some t.isRequired := by
  rw [isRequired, Wrapping.isRequired, List.getLast?_eq_some_getLast h, Option.getD_some]

/-- A type is known by its name, its inner marks and the mark of its outermost level. -/
theorem eq_of_innerMarks {t u : TypeRef} (hname : t.name = u.name) (hdepth : t.depth = u.depth)
    (hinner : t.innerMarks = u.innerMarks) (houter : t.isRequired = u.isRequired) : t = u := by
  obtain ⟨n, i, ls⟩ := t
  obtain ⟨n', i', ls'⟩ := u
  obtain rfl : n = n' := hname
  simp only [depth] at hdepth
  rcases ls.eq_nil_or_concat with rfl | ⟨init, last, rfl⟩ <;>
    rcases ls'.eq_nil_or_concat with rfl | ⟨init', last', rfl⟩
  · simp_all [isRequired]
  · simp at hdepth
  · simp at hdepth
  · rw [List.concat_eq_append, List.concat_eq_append] at *
    simp_all [innerMarks_of_lists_ne_nil, isRequired, Wrapping.isRequired]

/-! ## Types that agree -/

/-- The types have the same named type, the same number of list levels, and the same marks
everywhere but at the outermost level. -/
structure AgreesWith (t u : TypeRef) : Prop where
  name : t.name = u.name
  depth : t.depth = u.depth
  innerMarks : t.innerMarks = u.innerMarks

instance (t u : TypeRef) : Decidable (t.AgreesWith u) :=
  decidable_of_iff (t.name = u.name ∧ t.depth = u.depth ∧ t.innerMarks = u.innerMarks)
    ⟨fun h => ⟨h.1, h.2.1, h.2.2⟩, fun h => ⟨h.name, h.depth, h.innerMarks⟩⟩

namespace AgreesWith

theorem refl (t : TypeRef) : t.AgreesWith t :=
  ⟨rfl, rfl, rfl⟩

theorem symm {t u : TypeRef} (h : t.AgreesWith u) : u.AgreesWith t :=
  ⟨h.name.symm, h.depth.symm, h.innerMarks.symm⟩

theorem trans {t u v : TypeRef} (h : t.AgreesWith u) (h' : u.AgreesWith v) : t.AgreesWith v :=
  ⟨h.name.trans h'.name, h.depth.trans h'.depth, h.innerMarks.trans h'.innerMarks⟩

/-- Types that agree on their outermost level as well are equal. -/
theorem eq_of_isRequired {t u : TypeRef} (h : t.AgreesWith u) (hreq : t.isRequired = u.isRequired) :
    t = u :=
  eq_of_innerMarks h.name h.depth h.innerMarks hreq

end AgreesWith

/-- The first type is the second, itself a list, with one more list level around it, where the marks
of the two outermost levels do not matter. -/
structure IsOneLevelDeeper (t u : TypeRef) : Prop where
  name : t.name = u.name
  isList : u.wrapping.lists ≠ []
  depth : t.depth = u.depth + 1
  innerMarks : t.innerMarks.dropLast = u.innerMarks

instance (t u : TypeRef) : Decidable (t.IsOneLevelDeeper u) :=
  decidable_of_iff (t.name = u.name ∧ u.wrapping.lists ≠ [] ∧ t.depth = u.depth + 1 ∧
      t.innerMarks.dropLast = u.innerMarks)
    ⟨fun h => ⟨h.1, h.2.1, h.2.2.1, h.2.2.2⟩, fun h => ⟨h.name, h.isList, h.depth, h.innerMarks⟩⟩

/-! ## Composing two types -/

/-- Along list levels, the answer is about the last level of the second type. There is one if the
levels differ at most at the end, or if the first type has one level more. -/
theorem outermostRequired?_eq (as bs : List Bool) :
    outermostRequired? as bs =
      if as.length = bs.length ∧ as.dropLast = bs.dropLast ∨
          as.length = bs.length + 1 ∧ as.dropLast.dropLast = bs.dropLast then
        bs.getLast?
      else none := by
  induction as, bs using outermostRequired?.induct with
  | case1 a b => simp [outermostRequired?]
  | case2 a a' b => simp [outermostRequired?]
  | case3 as b bs h1 h2 ih =>
    rw [outermostRequired?, if_pos rfl, ih]
    · rcases as with _ | ⟨a, as⟩ <;> rcases bs with _ | ⟨b', bs⟩
      · exact absurd rfl (h1 rfl)
      · simp
      · have has : as ≠ [] := fun h => h2 a (by rw [h]) rfl
        simp [has]
      · rcases as with _ | ⟨a', as⟩ <;> simp
    · exact h1
    · exact h2
  | case4 a as b bs h1 h2 hab =>
    rw [outermostRequired?, if_neg hab]
    · rcases as with _ | ⟨a', as⟩ <;> rcases bs with _ | ⟨b', bs⟩
      · exact absurd rfl (h1 rfl)
      · simp
      · have has : as ≠ [] := fun h => h2 a' (by rw [h]) rfl
        simp [has]
      · rcases as with _ | ⟨a'', as⟩ <;> simp [hab]
    · exact h1
    · exact h2
  | case5 as bs h1 h2 h3 =>
    rcases as with _ | ⟨a, as⟩ <;> rcases bs with _ | ⟨b, bs⟩
    · rfl
    · simp [outermostRequired?]
    · simp [outermostRequired?]
    · exact absurd rfl (h3 a as b bs rfl)

/-- Two different types without list levels compose by name. -/
theorem compose?_of_lists_nil {t u : TypeRef} (hne : t ≠ u) (hname : t.name = u.name)
    (ht : t.wrapping.lists = []) (hu : u.wrapping.lists = []) :
    t.compose? u = some u.isRequired := by
  rw [compose?, if_neg hne, if_neg (not_not.mpr hname), ht, hu, isRequired_of_lists_nil hu]

/-- Two different list types compose by their levels. -/
theorem compose?_of_lists_ne_nil {t u : TypeRef} (hne : t ≠ u) (hname : t.name = u.name)
    (ht : t.wrapping.lists ≠ []) (hu : u.wrapping.lists ≠ []) :
    t.compose? u =
      if t.wrapping.innerRequired = u.wrapping.innerRequired then
        outermostRequired? t.wrapping.lists u.wrapping.lists
      else none := by
  obtain ⟨a, as, hta⟩ := List.exists_cons_of_ne_nil ht
  obtain ⟨b, bs, hub⟩ := List.exists_cons_of_ne_nil hu
  rw [compose?, if_neg hne, if_neg (not_not.mpr hname), hta, hub]
  by_cases hinner : t.wrapping.innerRequired = u.wrapping.innerRequired
  · simp [hinner]
  · simp [hinner]

/-- Types that agree compose. -/
theorem compose?_of_agreesWith {t u : TypeRef} (hne : t ≠ u) (h : t.AgreesWith u) :
    t.compose? u = some u.isRequired := by
  by_cases hu : u.wrapping.lists = []
  · have ht : t.wrapping.lists = [] := by
      have hdepth := h.depth
      rw [depth, depth, hu] at hdepth
      exact List.length_eq_zero_iff.mp hdepth
    exact compose?_of_lists_nil hne h.name ht hu
  · have ht : t.wrapping.lists ≠ [] := by
      intro ht
      have hdepth := h.depth
      rw [depth, depth, ht] at hdepth
      exact hu (List.length_eq_zero_iff.mp hdepth.symm)
    have hinner := h.innerMarks
    rw [innerMarks_of_lists_ne_nil ht, innerMarks_of_lists_ne_nil hu, List.cons.injEq] at hinner
    rw [compose?_of_lists_ne_nil hne h.name ht hu, if_pos hinner.1, outermostRequired?_eq,
      if_pos (Or.inl ⟨h.depth, hinner.2⟩), getLast?_lists hu]

/-- So does a list type with the same type one level deeper in front of it. -/
theorem compose?_of_isOneLevelDeeper {t u : TypeRef} (h : t.IsOneLevelDeeper u) :
    t.compose? u = some u.isRequired := by
  have hne : t ≠ u := by
    rintro rfl
    exact absurd h.depth (by omega)
  have hu : 0 < u.depth := List.length_pos_iff.mpr h.isList
  have ht : 1 < t.depth := h.depth ▸ Nat.succ_lt_succ hu
  have hlists : t.wrapping.lists ≠ [] := List.length_pos_iff.mp (by rw [depth] at ht; omega)
  have hinner := h.innerMarks
  rw [dropLast_innerMarks ht, innerMarks_of_lists_ne_nil h.isList, List.cons.injEq] at hinner
  rw [compose?_of_lists_ne_nil hne h.name hlists h.isList, if_pos hinner.1, outermostRequired?_eq,
    if_pos (Or.inr ⟨h.depth, hinner.2⟩), getLast?_lists h.isList]

/-- No other types compose. -/
theorem agreesWith_or_isOneLevelDeeper {t u : TypeRef} {b : Bool} (h : t.compose? u = some b) :
    t.AgreesWith u ∨ t.IsOneLevelDeeper u := by
  by_cases heq : t = u
  · exact Or.inl (heq ▸ AgreesWith.refl t)
  have hname : t.name = u.name := by
    by_contra hname
    simp [compose?, heq, hname] at h
  by_cases ht : t.wrapping.lists = [] <;> by_cases hu : u.wrapping.lists = []
  · left
    exact ⟨hname, by rw [depth, depth, ht, hu],
      by rw [innerMarks_of_lists_nil ht, innerMarks_of_lists_nil hu]⟩
  · obtain ⟨b, bs, hub⟩ := List.exists_cons_of_ne_nil hu
    simp [compose?, heq, hname, ht, hub] at h
  · obtain ⟨a, as, hta⟩ := List.exists_cons_of_ne_nil ht
    simp [compose?, heq, hname, hu, hta] at h
  · rw [compose?_of_lists_ne_nil heq hname ht hu, outermostRequired?_eq] at h
    split_ifs at h with hinner hlevels
    rcases hlevels with ⟨hdepth, hlists⟩ | ⟨hdepth, hlists⟩
    · left
      refine ⟨hname, hdepth, ?_⟩
      rw [innerMarks_of_lists_ne_nil ht, innerMarks_of_lists_ne_nil hu, hinner, hlists]
    · right
      refine ⟨hname, hu, hdepth, ?_⟩
      have hpos : 0 < u.wrapping.lists.length := List.length_pos_iff.mpr hu
      rw [dropLast_innerMarks (by rw [depth]; omega), innerMarks_of_lists_ne_nil hu, hinner, hlists]

/-- Exactly the types that agree compose, and those where the first is one level deeper. -/
theorem isSome_compose?_iff {t u : TypeRef} :
    (t.compose? u).isSome = true ↔ t.AgreesWith u ∨ t.IsOneLevelDeeper u := by
  constructor
  · intro h
    obtain ⟨b, hb⟩ := Option.isSome_iff_exists.mp h
    exact agreesWith_or_isOneLevelDeeper hb
  · rintro (h | h)
    · by_cases heq : t = u
      · rw [heq, compose?_self]
        rfl
      · rw [compose?_of_agreesWith heq h]
        rfl
    · rw [compose?_of_isOneLevelDeeper h]
      rfl

/-! ## Composing in a position -/

/-- A way to compose types for a position. Of two types that agree, it takes one whose outermost
level is marked like `winner`, if there is one. -/
structure Composes (winner : Bool) (composeIn? : TypeRef → TypeRef → Option TypeRef) : Prop where
  self (t : TypeRef) : composeIn? t t = some t
  isSome_iff {t u : TypeRef} :
    (composeIn? t u).isSome = true ↔ t.AgreesWith u ∨ t.IsOneLevelDeeper u
  agrees {t u v : TypeRef} (h : t.AgreesWith u) (hv : composeIn? t u = some v) :
    v.AgreesWith t ∧
      (v.isRequired = winner ↔ t.isRequired = winner ∨ u.isRequired = winner)

/-- In output positions nullable types win. -/
theorem composes_composeOutput? : Composes false composeOutput? where
  self t := by simp [composeOutput?]
  isSome_iff := by
    intro t u
    rw [composeOutput?, Option.isSome_map, isSome_compose?_iff]
  agrees := by
    intro t u v h hv
    by_cases heq : t = u
    · simp only [composeOutput?, heq, compose?_self, Option.map_some, if_true] at hv
      obtain rfl := Option.some.inj hv
      exact ⟨h.symm, by simp [heq]⟩
    · rw [composeOutput?, compose?_of_agreesWith heq h, Option.map_some] at hv
      cases hu : u.isRequired
      · obtain rfl : u = v := by simpa [hu] using hv
        exact ⟨h.symm, by simp [hu]⟩
      · obtain rfl : t = v := by simpa [hu] using hv
        exact ⟨AgreesWith.refl t, by simp⟩

/-- In input positions non-null types win. -/
theorem composes_composeInput? : Composes true composeInput? where
  self t := by simp [composeInput?]
  isSome_iff := by
    intro t u
    rw [composeInput?, Option.isSome_map, isSome_compose?_iff]
  agrees := by
    intro t u v h hv
    by_cases heq : t = u
    · simp only [composeInput?, heq, compose?_self, Option.map_some, if_true] at hv
      obtain rfl := Option.some.inj hv
      exact ⟨h.symm, by simp [heq]⟩
    · rw [composeInput?, compose?_of_agreesWith heq h, Option.map_some] at hv
      cases hu : u.isRequired
      · obtain rfl : t = v := by simpa [hu] using hv
        exact ⟨AgreesWith.refl t, by simp⟩
      · obtain rfl : u = v := by simpa [hu] using hv
        exact ⟨h.symm, by simp [hu]⟩

/-- Types of one named type compose to a type of that name, and no others compose. -/
def KeepsName (composeIn? : TypeRef → TypeRef → Option TypeRef) : Prop :=
  ∀ t u v, composeIn? t u = some v → u.name = t.name ∧ v.name = t.name

theorem name_eq_of_compose? {t u : TypeRef} {b : Bool} (h : t.compose? u = some b) :
    u.name = t.name :=
  (agreesWith_or_isOneLevelDeeper h).elim (fun hagree => hagree.name.symm) fun hdeep =>
    hdeep.name.symm

theorem keepsName_composeOutput? : KeepsName composeOutput? := by
  intro t u v h
  obtain ⟨required, hrequired, rfl⟩ := Option.map_eq_some_iff.mp h
  have hname := name_eq_of_compose? hrequired
  refine ⟨hname, ?_⟩
  split
  · rfl
  · exact hname

theorem keepsName_composeInput? : KeepsName composeInput? := by
  intro t u v h
  obtain ⟨required, hrequired, rfl⟩ := Option.map_eq_some_iff.mp h
  have hname := name_eq_of_compose? hrequired
  refine ⟨hname, ?_⟩
  split
  · exact hname
  · rfl

/-! ## Composing a sequence of types -/

/-- What some types compose to, and whether one of them did not compose. -/
structure Consensus where
  type : TypeRef
  disagree : Bool := false

/-- Goes on with one more type. A type that does not compose changes nothing else. -/
def Consensus.absorb (composeIn? : TypeRef → TypeRef → Option TypeRef) (c : Consensus)
    (t : TypeRef) : Consensus where
  type := (composeIn? c.type t).getD c.type
  disagree := c.disagree || (composeIn? c.type t).isNone

/-- Goes on with several types. -/
def Consensus.absorbAll (composeIn? : TypeRef → TypeRef → Option TypeRef) (c : Consensus)
    (ts : List TypeRef) : Consensus :=
  ts.foldl (absorb composeIn?) c

/-- Every type of a sequence stands in a relation to what a type and those before it in the sequence
compose to. -/
def Along (composeIn? : TypeRef → TypeRef → Option TypeRef) (R : TypeRef → TypeRef → Prop)
    (t : TypeRef) : List TypeRef → Prop
  | [] => True
  | u :: us => R t u ∧ Along composeIn? R ((composeIn? t u).getD t) us

/-- A decidable relation along a sequence can be decided step by step. -/
instance Along.decidable (composeIn? : TypeRef → TypeRef → Option TypeRef)
    (R : TypeRef → TypeRef → Prop) [DecidableRel R] (t : TypeRef) (us : List TypeRef) :
    Decidable (Along composeIn? R t us) :=
  match us with
  | [] => inferInstanceAs (Decidable True)
  | u :: us =>
    have := Along.decidable composeIn? R ((composeIn? t u).getD t) us
    inferInstanceAs (Decidable (R t u ∧ Along composeIn? R ((composeIn? t u).getD t) us))

/-- All types of a list agree. -/
def AllAgree (ts : List TypeRef) : Prop :=
  ∀ t ∈ ts, ∀ u ∈ ts, t.AgreesWith u

instance (ts : List TypeRef) : Decidable (AllAgree ts) :=
  inferInstanceAs (Decidable (∀ t ∈ ts, ∀ u ∈ ts, t.AgreesWith u))

/-- The law of consensus: no type failed to compose exactly if all types agree, and then they
compose to their common type, with its outermost level marked like `winner` exactly if some of them
is so marked. -/
def Consensus.IsLawful (winner : Bool) (c : Consensus) (ts : List TypeRef) : Prop :=
  (c.disagree = false ↔ AllAgree ts) ∧
    (AllAgree ts → (∀ t ∈ ts, c.type.AgreesWith t) ∧
      (c.type.isRequired = winner ↔ ∃ t ∈ ts, t.isRequired = winner))

section

variable {winner : Bool} {composeIn? : TypeRef → TypeRef → Option TypeRef}

/-- A type agrees with a type before it and all further ones exactly if all agree. -/
theorem allAgree_cons_iff {t : TypeRef} {ts : List TypeRef} :
    AllAgree (t :: ts) ↔ ∀ u ∈ ts, t.AgreesWith u := by
  constructor
  · intro h u hu
    exact h t List.mem_cons_self u (List.mem_cons_of_mem t hu)
  · intro h
    have hall : ∀ u ∈ t :: ts, t.AgreesWith u := by
      intro u hu
      rcases List.mem_cons.mp hu with rfl | hu
      · exact AgreesWith.refl u
      · exact h u hu
    exact fun u hu v hv => (hall u hu).symm.trans (hall v hv)

/-- A composed type that agrees with the next one changes no more than its outermost mark. -/
theorem Composes.getD (h : Composes winner composeIn?) {t u : TypeRef} (hagree : t.AgreesWith u) :
    ((composeIn? t u).getD t).AgreesWith t ∧
      (((composeIn? t u).getD t).isRequired = winner ↔
        t.isRequired = winner ∨ u.isRequired = winner) := by
  obtain ⟨v, hv⟩ := Option.isSome_iff_exists.mp (h.isSome_iff.mpr (Or.inl hagree))
  rw [hv, Option.getD_some]
  exact h.agrees hagree hv

/-- Whether types composed is decided step by step. -/
theorem disagree_absorbAll_eq_false_iff (h : Composes winner composeIn?) (c : Consensus)
    (ts : List TypeRef) :
    (c.absorbAll composeIn? ts).disagree = false ↔
      c.disagree = false ∧
        Along composeIn? (fun t u => t.AgreesWith u ∨ t.IsOneLevelDeeper u) c.type ts := by
  induction ts generalizing c with
  | nil => simp [Consensus.absorbAll, Along]
  | cons u us ih =>
    have hstep : (c.absorb composeIn? u).disagree = false ↔
        c.disagree = false ∧ (c.type.AgreesWith u ∨ c.type.IsOneLevelDeeper u) := by
      rw [Consensus.absorb, ← h.isSome_iff, Bool.or_eq_false_iff, Option.isNone_eq_false_iff]
    rw [Consensus.absorbAll, List.foldl_cons, ← Consensus.absorbAll, ih, hstep, Along, and_assoc]
    rfl

/-- Types that composed all have one named type. -/
theorem name_absorbAll {composeIn? : TypeRef → TypeRef → Option TypeRef} (h : KeepsName composeIn?)
    {c : Consensus} {ts : List TypeRef} (hagree : (c.absorbAll composeIn? ts).disagree = false) :
    (c.absorbAll composeIn? ts).type.name = c.type.name ∧ ∀ t ∈ ts, t.name = c.type.name := by
  induction ts using List.reverseRecOn with
  | nil => exact ⟨rfl, fun _ ht => absurd ht List.not_mem_nil⟩
  | append_singleton ts u ih =>
    rw [Consensus.absorbAll, List.foldl_concat, ← Consensus.absorbAll] at hagree ⊢
    obtain ⟨hbefore, hsome⟩ := Bool.or_eq_false_iff.mp hagree
    obtain ⟨htype, hall⟩ := ih hbefore
    obtain ⟨v, hv⟩ := Option.isSome_iff_exists.mp (Option.isNone_eq_false_iff.mp hsome)
    obtain ⟨hu, hvname⟩ := h _ _ _ hv
    refine ⟨?_, List.forall_mem_append.mpr ⟨hall, List.forall_mem_singleton.mpr (hu.trans htype)⟩⟩
    rw [Consensus.absorb, hv, Option.getD_some]
    exact hvname.trans htype

/-- Types that agree with what is there compose to a type that agrees with it. -/
theorem type_absorbAll (h : Composes winner composeIn?) (c : Consensus) (ts : List TypeRef)
    (hagree : ∀ t ∈ ts, c.type.AgreesWith t) :
    (c.absorbAll composeIn? ts).type.AgreesWith c.type ∧
      ((c.absorbAll composeIn? ts).type.isRequired = winner ↔
        c.type.isRequired = winner ∨ ∃ t ∈ ts, t.isRequired = winner) := by
  induction ts generalizing c with
  | nil => exact ⟨AgreesWith.refl _, by simp [Consensus.absorbAll]⟩
  | cons u us ih =>
    obtain ⟨hstep, hreq⟩ := h.getD (hagree u List.mem_cons_self)
    have hnext : ∀ t ∈ us, (c.absorb composeIn? u).type.AgreesWith t := fun t ht =>
      hstep.trans (hagree t (List.mem_cons_of_mem u ht))
    obtain ⟨hrest, hrestreq⟩ := ih (c.absorb composeIn? u) hnext
    refine ⟨hrest.trans hstep, ?_⟩
    rw [Consensus.absorbAll, List.foldl_cons, ← Consensus.absorbAll, hrestreq, Consensus.absorb,
      hreq, or_assoc]
    simp only [List.mem_cons, exists_eq_or_imp]

/-- Types that agree compose without a type that is one level deeper than the next. -/
theorem along_of_agreesWith (h : Composes winner composeIn?) {t : TypeRef} {ts : List TypeRef}
    (hagree : ∀ u ∈ ts, t.AgreesWith u) :
    Along composeIn? (fun t u => ¬ t.IsOneLevelDeeper u) t ts ∧
      Along composeIn? (fun t u => t.AgreesWith u ∨ t.IsOneLevelDeeper u) t ts := by
  induction ts generalizing t with
  | nil => exact ⟨trivial, trivial⟩
  | cons u us ih =>
    have hu := hagree u List.mem_cons_self
    have hstep := (h.getD hu).1
    have hrest := ih (t := (composeIn? t u).getD t) fun v hv =>
      hstep.trans (hagree v (List.mem_cons_of_mem u hv))
    refine ⟨⟨fun hdeeper => ?_, hrest.1⟩, ⟨Or.inl hu, hrest.2⟩⟩
    have hdepth := hdeeper.depth
    rw [hu.depth] at hdepth
    omega

/-- If no type is one level deeper than the next, only types that agree compose. -/
theorem agreesWith_of_along (h : Composes winner composeIn?) {t : TypeRef} {ts : List TypeRef}
    (hnone : Along composeIn? (fun t u => ¬ t.IsOneLevelDeeper u) t ts)
    (hall : Along composeIn? (fun t u => t.AgreesWith u ∨ t.IsOneLevelDeeper u) t ts) :
    ∀ u ∈ ts, t.AgreesWith u := by
  induction ts generalizing t with
  | nil => simp
  | cons u us ih =>
    obtain ⟨hnot, hnone⟩ := hnone
    obtain ⟨hor, hall⟩ := hall
    have hu : t.AgreesWith u := hor.resolve_right hnot
    intro v hv
    rcases List.mem_cons.mp hv with rfl | hv
    · exact hu
    · exact (h.getD hu).1.symm.trans (ih hnone hall v hv)

/-- Composing a type with itself changes nothing. -/
theorem absorb_self (h : Composes winner composeIn?) (t : TypeRef) :
    Consensus.absorb composeIn? { type := t } t = { type := t } := by
  simp [Consensus.absorb, h.self]

/-- **The law of consensus, exactly.** The law holds for a sequence of types if and only if some type
was found not to compose, or none of them was one level shallower than what the types before it
compose to. -/
theorem isLawful_iff (h : Composes winner composeIn?) (t : TypeRef) (ts : List TypeRef) :
    (Consensus.absorbAll composeIn? { type := t } ts).IsLawful winner (t :: ts) ↔
      (Consensus.absorbAll composeIn? { type := t } ts).disagree = true ∨
        Along composeIn? (fun t u => ¬ t.IsOneLevelDeeper u) t ts := by
  have hflag := disagree_absorbAll_eq_false_iff h { type := t } ts
  simp only [true_and] at hflag
  have hagree : AllAgree (t :: ts) →
      (∀ u ∈ t :: ts,
        (Consensus.absorbAll composeIn? { type := t } ts).type.AgreesWith u) ∧
      ((Consensus.absorbAll composeIn? { type := t } ts).type.isRequired = winner ↔
        ∃ u ∈ t :: ts, u.isRequired = winner) := by
    intro hall
    obtain ⟨htype, hreq⟩ := type_absorbAll h { type := t } ts (allAgree_cons_iff.mp hall)
    refine ⟨fun u hu => htype.trans (hall t List.mem_cons_self u hu), ?_⟩
    rw [hreq]
    simp only [List.mem_cons, exists_eq_or_imp]
  constructor
  · rintro ⟨hiff, -⟩
    cases hd : (Consensus.absorbAll composeIn? { type := t } ts).disagree
    · right
      exact (along_of_agreesWith h (allAgree_cons_iff.mp (hiff.mp hd))).1
    · exact Or.inl rfl
  · intro hcase
    refine ⟨⟨fun hd => ?_, fun hall => ?_⟩, hagree⟩
    · rcases hcase with htrue | hnone
      · rw [htrue] at hd
        cases hd
      · exact allAgree_cons_iff.mpr (agreesWith_of_along h hnone (hflag.mp hd))
    · exact hflag.mpr (along_of_agreesWith h (allAgree_cons_iff.mp hall)).2

end

end Federation.TypeRef
