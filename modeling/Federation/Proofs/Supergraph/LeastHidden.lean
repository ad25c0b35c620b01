import Federation.Proofs.Loops
import Federation.Proofs.Supergraph.PublicText
import Mathlib.Order.Bounds.Basic

/-!
# The least set of hidden types

Which types are hidden can be said without saying how they are found: they are the least set of names
that the inaccessible types belong to, and with them every type that has nothing to show beside that
set. Types can be hidden as soon as they are found, while a pass over the types goes on, or all at the
end of a round. Since every way of hiding stays within each such set and stops only at one, all ways
end with the same types, in whatever order the types stand.
-/

namespace Federation.Supergraph

/-! ## Types with nothing to show -/

/-- Nothing of a type is visible beside hidden types: all its fields are inaccessible or of a hidden
type, all its members are hidden, or all its values are inaccessible. A scalar has no parts and is
visible as it is. -/
def Body.Vanishes (hidden : Set String) : Body → Prop
  | .object _ fields | .interface _ fields =>
    ∀ f ∈ fields, isHidden f.directives = true ∨ TypeRef.nameOfText f.type ∈ hidden
  | .inputObject fields =>
    ∀ f ∈ fields, isHidden f.directives = true ∨ TypeRef.nameOfText f.type ∈ hidden
  | .union members => ∀ member ∈ members, member ∈ hidden
  | .enum values => ∀ v ∈ values, isHidden v.directives = true
  | .scalar => False

theorem Body.vanishes_iff {hidden : List String} (body : Body) :
    body.Vanishes {name | name ∈ hidden} ↔ body.isEmptied hidden = true := by
  cases body with
  | object _ fields | interface _ fields | inputObject fields =>
    simp only [Vanishes, isEmptied, isHiddenReference, List.all_eq_true, Bool.or_eq_true,
      List.contains_iff_mem, Set.mem_ofPred_eq]
  | union members =>
    simp only [Vanishes, isEmptied, List.all_eq_true, List.contains_iff_mem, Set.mem_ofPred_eq]
  | enum values => simp only [Vanishes, isEmptied, List.all_eq_true]
  | scalar => simp only [Vanishes, isEmptied, Bool.false_eq_true]

theorem Body.Vanishes.mono {hidden hidden' : Set String} (h : hidden ⊆ hidden') {body : Body}
    (hvanishes : body.Vanishes hidden) : body.Vanishes hidden' := by
  cases body with
  | object _ fields | interface _ fields | inputObject fields =>
    intro f hf
    exact (hvanishes f hf).imp_right fun hmem => h hmem
  | union members =>
    intro member hmember
    exact h (hvanishes member hmember)
  | enum values | scalar => exact hvanishes

namespace Model

/-- A set of names that types are hidden by: all inaccessible types belong to it, and so does every
type with nothing to show beside it. -/
structure IsHiding (m : Model) (hidden : Set String) : Prop where
  inaccessible : ∀ d ∈ m.types, isHidden d.directives = true → d.name ∈ hidden
  vanishing : ∀ d ∈ m.types, d.body.Vanishes hidden → d.name ∈ hidden

variable {m : Model} {hidden : List String}

/-- For lists of names this is closedness. -/
theorem isHiding_iff : m.IsHiding {name | name ∈ hidden} ↔ m.IsClosed hidden := by
  constructor
  · intro h
    refine ⟨?_, fun d hd hempty => h.vanishing d hd (d.body.vanishes_iff.mpr hempty)⟩
    intro name hname
    obtain ⟨d, hd, hhidden, rfl⟩ := mem_inaccessibleTypes.mp hname
    exact h.inaccessible d hd hhidden
  · intro h
    refine ⟨?_, fun d hd hvanishes => h.emptied d hd (d.body.vanishes_iff.mp hvanishes)⟩
    intro d hd hhidden
    exact h.inaccessible (mem_inaccessibleTypes.mpr ⟨d, hd, hhidden, rfl⟩)

/-- A hiding set holds all hidden types. It may have other names without end, so the closed list of
types is the part of it that is hidden. -/
theorem IsHiding.hiddenTypes_subset {closed : Set String} (h : m.IsHiding closed) :
    {name | name ∈ m.hiddenTypes} ⊆ closed := by
  classical
  -- the hidden types that belong to the set are closed, so they are all hidden types
  have hclosed : m.IsClosed (m.hiddenTypes.filter fun name => name ∈ closed) := by
    have hleast := m.isClosed_hiddenTypes
    constructor
    · intro name hname
      obtain ⟨d, hd, hhidden, rfl⟩ := mem_inaccessibleTypes.mp hname
      exact List.mem_filter.mpr ⟨hleast.inaccessible hname,
        decide_eq_true (h.inaccessible d hd hhidden)⟩
    · intro d hd hempty
      have hvanishes := d.body.vanishes_iff.mpr hempty
      refine List.mem_filter.mpr ⟨?_, decide_eq_true (h.vanishing d hd (hvanishes.mono ?_))⟩
      · exact hleast.emptied d hd (Body.isEmptied_mono List.filter_sublist.subset hempty)
      · intro name hname
        exact of_decide_eq_true (List.mem_filter.mp hname).2
  intro name hname
  exact of_decide_eq_true (List.mem_filter.mp (hclosed.hiddenTypes_subset hname)).2

/-- **The hidden types are the least hiding set.** -/
theorem isLeast_hiddenTypes (m : Model) :
    IsLeast {hidden : Set String | m.IsHiding hidden} {name | name ∈ m.hiddenTypes} :=
  ⟨isHiding_iff.mpr m.isClosed_hiddenTypes, fun _ h => IsHiding.hiddenTypes_subset h⟩

/-! ## Hiding as one goes -/

/-- Looks at a type, and hides it if nothing of it is visible beside the types hidden so far. -/
def hideOne (hidden : List String) (d : TypeDefinition) : List String :=
  if !hidden.contains d.name && d.body.isEmptied hidden then hidden ++ [d.name] else hidden

/-- Looks at all types once. A type that is hidden on the way counts for those that come later. -/
def pass (m : Model) (hidden : List String) : List String :=
  m.types.foldl hideOne hidden

/-- Another pass, unless the last one changed nothing. -/
def nextPass? (m : Model) (hidden : List String) : Option (List String) :=
  if (m.pass hidden).length = hidden.length then none else some (m.pass hidden)

theorem hideOne_of_hides {d : TypeDefinition} (hname : d.name ∉ hidden)
    (hempty : d.body.isEmptied hidden = true) : hideOne hidden d = hidden ++ [d.name] := by
  rw [hideOne, if_pos]
  simp [hname, hempty]

theorem hideOne_of_keeps {d : TypeDefinition}
    (h : ¬ (d.name ∉ hidden ∧ d.body.isEmptied hidden = true)) : hideOne hidden d = hidden := by
  rw [hideOne, if_neg]
  simpa using h

/-- A pass hides types that were not hidden before. -/
theorem exists_foldl_hideOne (types : List TypeDefinition) (hidden : List String) :
    ∃ more, types.foldl hideOne hidden = hidden ++ more ∧
      ∀ name ∈ more, name ∉ hidden ∧ ∃ d ∈ types, d.name = name := by
  induction types generalizing hidden with
  | nil => exact ⟨[], by simp, by simp⟩
  | cons d types ih =>
    by_cases hhides : d.name ∉ hidden ∧ d.body.isEmptied hidden = true
    · obtain ⟨more, hmore, hnew⟩ := ih (hidden ++ [d.name])
      refine ⟨d.name :: more, ?_, ?_⟩
      · rw [List.foldl_cons, hideOne_of_hides hhides.1 hhides.2, hmore]
        simp
      · intro name hname
        rcases List.mem_cons.mp hname with rfl | hname
        · exact ⟨hhides.1, d, List.mem_cons_self, rfl⟩
        · obtain ⟨hnot, e, he, rfl⟩ := hnew name hname
          exact ⟨fun hmem => hnot (List.mem_append_left _ hmem), e, List.mem_cons_of_mem _ he, rfl⟩
    · obtain ⟨more, hmore, hnew⟩ := ih hidden
      refine ⟨more, ?_, ?_⟩
      · rw [List.foldl_cons, hideOne_of_keeps hhides, hmore]
      · intro name hname
        obtain ⟨hnot, e, he, rfl⟩ := hnew name hname
        exact ⟨hnot, e, List.mem_cons_of_mem _ he, rfl⟩

/-- A pass stays within closed types. -/
theorem IsClosed.pass_subset {closed : List String} (h : m.IsClosed closed)
    (hsub : hidden ⊆ closed) : m.pass hidden ⊆ closed := by
  have hall : ∀ types ⊆ m.types, ∀ hidden ⊆ closed, types.foldl hideOne hidden ⊆ closed := by
    intro types htypes
    induction types with
    | nil => exact fun hidden hsub => hsub
    | cons d types ih =>
      intro hidden hsub
      obtain ⟨hd, htypes⟩ := List.cons_subset.mp htypes
      rw [List.foldl_cons]
      refine ih htypes _ ?_
      by_cases hhides : d.name ∉ hidden ∧ d.body.isEmptied hidden = true
      · rw [hideOne_of_hides hhides.1 hhides.2]
        have hname := h.emptied d hd (Body.isEmptied_mono hsub hhides.2)
        exact List.append_subset.mpr ⟨hsub, by simpa using hname⟩
      · rw [hideOne_of_keeps hhides]
        exact hsub
  exact hall m.types (List.Subset.refl _) hidden hsub

/-- If a pass hides nothing, there was nothing to hide. -/
theorem emptied_of_length_foldl_hideOne {types : List TypeDefinition}
    (h : (types.foldl hideOne hidden).length = hidden.length) {d : TypeDefinition} (hd : d ∈ types)
    (hempty : d.body.isEmptied hidden = true) : d.name ∈ hidden := by
  induction types with
  | nil => cases hd
  | cons first types ih =>
    rw [List.foldl_cons] at h
    by_cases hhides : first.name ∉ hidden ∧ first.body.isEmptied hidden = true
    · -- the first type would make the list longer for good
      rw [hideOne_of_hides hhides.1 hhides.2] at h
      obtain ⟨more, hmore, -⟩ := exists_foldl_hideOne types (hidden ++ [first.name])
      rw [hmore] at h
      simp at h
    · rw [hideOne_of_keeps hhides] at h
      rcases List.mem_cons.mp hd with rfl | hd
      · by_contra hname
        exact hhides ⟨hname, hempty⟩
      · exact ih h hd

/-- Passes end, at closed types that lie within all closed types around the first ones. -/
theorem exists_endsIn_nextPass? (hinaccessible : m.inaccessibleTypes ⊆ hidden) :
    ∃ last, EndsIn m.nextPass? hidden last ∧ m.IsClosed last ∧
      ∀ closed, m.IsClosed closed → hidden ⊆ closed → last ⊆ closed := by
  -- every pass but the last leaves fewer visible types
  induction hcount : m.visibleCount hidden using Nat.strong_induction_on generalizing hidden with
  | _ count ih =>
    by_cases hsame : (m.pass hidden).length = hidden.length
    · refine ⟨hidden, .refl (if_pos hsame), ⟨hinaccessible, ?_⟩, fun _ _ hsub => hsub⟩
      intro d hd hempty
      exact emptied_of_length_foldl_hideOne hsame hd hempty
    · obtain ⟨more, hmore, hnew⟩ := exists_foldl_hideOne m.types hidden
      have hpass : m.pass hidden = hidden ++ more := hmore
      have hne : more ≠ [] := by
        rintro rfl
        rw [hpass, List.append_nil] at hsame
        exact hsame rfl
      obtain ⟨name, hname⟩ := List.exists_mem_of_ne_nil more hne
      obtain ⟨hnot, d, hd, rfl⟩ := hnew name hname
      have hsub : hidden ⊆ m.pass hidden := hpass ▸ List.subset_append_left hidden more
      have hlt : m.visibleCount (m.pass hidden) < m.visibleCount hidden :=
        visibleCount_lt_of_mem hsub hd hnot (hpass ▸ List.mem_append_right hidden hname)
      obtain ⟨last, hends, hclosed, hleast⟩ :=
        ih _ (hcount ▸ hlt) (List.Subset.trans hinaccessible hsub) rfl
      refine ⟨last, .head (if_neg hsame) hends, hclosed, ?_⟩
      intro closed h hsub'
      exact hleast closed h (h.pass_subset hsub')

/-! ## All ways of hiding -/

/-- A group of types is visible if each of them has an accessible part that is not of a hidden type,
or of a type of the group. -/
theorem notMem_hiddenTypes_of_group {group : Set String}
    (h : ∀ d ∈ m.types, d.name ∈ group → isHidden d.directives = false ∧
      ¬ d.body.Vanishes ({name | name ∈ m.hiddenTypes} \ group)) {name : String}
    (hname : name ∈ group) : name ∉ m.hiddenTypes := by
  -- without the group, the hidden types are still a hiding set
  have hhiding : m.IsHiding ({name | name ∈ m.hiddenTypes} \ group) := by
    have hall := isHiding_iff.mpr m.isClosed_hiddenTypes
    constructor
    · intro d hd hhidden
      refine ⟨hall.inaccessible d hd hhidden, fun hgroup => ?_⟩
      rw [(h d hd hgroup).1] at hhidden
      cases hhidden
    · intro d hd hvanishes
      refine ⟨hall.vanishing d hd (hvanishes.mono Set.sdiff_subset), fun hgroup => ?_⟩
      exact (h d hd hgroup).2 hvanishes
  intro hmem
  exact (hhiding.hiddenTypes_subset hmem).2 hname

/-- **The hidden types are a least fixed point.** Passes over the types that hide what they find as
they go come to an end, and all types that they hide are the hidden types. These are the least set of
names that has every inaccessible type and every type with nothing to show beside the set. The order
of the types does not matter, and types that only lead to each other do not hide each other. -/
theorem hidden_types_are_a_least_fixed_point (m : Model) :
    (∃ last, EndsIn m.nextPass? m.inaccessibleTypes last ∧
      ∀ name, name ∈ last ↔ name ∈ m.hiddenTypes) ∧
    IsLeast {hidden : Set String | m.IsHiding hidden} {name | name ∈ m.hiddenTypes} ∧
    (∀ m' : Model, m'.types.Perm m.types →
      ∀ name, name ∈ m'.hiddenTypes ↔ name ∈ m.hiddenTypes) ∧
    ∀ group : Set String,
      (∀ d ∈ m.types, d.name ∈ group → isHidden d.directives = false ∧
        ¬ d.body.Vanishes ({name | name ∈ m.hiddenTypes} \ group)) →
      ∀ name ∈ group, name ∉ m.hiddenTypes := by
  refine ⟨?_, m.isLeast_hiddenTypes, ?_, fun group h name => notMem_hiddenTypes_of_group h⟩
  · obtain ⟨last, hends, hclosed, hleast⟩ := exists_endsIn_nextPass? (List.Subset.refl _)
    refine ⟨last, hends, fun name => ⟨fun hname => ?_, fun hname => ?_⟩⟩
    · have hsub := m.isClosed_hiddenTypes
      exact hleast _ hsub hsub.inaccessible hname
    · exact hclosed.hiddenTypes_subset hname
  · intro m' hperm name
    -- the same sets are hiding sets of both
    have hhiding : ∀ hidden, m'.IsHiding hidden ↔ m.IsHiding hidden := by
      intro hidden
      constructor
      · exact fun h => ⟨fun d hd => h.inaccessible d (hperm.mem_iff.mpr hd),
          fun d hd => h.vanishing d (hperm.mem_iff.mpr hd)⟩
      · exact fun h => ⟨fun d hd => h.inaccessible d (hperm.mem_iff.mp hd),
          fun d hd => h.vanishing d (hperm.mem_iff.mp hd)⟩
    have hleast := m'.isLeast_hiddenTypes
    simp only [hhiding] at hleast
    exact Set.ext_iff.mp (hleast.unique m.isLeast_hiddenTypes) name

/-- Two types that lead to each other, one of them to a type without accessible fields as well. -/
def circle : Model where
  links := []
  graphs := []
  roots := { query := some "Left" }
  types :=
    [.objectOf "Log" [] [.plain "entries" "[Entry!]!" []],
      .objectOf "Left" [] [.plain "right" "[Right]" []],
      .objectOf "Right" [] [.plain "left" "Left!" [], .plain "entry" "Entry" []],
      .objectOf "Entry" [] [.plain "text" "String" [.inaccessible]]]

/-- The two types stay visible, while the type without accessible fields takes another one with it. -/
theorem hidden_types_are_a_least_fixed_point_of_circle :
    circle.hiddenTypes = ["Entry", "Log"] ∧
      ∀ name ∈ ({"Left", "Right"} : Set String), name ∉ circle.hiddenTypes := by
  have hhidden : circle.hiddenTypes = ["Entry", "Log"] := by decide
  refine ⟨hhidden, (hidden_types_are_a_least_fixed_point circle).2.2.2 {"Left", "Right"} ?_⟩
  rw [hhidden]
  -- each of the two has a field of the other one
  have hright : TypeRef.nameOfText "[Right]" = "Right" := by decide
  have hleft : TypeRef.nameOfText "Left!" = "Left" := by decide
  intro d hd hgroup
  simp only [circle, List.mem_cons, List.not_mem_nil, or_false] at hd
  rcases hd with rfl | rfl | rfl | rfl
  · simp [TypeDefinition.objectOf] at hgroup
  · refine ⟨rfl, fun hvanishes => ?_⟩
    have hfield := hvanishes _ List.mem_cons_self
    simp [Field.plain, isHidden, hright] at hfield
  · refine ⟨rfl, fun hvanishes => ?_⟩
    have hfield := hvanishes _ List.mem_cons_self
    simp [Field.plain, isHidden, hleft] at hfield
  · simp [TypeDefinition.objectOf] at hgroup

end Model

end Federation.Supergraph
