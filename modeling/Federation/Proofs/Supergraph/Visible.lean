import Federation.Proofs.Supergraph.Parts
import Mathlib.Data.List.Count

/-!
# The visible part of a supergraph

A type is hidden if it is inaccessible, or if nothing of it is visible while other hidden types are
hidden. Every round of hiding but the last takes at least one type out of sight, so the rounds do
not run out before there is nothing more to hide. The hidden types are therefore the fewest types
that are closed: the inaccessible ones are among them, and so is every type that they empty. To show
that types stay visible it is enough to name closed types without them.

What is visible of a supergraph is a supergraph again: its types that are not hidden, each with
those of its parts that are neither inaccessible nor refer to a hidden type. Every visible type
consists of something, because it would be hidden otherwise, and refers to visible types only.
-/

namespace Federation.Supergraph

/-! ## Hiding more -/

theorem isHiddenReference_mono {hidden hidden' : List String} (h : hidden ⊆ hidden')
    {directives : List Directive} {type : String}
    (href : isHiddenReference hidden directives type = true) :
    isHiddenReference hidden' directives type = true := by
  rw [isHiddenReference, Bool.or_eq_true, List.contains_iff_mem] at href ⊢
  exact href.imp_right fun hmem => h hmem

/-- A type that is emptied stays so when more types are hidden. -/
theorem Body.isEmptied_mono {hidden hidden' : List String} (h : hidden ⊆ hidden') {body : Body}
    (hempty : body.isEmptied hidden = true) : body.isEmptied hidden' = true := by
  cases body with
  | object _ fields | interface _ fields | inputObject fields =>
    rw [isEmptied, List.all_eq_true] at hempty ⊢
    exact fun f hf => isHiddenReference_mono h (hempty f hf)
  | union members =>
    rw [isEmptied, List.all_eq_true] at hempty ⊢
    intro member hmember
    exact List.contains_iff_mem.mpr (h (List.contains_iff_mem.mp (hempty member hmember)))
  | enum values | scalar =>
    -- neither depends on other types
    exact hempty

namespace Model

variable {m : Model} {hidden : List String}

/-! ## Closed types -/

/-- Types that can be hidden together: the inaccessible types are among them, and so is every type
of which nothing is visible while they are hidden. -/
structure IsClosed (m : Model) (hidden : List String) : Prop where
  inaccessible : m.inaccessibleTypes ⊆ hidden
  emptied : ∀ d ∈ m.types, d.body.isEmptied hidden = true → d.name ∈ hidden

theorem mem_inaccessibleTypes {name : String} :
    name ∈ m.inaccessibleTypes ↔ ∃ d ∈ m.types, isHidden d.directives = true ∧ d.name = name := by
  simp only [inaccessibleTypes, List.mem_map, List.mem_filter, and_assoc]

theorem mem_newlyHidden {name : String} :
    name ∈ m.newlyHidden hidden ↔
      ∃ d ∈ m.types, d.name ∉ hidden ∧ d.body.isEmptied hidden = true ∧ d.name = name := by
  simp only [newlyHidden, List.mem_map, List.mem_filter, Bool.and_eq_true, Bool.not_eq_true',
    List.contains_eq_mem, decide_eq_false_iff_not, and_assoc]

/-- A round of hiding stays within closed types. -/
theorem IsClosed.newlyHidden_subset {closed : List String} (h : m.IsClosed closed)
    (hsub : hidden ⊆ closed) : m.newlyHidden hidden ⊆ closed := by
  intro name hname
  obtain ⟨d, hd, -, hempty, rfl⟩ := mem_newlyHidden.mp hname
  exact h.emptied d hd (Body.isEmptied_mono hsub hempty)

/-! ## Rounds of hiding -/

theorem subset_hideFor (m : Model) (rounds : Nat) (hidden : List String) :
    hidden ⊆ m.hideFor rounds hidden := by
  induction rounds generalizing hidden with
  | zero => exact List.Subset.refl hidden
  | succ rounds ih =>
    rw [hideFor]
    split
    · exact List.Subset.refl hidden
    · exact fun name hname => ih _ (List.mem_append_left _ hname)

/-- No number of rounds leaves closed types. -/
theorem IsClosed.hideFor_subset {closed : List String} (h : m.IsClosed closed) (rounds : Nat)
    (hsub : hidden ⊆ closed) : m.hideFor rounds hidden ⊆ closed := by
  induction rounds generalizing hidden with
  | zero => exact hsub
  | succ rounds ih =>
    rw [hideFor]
    split
    · exact hsub
    · have hround := h.newlyHidden_subset hsub
      exact ih (List.append_subset.mpr ⟨hsub, hround⟩)

/-- The number of types that are not hidden. -/
def visibleCount (m : Model) (hidden : List String) : Nat :=
  m.types.countP fun d => !hidden.contains d.name

/-- There are fewer types to see when one more of them is hidden. -/
theorem visibleCount_lt_of_mem {hidden' : List String} (hsub : hidden ⊆ hidden')
    {d : TypeDefinition} (hd : d ∈ m.types) (hnot : d.name ∉ hidden) (hmem : d.name ∈ hidden') :
    m.visibleCount hidden' < m.visibleCount hidden := by
  calc m.visibleCount hidden'
      = (m.types.filter fun d => !hidden.contains d.name).countP
          fun d => !hidden'.contains d.name := by
        rw [visibleCount, List.countP_filter]
        refine List.countP_congr fun d _ => ?_
        have hboth : d.name ∉ hidden' → d.name ∉ hidden := fun hnot hmem => hnot (hsub hmem)
        simpa using hboth
    _ < (m.types.filter fun d => !hidden.contains d.name).length := by
        refine List.countP_lt_length_iff.mpr ⟨d, List.mem_filter.mpr ⟨hd, ?_⟩, ?_⟩
        · simpa using hnot
        · simpa using hmem
    _ = m.visibleCount hidden := List.countP_eq_length_filter.symm

/-- A round that hides anything leaves fewer types. -/
theorem visibleCount_lt (h : m.newlyHidden hidden ≠ []) :
    m.visibleCount (hidden ++ m.newlyHidden hidden) < m.visibleCount hidden := by
  obtain ⟨name, hname⟩ := List.exists_mem_of_ne_nil _ h
  obtain ⟨d, hd, hvisible, -, rfl⟩ := mem_newlyHidden.mp hname
  exact visibleCount_lt_of_mem (List.subset_append_left _ _) hd hvisible
    (List.mem_append_right _ hname)

/-- As many rounds as there are types to hide are enough. -/
theorem newlyHidden_hideFor {rounds : Nat} (h : m.visibleCount hidden ≤ rounds) :
    m.newlyHidden (m.hideFor rounds hidden) = [] := by
  induction rounds generalizing hidden with
  | zero =>
    -- a type to hide would make the count smaller than zero
    by_contra hne
    have hlt : m.visibleCount (hidden ++ m.newlyHidden hidden) < m.visibleCount hidden :=
      visibleCount_lt hne
    omega
  | succ rounds ih =>
    rw [hideFor]
    split
    · assumption
    · rename_i hne
      have hlt := visibleCount_lt hne
      exact ih (by omega)

/-! ## The fewest closed types -/

/-- The hidden types are closed. -/
theorem isClosed_hiddenTypes (m : Model) : m.IsClosed m.hiddenTypes where
  inaccessible := m.subset_hideFor _ _
  emptied := by
    have hdone : m.newlyHidden m.hiddenTypes = [] := newlyHidden_hideFor List.countP_le_length
    intro d hd hempty
    -- otherwise one more round would hide the type
    by_contra hvisible
    have hnew : d.name ∈ m.newlyHidden m.hiddenTypes :=
      mem_newlyHidden.mpr ⟨d, hd, hvisible, hempty, rfl⟩
    rw [hdone] at hnew
    exact List.not_mem_nil hnew

/-- Closed types contain the hidden types. -/
theorem IsClosed.hiddenTypes_subset {closed : List String} (h : m.IsClosed closed) :
    m.hiddenTypes ⊆ closed :=
  h.hideFor_subset _ h.inaccessible

end Model

/-! ## The visible part -/

/-- The types that are not hidden, with their accessible parts that refer to no hidden type. -/
def Model.visible (m : Model) : Model :=
  { m with
    types := (m.types.filter fun d => !m.hiddenTypes.contains d.name).map
      (TypeDefinition.restrict .accessible m.hiddenTypes) }

/-- Accessible references are those that are not hidden. -/
theorem stays_accessible (hidden : List String) (directives : List Directive) (type : String) :
    stays Choice.accessible.part hidden directives type =
      !isHiddenReference hidden directives type := by
  rw [stays, isHiddenReference, Bool.not_or]
  rfl

/-- A type without inaccessible elements is accessible as a whole. -/
theorem Body.restrict_accessible {body : Body}
    (h : ∀ directives ∈ body.elements, isHidden directives = false) :
    body.restrict .accessible [] = body :=
  restrict_of_chosen fun directives hmem => by simp [Choice.accessible, h directives hmem]

/-- A type is emptied if it has no accessible part left. -/
theorem Body.hasParts_restrict_iff {hidden : List String} (body : Body) :
    (body.restrict .accessible hidden).HasParts ↔ body.isEmptied hidden = false := by
  have hvalue : ∀ directives : List Directive,
      Choice.accessible.part directives = !isHidden directives := fun _ => rfl
  cases body <;>
    simp [restrict, shownNames, stayingFields, stayingInputs, HasParts, isEmptied,
      stays_accessible, hvalue]

namespace Model

variable {m : Model} {d : TypeDefinition}

theorem mem_types_visible :
    d ∈ m.visible.types ↔
      ∃ e ∈ m.types, e.name ∉ m.hiddenTypes ∧ e.restrict .accessible m.hiddenTypes = d := by
  simp [visible, and_assoc]

/-- The visible part of a supergraph is a part of it. -/
theorem visible_arePartOf (m : Model) : ArePartOf m.visible.types m.types :=
  arePartOf_restrict m.types _ (fun _ => .accessible) m.hiddenTypes

/-- Inaccessible types are hidden. -/
theorem isHidden_of_notMem_hiddenTypes (hd : d ∈ m.types) (hvisible : d.name ∉ m.hiddenTypes) :
    isHidden d.directives = false := by
  by_contra hmarked
  rw [Bool.not_eq_false] at hmarked
  exact hvisible (m.isClosed_hiddenTypes.inaccessible
    (mem_inaccessibleTypes.mpr ⟨d, hd, hmarked, rfl⟩))

/-- Nothing inaccessible is visible. -/
theorem isHidden_of_mem_elements_visible (hd : d ∈ m.visible.types) :
    ∀ directives ∈ d.elements, isHidden directives = false := by
  obtain ⟨e, he, hvisible, rfl⟩ := mem_types_visible.mp hd
  have hchosen : ∀ directives : List Directive,
      (!isHidden directives) = true → isHidden directives = false := by simp
  have htype : isHidden e.directives = false := isHidden_of_notMem_hiddenTypes he hvisible
  refine List.forall_mem_cons.mpr ⟨htype, ?_⟩
  exact Body.forall_mem_elements_restrict hchosen hchosen

/-- Every visible type consists of something visible. -/
theorem hasParts_of_mem_visible (hd : d ∈ m.visible.types) : d.body.HasParts := by
  obtain ⟨e, he, hvisible, rfl⟩ := mem_types_visible.mp hd
  refine e.body.hasParts_restrict_iff.mpr (Bool.eq_false_iff.mpr fun hempty => ?_)
  exact hvisible (m.isClosed_hiddenTypes.emptied e he hempty)

/-- A type that is not hidden is visible. -/
theorem mem_names_visible_of_notMem (hd : d ∈ m.types) (hvisible : d.name ∉ m.hiddenTypes) :
    d.name ∈ m.visible.types.map TypeDefinition.name :=
  List.mem_map.mpr ⟨_, mem_types_visible.mpr ⟨d, hd, hvisible, rfl⟩, rfl⟩

/-- A visible type refers to visible types, as far as they are defined. -/
theorem mem_names_visible_of_mem_references (hd : d ∈ m.visible.types) {name : String}
    (hname : name ∈ d.body.references) (hdefined : name ∈ m.types.map TypeDefinition.name) :
    name ∈ m.visible.types.map TypeDefinition.name := by
  obtain ⟨e, -, -, rfl⟩ := mem_types_visible.mp hd
  obtain ⟨f, hf, rfl⟩ := List.mem_map.mp hdefined
  exact mem_names_visible_of_notMem hf (Body.notMem_of_mem_references_restrict hname)

/-! ## Nothing to hide -/

/-- If nothing is inaccessible, and every type consists of something, no type is hidden. -/
theorem hiddenTypes_eq_nil (h : ∀ d ∈ m.types,
      (∀ directives ∈ d.elements, isHidden directives = false) ∧ d.body.HasParts) :
    m.hiddenTypes = [] := by
  have hclosed : m.IsClosed [] := by
    constructor
    · intro name hname
      obtain ⟨d, hd, hmarked, -⟩ := mem_inaccessibleTypes.mp hname
      rw [(h d hd).1 d.directives List.mem_cons_self] at hmarked
      cases hmarked
    · intro d hd hempty
      obtain ⟨haccessible, hparts⟩ := h d hd
      have hall := Body.restrict_accessible (List.forall_mem_of_forall_mem_cons haccessible)
      rw [← hall, Body.hasParts_restrict_iff, hempty] at hparts
      cases hparts
  exact List.subset_nil.mp hclosed.hiddenTypes_subset

/-- If nothing is inaccessible, and every type consists of something, all of it is visible. -/
theorem types_visible_eq (h : ∀ d ∈ m.types,
      (∀ directives ∈ d.elements, isHidden directives = false) ∧ d.body.HasParts) :
    m.visible.types = m.types := by
  have hshown : m.types.filter (fun d => !([] : List String).contains d.name) = m.types :=
    List.filter_eq_self.mpr fun _ _ => rfl
  rw [visible, hiddenTypes_eq_nil h, hshown]
  refine (List.map_congr_left fun d hd => ?_).trans (List.map_id m.types)
  have hbody := Body.restrict_accessible (List.forall_mem_of_forall_mem_cons (h d hd).1)
  exact congrArg (fun body => { d with body }) hbody

end Model

end Federation.Supergraph
