import Federation.Proofs.Supergraph.Parts
import Federation.Supergraph.TagFilter
import Mathlib.Algebra.Order.BigOperators.Group.List
import Mathlib.Algebra.Order.Group.Nat

/-!
# Tag rules

What a filter keeps of a supergraph depends on tags only: on the tags of an element and, for the
parts of a type, on those of the type. Such a rule marks what it does not keep as inaccessible.
Marks are no tags, and whether a type is emptied by several rules can be told from what all of them
keep. Marking by one rule after another is therefore marking by their intersection, and the laws of
filters are those of `&&`.
-/

namespace Federation.Supergraph

/-! ## Marks -/

namespace TagFilter

theorem tagsOf_hideUnless (kept : Bool) (directives : List Directive) :
    tagsOf (hideUnless kept directives) = tagsOf directives := by
  have hmark : tagsOf [Directive.inaccessible] = [] := by decide
  cases kept with
  | true => rfl
  | false =>
    simp only [hideUnless, hide, Bool.false_eq_true, if_false]
    split
    · rfl
    · rw [tagsOf, List.filterMap_append, ← tagsOf, ← tagsOf, hmark, List.append_nil]

theorem isHidden_hideUnless (kept : Bool) (directives : List Directive) :
    isHidden (hideUnless kept directives) = (isHidden directives || !kept) := by
  cases kept with
  | true => rw [Bool.not_true, Bool.or_false]; rfl
  | false => rw [Bool.not_false, Bool.or_true]; exact isHidden_hide directives

theorem hideUnless_hideUnless (kept kept' : Bool) (directives : List Directive) :
    hideUnless kept' (hideUnless kept directives) = hideUnless (kept && kept') directives := by
  cases kept with
  | true => rfl
  | false =>
    cases kept' with
    | true => rfl
    | false => exact hide_hide directives

/-- What is hidden anyway is not marked again. -/
theorem hideUnless_not_isHidden_and (kept : Bool) (directives : List Directive) :
    hideUnless (!isHidden directives && kept) directives = hideUnless kept directives := by
  cases hhidden : isHidden directives with
  | false => rfl
  | true =>
    have hhide : hide directives = directives := if_pos hhidden
    cases kept with
    | true => exact hhide
    | false => rfl

/-- What is not hidden has not been marked. -/
theorem hideUnless_eq_self {kept : Bool} {directives : List Directive}
    (h : isHidden (hideUnless kept directives) = false) :
    hideUnless kept directives = directives := by
  rw [isHidden_hideUnless, Bool.or_eq_false_iff, Bool.not_eq_false'] at h
  rw [h.2]
  rfl

end TagFilter

/-! ## Rules -/

/-- What is kept of a supergraph, told by tags. -/
structure TagRule where
  /-- A type with some tags is kept, unless nothing of it is. -/
  type : List String → Bool
  /-- A field or value with some tags is kept, in a type with some tags. -/
  part : List String → List String → Bool
  /-- An argument with some tags is kept. -/
  argument : List String → Bool

/-- Unions and scalars do not depend on their parts. -/
def Body.needsParts : Body → Bool
  | .object _ _ | .interface _ _ | .enum _ | .inputObject _ => true
  | .union _ | .scalar => false

theorem Body.needsParts_mapDirectives (part argument : List Directive → List Directive)
    (body : Body) : (body.mapDirectives part argument).needsParts = body.needsParts := by
  cases body <;> rfl

namespace TagRule

open TagFilter (hideUnless tagsOf_hideUnless isHidden_hideUnless hideUnless_hideUnless
  totalHidden inaccessibleLink)

/-- What two rules both keep. -/
def inter (r s : TagRule) : TagRule where
  type tags := r.type tags && s.type tags
  part typeTags tags := r.part typeTags tags && s.part typeTags tags
  argument tags := r.argument tags && s.argument tags

theorem inter_comm (r s : TagRule) : r.inter s = s.inter r := by
  simp only [inter, Bool.and_comm]

theorem inter_self (r : TagRule) : r.inter r = r := by
  simp only [inter, Bool.and_self]

/-- Marks a field or value that is not kept. -/
def markPart (r : TagRule) (typeTags : List String) (directives : List Directive) :
    List Directive :=
  hideUnless (r.part typeTags (tagsOf directives)) directives

/-- Marks an argument that is not kept. -/
def markArgument (r : TagRule) (directives : List Directive) : List Directive :=
  hideUnless (r.argument (tagsOf directives)) directives

/-- No part of a type is kept that is accessible. -/
def empties (r : TagRule) (typeTags : List String) (body : Body) : Bool :=
  body.needsParts &&
    body.parts.all fun directives => isHidden directives || !r.part typeTags (tagsOf directives)

/-- Marks what is not kept of a type. -/
def markType (r : TagRule) (d : TypeDefinition) : TypeDefinition :=
  { d with
    directives :=
      hideUnless
        (r.type (tagsOf d.directives) && !r.empties (tagsOf d.directives) d.body) d.directives
    body := d.body.mapDirectives (r.markPart (tagsOf d.directives)) r.markArgument }

/-- Adds the link of the specification of inaccessible elements if it is needed and missing. -/
def linkIfNeeded (needed : Bool) (links : List Link) : List Link :=
  if needed && !(links.any fun l => l.url == inaccessibleLink.url) then links ++ [inaccessibleLink]
  else links

/-- Marks what is not kept of a supergraph. -/
def mark (r : TagRule) (m : Model) : Model :=
  { m with
    types := m.types.map r.markType
    links := linkIfNeeded (totalHidden m.types < totalHidden (m.types.map r.markType)) m.links }

theorem empties_iff {r : TagRule} {typeTags : List String} {body : Body} :
    r.empties typeTags body = true ↔
      body.needsParts = true ∧ ∀ directives ∈ body.parts,
        isHidden directives = true ∨ r.part typeTags (tagsOf directives) = false := by
  simp only [empties, Bool.and_eq_true, List.all_eq_true, Bool.or_eq_true, Bool.not_eq_true']

/-- A marked type is inaccessible if it was so before, or if it is not kept, or if nothing of it is.
-/
theorem isHidden_markType_iff {r : TagRule} {d : TypeDefinition} :
    isHidden (r.markType d).directives = true ↔
      isHidden d.directives = true ∨ r.type (tagsOf d.directives) = false ∨
        r.empties (tagsOf d.directives) d.body = true := by
  simp only [markType, isHidden_hideUnless, Bool.not_and, Bool.not_not, Bool.or_eq_true,
    Bool.not_eq_true']

/-! ## One rule after another -/

variable (r s : TagRule)

theorem markPart_markPart (typeTags : List String) (directives : List Directive) :
    s.markPart typeTags (r.markPart typeTags directives) =
      (r.inter s).markPart typeTags directives := by
  simp only [markPart, tagsOf_hideUnless, hideUnless_hideUnless]
  rfl

theorem markArgument_markArgument (directives : List Directive) :
    s.markArgument (r.markArgument directives) = (r.inter s).markArgument directives := by
  simp only [markArgument, tagsOf_hideUnless, hideUnless_hideUnless]
  rfl

/-- A type of marked parts is emptied if no part is kept by both rules. -/
theorem empties_mapDirectives (typeTags : List String) (body : Body) :
    s.empties typeTags (body.mapDirectives (r.markPart typeTags) r.markArgument) =
      (r.inter s).empties typeTags body := by
  rw [empties, empties, Body.needsParts_mapDirectives, Body.parts_mapDirectives, List.all_map]
  simp only [Function.comp_def, markPart, isHidden_hideUnless, tagsOf_hideUnless, inter,
    Bool.or_assoc, Bool.not_and]

/-- What one rule empties, both rules empty. -/
theorem empties_inter {typeTags : List String} {body : Body}
    (h : r.empties typeTags body = true) : (r.inter s).empties typeTags body = true := by
  rw [empties_iff] at h ⊢
  refine ⟨h.1, ?_⟩
  intro directives hmem
  rcases h.2 directives hmem with hhidden | hpart
  · exact .inl hhidden
  · exact .inr (Bool.and_eq_false_iff.mpr (.inl hpart))

/-- A type that is marked by two rules is marked by their intersection. -/
theorem markType_markType (d : TypeDefinition) :
    s.markType (r.markType d) = (r.inter s).markType d := by
  simp only [markType, tagsOf_hideUnless, hideUnless_hideUnless, Body.mapDirectives_mapDirectives,
    markPart_markPart, markArgument_markArgument, empties_mapDirectives]
  congr 2
  -- a type that the first rule empties is emptied by both, and was marked by the first
  cases hempty : r.empties (tagsOf d.directives) d.body with
  | false => simp [inter, Bool.and_assoc]
  | true => simp [r.empties_inter s hempty]

/-! ### Links -/

/-- If elements become inaccessible but none becomes accessible, as many are counted or more. -/
theorem countP_isHidden_le {elements marked : List (List Directive)}
    (h : List.Forall₂ (fun a b => isHidden a = true → isHidden b = true) elements marked) :
    elements.countP isHidden ≤ marked.countP isHidden := by
  induction h with
  | nil => exact Nat.le_refl 0
  | @cons a b _ _ hab _ ih =>
    rw [List.countP_cons, List.countP_cons]
    cases ha : isHidden a with
    | false => simpa using Nat.le_add_right_of_le ih
    | true => simpa [hab ha] using ih

theorem hiddenCount_eq (d : TypeDefinition) :
    TagFilter.hiddenCount d = d.elements.countP isHidden := by
  obtain ⟨name, description, directives, body⟩ := d
  rw [TypeDefinition.elements, ← List.singleton_append, List.countP_append]
  cases body <;> rfl

/-- Marking a type makes nothing accessible. -/
theorem hiddenCount_le_markType (d : TypeDefinition) :
    TagFilter.hiddenCount d ≤ TagFilter.hiddenCount (r.markType d) := by
  have hmark : ∀ (kept : Bool) (directives : List Directive),
      isHidden directives = true → isHidden (hideUnless kept directives) = true := by
    intro kept directives hhidden
    rw [isHidden_hideUnless, hhidden, Bool.true_or]
  rw [hiddenCount_eq, hiddenCount_eq]
  refine countP_isHidden_le (.cons (hmark _ _) ?_)
  exact d.body.forall₂_elements_mapDirectives (fun _ => hmark _ _) fun _ => hmark _ _

theorem totalHidden_le_markType (types : List TypeDefinition) :
    totalHidden types ≤ totalHidden (types.map r.markType) := by
  have hsum : ∀ types : List TypeDefinition,
      totalHidden types = (types.map TagFilter.hiddenCount).sum := by
    intro types
    rw [List.sum_eq_foldl, List.foldl_map]
    rfl
  rw [hsum, hsum, List.map_map]
  exact List.sum_le_sum fun d _ => r.hiddenCount_le_markType d

/-- A link that is added is not missing any more. -/
theorem linkIfNeeded_linkIfNeeded (needed needed' : Bool) (links : List Link) :
    linkIfNeeded needed' (linkIfNeeded needed links) = linkIfNeeded (needed || needed') links := by
  unfold linkIfNeeded
  cases needed <;> cases hlinked : links.any fun l => l.url == inaccessibleLink.url <;>
    simp [hlinked]

/-- **Rules act by their intersection.** A supergraph that is marked by one rule after another is
marked by what both keep. -/
theorem mark_mark (m : Model) : s.mark (r.mark m) = (r.inter s).mark m := by
  have htypes : (m.types.map r.markType).map s.markType = m.types.map (r.inter s).markType := by
    rw [List.map_map]
    exact List.map_congr_left fun d _ => r.markType_markType s d
  have hfirst := r.totalHidden_le_markType m.types
  have hsecond := s.totalHidden_le_markType (m.types.map r.markType)
  rw [htypes] at hsecond
  unfold mark
  simp only [htypes, linkIfNeeded_linkIfNeeded, ← Bool.decide_or]
  congr 2
  exact decide_eq_decide.mpr (by omega)

end TagRule

/-! ## Filters -/

namespace TagFilter

/-- The rule that a filter follows. -/
def rule (f : TagFilter) : TagRule where
  type tags := !tags.any f.excluded.contains
  part typeTags tags :=
    !tags.any f.excluded.contains &&
      (f.included.isEmpty || typeTags.any f.included.contains || tags.any f.included.contains)
  argument tags := !tags.any f.excluded.contains

variable {f : TagFilter} {typeTags tags : List String}

theorem rule_type_iff : f.rule.type tags = true ↔ ∀ tag ∈ tags, tag ∉ f.excluded := by
  simp [rule]

theorem rule_argument_iff : f.rule.argument tags = true ↔ ∀ tag ∈ tags, tag ∉ f.excluded :=
  rule_type_iff

/-- A part of a type is kept if none of its tags is excluded and, unless no tag is included, it has
an included tag or its type has one. -/
theorem rule_part_iff :
    f.rule.part typeTags tags = true ↔ (∀ tag ∈ tags, tag ∉ f.excluded) ∧
      (f.included = [] ∨ (∃ tag ∈ typeTags, tag ∈ f.included) ∨
        ∃ tag ∈ tags, tag ∈ f.included) := by
  simp [rule, or_assoc]

/-! ### Filters follow rules -/

theorem keeps_eq (f : TagFilter) (typeTags : List String) (directives : List Directive) :
    f.keeps (typeTags.any f.included.contains) directives =
      (!isHidden directives && f.rule.part typeTags (tagsOf directives)) :=
  Bool.and_assoc _ _ _

theorem hideUnless_keeps (f : TagFilter) (typeTags : List String) (directives : List Directive) :
    hideUnless (f.keeps (typeTags.any f.included.contains) directives) directives =
      f.rule.markPart typeTags directives := by
  rw [keeps_eq, hideUnless_not_isHidden_and]
  rfl

theorem applyToBody_eq (f : TagFilter) (typeTags : List String) (body : Body) :
    f.applyToBody (typeTags.any f.included.contains) body =
      body.mapDirectives (f.rule.markPart typeTags) f.rule.markArgument := by
  have hfield : ∀ field : Field,
      f.applyToField (typeTags.any f.included.contains) field =
        field.mapDirectives (f.rule.markPart typeTags) f.rule.markArgument := fun field => by
    rw [applyToField, hideUnless_keeps]
    rfl
  have hinput : ∀ i : Input,
      f.applyToInput (typeTags.any f.included.contains) i =
        i.mapDirectives (f.rule.markPart typeTags) := fun i => by
    rw [applyToInput, hideUnless_keeps]
    rfl
  have hvalue : ∀ v : EnumValue,
      f.applyToValue (typeTags.any f.included.contains) v =
        v.mapDirectives (f.rule.markPart typeTags) := fun v => by
    rw [applyToValue, hideUnless_keeps]
    rfl
  cases body with
  | object interfaces fields =>
    exact congrArg (Body.object interfaces) (List.map_congr_left fun field _ => hfield field)
  | interface interfaces fields =>
    exact congrArg (Body.interface interfaces) (List.map_congr_left fun field _ => hfield field)
  | inputObject fields =>
    exact congrArg Body.inputObject (List.map_congr_left fun i _ => hinput i)
  | enum values => exact congrArg Body.enum (List.map_congr_left fun v _ => hvalue v)
  | union members | scalar => rfl

theorem empties_eq (f : TagFilter) (typeTags : List String) (body : Body) :
    f.empties (typeTags.any f.included.contains) body = f.rule.empties typeTags body := by
  cases body <;>
    simp [empties, TagRule.empties, Body.needsParts, Body.parts, keeps_eq, Function.comp_def]

/-- A filter marks each type by its rule. -/
theorem applyToType_eq (f : TagFilter) : f.applyToType = f.rule.markType := by
  funext d
  have hincludes : f.includes d.directives = (tagsOf d.directives).any f.included.contains := rfl
  unfold applyToType TagRule.markType
  simp only [hincludes, applyToBody_eq, empties_eq]
  rfl

/-- A filter marks a supergraph by its rule. -/
theorem apply_eq (f : TagFilter) (m : Model) : f.apply m = f.rule.mark m := by
  unfold apply hidesMore applyToTypes
  rw [applyToType_eq]
  rfl

/-- A filter that excludes the tags of two filters keeps what both keep. -/
theorem rule_excluded_append (a b : List String) :
    ({ excluded := a } : TagFilter).rule.inter ({ excluded := b } : TagFilter).rule =
      ({ excluded := a ++ b } : TagFilter).rule := by
  have hexcludes : ∀ tags : List String,
      (!tags.any a.contains && !tags.any b.contains) = !tags.any (a ++ b).contains := by
    intro tags
    rw [Bool.eq_iff_iff]
    simp [not_or, forall_and]
  simp [TagRule.inter, rule, hexcludes]

/-- **Filters are commuting projections.** A filter that is applied again changes nothing, two
filters can be applied in either order, and two filters that only exclude tags are one filter that
excludes the tags of both. -/
theorem filters_are_commuting_projections (f g : TagFilter) (m : Model) :
    f.apply (f.apply m) = f.apply m ∧ g.apply (f.apply m) = f.apply (g.apply m) ∧
      ∀ a b : List String, ({ excluded := b } : TagFilter).apply
          (({ excluded := a } : TagFilter).apply m) =
        ({ excluded := a ++ b } : TagFilter).apply m := by
  simp only [apply_eq, TagRule.mark_mark]
  refine ⟨?_, ?_, ?_⟩
  · rw [TagRule.inter_self]
  · rw [TagRule.inter_comm]
  · intro a b
    rw [rule_excluded_append]

end TagFilter

end Federation.Supergraph
