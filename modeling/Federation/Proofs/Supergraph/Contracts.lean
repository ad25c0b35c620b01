import Federation.Proofs.Supergraph.PublicText
import Federation.Proofs.Supergraph.TagRules

/-!
# What contracts show

A contract is the API schema of a marked supergraph, and of that the visible part. Marks do not
show: what is visible of a marked type is what stays of the type itself, chosen by the rule. A
stricter rule marks more, so the types that are hidden for it are closed for the other rule as well.
Since the hidden types are the fewest closed ones, a stricter rule hides at least as many types, and
of the others it shows a part.
-/

namespace Federation.Supergraph

namespace TagRule

/-! ## The visible part of a marked supergraph -/

/-- What is kept of a type with some tags, as far as it is accessible. -/
def choice (r : TagRule) (typeTags : List String) : Choice where
  part directives := !isHidden directives && r.part typeTags (tagsOf directives)
  argument directives := !isHidden directives && r.argument (tagsOf directives)

theorem comap_mark (r : TagRule) (typeTags : List String) :
    Choice.accessible.comap (r.markPart typeTags) r.markArgument = r.choice typeTags := by
  simp only [Choice.comap, Choice.accessible, choice, markPart, markArgument,
    TagFilter.isHidden_hideUnless, Bool.not_or, Bool.not_not]

/-- What is accessible of a marked type is kept and accessible of the type, and is not marked. -/
theorem restrict_markBody (r : TagRule) (typeTags hidden : List String) (body : Body) :
    (body.mapDirectives (r.markPart typeTags) r.markArgument).restrict .accessible hidden =
      body.restrict (r.choice typeTags) hidden := by
  rw [Body.restrict_mapDirectives, comap_mark]
  refine Body.mapDirectives_restrict (fun directives h => ?_) (fun directives h => ?_) hidden body
  · rw [markPart, (Bool.and_eq_true_iff.mp h).2]
    rfl
  · rw [markArgument, (Bool.and_eq_true_iff.mp h).2]
    rfl

variable {r s : TagRule} {m : Model} {d : TypeDefinition}

/-- A type that is visible after marking has been kept. -/
theorem kept_of_notMem_hiddenTypes (hd : d ∈ m.types) (h : d.name ∉ (r.mark m).hiddenTypes) :
    (r.markType d).directives = d.directives ∧ r.type (tagsOf d.directives) = true := by
  have hmarked : r.markType d ∈ (r.mark m).types := List.mem_map_of_mem hd
  have haccessible := Model.isHidden_of_notMem_hiddenTypes hmarked h
  refine ⟨TagFilter.hideUnless_eq_self haccessible, ?_⟩
  by_contra hnot
  have hhidden : isHidden (r.markType d).directives = true :=
    isHidden_markType_iff.mpr (.inr (.inl (Bool.eq_false_iff.mpr hnot)))
  exact Bool.false_ne_true (haccessible.symm.trans hhidden)

/-- **Marks do not show.** The visible part of a marked supergraph consists of what the rule keeps
of its types. -/
theorem types_visible_mark (r : TagRule) (m : Model) :
    (r.mark m).visible.types =
      (m.types.filter fun d => !(r.mark m).hiddenTypes.contains d.name).map fun d =>
        d.restrict (r.choice (tagsOf d.directives)) (r.mark m).hiddenTypes := by
  have htypes : (r.mark m).types = m.types.map r.markType := rfl
  rw [Model.visible, htypes, List.filter_map, List.map_map]
  refine List.map_congr_left fun d hd => ?_
  obtain ⟨hmem, hvisible⟩ := List.mem_filter.mp hd
  -- the type itself has not been marked either, as it would be hidden
  have hname : (r.markType d).name ∉ (r.mark m).hiddenTypes := by simpa using hvisible
  have hkept := kept_of_notMem_hiddenTypes hmem hname
  have hbody := r.restrict_markBody (tagsOf d.directives) (r.mark m).hiddenTypes d.body
  exact congrArg₂ (fun directives body => { d with directives, body }) hkept.1 hbody

theorem mem_types_visible_mark :
    d ∈ (r.mark m).visible.types ↔
      ∃ e ∈ m.types, e.name ∉ (r.mark m).hiddenTypes ∧
        e.restrict (r.choice (tagsOf e.directives)) (r.mark m).hiddenTypes = d := by
  simp [types_visible_mark, and_assoc]

/-! ## Stricter rules -/

/-- What one rule keeps the other rule keeps. -/
structure IsNarrower (r s : TagRule) : Prop where
  type : ∀ tags, r.type tags = true → s.type tags = true
  part : ∀ typeTags tags, r.part typeTags tags = true → s.part typeTags tags = true
  argument : ∀ tags, r.argument tags = true → s.argument tags = true

theorem IsNarrower.choice (h : r.IsNarrower s) (typeTags : List String) :
    (r.choice typeTags).IsNarrower (s.choice typeTags) where
  part directives hpart := by
    obtain ⟨haccessible, hkept⟩ := Bool.and_eq_true_iff.mp hpart
    exact Bool.and_eq_true_iff.mpr ⟨haccessible, h.part _ _ hkept⟩
  argument directives hargument := by
    obtain ⟨haccessible, hkept⟩ := Bool.and_eq_true_iff.mp hargument
    exact Bool.and_eq_true_iff.mpr ⟨haccessible, h.argument _ hkept⟩

/-- What a rule empties, a narrower rule empties. -/
theorem IsNarrower.empties (h : r.IsNarrower s) {typeTags : List String} {body : Body}
    (hempty : s.empties typeTags body = true) : r.empties typeTags body = true := by
  rw [empties_iff] at hempty ⊢
  refine ⟨hempty.1, ?_⟩
  intro directives hmem
  rcases hempty.2 directives hmem with hhidden | hnot
  · exact .inl hhidden
  · rw [Bool.eq_false_iff] at hnot
    exact .inr (Bool.eq_false_iff.mpr fun hkept => hnot (h.part _ _ hkept))

/-- A type that a rule makes inaccessible is inaccessible by a narrower rule. -/
theorem IsNarrower.isHidden_markType (h : r.IsNarrower s) (d : TypeDefinition)
    (hhidden : isHidden (s.markType d).directives = true) :
    isHidden (r.markType d).directives = true := by
  rw [isHidden_markType_iff] at hhidden ⊢
  rcases hhidden with hhidden | hnot | hempty
  · exact .inl hhidden
  · rw [Bool.eq_false_iff] at hnot
    exact .inr (.inl (Bool.eq_false_iff.mpr fun hkept => hnot (h.type _ hkept)))
  · exact .inr (.inr (h.empties hempty))

/-- A type that is emptied after marking by a rule is emptied after marking by a narrower rule. -/
theorem IsNarrower.isEmptied_markBody (h : r.IsNarrower s) {typeTags hidden : List String}
    {body : Body}
    (hempty : (body.mapDirectives (s.markPart typeTags) s.markArgument).isEmptied hidden = true) :
    (body.mapDirectives (r.markPart typeTags) r.markArgument).isEmptied hidden = true := by
  -- what stays by the narrower rule is a part of what stays by the other, so neither is empty
  by_contra hnot
  rw [Bool.not_eq_true, ← Body.hasParts_restrict_iff, restrict_markBody] at hnot
  have hpart := body.restrict_isPartOf (h.choice typeTags) (List.Subset.refl hidden)
  have hparts := hpart.hasParts hnot
  rw [← restrict_markBody, Body.hasParts_restrict_iff, hempty] at hparts
  exact absurd hparts.symm Bool.false_ne_true

/-- **A narrower rule hides more types.** The types that it hides are closed for the other rule. -/
theorem IsNarrower.hiddenTypes_subset (h : r.IsNarrower s) (m : Model) :
    (s.mark m).hiddenTypes ⊆ (r.mark m).hiddenTypes := by
  have hclosed := (r.mark m).isClosed_hiddenTypes
  have hclosed' : (s.mark m).IsClosed (r.mark m).hiddenTypes := by
    constructor
    · intro name hname
      obtain ⟨e, he, hmarked, rfl⟩ := Model.mem_inaccessibleTypes.mp hname
      obtain ⟨d, hd, rfl⟩ := List.mem_map.mp he
      exact hclosed.inaccessible (Model.mem_inaccessibleTypes.mpr
        ⟨r.markType d, List.mem_map_of_mem hd, h.isHidden_markType d hmarked, rfl⟩)
    · intro e he hempty
      obtain ⟨d, hd, rfl⟩ := List.mem_map.mp he
      exact hclosed.emptied (r.markType d) (List.mem_map_of_mem hd) (h.isEmptied_markBody hempty)
  exact hclosed'.hiddenTypes_subset

/-- **A narrower rule shows less.** -/
theorem IsNarrower.arePartOf (h : r.IsNarrower s) (m : Model) :
    ArePartOf (r.mark m).visible.types (s.mark m).visible.types := by
  have hhidden := h.hiddenTypes_subset m
  rw [types_visible_mark, types_visible_mark]
  refine sublistForall₂_map_filter (fun d hd => ?_) fun d => ?_
  · rw [Bool.not_eq_true', List.contains_eq_mem, decide_eq_false_iff_not] at hd ⊢
    exact fun hmem => hd (hhidden hmem)
  · exact d.restrict_isPartOf (h.choice _) hhidden

end TagRule

/-! ## Filters -/

namespace TagFilter

/-- A filter that excludes more tags, and that includes fewer tags or starts to include some only.
-/
structure IsStricterThan (f g : TagFilter) : Prop where
  excluded : g.excluded ⊆ f.excluded
  included : g.included = [] ∨ f.included ≠ [] ∧ f.included ⊆ g.included

theorem IsStricterThan.isNarrower_rule {f g : TagFilter} (h : f.IsStricterThan g) :
    f.rule.IsNarrower g.rule := by
  have hexcluded : ∀ tags : List String, (∀ tag ∈ tags, tag ∉ f.excluded) →
      ∀ tag ∈ tags, tag ∉ g.excluded :=
    fun tags hkept tag htag hmem => hkept tag htag (h.excluded hmem)
  have htype : ∀ tags, f.rule.type tags = true → g.rule.type tags = true := by
    intro tags hkept
    exact rule_type_iff.mpr (hexcluded tags (rule_type_iff.mp hkept))
  refine ⟨htype, ?_, htype⟩
  intro typeTags tags hpart
  obtain ⟨hkept, hincluded⟩ := rule_part_iff.mp hpart
  refine rule_part_iff.mpr ⟨hexcluded tags hkept, ?_⟩
  rcases h.included with hnone | ⟨hsome, hsub⟩
  · exact .inl hnone
  · rcases hincluded with hnone | ⟨tag, htag, hmem⟩ | ⟨tag, htag, hmem⟩
    · exact absurd hnone hsome
    · exact .inr (.inl ⟨tag, htag, hsub hmem⟩)
    · exact .inr (.inr ⟨tag, htag, hsub hmem⟩)

/-- What is visible of a contract carries no excluded tag. -/
theorem notMem_excluded_of_mem_visible {f : TagFilter} {m : Model} {d : TypeDefinition}
    (hd : d ∈ (f.apply m).visible.types) :
    ∀ directives ∈ d.elements, ∀ tag ∈ tagsOf directives, tag ∉ f.excluded := by
  rw [apply_eq] at hd
  obtain ⟨e, he, hvisible, rfl⟩ := TagRule.mem_types_visible_mark.mp hd
  obtain ⟨-, htype⟩ := TagRule.kept_of_notMem_hiddenTypes he hvisible
  refine List.forall_mem_cons.mpr ⟨rule_type_iff.mp htype, ?_⟩
  apply Body.forall_mem_elements_restrict
  · intro directives hpart
    exact (rule_part_iff.mp (Bool.and_eq_true_iff.mp hpart).2).1
  · intro directives hargument
    exact rule_argument_iff.mp (Bool.and_eq_true_iff.mp hargument).2

/-- If tags are included, a visible part of a contract carries one of them, or its type does. -/
theorem included_of_mem_visible {f : TagFilter} {m : Model} {d : TypeDefinition}
    (hd : d ∈ (f.apply m).visible.types) (hsome : f.included ≠ []) :
    (∃ tag ∈ tagsOf d.directives, tag ∈ f.included) ∨
      ∀ directives ∈ d.body.parts, ∃ tag ∈ tagsOf directives, tag ∈ f.included := by
  rw [apply_eq] at hd
  obtain ⟨e, -, -, rfl⟩ := TagRule.mem_types_visible_mark.mp hd
  rw [or_iff_not_imp_left]
  intro htype directives hmem
  have hpart := Body.part_of_mem_parts_restrict hmem
  obtain ⟨-, hincluded⟩ := rule_part_iff.mp (Bool.and_eq_true_iff.mp hpart).2
  exact (hincluded.resolve_left hsome).resolve_left htype

/-- **Contracts do not leak.** The API schema of a contract is the visible part of the marked
supergraph, which is a part of the supergraph. Nothing in it carries an excluded tag, and if tags
are included, every field and value in it carries one of them or belongs to a type that does. The
contract of a stricter filter shows a part of it. -/
theorem contracts_do_not_leak (f : TagFilter) (m : Model) :
    f.contractText m = fullText ((f.apply m).visible.types.map TypeDefinition.bare) ∧
      ArePartOf (f.apply m).visible.types m.types ∧
      (∀ d ∈ (f.apply m).visible.types,
        (∀ directives ∈ d.elements, ∀ tag ∈ tagsOf directives, tag ∉ f.excluded) ∧
          (f.included ≠ [] → (∃ tag ∈ tagsOf d.directives, tag ∈ f.included) ∨
            ∀ directives ∈ d.body.parts, ∃ tag ∈ tagsOf directives, tag ∈ f.included)) ∧
      ∀ g : TagFilter, g.IsStricterThan f →
        ArePartOf (g.apply m).visible.types (f.apply m).visible.types := by
  refine ⟨(f.apply m).publicText_eq, ?_, ?_, ?_⟩
  · rw [apply_eq, TagRule.types_visible_mark]
    exact arePartOf_restrict _ _ (fun d => f.rule.choice (tagsOf d.directives)) _
  · intro d hd
    exact ⟨notMem_excluded_of_mem_visible hd, included_of_mem_visible hd⟩
  · intro g hg
    rw [apply_eq, apply_eq]
    exact hg.isNarrower_rule.arePartOf m

end TagFilter

/-- A tag with its name. -/
def Directive.tagged (name : String) : Directive where
  name := "tag"
  arguments := [("name", .string name)]

/-- A market with some public and some private parts. -/
def Model.market : Model where
  links := []
  graphs := []
  roots := { query := some "Query" }
  types :=
    [.objectOf "Query" []
        [.plain "products" "[Product!]!" [.tagged "public"], .plain "audits" "[Audit!]!" []],
      .objectOf "Product" [.tagged "public"]
        [.plain "id" "ID!" [], .plain "cost" "Int" [.tagged "private"]],
      .objectOf "Audit" [] [.plain "id" "ID!" []]]

/-- The contract that shows the public parts, and of these not the private ones. -/
def TagFilter.storefront : TagFilter where
  included := ["public"]
  excluded := ["private"]

/-- The storefront of the market shows less than the market without its private parts. -/
theorem TagFilter.contracts_do_not_leak_of_market :
    ((storefront.apply .market).visible.types.map fun d =>
        (d.name, d.body.fields.map Field.name)) = [("Query", ["products"]), ("Product", ["id"])] ∧
      (∀ d ∈ (storefront.apply .market).visible.types,
        (∃ tag ∈ tagsOf d.directives, tag ∈ ["public"]) ∨
          ∀ directives ∈ d.body.parts, ∃ tag ∈ tagsOf directives, tag ∈ ["public"]) ∧
      ArePartOf (storefront.apply .market).visible.types
        (({ excluded := ["private"] } : TagFilter).apply .market).visible.types := by
  have hstricter : storefront.IsStricterThan { excluded := ["private"] } :=
    ⟨List.Subset.refl _, .inl rfl⟩
  refine ⟨by decide, fun d hd => ?_, ?_⟩
  · exact ((contracts_do_not_leak storefront .market).2.2.1 d hd).2 (by decide)
  · exact (contracts_do_not_leak { excluded := ["private"] } .market).2.2.2 storefront hstricter

end Federation.Supergraph
