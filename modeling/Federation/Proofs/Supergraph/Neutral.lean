import Federation.Proofs.Supergraph.Contracts

/-!
# Neutral filters

A filter marks what it does not keep, and it marks every type none of whose parts it keeps. So even
a filter whose tags do not occur changes a supergraph: it marks the types all parts of which are
inaccessible. Such a type is hidden anyway. A mark only shows if something visible is not kept, and
a filter that keeps all that is visible leaves the API schema as it is: the hidden types of the
supergraph are closed for the marked one, and the other way round.
-/

namespace Federation.Supergraph

/-! ## Choices that agree -/

/-- The directives of each argument of a field of the type. -/
def Body.arguments : Body → List (List Directive)
  | .object _ fields | .interface _ fields =>
    fields.flatMap fun f => f.arguments.map Input.directives
  | .union _ | .enum _ | .scalar | .inputObject _ => []

/-- A type consists of its parts and of their arguments. -/
theorem Body.mem_elements_iff {body : Body} {directives : List Directive} :
    directives ∈ body.elements ↔ directives ∈ body.parts ∨ directives ∈ body.arguments := by
  cases body with
  | object interfaces fields | interface interfaces fields =>
    simp only [elements, parts, arguments, List.mem_flatMap, List.mem_cons, List.mem_map]
    constructor
    · rintro ⟨f, hf, rfl | h⟩
      · exact .inl ⟨f, hf, rfl⟩
      · exact .inr ⟨f, hf, h⟩
    · rintro (⟨f, hf, rfl⟩ | ⟨f, hf, h⟩)
      · exact ⟨f, hf, .inl rfl⟩
      · exact ⟨f, hf, .inr h⟩
  | union members | enum values | scalar | inputObject fields =>
    simp [elements, parts, arguments]

/-- A type that depends on its parts is emptied if all of them are inaccessible. -/
theorem Body.isEmptied_of_isHidden {body : Body} (hneeds : body.needsParts = true)
    (h : ∀ directives ∈ body.parts, isHidden directives = true) (hidden : List String) :
    body.isEmptied hidden = true := by
  have href : ∀ {directives : List Directive}, directives ∈ body.parts → ∀ type : String,
      isHiddenReference hidden directives type = true := by
    intro directives hmem type
    rw [isHiddenReference, h directives hmem, Bool.true_or]
  cases body with
  | object interfaces fields | interface interfaces fields | inputObject fields =>
    exact List.all_eq_true.mpr fun f hf => href (List.mem_map_of_mem hf) f.type
  | enum values => exact List.all_eq_true.mpr fun v hv => h _ (List.mem_map_of_mem hv)
  | union members | scalar => exact absurd hneeds Bool.false_ne_true

section Agreement

variable {c c' : Choice} {hidden hidden' : List String} {body : Body}

/-- Arguments stay only if they are chosen. -/
theorem Body.argument_of_mem_arguments_restrict {directives : List Directive}
    (h : directives ∈ (body.restrict c hidden).arguments) : c.argument directives = true := by
  cases body with
  | object interfaces fields | interface interfaces fields =>
    obtain ⟨f, hf, h⟩ := List.mem_flatMap.mp h
    obtain ⟨g, -, -, rfl⟩ := mem_stayingFields.mp hf
    obtain ⟨i, hi, rfl⟩ := List.mem_map.mp h
    exact (mem_stayingInputs.mp hi).2.1
  | union members | enum values | scalar | inputObject fields =>
    exact absurd h List.not_mem_nil

/-- The parts that stay are parts of the type. -/
theorem Body.parts_restrict_subset : (body.restrict c hidden).parts ⊆ body.parts := by
  intro directives h
  cases body with
  | object interfaces fields | interface interfaces fields =>
    obtain ⟨f, hf, rfl⟩ := List.mem_map.mp h
    obtain ⟨g, hg, -, rfl⟩ := mem_stayingFields.mp hf
    exact List.mem_map.mpr ⟨g, hg, rfl⟩
  | union members | scalar => exact h
  | enum values => exact List.map_subset _ List.filter_sublist.subset h
  | inputObject fields => exact List.map_subset _ List.filter_sublist.subset h

/-- The arguments that stay are arguments of the type. -/
theorem Body.arguments_restrict_subset : (body.restrict c hidden).arguments ⊆ body.arguments := by
  intro directives h
  cases body with
  | object interfaces fields | interface interfaces fields =>
    obtain ⟨f, hf, h⟩ := List.mem_flatMap.mp h
    obtain ⟨g, hg, -, rfl⟩ := mem_stayingFields.mp hf
    refine List.mem_flatMap.mpr ⟨g, hg, ?_⟩
    exact List.map_subset _ List.filter_sublist.subset h
  | union members | enum values | scalar | inputObject fields => exact h

/-- A narrower choice that has all that stays by the other one leaves the same inputs. -/
theorem stayingInputs_eq_of_chosen {chosen chosen' : List Directive → Bool}
    (hnarrow : ∀ directives, chosen' directives = true → chosen directives = true)
    {inputs : List Input}
    (h : ∀ i ∈ stayingInputs chosen hidden inputs, chosen' i.directives = true) :
    stayingInputs chosen' hidden inputs = stayingInputs chosen hidden inputs := by
  refine List.filter_congr fun i hi => Bool.eq_iff_iff.mpr ?_
  constructor
  · exact stays_mono hnarrow (List.Subset.refl hidden)
  · intro hstays
    have hchosen := h i (List.mem_filter.mpr ⟨hi, hstays⟩)
    exact stays_iff.mpr ⟨hchosen, (stays_iff.mp hstays).2⟩

/-- A narrower choice that has all that stays by the other one leaves the same fields. -/
theorem stayingFields_eq_of_chosen (hnarrow : c'.IsNarrower c) {fields : List Field}
    (h : ∀ f ∈ stayingFields c hidden fields, c'.part f.directives = true ∧
      ∀ i ∈ f.arguments, c'.argument i.directives = true) :
    stayingFields c' hidden fields = stayingFields c hidden fields := by
  have hfield : ∀ f ∈ fields, stays c.part hidden f.directives f.type = true →
      c'.part f.directives = true ∧ f.restrict c' hidden = f.restrict c hidden := by
    intro f hf hstays
    have hmem := mem_stayingFields.mpr ⟨f, hf, stays_iff.mp hstays, rfl⟩
    obtain ⟨hpart, harguments⟩ := h _ hmem
    have hinputs := stayingInputs_eq_of_chosen hnarrow.argument harguments
    exact ⟨hpart, congrArg (fun arguments => { f with arguments }) hinputs⟩
  have hstays : ∀ f ∈ fields, stays c'.part hidden f.directives f.type =
      stays c.part hidden f.directives f.type := by
    intro f hf
    refine Bool.eq_iff_iff.mpr ⟨stays_mono hnarrow.part (List.Subset.refl hidden), ?_⟩
    intro hstays
    exact stays_iff.mpr ⟨(hfield f hf hstays).1, (stays_iff.mp hstays).2⟩
  rw [stayingFields, stayingFields, List.filter_congr hstays]
  refine List.map_congr_left fun f hf => ?_
  obtain ⟨hmem, hstaysf⟩ := List.mem_filter.mp hf
  exact (hfield f hmem hstaysf).2

/-- **Choices agree on a type** if the narrower one has all that stays by the other one. -/
theorem Body.restrict_eq_of_chosen (hnarrow : c'.IsNarrower c)
    (hpart : ∀ directives ∈ (body.restrict c hidden).parts, c'.part directives = true)
    (hargument : ∀ directives ∈ (body.restrict c hidden).arguments,
      c'.argument directives = true) :
    body.restrict c' hidden = body.restrict c hidden := by
  cases body with
  | object interfaces fields | interface interfaces fields =>
    have hfields : stayingFields c' hidden fields = stayingFields c hidden fields := by
      refine stayingFields_eq_of_chosen hnarrow fun f hf => ⟨?_, ?_⟩
      · exact hpart _ (List.mem_map_of_mem hf)
      · intro i hi
        exact hargument _ (List.mem_flatMap.mpr ⟨f, hf, List.mem_map_of_mem hi⟩)
    rw [restrict, restrict, hfields]
  | union members | scalar => rfl
  | enum values =>
    refine congrArg Body.enum (List.filter_congr fun v hv => Bool.eq_iff_iff.mpr ?_)
    refine ⟨hnarrow.part v.directives, fun hchosen => ?_⟩
    exact hpart _ (List.mem_map_of_mem (List.mem_filter.mpr ⟨hv, hchosen⟩))
  | inputObject fields =>
    refine congrArg Body.inputObject (stayingInputs_eq_of_chosen hnarrow.part ?_)
    exact fun i hi => hpart _ (List.mem_map_of_mem hi)

theorem contains_congr (h : ∀ name, name ∈ hidden ↔ name ∈ hidden') (name : String) :
    hidden.contains name = hidden'.contains name := by
  rw [Bool.eq_iff_iff, List.contains_iff_mem, List.contains_iff_mem]
  exact h name

/-- What stays depends on which types are hidden, not on their order. -/
theorem Body.restrict_congr_hidden (h : ∀ name, name ∈ hidden ↔ name ∈ hidden') (c : Choice)
    (body : Body) : body.restrict c hidden = body.restrict c hidden' := by
  have hcontains := contains_congr h
  have hinputs : ∀ chosen inputs,
      stayingInputs chosen hidden inputs = stayingInputs chosen hidden' inputs := by
    intro chosen inputs
    simp only [stayingInputs, stays, hcontains]
  have hfield : Field.restrict c hidden = Field.restrict c hidden' := by
    funext f
    rw [Field.restrict, Field.restrict, hinputs]
  cases body <;>
    simp only [restrict, shownNames, stayingFields, stays, hinputs, hfield, hcontains]

end Agreement

/-- A change that leaves the directives of all parts and arguments as they are. -/
theorem Body.mapDirectives_eq_self {part argument : List Directive → List Directive} {body : Body}
    (hpart : ∀ directives ∈ body.parts, part directives = directives)
    (hargument : ∀ directives ∈ body.arguments, argument directives = directives) :
    body.mapDirectives part argument = body := by
  have hinputs : ∀ {change : List Directive → List Directive} {inputs : List Input},
      (∀ i ∈ inputs, change i.directives = i.directives) →
        inputs.map (Input.mapDirectives change) = inputs := by
    intro change inputs h
    refine (List.map_congr_left fun i hi => ?_).trans (List.map_id inputs)
    exact congrArg (fun directives => { i with directives }) (h i hi)
  cases body with
  | object interfaces fields | interface interfaces fields =>
    have hfields : fields.map (Field.mapDirectives part argument) = fields := by
      refine (List.map_congr_left fun f hf => ?_).trans (List.map_id fields)
      have harguments : f.arguments.map (Input.mapDirectives argument) = f.arguments :=
        hinputs fun i hi =>
          hargument _ (List.mem_flatMap.mpr ⟨f, hf, List.mem_map_of_mem hi⟩)
      exact congrArg₂ (fun arguments directives => { f with arguments, directives }) harguments
        (hpart _ (List.mem_map_of_mem hf))
    rw [mapDirectives, hfields]
  | union members | scalar => rfl
  | enum values =>
    refine congrArg Body.enum ((List.map_congr_left fun v hv => ?_).trans (List.map_id values))
    exact congrArg (fun directives => { v with directives }) (hpart _ (List.mem_map_of_mem hv))
  | inputObject fields =>
    exact congrArg Body.inputObject (hinputs fun i hi => hpart _ (List.mem_map_of_mem hi))

/-- A type that is marked if it depends on its parts, all of which are inaccessible. -/
def TypeDefinition.markEmptied (d : TypeDefinition) : TypeDefinition :=
  { d with
    directives := TagFilter.hideUnless
      (!(d.body.needsParts && d.body.parts.all isHidden)) d.directives }

namespace TagRule

variable {r : TagRule} {m : Model} {d : TypeDefinition}

/-! ## Rules that keep what is visible -/

/-- A type is kept with all that it consists of. -/
structure Keeps (r : TagRule) (d : TypeDefinition) : Prop where
  type : r.type (tagsOf d.directives) = true
  part : ∀ directives ∈ d.body.parts, r.part (tagsOf d.directives) (tagsOf directives) = true
  argument : ∀ directives ∈ d.body.arguments, r.argument (tagsOf directives) = true

theorem choice_isNarrower_accessible (r : TagRule) (typeTags : List String) :
    (r.choice typeTags).IsNarrower .accessible where
  part _ h := (Bool.and_eq_true_iff.mp h).1
  argument _ h := (Bool.and_eq_true_iff.mp h).1

/-- What is visible after marking has been kept. -/
theorem keeps_of_mem_visible (hd : d ∈ (r.mark m).visible.types) : r.Keeps d := by
  obtain ⟨e, he, hvisible, rfl⟩ := mem_types_visible_mark.mp hd
  constructor
  · exact (kept_of_notMem_hiddenTypes he hvisible).2
  · intro directives hpart
    exact (Bool.and_eq_true_iff.mp (Body.part_of_mem_parts_restrict hpart)).2
  · intro directives hargument
    exact (Bool.and_eq_true_iff.mp (Body.argument_of_mem_arguments_restrict hargument)).2

/-- Of a type that is kept as far as it is visible, the rule leaves what is visible. -/
theorem Keeps.restrict_eq {hidden : List String} (h : r.Keeps (d.restrict .accessible hidden)) :
    d.body.restrict (r.choice (tagsOf d.directives)) hidden =
      d.body.restrict .accessible hidden := by
  refine Body.restrict_eq_of_chosen (r.choice_isNarrower_accessible _) ?_ ?_
  · intro directives hpart
    have haccessible := Body.part_of_mem_parts_restrict hpart
    exact Bool.and_eq_true_iff.mpr ⟨haccessible, h.part directives hpart⟩
  · intro directives hargument
    have haccessible := Body.argument_of_mem_arguments_restrict hargument
    exact Bool.and_eq_true_iff.mpr ⟨haccessible, h.argument directives hargument⟩

/-- A marked type is emptied unless something of it stays that is kept and accessible. -/
theorem isEmptied_markBody_iff {typeTags hidden : List String} {body : Body} :
    (body.mapDirectives (r.markPart typeTags) r.markArgument).isEmptied hidden = true ↔
      ¬ (body.restrict (r.choice typeTags) hidden).HasParts := by
  rw [← restrict_markBody, Body.hasParts_restrict_iff, Bool.not_eq_false]

/-! ### Hidden types -/

/-- Marking makes no hidden type visible. -/
theorem hiddenTypes_subset_mark (r : TagRule) (m : Model) :
    m.hiddenTypes ⊆ (r.mark m).hiddenTypes := by
  have hclosed := (r.mark m).isClosed_hiddenTypes
  have hclosed' : m.IsClosed (r.mark m).hiddenTypes := by
    constructor
    · intro name hname
      obtain ⟨d, hd, hinaccessible, rfl⟩ := Model.mem_inaccessibleTypes.mp hname
      refine hclosed.inaccessible (Model.mem_inaccessibleTypes.mpr ?_)
      exact ⟨r.markType d, List.mem_map_of_mem hd, isHidden_markType_iff.mpr (.inl hinaccessible),
        rfl⟩
    · intro d hd hempty
      refine hclosed.emptied (r.markType d) (List.mem_map_of_mem hd) ?_
      -- less stays of the marked type than of the type, of which nothing stays
      refine isEmptied_markBody_iff.mpr fun hparts => ?_
      have hnarrow := r.choice_isNarrower_accessible (tagsOf d.directives)
      have hmore := d.body.restrict_isPartOf hnarrow (List.Subset.refl (r.mark m).hiddenTypes)
      have hsome := d.body.hasParts_restrict_iff.mp (hmore.hasParts hparts)
      exact Bool.false_ne_true (hsome.symm.trans hempty)
  exact hclosed'.hiddenTypes_subset

/-- What a rule empties is emptied after marking, whatever else is hidden. -/
theorem isEmptied_markBody_of_empties {typeTags : List String} {body : Body}
    (h : r.empties typeTags body = true) (hidden : List String) :
    (body.mapDirectives (r.markPart typeTags) r.markArgument).isEmptied hidden = true := by
  obtain ⟨hneeds, hnone⟩ := empties_iff.mp h
  apply Body.isEmptied_of_isHidden
  · rw [Body.needsParts_mapDirectives, hneeds]
  · rw [Body.parts_mapDirectives, List.forall_mem_map]
    intro directives hmem
    rw [markPart, TagFilter.isHidden_hideUnless, Bool.or_eq_true, Bool.not_eq_true']
    exact hnone directives hmem

/-- A visible type is not marked if all that is visible of it is kept. -/
theorem Keeps.isHidden_markType (h : r.Keeps (d.restrict .accessible m.hiddenTypes))
    (hd : d ∈ m.types) (hvisible : d.name ∉ m.hiddenTypes) :
    isHidden (r.markType d).directives = false := by
  by_contra hmarked
  rw [Bool.not_eq_false, isHidden_markType_iff] at hmarked
  rcases hmarked with hinaccessible | hnot | hempties
  · have haccessible := Model.isHidden_of_notMem_hiddenTypes hd hvisible
    exact Bool.false_ne_true (haccessible.symm.trans hinaccessible)
  · exact Bool.false_ne_true (hnot.symm.trans h.type)
  · -- something of the type is visible, and the rule leaves it
    have hnone := isEmptied_markBody_iff.mp (isEmptied_markBody_of_empties hempties m.hiddenTypes)
    rw [h.restrict_eq] at hnone
    exact hnone (Model.hasParts_of_mem_visible (Model.mem_types_visible.mpr ⟨d, hd, hvisible, rfl⟩))

/-- **If all that is visible is kept, no more types are hidden.** The types that are hidden anyway
are closed for the marked supergraph. -/
theorem mem_hiddenTypes_mark_iff (h : ∀ d ∈ m.visible.types, r.Keeps d) {name : String} :
    name ∈ (r.mark m).hiddenTypes ↔ name ∈ m.hiddenTypes := by
  have hkeeps : ∀ d ∈ m.types, d.name ∉ m.hiddenTypes →
      r.Keeps (d.restrict .accessible m.hiddenTypes) := fun d hd hvisible =>
    h _ (Model.mem_types_visible.mpr ⟨d, hd, hvisible, rfl⟩)
  have hclosed : (r.mark m).IsClosed m.hiddenTypes := by
    constructor
    · intro name hname
      obtain ⟨e, he, hmarked, rfl⟩ := Model.mem_inaccessibleTypes.mp hname
      obtain ⟨d, hd, rfl⟩ := List.mem_map.mp he
      by_contra hvisible
      have hunmarked := (hkeeps d hd hvisible).isHidden_markType hd hvisible
      exact Bool.false_ne_true (hunmarked.symm.trans hmarked)
    · intro e he hempty
      obtain ⟨d, hd, rfl⟩ := List.mem_map.mp he
      by_contra hvisible
      have hnone := isEmptied_markBody_iff.mp hempty
      rw [(hkeeps d hd hvisible).restrict_eq] at hnone
      exact hnone
        (Model.hasParts_of_mem_visible (Model.mem_types_visible.mpr ⟨d, hd, hvisible, rfl⟩))
  exact ⟨fun hname => hclosed.hiddenTypes_subset hname,
    fun hname => r.hiddenTypes_subset_mark m hname⟩

/-- **Marks show exactly if something visible is not kept.** -/
theorem types_visible_mark_eq_iff (r : TagRule) (m : Model) :
    (r.mark m).visible.types = m.visible.types ↔ ∀ d ∈ m.visible.types, r.Keeps d := by
  constructor
  · intro heq d hd
    rw [← heq] at hd
    exact keeps_of_mem_visible hd
  · intro h
    have hhidden : ∀ name, name ∈ (r.mark m).hiddenTypes ↔ name ∈ m.hiddenTypes :=
      fun _ => mem_hiddenTypes_mark_iff h
    rw [types_visible_mark, Model.visible]
    simp only [contains_congr hhidden]
    refine List.map_congr_left fun d hd => ?_
    obtain ⟨hmem, hvisible⟩ := List.mem_filter.mp hd
    have hname : d.name ∉ m.hiddenTypes := by simpa using hvisible
    have hkeeps := h _ (Model.mem_types_visible.mpr ⟨d, hmem, hname, rfl⟩)
    refine congrArg (fun body => { d with body }) ?_
    rw [Body.restrict_congr_hidden hhidden, hkeeps.restrict_eq]

/-! ### Rules that keep everything -/

/-- Of a type that is kept, whatever stays is kept. -/
theorem Keeps.restrict (h : r.Keeps d) (c : Choice) (hidden : List String) :
    r.Keeps (d.restrict c hidden) where
  type := h.type
  part directives hpart := h.part directives (Body.parts_restrict_subset hpart)
  argument directives hargument :=
    h.argument directives (Body.arguments_restrict_subset hargument)

/-- A type that is kept is marked only if all parts that it depends on are inaccessible. -/
theorem Keeps.markType_eq (h : r.Keeps d) : r.markType d = d.markEmptied := by
  have hempties : r.empties (tagsOf d.directives) d.body =
      (d.body.needsParts && d.body.parts.all isHidden) := by
    rw [Bool.eq_iff_iff, empties_iff, Bool.and_eq_true, List.all_eq_true]
    refine and_congr_right fun _ => forall₂_congr fun directives hmem => ?_
    rw [h.part directives hmem, or_iff_left (Ne.symm Bool.false_ne_true)]
  have hbody : d.body.mapDirectives (r.markPart (tagsOf d.directives)) r.markArgument = d.body := by
    apply Body.mapDirectives_eq_self
    · intro directives hmem
      rw [markPart, h.part directives hmem]
      rfl
    · intro directives hmem
      rw [markArgument, h.argument directives hmem]
      rfl
  rw [markType, hempties, hbody, h.type, Bool.true_and]
  rfl

end TagRule

/-! ## Filters -/

/-- A type that is marked although it is kept is hidden anyway. -/
theorem Model.mem_hiddenTypes_of_markEmptied_ne {m : Model} {d : TypeDefinition} (hd : d ∈ m.types)
    (hmarked : d.markEmptied ≠ d) : d.name ∈ m.hiddenTypes := by
  cases hemptied : d.body.needsParts && d.body.parts.all isHidden with
  | false =>
    refine absurd ?_ hmarked
    rw [TypeDefinition.markEmptied, hemptied]
    rfl
  | true =>
    obtain ⟨hneeds, hparts⟩ := Bool.and_eq_true_iff.mp hemptied
    have hbody := Body.isEmptied_of_isHidden hneeds (List.all_eq_true.mp hparts) m.hiddenTypes
    exact m.isClosed_hiddenTypes.emptied d hd hbody

namespace TagFilter

/-- A filter that includes all tags keeps a type no element of which carries an excluded tag. -/
theorem keeps_of_forall_notMem {f : TagFilter} {d : TypeDefinition} (hincluded : f.included = [])
    (h : ∀ directives ∈ d.elements, ∀ tag ∈ tagsOf directives, tag ∉ f.excluded) :
    f.rule.Keeps d := by
  have hbody : ∀ directives ∈ d.body.elements, ∀ tag ∈ tagsOf directives, tag ∉ f.excluded :=
    List.forall_mem_of_forall_mem_cons h
  constructor
  · exact rule_type_iff.mpr (h d.directives List.mem_cons_self)
  · intro directives hmem
    exact rule_part_iff.mpr
      ⟨hbody directives (Body.mem_elements_iff.mpr (.inl hmem)), .inl hincluded⟩
  · intro directives hmem
    exact rule_argument_iff.mpr (hbody directives (Body.mem_elements_iff.mpr (.inr hmem)))

/-- **A filter that matches nothing is neutral.** A filter leaves the visible part of a supergraph
as it is exactly if it keeps everything in it. So if no tag is asked for and no element carries an
excluded tag, the contract is the API schema, although the filter marks every type all parts of
which are inaccessible: such a type was hidden before. -/
theorem unmatched_filters_are_neutral (f : TagFilter) (m : Model) :
    ((f.apply m).visible.types = m.visible.types ↔ ∀ d ∈ m.visible.types, f.rule.Keeps d) ∧
      (f.included = [] →
        (∀ d ∈ m.types, ∀ directives ∈ d.elements, ∀ tag ∈ tagsOf directives,
          tag ∉ f.excluded) →
        f.contractText m = m.publicText ∧
          (f.apply m).types = m.types.map TypeDefinition.markEmptied ∧
          ∀ d ∈ m.types, d.markEmptied ≠ d → d.name ∈ m.hiddenTypes) := by
  have hvisible := f.rule.types_visible_mark_eq_iff m
  rw [← apply_eq] at hvisible
  refine ⟨hvisible, fun hincluded hunmatched => ?_⟩
  have hkeeps : ∀ d ∈ m.types, f.rule.Keeps d :=
    fun d hd => keeps_of_forall_notMem hincluded (hunmatched d hd)
  refine ⟨?_, ?_, fun d hd => Model.mem_hiddenTypes_of_markEmptied_ne hd⟩
  · -- the API schema is the text of the visible part, with the directives that clients see
    have htypes : (f.apply m).visible.types = m.visible.types := by
      refine hvisible.mpr fun d hd => ?_
      obtain ⟨e, he, -, rfl⟩ := Model.mem_types_visible.mp hd
      exact (hkeeps e he).restrict .accessible m.hiddenTypes
    rw [contractText, Model.publicText_eq, Model.publicText_eq, Model.strip, Model.strip, htypes]
  · rw [apply_eq]
    exact List.map_congr_left fun d hd => (hkeeps d hd).markType_eq

end TagFilter

/-- A library with a log that is private, and with a union of nothing but the log. -/
def Model.library : Model where
  links := []
  graphs := []
  roots := { query := some "Query" }
  types :=
    [.objectOf "Query" []
        [.plain "books" "[Book!]!" [.tagged "public"], .plain "logs" "[Log!]!" []],
      .objectOf "Book" [.tagged "public"] [.plain "id" "ID!" []],
      .objectOf "Log" [] [.plain "text" "String" [.inaccessible]],
      { name := "Entry", description := none, directives := [], body := .union ["Log"] }]

/-- To exclude drafts from the library marks the log, which is hidden, and changes nothing that is
shown. -/
theorem TagFilter.unmatched_filters_are_neutral_of_library :
    ((({ excluded := ["draft"] } : TagFilter).apply .library).types.map fun d =>
        (d.name, isHidden d.directives)) =
        [("Query", false), ("Book", false), ("Log", true), ("Entry", false)] ∧
      Model.library.hiddenTypes = ["Log", "Entry"] ∧
      ({ excluded := ["draft"] } : TagFilter).contractText .library = Model.library.publicText := by
  refine ⟨by decide, by decide, ?_⟩
  exact ((unmatched_filters_are_neutral { excluded := ["draft"] } .library).2 rfl (by decide)).1

end Federation.Supergraph
