import Federation.Supergraph.Render
import Mathlib.Data.List.Forall2

/-!
# Parts of supergraphs

A type consists of fields with arguments, of values, members and interfaces. Some of them may stay,
chosen by their directives and by the types that they refer to, and their directives may change.
Both can be done in either order, if what is chosen is told by the changed directives. With a
narrower choice and more hidden types, a part of what stayed stays.
-/

namespace Federation.Supergraph

/-! ## What a type consists of -/

/-- The directives of each field, argument or value that a type consists of. -/
def Body.elements : Body → List (List Directive)
  | .object _ fields | .interface _ fields =>
    fields.flatMap fun f => f.directives :: f.arguments.map Input.directives
  | .inputObject fields => fields.map Input.directives
  | .enum values => values.map EnumValue.directives
  | .union _ | .scalar => []

/-- The directives of a type and of each element that it consists of. -/
def TypeDefinition.elements (d : TypeDefinition) : List (List Directive) :=
  d.directives :: d.body.elements

/-- The directives of each field or value of a type, without the arguments of its fields. -/
def Body.parts : Body → List (List Directive)
  | .object _ fields | .interface _ fields => fields.map Field.directives
  | .inputObject fields => fields.map Input.directives
  | .enum values => values.map EnumValue.directives
  | .union _ | .scalar => []

/-- The type has a field, a member or a value. Scalars need none. -/
def Body.HasParts : Body → Prop
  | .object _ fields | .interface _ fields => fields ≠ []
  | .union members => members ≠ []
  | .enum values => values ≠ []
  | .scalar => True
  | .inputObject fields => fields ≠ []

/-- The names of the types that a type refers to. -/
def Body.references : Body → List String
  | .object interfaces fields | .interface interfaces fields =>
    interfaces ++ fields.flatMap fun f =>
      TypeRef.nameOfText f.type :: f.arguments.map fun i => TypeRef.nameOfText i.type
  | .union members => members
  | .enum _ | .scalar => []
  | .inputObject fields => fields.map fun i => TypeRef.nameOfText i.type

/-! ## Parts -/

/-- A field with some of the arguments of another field, and like it otherwise. -/
structure Field.IsPartOf (f g : Field) : Prop where
  arguments : f.arguments.Sublist g.arguments
  rest : f = { g with arguments := f.arguments }

/-- Some of what a type consists of, in the same order. -/
inductive Body.IsPartOf : Body → Body → Prop where
  | object {interfaces interfaces' : List String} {fields fields' : List Field} :
      interfaces.Sublist interfaces' → List.SublistForall₂ Field.IsPartOf fields fields' →
      IsPartOf (.object interfaces fields) (.object interfaces' fields')
  | interface {interfaces interfaces' : List String} {fields fields' : List Field} :
      interfaces.Sublist interfaces' → List.SublistForall₂ Field.IsPartOf fields fields' →
      IsPartOf (.interface interfaces fields) (.interface interfaces' fields')
  | union {members members' : List String} :
      members.Sublist members' → IsPartOf (.union members) (.union members')
  | enum {values values' : List EnumValue} :
      values.Sublist values' → IsPartOf (.enum values) (.enum values')
  | scalar : IsPartOf .scalar .scalar
  | inputObject {fields fields' : List Input} :
      fields.Sublist fields' → IsPartOf (.inputObject fields) (.inputObject fields')

/-- A type that consists of some of what another type consists of, and is like it otherwise. -/
structure TypeDefinition.IsPartOf (d e : TypeDefinition) : Prop where
  body : d.body.IsPartOf e.body
  rest : d = { e with body := d.body }

/-- Parts of some of the types, in the same order. -/
def ArePartOf (types types' : List TypeDefinition) : Prop :=
  List.SublistForall₂ TypeDefinition.IsPartOf types types'

/-- What a part of a type has, the type has. -/
theorem Body.IsPartOf.hasParts {body body' : Body} (h : body.IsPartOf body')
    (hparts : body.HasParts) : body'.HasParts := by
  cases h with
  | object _ hfields | interface _ hfields =>
    obtain ⟨kept, hkept, hsub⟩ := List.sublistForall₂_iff.mp hfields
    rintro rfl
    rw [List.sublist_nil] at hsub
    subst hsub
    exact hparts (List.forall₂_nil_right_iff.mp hkept)
  | union hsub | enum hsub | inputObject hsub =>
    rintro rfl
    exact hparts (List.sublist_nil.mp hsub)
  | scalar => trivial

/-! ## Choosing what stays -/

/-- Which parts of a type stay and which arguments of its fields, told by their directives. -/
structure Choice where
  part : List Directive → Bool
  argument : List Directive → Bool

namespace Choice

/-- What is not inaccessible stays. -/
def accessible : Choice where
  part directives := !isHidden directives
  argument directives := !isHidden directives

/-- Everything stays. -/
def all : Choice where
  part _ := true
  argument _ := true

/-- The choice by directives that have been changed. -/
def comap (c : Choice) (part argument : List Directive → List Directive) : Choice where
  part directives := c.part (part directives)
  argument directives := c.argument (argument directives)

/-- What stays by one choice stays by the other. -/
structure IsNarrower (c c' : Choice) : Prop where
  part : ∀ directives, c.part directives = true → c'.part directives = true
  argument : ∀ directives, c.argument directives = true → c'.argument directives = true

theorem isNarrower_all (c : Choice) : c.IsNarrower .all :=
  ⟨fun _ _ => rfl, fun _ _ => rfl⟩

end Choice

/-- An element that refers to a type stays if it is chosen and the type is not hidden. -/
def stays (chosen : List Directive → Bool) (hidden : List String) (directives : List Directive)
    (type : String) : Bool :=
  chosen directives && !hidden.contains (TypeRef.nameOfText type)

/-- The names of types that are not hidden. -/
def shownNames (hidden : List String) (names : List String) : List String :=
  names.filter fun name => !hidden.contains name

/-- The arguments or input fields that stay. -/
def stayingInputs (chosen : List Directive → Bool) (hidden : List String) (inputs : List Input) :
    List Input :=
  inputs.filter fun i => stays chosen hidden i.directives i.type

/-- The field with the arguments that stay. -/
def Field.restrict (c : Choice) (hidden : List String) (f : Field) : Field :=
  { f with arguments := stayingInputs c.argument hidden f.arguments }

/-- The fields that stay. -/
def stayingFields (c : Choice) (hidden : List String) (fields : List Field) : List Field :=
  (fields.filter fun f => stays c.part hidden f.directives f.type).map (Field.restrict c hidden)

/-- What stays of a type. Interfaces and members stay unless they are hidden. -/
def Body.restrict (c : Choice) (hidden : List String) : Body → Body
  | .object interfaces fields =>
    .object (shownNames hidden interfaces) (stayingFields c hidden fields)
  | .interface interfaces fields =>
    .interface (shownNames hidden interfaces) (stayingFields c hidden fields)
  | .union members => .union (shownNames hidden members)
  | .enum values => .enum (values.filter fun v => c.part v.directives)
  | .scalar => .scalar
  | .inputObject fields => .inputObject (stayingInputs c.part hidden fields)

/-- The type with what stays of it. -/
def TypeDefinition.restrict (c : Choice) (hidden : List String) (d : TypeDefinition) :
    TypeDefinition :=
  { d with body := d.body.restrict c hidden }

theorem stays_iff {chosen : List Directive → Bool} {hidden : List String}
    {directives : List Directive} {type : String} :
    stays chosen hidden directives type = true ↔
      chosen directives = true ∧ TypeRef.nameOfText type ∉ hidden := by
  simp [stays]

theorem mem_shownNames {hidden names : List String} {name : String} :
    name ∈ shownNames hidden names ↔ name ∈ names ∧ name ∉ hidden := by
  simp [shownNames]

theorem mem_stayingInputs {chosen : List Directive → Bool} {hidden : List String}
    {inputs : List Input} {i : Input} :
    i ∈ stayingInputs chosen hidden inputs ↔
      i ∈ inputs ∧ chosen i.directives = true ∧ TypeRef.nameOfText i.type ∉ hidden := by
  rw [stayingInputs, List.mem_filter, stays_iff]

theorem mem_stayingFields {c : Choice} {hidden : List String} {fields : List Field} {f : Field} :
    f ∈ stayingFields c hidden fields ↔
      ∃ g ∈ fields, (c.part g.directives = true ∧ TypeRef.nameOfText g.type ∉ hidden) ∧
        g.restrict c hidden = f := by
  simp only [stayingFields, List.mem_map, List.mem_filter, stays_iff, and_assoc]

/-! ### What stays -/

/-- The fields of what stays of a type are those that stay. -/
theorem Body.fields_restrict (c : Choice) (hidden : List String) (body : Body) :
    (body.restrict c hidden).fields = stayingFields c hidden body.fields := by
  cases body <;> rfl

/-- The interfaces of what stays of a type are those that are not hidden. -/
theorem Body.interfaces_restrict (c : Choice) (hidden : List String) (body : Body) :
    (body.restrict c hidden).interfaces = shownNames hidden body.interfaces := by
  cases body <;> rfl

section Restrict

variable {c : Choice} {hidden : List String} {body : Body}

/-- What stays of a type refers to no hidden type. -/
theorem Body.notMem_of_mem_references_restrict {name : String}
    (h : name ∈ (body.restrict c hidden).references) : name ∉ hidden := by
  cases body with
  | object interfaces fields | interface interfaces fields =>
    rcases List.mem_append.mp h with hname | hname
    · exact (mem_shownNames.mp hname).2
    · obtain ⟨f, hf, hname⟩ := List.mem_flatMap.mp hname
      obtain ⟨g, -, ⟨-, htype⟩, rfl⟩ := mem_stayingFields.mp hf
      rcases List.mem_cons.mp hname with rfl | hname
      · exact htype
      · obtain ⟨i, hi, rfl⟩ := List.mem_map.mp hname
        exact (mem_stayingInputs.mp hi).2.2
  | union members => exact (mem_shownNames.mp h).2
  | enum values | scalar => exact absurd h List.not_mem_nil
  | inputObject fields =>
    obtain ⟨i, hi, rfl⟩ := List.mem_map.mp h
    exact (mem_stayingInputs.mp hi).2.2

/-- What holds of the chosen elements holds of all elements that stay. -/
theorem Body.forall_mem_elements_restrict {P : List Directive → Prop}
    (hpart : ∀ directives, c.part directives = true → P directives)
    (hargument : ∀ directives, c.argument directives = true → P directives) :
    ∀ directives ∈ (body.restrict c hidden).elements, P directives := by
  intro directives h
  cases body with
  | object interfaces fields | interface interfaces fields =>
    obtain ⟨f, hf, h⟩ := List.mem_flatMap.mp h
    obtain ⟨g, -, ⟨hchosen, -⟩, rfl⟩ := mem_stayingFields.mp hf
    rcases List.mem_cons.mp h with rfl | h
    · exact hpart _ hchosen
    · obtain ⟨i, hi, rfl⟩ := List.mem_map.mp h
      exact hargument _ (mem_stayingInputs.mp hi).2.1
  | union members | scalar => exact absurd h List.not_mem_nil
  | enum values =>
    obtain ⟨v, hv, rfl⟩ := List.mem_map.mp h
    exact hpart _ (List.mem_filter.mp hv).2
  | inputObject fields =>
    obtain ⟨i, hi, rfl⟩ := List.mem_map.mp h
    exact hpart _ (mem_stayingInputs.mp hi).2.1

/-- Parts stay only if they are chosen. -/
theorem Body.part_of_mem_parts_restrict {directives : List Directive}
    (h : directives ∈ (body.restrict c hidden).parts) : c.part directives = true := by
  cases body with
  | object interfaces fields | interface interfaces fields =>
    obtain ⟨f, hf, rfl⟩ := List.mem_map.mp h
    obtain ⟨g, -, ⟨hchosen, -⟩, rfl⟩ := mem_stayingFields.mp hf
    exact hchosen
  | union members | scalar => exact absurd h List.not_mem_nil
  | enum values =>
    obtain ⟨v, hv, rfl⟩ := List.mem_map.mp h
    exact (List.mem_filter.mp hv).2
  | inputObject fields =>
    obtain ⟨i, hi, rfl⟩ := List.mem_map.mp h
    exact (mem_stayingInputs.mp hi).2.1

end Restrict

/-! ### Less is a part of more -/

section Narrower

variable {c c' : Choice} {hidden hidden' : List String}

theorem stays_mono {chosen chosen' : List Directive → Bool}
    (hchosen : ∀ directives, chosen directives = true → chosen' directives = true)
    (hhidden : hidden' ⊆ hidden) {directives : List Directive} {type : String}
    (h : stays chosen hidden directives type = true) :
    stays chosen' hidden' directives type = true := by
  rw [stays_iff] at h ⊢
  exact ⟨hchosen directives h.1, fun hmem => h.2 (hhidden hmem)⟩

theorem shownNames_sublist (hhidden : hidden' ⊆ hidden) (names : List String) :
    (shownNames hidden names).Sublist (shownNames hidden' names) := by
  refine List.monotone_filter_right names fun name hname => ?_
  rw [Bool.not_eq_true', List.contains_eq_mem, decide_eq_false_iff_not] at hname ⊢
  exact fun hmem => hname (hhidden hmem)

theorem stayingInputs_sublist {chosen chosen' : List Directive → Bool}
    (hchosen : ∀ directives, chosen directives = true → chosen' directives = true)
    (hhidden : hidden' ⊆ hidden) (inputs : List Input) :
    (stayingInputs chosen hidden inputs).Sublist (stayingInputs chosen' hidden' inputs) :=
  List.monotone_filter_right inputs fun _ => stays_mono hchosen hhidden

/-- If fewer items pass and their images are parts of the other images, the list is a part. -/
theorem sublistForall₂_map_filter {α β : Type} {R : β → β → Prop} {items : List α}
    {p q : α → Bool} {f g : α → β} (hpass : ∀ a, p a = true → q a = true)
    (hpart : ∀ a, R (f a) (g a)) :
    List.SublistForall₂ R ((items.filter p).map f) ((items.filter q).map g) := by
  rw [List.sublistForall₂_map_left_iff, List.sublistForall₂_map_right_iff, List.sublistForall₂_iff]
  exact ⟨items.filter p, List.forall₂_same.mpr fun a _ => hpart a,
    List.monotone_filter_right items hpass⟩

theorem stayingFields_sublistForall₂ (hc : c.IsNarrower c') (hhidden : hidden' ⊆ hidden)
    (fields : List Field) :
    List.SublistForall₂ Field.IsPartOf (stayingFields c hidden fields)
      (stayingFields c' hidden' fields) :=
  sublistForall₂_map_filter (fun _ => stays_mono hc.part hhidden) fun f =>
    ⟨stayingInputs_sublist hc.argument hhidden f.arguments, rfl⟩

/-- With a narrower choice and more hidden types, a part of what stayed of a type stays. -/
theorem Body.restrict_isPartOf (hc : c.IsNarrower c') (hhidden : hidden' ⊆ hidden) (body : Body) :
    (body.restrict c hidden).IsPartOf (body.restrict c' hidden') := by
  cases body with
  | object interfaces fields =>
    exact .object (shownNames_sublist hhidden _) (stayingFields_sublistForall₂ hc hhidden _)
  | interface interfaces fields =>
    exact .interface (shownNames_sublist hhidden _) (stayingFields_sublistForall₂ hc hhidden _)
  | union members => exact .union (shownNames_sublist hhidden _)
  | enum values => exact .enum (List.monotone_filter_right _ fun v => hc.part v.directives)
  | scalar => exact .scalar
  | inputObject fields => exact .inputObject (stayingInputs_sublist hc.part hhidden _)

theorem TypeDefinition.restrict_isPartOf (hc : c.IsNarrower c') (hhidden : hidden' ⊆ hidden)
    (d : TypeDefinition) : (d.restrict c hidden).IsPartOf (d.restrict c' hidden') :=
  ⟨d.body.restrict_isPartOf hc hhidden, rfl⟩

end Narrower

theorem shownNames_nil (names : List String) : shownNames [] names = names :=
  List.filter_eq_self.mpr fun _ _ => rfl

theorem stayingInputs_of_chosen {chosen : List Directive → Bool} {inputs : List Input}
    (h : ∀ i ∈ inputs, chosen i.directives = true) : stayingInputs chosen [] inputs = inputs :=
  List.filter_eq_self.mpr fun i hi => stays_iff.mpr ⟨h i hi, List.not_mem_nil⟩

theorem stayingFields_of_chosen {c : Choice} {fields : List Field}
    (h : ∀ f ∈ fields, c.part f.directives = true ∧
      ∀ i ∈ f.arguments, c.argument i.directives = true) : stayingFields c [] fields = fields := by
  have hfield : ∀ f ∈ fields, f.restrict c [] = f := fun f hf =>
    congrArg (fun arguments => { f with arguments }) (stayingInputs_of_chosen (h f hf).2)
  rw [stayingFields, List.filter_eq_self.mpr fun f hf =>
    stays_iff.mpr ⟨(h f hf).1, List.not_mem_nil⟩]
  exact (List.map_congr_left hfield).trans (List.map_id fields)

/-- If each element of a type is chosen, the type is as it was. -/
theorem Body.restrict_of_chosen {c : Choice} {body : Body}
    (h : ∀ directives ∈ body.elements, c.part directives = true ∧ c.argument directives = true) :
    body.restrict c [] = body := by
  cases body with
  | object interfaces fields | interface interfaces fields =>
    have hfields : stayingFields c [] fields = fields := by
      refine stayingFields_of_chosen fun f hf => ?_
      have hmem := fun directives hd =>
        h directives (List.mem_flatMap.mpr ⟨f, hf, List.mem_cons.mpr hd⟩)
      exact ⟨(hmem _ (.inl rfl)).1, fun i hi => (hmem _ (.inr (List.mem_map_of_mem hi))).2⟩
    rw [restrict, shownNames_nil, hfields]
  | union members => rw [restrict, shownNames_nil]
  | enum values =>
    exact congrArg Body.enum (List.filter_eq_self.mpr fun v hv =>
      (h _ (List.mem_map_of_mem hv)).1)
  | scalar => rfl
  | inputObject fields =>
    exact congrArg Body.inputObject (stayingInputs_of_chosen fun i hi =>
      (h _ (List.mem_map_of_mem hi)).1)

/-- If everything stays, the type is as it was. -/
theorem Body.restrict_all (body : Body) : body.restrict .all [] = body :=
  restrict_of_chosen fun _ _ => ⟨rfl, rfl⟩

/-- What stays of a type is a part of it. -/
theorem TypeDefinition.restrict_isPartOf_self (c : Choice) (hidden : List String)
    (d : TypeDefinition) : (d.restrict c hidden).IsPartOf d := by
  have h := d.body.restrict_isPartOf c.isNarrower_all (List.nil_subset hidden)
  rw [Body.restrict_all] at h
  exact ⟨h, rfl⟩

/-- Some types, each with what stays of it, are a part of all types. -/
theorem arePartOf_restrict (types : List TypeDefinition) (shown : TypeDefinition → Bool)
    (c : TypeDefinition → Choice) (hidden : List String) :
    ArePartOf ((types.filter shown).map fun d => d.restrict (c d) hidden) types := by
  rw [ArePartOf, List.sublistForall₂_map_left_iff, List.sublistForall₂_iff]
  refine ⟨types.filter shown, List.forall₂_same.mpr fun d _ => ?_, List.filter_sublist⟩
  exact d.restrict_isPartOf_self (c d) hidden

/-! ## Changing directives -/

/-- The argument or input field with changed directives. -/
def Input.mapDirectives (change : List Directive → List Directive) (i : Input) : Input :=
  { i with directives := change i.directives }

/-- The value with changed directives. -/
def EnumValue.mapDirectives (change : List Directive → List Directive) (v : EnumValue) :
    EnumValue :=
  { v with directives := change v.directives }

/-- The field with changed directives, also on its arguments. -/
def Field.mapDirectives (part argument : List Directive → List Directive) (f : Field) : Field :=
  { f with
    arguments := f.arguments.map (Input.mapDirectives argument)
    directives := part f.directives }

/-- What a type consists of, with changed directives. -/
def Body.mapDirectives (part argument : List Directive → List Directive) : Body → Body
  | .object interfaces fields => .object interfaces (fields.map (Field.mapDirectives part argument))
  | .interface interfaces fields =>
    .interface interfaces (fields.map (Field.mapDirectives part argument))
  | .union members => .union members
  | .enum values => .enum (values.map (EnumValue.mapDirectives part))
  | .scalar => .scalar
  | .inputObject fields => .inputObject (fields.map (Input.mapDirectives part))

section MapDirectives

variable {part argument : List Directive → List Directive}

/-- Directives that are changed twice. -/
theorem Body.mapDirectives_mapDirectives (part' argument' : List Directive → List Directive)
    (body : Body) :
    (body.mapDirectives part argument).mapDirectives part' argument' =
      body.mapDirectives (fun directives => part' (part directives))
        (fun directives => argument' (argument directives)) := by
  cases body <;>
    simp [mapDirectives, Field.mapDirectives, Input.mapDirectives, EnumValue.mapDirectives,
      Function.comp_def]

theorem Body.parts_mapDirectives (body : Body) :
    (body.mapDirectives part argument).parts = body.parts.map part := by
  cases body <;>
    simp [mapDirectives, parts, Field.mapDirectives, Input.mapDirectives, EnumValue.mapDirectives]

/-- Directives do not matter for whether a type consists of something. -/
theorem Body.hasParts_mapDirectives_iff (body : Body) :
    (body.mapDirectives part argument).HasParts ↔ body.HasParts := by
  cases body <;> simp [mapDirectives, HasParts]

/-- The elements of a type change one by one. -/
theorem Body.forall₂_elements_mapDirectives {R : List Directive → List Directive → Prop}
    (hpart : ∀ directives, R directives (part directives))
    (hargument : ∀ directives, R directives (argument directives)) (body : Body) :
    List.Forall₂ R body.elements (body.mapDirectives part argument).elements := by
  have hinputs : ∀ {change : List Directive → List Directive},
      (∀ directives, R directives (change directives)) → ∀ inputs : List Input,
        List.Forall₂ R (inputs.map Input.directives)
          ((inputs.map (Input.mapDirectives change)).map Input.directives) := by
    intro change hchange inputs
    rw [List.map_map, List.forall₂_map_left_iff, List.forall₂_map_right_iff, List.forall₂_same]
    exact fun i _ => hchange i.directives
  cases body with
  | object interfaces fields | interface interfaces fields =>
    have hfields : List.Forall₂ (fun f g => Field.mapDirectives part argument f = g) fields
        (fields.map (Field.mapDirectives part argument)) :=
      List.forall₂_map_right_iff.mpr (List.forall₂_same.mpr fun f _ => rfl)
    refine List.rel_flatMap hfields ?_
    rintro f _ rfl
    exact .cons (hpart f.directives) (hinputs hargument f.arguments)
  | union members | scalar => exact .nil
  | enum values =>
    rw [mapDirectives, elements, elements, List.map_map, List.forall₂_map_left_iff,
      List.forall₂_map_right_iff, List.forall₂_same]
    exact fun v _ => hpart v.directives
  | inputObject fields => exact hinputs hpart fields

/-! ### Changing and choosing -/

theorem stayingInputs_mapDirectives (chosen : List Directive → Bool)
    (change : List Directive → List Directive) (hidden : List String) (inputs : List Input) :
    stayingInputs chosen hidden (inputs.map (Input.mapDirectives change)) =
      (stayingInputs (fun directives => chosen (change directives)) hidden inputs).map
        (Input.mapDirectives change) :=
  List.filter_map

theorem stayingFields_mapDirectives (c : Choice) (hidden : List String) (fields : List Field) :
    stayingFields c hidden (fields.map (Field.mapDirectives part argument)) =
      (stayingFields (c.comap part argument) hidden fields).map
        (Field.mapDirectives part argument) := by
  rw [stayingFields, stayingFields, List.filter_map, List.map_map, List.map_map]
  refine List.map_congr_left fun f _ => ?_
  exact congrArg (fun arguments => { f.mapDirectives part argument with arguments })
    (stayingInputs_mapDirectives c.argument argument hidden f.arguments)

/-- What stays after a change of directives is what stays when the changed directives are asked,
before they are changed. -/
theorem Body.restrict_mapDirectives (c : Choice) (hidden : List String) (body : Body) :
    (body.mapDirectives part argument).restrict c hidden =
      (body.restrict (c.comap part argument) hidden).mapDirectives part argument := by
  cases body with
  | object interfaces fields | interface interfaces fields =>
    rw [mapDirectives, restrict, stayingFields_mapDirectives]
    rfl
  | union members | scalar => rfl
  | enum values => exact congrArg Body.enum List.filter_map
  | inputObject fields =>
    exact congrArg Body.inputObject (stayingInputs_mapDirectives c.part part hidden fields)

/-- A change that leaves the chosen directives as they are leaves what stays as it is. -/
theorem Body.mapDirectives_restrict {c : Choice}
    (hpart : ∀ directives, c.part directives = true → part directives = directives)
    (hargument : ∀ directives, c.argument directives = true → argument directives = directives)
    (hidden : List String) (body : Body) :
    (body.restrict c hidden).mapDirectives part argument = body.restrict c hidden := by
  have hinputs : ∀ {chosen : List Directive → Bool} {change : List Directive → List Directive},
      (∀ directives, chosen directives = true → change directives = directives) →
        ∀ inputs : List Input,
          (stayingInputs chosen hidden inputs).map (Input.mapDirectives change) =
            stayingInputs chosen hidden inputs := by
    intro chosen change hchange inputs
    refine (List.map_congr_left fun i hi => ?_).trans (List.map_id _)
    exact congrArg (fun directives => { i with directives })
      (hchange i.directives (mem_stayingInputs.mp hi).2.1)
  have hfields : ∀ fields : List Field,
      (stayingFields c hidden fields).map (Field.mapDirectives part argument) =
        stayingFields c hidden fields := by
    intro fields
    refine (List.map_congr_left fun f hf => ?_).trans (List.map_id _)
    obtain ⟨g, -, ⟨hchosen, -⟩, rfl⟩ := mem_stayingFields.mp hf
    exact congrArg₂ (fun arguments directives => { g with arguments, directives })
      (hinputs hargument g.arguments) (hpart g.directives hchosen)
  cases body with
  | object interfaces fields | interface interfaces fields =>
    rw [restrict, mapDirectives, hfields]
  | union members | scalar => rfl
  | enum values =>
    refine congrArg Body.enum ((List.map_congr_left fun v hv => ?_).trans (List.map_id _))
    exact congrArg (fun directives => { v with directives })
      (hpart v.directives (List.mem_filter.mp hv).2)
  | inputObject fields => exact congrArg Body.inputObject (hinputs hpart fields)

end MapDirectives

end Federation.Supergraph
