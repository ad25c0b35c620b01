import Federation.Proofs.Supergraph.Visible

/-!
# What the API schema shows

A supergraph is stripped when nothing is left of it but what clients see: its visible part, and of
the directives only `@deprecated`. The API schema is the stripped supergraph written out in full. A
stripped supergraph has nothing to hide, so stripping it again changes nothing, and supergraphs that
differ in hidden parts only have the same API schema.
-/

namespace Federation.Supergraph

/-! ## Stripped supergraphs -/

/-- The directives that clients see. -/
def clientDirectives (directives : List Directive) : List Directive :=
  directives.filter fun d => d.name == "deprecated"

/-- The type with the directives that clients see. -/
def TypeDefinition.bare (d : TypeDefinition) : TypeDefinition :=
  { d with
    directives := clientDirectives d.directives
    body := d.body.mapDirectives clientDirectives clientDirectives }

/-- The visible part with the directives that clients see. -/
def Model.strip (m : Model) : Model :=
  { m with types := m.visible.types.map TypeDefinition.bare }

theorem isHidden_clientDirectives (directives : List Directive) :
    isHidden (clientDirectives directives) = false := by
  refine List.any_eq_false.mpr fun d hd => ?_
  have hname : d.name = "deprecated" := by simpa using (List.mem_filter.mp hd).2
  simp [Directive.isInaccessible, hname]

theorem clientDirectives_clientDirectives (directives : List Directive) :
    clientDirectives (clientDirectives directives) = clientDirectives directives := by
  simp [clientDirectives]

/-! ### Stripping twice -/

theorem TypeDefinition.bare_bare (d : TypeDefinition) : d.bare.bare = d.bare := by
  simp only [bare, Body.mapDirectives_mapDirectives, clientDirectives_clientDirectives]

/-- No directive that clients see makes an element inaccessible. -/
theorem Choice.comap_clientDirectives :
    Choice.accessible.comap clientDirectives clientDirectives = .all := by
  simp only [comap, accessible, all, isHidden_clientDirectives, Bool.not_false]

/-- Everything of a type with the directives that clients see stays as long as no type is hidden. -/
theorem Body.restrict_clientDirectives (body : Body) :
    (body.mapDirectives clientDirectives clientDirectives).restrict .accessible [] =
      body.mapDirectives clientDirectives clientDirectives := by
  rw [restrict_mapDirectives, Choice.comap_clientDirectives, restrict_all]

namespace Model

/-- A stripped supergraph has nothing to hide. -/
theorem hiddenTypes_strip (m : Model) : m.strip.hiddenTypes = [] := by
  have hclosed : m.strip.IsClosed [] := by
    constructor
    · intro name hname
      obtain ⟨d, hd, hmarked, -⟩ := mem_inaccessibleTypes.mp hname
      obtain ⟨e, -, rfl⟩ := List.mem_map.mp hd
      rw [TypeDefinition.bare, isHidden_clientDirectives] at hmarked
      exact absurd hmarked Bool.false_ne_true
    · -- a visible type consists of something, and all of it stays
      intro d hd hempty
      obtain ⟨e, he, rfl⟩ := List.mem_map.mp hd
      have hparts : (e.bare.body.restrict .accessible []).HasParts := by
        rw [TypeDefinition.bare, Body.restrict_clientDirectives, Body.hasParts_mapDirectives_iff]
        exact hasParts_of_mem_visible he
      rw [Body.hasParts_restrict_iff, hempty] at hparts
      exact absurd hparts.symm Bool.false_ne_true
  exact List.subset_nil.mp hclosed.hiddenTypes_subset

/-- All of a stripped supergraph is visible. -/
theorem visible_strip (m : Model) : m.strip.visible = m.strip := by
  have htypes : m.strip.visible.types = m.strip.types := by
    have hall : m.strip.types.filter (fun d => !([] : List String).contains d.name) =
        m.strip.types := List.filter_eq_self.mpr fun _ _ => rfl
    rw [visible, hiddenTypes_strip, hall, strip, List.map_map]
    refine List.map_congr_left fun d _ => ?_
    exact congrArg (fun body => { d.bare with body }) d.body.restrict_clientDirectives
  exact congrArg (fun types => { m with types }) htypes

/-- **Stripping is a projection.** -/
theorem strip_strip (m : Model) : m.strip.strip = m.strip := by
  have htypes : m.strip.visible.types.map TypeDefinition.bare = m.strip.types := by
    rw [visible_strip, strip, List.map_map]
    exact List.map_congr_left fun d _ => d.bare_bare
  exact congrArg (fun types => { m with types }) htypes

end Model

/-! ## Texts in full -/

/-- Those to whom everything is shown, as it stands. -/
def Audience.insiders : Audience where
  isPublic := false
  hidden := []

/-- Types written out in full, with an empty line between them. -/
def fullText (types : List TypeDefinition) : String :=
  "\n".intercalate (types.map (TypeDefinition.text .insiders))

namespace Audience

theorem filter_showsType_insiders (names : List String) :
    names.filter insiders.showsType = names :=
  List.filter_eq_self.mpr fun _ _ => rfl

theorem filter_showsDirective_insiders (directives : List Directive) :
    directives.filter insiders.showsDirective = directives :=
  List.filter_eq_self.mpr fun _ _ => rfl

theorem filter_showsValue_insiders (values : List EnumValue) :
    values.filter insiders.showsValue = values :=
  List.filter_eq_self.mpr fun _ _ => rfl

@[simp] theorem shows_insiders (directives : List Directive) (type : String) :
    insiders.shows directives type = true := rfl

end Audience

/-! ## The API schema in full -/

theorem interfacesText_eq (a : Audience) (interfaces : List String) :
    interfacesText a interfaces = interfacesText .insiders (shownNames a.hidden interfaces) := by
  rw [interfacesText, interfacesText, Audience.filter_showsType_insiders]
  rfl

theorem membersText_eq (a : Audience) (members : List String) :
    membersText a members = membersText .insiders (shownNames a.hidden members) := by
  rw [membersText, membersText, Audience.filter_showsType_insiders]
  rfl

section Clients

variable {a : Audience} (ha : a.isPublic = true)
include ha

theorem filter_showsDirective (directives : List Directive) :
    directives.filter a.showsDirective = clientDirectives directives :=
  List.filter_congr fun d _ => by rw [Audience.showsDirective, ha, Bool.not_true, Bool.false_or]

theorem filter_showsValue (values : List EnumValue) :
    values.filter a.showsValue = values.filter fun v => Choice.accessible.part v.directives :=
  List.filter_congr fun v _ => by
    rw [Audience.showsValue, ha, Bool.not_true, Bool.false_or, Choice.accessible]

theorem shows_eq_stays (directives : List Directive) (type : String) :
    a.shows directives type = stays Choice.accessible.part a.hidden directives type := by
  rw [stays_accessible, Audience.shows, ha, Bool.not_true, Bool.false_or]

theorem trailingDirectives_eq (directives : List Directive) :
    trailingDirectives a directives =
      trailingDirectives .insiders (clientDirectives directives) := by
  rw [trailingDirectives, trailingDirectives, filter_showsDirective ha,
    Audience.filter_showsDirective_insiders]

theorem Input.text_eq (i : Input) :
    i.text a = (i.mapDirectives clientDirectives).text .insiders :=
  congrArg (_ ++ ·) (trailingDirectives_eq ha i.directives)

theorem Input.lineText_eq (i : Input) :
    i.lineText a = (i.mapDirectives clientDirectives).lineText .insiders :=
  congrArg (_ ++ ·) (i.text_eq ha)

theorem Input.fieldText_eq (i : Input) :
    i.fieldText a = (i.mapDirectives clientDirectives).fieldText .insiders :=
  congrArg (_ ++ · ++ _) (i.text_eq ha)

theorem EnumValue.text_eq (v : EnumValue) :
    v.text a = (v.mapDirectives clientDirectives).text .insiders :=
  congrArg (_ ++ · ++ _) (trailingDirectives_eq ha v.directives)

/-- The layout of arguments depends on those that stay. -/
theorem argumentsText_eq (arguments : List Input) :
    argumentsText a arguments =
      argumentsText .insiders
        ((stayingInputs Choice.accessible.argument a.hidden arguments).map
          (Input.mapDirectives clientDirectives)) := by
  have htext : Input.text a = fun i => (i.mapDirectives clientDirectives).text .insiders :=
    funext fun i => i.text_eq ha
  have hline : Input.lineText a =
      fun i => (i.mapDirectives clientDirectives).lineText .insiders :=
    funext fun i => i.lineText_eq ha
  have hshown : (arguments.filter fun i => a.shows i.directives i.type) =
      stayingInputs Choice.accessible.argument a.hidden arguments :=
    List.filter_congr fun i _ => shows_eq_stays ha i.directives i.type
  unfold argumentsText
  simp only [hshown, Audience.shows_insiders, List.filter_true, htext, hline]
  cases stayingInputs Choice.accessible.argument a.hidden arguments with
  | nil => rfl
  | cons first others =>
    simp only [List.map_cons, List.map_map, List.any_cons, List.any_map]
    rfl

theorem Field.text_eq (f : Field) :
    f.text a =
      ((f.restrict .accessible a.hidden).mapDirectives clientDirectives clientDirectives).text
        .insiders := by
  unfold Field.text
  rw [argumentsText_eq ha, trailingDirectives_eq ha]
  rfl

theorem fieldTexts_eq (fields : List Field) :
    (fields.filter fun f => a.shows f.directives f.type).map (Field.text a) =
      (((stayingFields .accessible a.hidden fields).map
        (Field.mapDirectives clientDirectives clientDirectives)).filter fun f =>
          Audience.insiders.shows f.directives f.type).map (Field.text .insiders) := by
  simp only [shows_eq_stays ha, Audience.shows_insiders, List.filter_true, stayingFields,
    List.map_map]
  exact List.map_congr_left fun f _ => f.text_eq ha

theorem inputFieldTexts_eq (fields : List Input) :
    (fields.filter fun i => a.shows i.directives i.type).map (Input.fieldText a) =
      (((stayingInputs Choice.accessible.part a.hidden fields).map
        (Input.mapDirectives clientDirectives)).filter fun i =>
          Audience.insiders.shows i.directives i.type).map (Input.fieldText .insiders) := by
  simp only [shows_eq_stays ha, Audience.shows_insiders, List.filter_true, stayingInputs,
    List.map_map]
  exact List.map_congr_left fun i _ => i.fieldText_eq ha

theorem valueTexts_eq (values : List EnumValue) :
    (values.filter a.showsValue).map (EnumValue.text a) =
      (((values.filter fun v => Choice.accessible.part v.directives).map
        (EnumValue.mapDirectives clientDirectives)).filter Audience.insiders.showsValue).map
          (EnumValue.text .insiders) := by
  rw [Audience.filter_showsValue_insiders, List.map_map, filter_showsValue ha]
  exact List.map_congr_left fun v _ => v.text_eq ha

/-- Clients see what stays of a type in full, apart from directives. -/
theorem Body.text_eq (afterDirectives : Bool) (body : Body) :
    body.text a afterDirectives =
      ((body.restrict .accessible a.hidden).mapDirectives clientDirectives clientDirectives).text
        .insiders afterDirectives := by
  cases body with
  | object interfaces fields | interface interfaces fields =>
    exact congrArg (braced afterDirectives) (fieldTexts_eq ha fields)
  | union members => exact congrArg (_ ++ · ++ _) (membersText_eq a members)
  | enum values => exact congrArg (braced afterDirectives) (valueTexts_eq ha values)
  | scalar => rfl
  | inputObject fields => exact congrArg (braced afterDirectives) (inputFieldTexts_eq ha fields)

theorem TypeDefinition.text_eq (d : TypeDefinition) :
    d.text a = (d.restrict .accessible a.hidden).bare.text .insiders := by
  unfold TypeDefinition.text
  dsimp only
  rw [interfacesText_eq, filter_showsDirective ha, Audience.filter_showsDirective_insiders,
    Body.text_eq ha]
  obtain ⟨name, description, directives, body⟩ := d
  cases body <;> rfl

end Clients

/-- The API schema is the stripped supergraph in full. -/
theorem Model.publicText_eq (m : Model) : m.publicText = fullText m.strip.types := by
  have htext : TypeDefinition.text (.clients m) =
      fun d => (d.restrict .accessible m.hiddenTypes).bare.text .insiders :=
    funext fun d => TypeDefinition.text_eq rfl d
  rw [publicText, fullText, strip, visible, List.map_map, List.map_map, htext]
  rfl

/-! ## What clients can tell -/

/-- **Hidden parts do not show.** The API schema is the stripped supergraph written out in full, and
it is also the API schema of the stripped supergraph itself. So two supergraphs with the same
stripped types have the same API schema, whatever they hide, and whatever their links, subgraphs and
other directives are. -/
theorem hidden_parts_do_not_show (m : Model) :
    m.publicText = fullText m.strip.types ∧ m.strip.publicText = m.publicText ∧
      ∀ m' : Model, m'.strip.types = m.strip.types → m'.publicText = m.publicText := by
  refine ⟨m.publicText_eq, ?_, ?_⟩
  · -- both are the twice stripped supergraph in full
    rw [m.strip.publicText_eq, m.strip_strip, m.publicText_eq]
  · intro m' h
    rw [m'.publicText_eq, m.publicText_eq, h]

/-- A field without arguments. -/
def Field.plain (name type : String) (directives : List Directive) : Field where
  name := name
  description := none
  arguments := []
  type := type
  directives := directives

/-- An object type without interfaces. -/
def TypeDefinition.objectOf (name : String) (directives : List Directive) (fields : List Field) :
    TypeDefinition where
  name := name
  description := none
  directives := directives
  body := .object [] fields

/-- A shop with audits. Entries have nothing accessible, so audits have nothing visible either. -/
def Model.shop : Model where
  links := [{ url := "https://specs.apollo.dev/link/v1.0" }]
  graphs := [{ name := "a", enumValue := "A", url := none }]
  roots := { query := some "Query" }
  types :=
    [.objectOf "Query" [{ name := "join__type", arguments := [("graph", .enum "A")] }]
        [.plain "products" "[Product!]!" [], .plain "audits" "[Audit!]!" []],
      .objectOf "Product" []
        [.plain "id" "ID!" [], .plain "sku" "ID" [{ name := "deprecated" }, { name := "tag" }]],
      .objectOf "Audit" [] [.plain "entries" "[Entry!]" []],
      .objectOf "Entry" [] [.plain "text" "String" [.inaccessible]]]

/-- A shop that never had audits. -/
def Model.shopFront : Model where
  links := []
  graphs := []
  roots := {}
  types :=
    [.objectOf "Query" [] [.plain "products" "[Product!]!" []],
      .objectOf "Product" [] [.plain "id" "ID!" [], .plain "sku" "ID" [{ name := "deprecated" }]]]

/-- Clients cannot tell whether the shop has audits. -/
theorem hidden_parts_do_not_show_of_shop :
    Model.shop.types.length = 4 ∧ Model.shopFront.types.length = 2 ∧
      Model.shopFront.strip.types = Model.shop.strip.types ∧
      Model.shopFront.publicText = Model.shop.publicText :=
  have hstrip : Model.shopFront.strip.types = Model.shop.strip.types := by cbv
  ⟨rfl, rfl, hstrip, (hidden_parts_do_not_show .shop).2.2 .shopFront hstrip⟩

end Federation.Supergraph
