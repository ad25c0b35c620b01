import Federation.Supergraph.Render

/-!
# Tag filters

A contract shows part of a supergraph, chosen by tags. What carries an excluded tag is hidden. If
tags are included, only what carries one of them stays: a type with such a tag keeps all its parts,
any other type only its parts with such a tag. Hiding marks an element as inaccessible.
-/

namespace Federation.Supergraph

/-- The tags to show and the tags to hide. -/
structure TagFilter where
  included : List String := []
  excluded : List String := []
deriving DecidableEq, Repr, Inhabited

namespace TagFilter

/-! ## Single elements -/

/-- The element carries an excluded tag. -/
def excludes (f : TagFilter) (directives : List Directive) : Bool :=
  (tagsOf directives).any f.excluded.contains

/-- The element carries an included tag. -/
def includes (f : TagFilter) (directives : List Directive) : Bool :=
  (tagsOf directives).any f.included.contains

/-- A part of a type stays visible. -/
def keeps (f : TagFilter) (typeIncluded : Bool) (directives : List Directive) : Bool :=
  !isHidden directives && !f.excludes directives &&
    (f.included.isEmpty || typeIncluded || f.includes directives)

/-- The element becomes inaccessible, if it is not so yet. -/
def hide (directives : List Directive) : List Directive :=
  if isHidden directives then directives else directives ++ [.inaccessible]

/-- The element becomes inaccessible unless it is kept. -/
def hideUnless (kept : Bool) (directives : List Directive) : List Directive :=
  if kept then directives else hide directives

theorem isHidden_hide (directives : List Directive) : isHidden (hide directives) = true := by
  unfold hide
  split
  · assumption
  · simp [isHidden, Directive.isInaccessible, Directive.inaccessible]

theorem hide_hide (directives : List Directive) : hide (hide directives) = hide directives := by
  rw [hide, if_pos (isHidden_hide directives)]

/-! ## Types -/

/-- An argument is hidden only when it carries an excluded tag. -/
def applyToArgument (f : TagFilter) (i : Input) : Input :=
  { i with directives := hideUnless (!f.excludes i.directives) i.directives }

/-- Hides an output field unless it is kept, and its excluded arguments. -/
def applyToField (f : TagFilter) (typeIncluded : Bool) (field : Field) : Field :=
  { field with
    arguments := field.arguments.map f.applyToArgument
    directives := hideUnless (f.keeps typeIncluded field.directives) field.directives }

/-- Hides an input field unless it is kept. -/
def applyToInput (f : TagFilter) (typeIncluded : Bool) (i : Input) : Input :=
  { i with directives := hideUnless (f.keeps typeIncluded i.directives) i.directives }

/-- Hides a value of an enum type unless it is kept. -/
def applyToValue (f : TagFilter) (typeIncluded : Bool) (v : EnumValue) : EnumValue :=
  { v with directives := hideUnless (f.keeps typeIncluded v.directives) v.directives }

/-- Hides the parts of a type that are not kept. -/
def applyToBody (f : TagFilter) (typeIncluded : Bool) : Body → Body
  | .object interfaces fields => .object interfaces (fields.map (f.applyToField typeIncluded))
  | .interface interfaces fields => .interface interfaces (fields.map (f.applyToField typeIncluded))
  | .inputObject fields => .inputObject (fields.map (f.applyToInput typeIncluded))
  | .enum values => .enum (values.map (f.applyToValue typeIncluded))
  | .union members => .union members
  | .scalar => .scalar

/-- No part of a type is kept. Unions and scalars do not depend on their parts. -/
def empties (f : TagFilter) (typeIncluded : Bool) : Body → Bool
  | .object _ fields | .interface _ fields =>
    fields.all fun field => !f.keeps typeIncluded field.directives
  | .inputObject fields => fields.all fun i => !f.keeps typeIncluded i.directives
  | .enum values => values.all fun v => !f.keeps typeIncluded v.directives
  | .union _ | .scalar => false

/-- Hides what the filter does not show of a type. -/
def applyToType (f : TagFilter) (d : TypeDefinition) : TypeDefinition :=
  let typeIncluded := f.includes d.directives
  { d with
    directives :=
      hideUnless (!f.excludes d.directives && !f.empties typeIncluded d.body) d.directives
    body := f.applyToBody typeIncluded d.body }

/-! ## Models -/

/-- The number of inaccessible elements of a type, with itself. -/
def hiddenCount (d : TypeDefinition) : Nat :=
  let count (elements : List (List Directive)) : Nat := elements.countP isHidden
  let inBody : Nat :=
    match d.body with
    | .object _ fields | .interface _ fields =>
      count (fields.flatMap fun f => f.directives :: f.arguments.map Input.directives)
    | .inputObject fields => count (fields.map Input.directives)
    | .enum values => count (values.map EnumValue.directives)
    | .union _ | .scalar => 0
  count [d.directives] + inBody

/-- The link of the specification of inaccessible elements. -/
def inaccessibleLink : Link :=
  { url := "https://specs.apollo.dev/inaccessible/v0.2", purpose := some "SECURITY" }

/-- Hides what the filter does not show of all types. -/
def applyToTypes (f : TagFilter) (m : Model) : List TypeDefinition :=
  m.types.map f.applyToType

/-- The number of hidden elements of some types. -/
def totalHidden (types : List TypeDefinition) : Nat :=
  types.foldl (fun n d => n + hiddenCount d) 0

/-- Something is hidden by the filter that is not hidden yet. -/
def hidesMore (f : TagFilter) (m : Model) : Bool :=
  totalHidden m.types < totalHidden (f.applyToTypes m)

/-- Hides what the filter does not show. A model in which something was hidden links the
specification of inaccessible elements. -/
def apply (f : TagFilter) (m : Model) : Model :=
  let isLinked := m.links.any fun l => l.url == inaccessibleLink.url
  { m with
    types := f.applyToTypes m
    links := if f.hidesMore m && !isLinked then m.links ++ [inaccessibleLink] else m.links }

/-- The API schema of a contract. -/
def contractText (f : TagFilter) (m : Model) : String :=
  (f.apply m).publicText

end TagFilter

end Federation.Supergraph
