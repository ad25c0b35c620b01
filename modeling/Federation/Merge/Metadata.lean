import Federation.Access
import Federation.Ingestion.Directives

/-!
# Metadata

What the subgraphs agree on for one element: its description, tags, visibility, access requirements,
cost and deprecation. Each subgraph adds to it, and nothing that one subgraph says is undone by
another.
-/

namespace Federation

/-- The access requirements that the directives of an element state. -/
def AccessRequirements.ofAttributes (a : Attributes) : AccessRequirements where
  authenticated := a.isAuthenticated
  policies := Groups.conjunction a.policies []
  scopes := Groups.conjunction a.scopes []

/-- What the subgraphs agree on for an element. -/
structure Metadata where
  /-- The first description that is not empty. -/
  description : Option String := none
  tags : List String := []
  isInaccessible : Bool := false
  access : AccessRequirements := {}
  /-- The highest weight. -/
  cost : Option Int := none
  /-- The first deprecation. -/
  deprecation : Option Deprecation := none
deriving Inhabited

/-- The larger of two numbers, or the one there is. -/
def larger? (a b : Option Int) : Option Int :=
  match a, b with
  | some a, some b => some (max a b)
  | a, b => a.or b

/-- Adds what one subgraph says about the element. -/
def Metadata.absorb (m : Metadata) (a : Attributes) (description : Option String) : Metadata where
  description := m.description.or (description.filter fun text => !text.isEmpty)
  tags := a.tags.foldl Attributes.addNew m.tags
  isInaccessible := m.isInaccessible || a.isInaccessible
  access := m.access.conjunction (.ofAttributes a)
  cost := larger? m.cost a.cost
  deprecation := m.deprecation.or a.deprecation

end Federation
