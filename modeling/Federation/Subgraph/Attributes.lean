import Federation.Selection

/-!
# Attributes

What the directives on a type, field, argument or enum value say about it, as far as composition
cares.
-/

namespace Federation

/-- `@listSize`: what is known about the length of a list field. -/
structure ListSize where
  assumedSize : Option Nat
  slicingArguments : List String
  sizedFields : List String
  requireOneSlicingArgument : Bool
deriving DecidableEq, Repr

/-- `@override`: the field moves here from another subgraph. With a label it moves only while the
label is active. -/
structure Override where
  source : String
  label : Option String
deriving DecidableEq, Repr

/-- `@deprecated`, perhaps with a reason. -/
structure Deprecation where
  reason : Option String
deriving DecidableEq, Repr

/-- Everything that the directives on one element say. -/
structure Attributes where
  isExternal : Bool := false
  isShareable : Bool := false
  isInaccessible : Bool := false
  isAuthenticated : Bool := false
  isInterfaceObject : Bool := false
  isExtended : Bool := false
  /-- Tag names, each once. -/
  tags : List String := []
  /-- Any of the groups, all policies of a group. -/
  policies : List (List String) := []
  /-- Any of the groups, all scopes of a group. -/
  scopes : List (List String) := []
  cost : Option Int := none
  listSize : Option ListSize := none
  override : Option Override := none
  requires : Option SelectionSet := none
  provides : Option SelectionSet := none
  deprecation : Option Deprecation := none
deriving Inhabited

namespace Attributes

/-- The access directives that are present. -/
def accessDirectives (a : Attributes) : List String :=
  (if a.isAuthenticated then ["@authenticated"] else []) ++
    (if a.scopes.isEmpty then [] else ["@requiresScopes"]) ++
    (if a.policies.isEmpty then [] else ["@policy"])

end Attributes

/-! ## Features -/

/-- The specifications whose directives are applied somewhere. -/
structure Features where
  tag : Bool := false
  inaccessible : Bool := false
  authenticated : Bool := false
  policy : Bool := false
  requiresScopes : Bool := false
  cost : Bool := false
deriving DecidableEq, Repr, Inhabited

/-- The features of either side. -/
def Features.union (a b : Features) : Features where
  tag := a.tag || b.tag
  inaccessible := a.inaccessible || b.inaccessible
  authenticated := a.authenticated || b.authenticated
  policy := a.policy || b.policy
  requiresScopes := a.requiresScopes || b.requiresScopes
  cost := a.cost || b.cost

end Federation
