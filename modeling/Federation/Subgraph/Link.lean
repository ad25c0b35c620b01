import Federation.Url

/-!
# Links

A schema links specifications by their URL and may import names from them, perhaps under other
names. A schema that links no federation specification is of the first version of federation.
-/

namespace Federation

/-! ## Versions -/

/-- The version of federation that a subgraph is written for. -/
inductive FederationVersion where
  | v1
  | v2 (minor : Nat)
deriving DecidableEq, Repr, Inhabited

namespace FederationVersion

/-- The subgraph is written for the first version. -/
def isV1 : FederationVersion → Bool
  | .v1 => true
  | .v2 _ => false

/-- A minor version is a number of 16 bits, perhaps with a plus sign. -/
def readMinor? (cs : List Char) : Option Nat :=
  let ds := match cs with
    | '+' :: ds => ds
    | ds => ds
  if ds.isEmpty || !ds.all Char.isDigit then none
  else if Number.ofDigits ds < 65536 then some (Number.ofDigits ds) else none

/-- The version that the last segment of a federation URL names, such as `v2.3`. -/
def ofSegment? (segment : String) : Option FederationVersion :=
  match segment.toList with
  | 'v' :: rest =>
    match rest.dropWhile (· != '.') with
    | '.' :: minor =>
      match String.ofList (rest.takeWhile (· != '.')), readMinor? minor with
      | "1", some _ => some .v1
      | "2", some minor => some (.v2 minor)
      | _, _ => none
    | _ => none
  | _ => none

end FederationVersion

/-! ## Specifications -/

/-- The specifications whose directives have a meaning. -/
inductive Spec where
  | federation | link | tag | inaccessible | authenticated | requiresScopes | policy | cost | other
deriving DecidableEq, Repr, Inhabited

/-- The specification of a name. -/
def Spec.ofName : String → Spec
  | "federation" => .federation
  | "link" => .link
  | "tag" => .tag
  | "inaccessible" => .inaccessible
  | "authenticated" => .authenticated
  | "requiresScopes" => .requiresScopes
  | "policy" => .policy
  | "cost" => .cost
  | _ => .other

/-- A URL that names a specification and its version, as its last two path segments. -/
structure SpecUrl where
  name : String
  version : String
deriving DecidableEq, Repr

/-- The specification that a URL names; its version starts with `v`. -/
def SpecUrl.read? (url : String) : Option SpecUrl := do
  let segments ← Url.pathSegments? url
  match segments.reverse with
  | version :: name :: _ =>
    if version.toList.head? == some 'v' then some { name := name, version := version } else none
  | _ => none

/-! ## Linked schemas -/

/-- A specification that a schema links. -/
structure Link where
  url : String
  spec : Spec
  /-- What stands in front of two underscores in the names of its directives. -/
  nameSpace : String
deriving DecidableEq, Repr, Inhabited

/-- A name that a schema imports from a specification. -/
structure Import where
  spec : Spec
  /-- What the specification calls it, without the sign of a directive. -/
  specName : String
  isDirective : Bool
deriving DecidableEq, Repr, Inhabited

/-- A name without the signs that mark it as a directive. -/
def withoutAtSign (name : String) : String :=
  String.ofList (name.toList.dropWhile (· == '@'))

/-- A name with the sign that marks it as a directive. -/
def hasAtSign (name : String) : Bool :=
  name.toList.head? == some '@'

end Federation
