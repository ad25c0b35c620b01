import Federation.Subgraph.Basic

/-!
# Roles of directives

A directive plays a role in composition if its name leads to a known directive of a specification:
through an import, through the name space of a link, or, in the first version of federation, as it
stands.
-/

namespace Federation

/-- The directives that mean something to composition. -/
inductive DirectiveRole where
  | authenticated | cost | deprecated | extended | external | inaccessible | interfaceObject | key
  | listSize | override | policy | provides | requires | requiresScopes | shareable | tag
deriving DecidableEq, Repr

namespace DirectiveRole

/-- The federation directive of a name. -/
def ofFederationName? : String → Option DirectiveRole
  | "authenticated" => some .authenticated
  | "cost" => some .cost
  | "extends" => some .extended
  | "external" => some .external
  | "inaccessible" => some .inaccessible
  | "interfaceObject" => some .interfaceObject
  | "key" => some .key
  | "listSize" => some .listSize
  | "override" => some .override
  | "policy" => some .policy
  | "provides" => some .provides
  | "requires" => some .requires
  | "requiresScopes" => some .requiresScopes
  | "shareable" => some .shareable
  | "tag" => some .tag
  | _ => none

/-- The directive of a name in a specification. -/
def ofSpecName? (spec : Spec) (name : String) : Option DirectiveRole :=
  match spec, name with
  | .federation, name => ofFederationName? name
  | .tag, "tag" => some .tag
  | .inaccessible, "inaccessible" => some .inaccessible
  | .authenticated, "authenticated" => some .authenticated
  | .requiresScopes, "requiresScopes" => some .requiresScopes
  | .policy, "policy" => some .policy
  | .cost, "cost" => some .cost
  | .cost, "listSize" => some .listSize
  | _, _ => none

/-- Splits a name at its first two underscores. -/
def splitNameSpace? : List Char → Option (List Char × List Char)
  | '_' :: '_' :: rest => some ([], rest)
  | c :: rest => (splitNameSpace? rest).map fun (front, back) => (c :: front, back)
  | [] => none

/-- A name with a name space, resolved through the link that has it. -/
def ofQualifiedName? (s : Subgraph) (name : String) : Option (Option DirectiveRole) := do
  let (nameSpace, directive) ← splitNameSpace? name.toList
  let link ← s.linkOf? (String.ofList nameSpace)
  return ofSpecName? link.spec (String.ofList directive)

/-- The role of a directive in a subgraph. Imports come first, then name spaces; a name that neither
explains means something only in the first version of federation. -/
def resolve? (s : Subgraph) (name : String) : Option DirectiveRole :=
  if name = "deprecated" then some .deprecated
  else
    match s.import? name with
    | some found => if found.isDirective then ofSpecName? found.spec found.specName else none
    | none =>
      match ofQualifiedName? s name with
      | some role => role
      | none => if s.version.isV1 then ofFederationName? name else none

end DirectiveRole

end Federation
