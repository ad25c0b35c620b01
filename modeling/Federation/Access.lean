/-!
# Access requirements

A requirement on scopes or policies is a list of groups, one of which has to be granted as a whole;
an empty list requires nothing. The conjunction of two requirements has a canonical form: groups
without repetitions, none of which contains another, in order.
-/

namespace Federation

/-- Names that have to be granted together. -/
abbrev Group : Type := List String

namespace Group

/-! ## Groups as ordered sets -/

/-- Adds a name to an ordered group, unless it is there. -/
def insert (name : String) : Group → Group
  | [] => [name]
  | first :: others =>
    if name < first then name :: first :: others
    else if name = first then first :: others
    else first :: insert name others

/-- The names in order, each once. -/
def normalize (names : Group) : Group :=
  names.foldr insert []

/-- The names of both groups. -/
def union (a b : Group) : Group :=
  a.foldr insert b

/-- All names of the first group are in the second. -/
def isSubset (a b : Group) : Bool :=
  a.all b.contains

/-- Shorter groups come first, and equally long ones in the order of their names. -/
def sizeLe (a b : Group) : Bool :=
  a.length < b.length || (a.length == b.length && !decide (b < a))

/-- The order of the names decides. -/
def nameLe (a b : Group) : Bool :=
  !decide (b < a)

theorem mem_insert {x name : String} {g : Group} : x ∈ insert name g ↔ x = name ∨ x ∈ g := by
  induction g with
  | nil => simp [insert]
  | cons first others ih => grind [insert]

theorem mem_normalize {x : String} {names : Group} : x ∈ normalize names ↔ x ∈ names := by
  induction names with
  | nil => simp [normalize]
  | cons first others ih =>
    rw [show normalize (first :: others) = insert first (normalize others) from rfl, mem_insert, ih,
      List.mem_cons]

theorem mem_union {x : String} {a b : Group} : x ∈ union a b ↔ x ∈ a ∨ x ∈ b := by
  induction a with
  | nil => simp [union]
  | cons first others ih =>
    rw [show union (first :: others) b = insert first (union others b) from rfl, mem_insert, ih,
      List.mem_cons, or_assoc]

end Group

/-! ## Conjunction -/

namespace Groups

/-- Every group of one list together with every group of the other. A list without groups requires
nothing, so that the other one stays alone. -/
def pairwise (left right : List Group) : List Group :=
  if left.isEmpty then right
  else if right.isEmpty then left
  else left.flatMap fun l => right.map fun r => l.union r

/-- Keeps a group unless one that is kept already asks for less. -/
def keepMinimal (kept : List Group) (group : Group) : List Group :=
  if kept.any fun smaller => smaller.isSubset group then kept else kept ++ [group]

/-- The groups that contain no other group, in order. -/
def minimal (groups : List Group) : List Group :=
  ((groups.mergeSort Group.sizeLe).foldl keepMinimal []).mergeSort Group.nameLe

/-- Both requirements at once, in canonical form. -/
def conjunction (left right : List Group) : List Group :=
  minimal (pairwise (left.map Group.normalize) (right.map Group.normalize))

/-- Every group of the provided requirement contains a group of the required one. -/
def imply (provided required : List Group) : Bool :=
  required.isEmpty ||
    (!provided.isEmpty && provided.all fun p => required.any fun r => r.isSubset p)

end Groups

/-! ## Requirements -/

/-- What a client has to be granted to use an element of the schema. -/
structure AccessRequirements where
  authenticated : Bool := false
  policies : List Group := []
  scopes : List Group := []
deriving DecidableEq, Repr, Inhabited

namespace AccessRequirements

/-- Both requirements at once. -/
def conjunction (a b : AccessRequirements) : AccessRequirements where
  authenticated := a.authenticated || b.authenticated
  policies := Groups.conjunction a.policies b.policies
  scopes := Groups.conjunction a.scopes b.scopes

/-- A client that meets the first requirement meets the second. -/
def satisfies (provided required : AccessRequirements) : Bool :=
  (!required.authenticated || provided.authenticated) &&
    Groups.imply provided.policies required.policies &&
    Groups.imply provided.scopes required.scopes

end AccessRequirements

/-! ## Grants -/

/-- What a client has been granted: any sets of policies and scopes. -/
structure Grant where
  authenticated : Bool
  policies : String → Prop
  scopes : String → Prop

/-- Some group has been granted as a whole, if there are groups. -/
def Groups.Met (granted : String → Prop) (groups : List Group) : Prop :=
  groups = [] ∨ ∃ group ∈ groups, ∀ name ∈ group, granted name

/-- The grant meets a requirement. -/
def Grant.Meets (g : Grant) (r : AccessRequirements) : Prop :=
  (r.authenticated = true → g.authenticated = true) ∧
    Groups.Met g.policies r.policies ∧ Groups.Met g.scopes r.scopes

end Federation
