import Federation.Document.Literal
import Federation.Subgraph.Attributes

/-!
# Arguments of directives

Three directives take typed arguments. Their arguments are read in the order they are written, and
the first fault is the one that is reported; only an argument that is missing comes after all
others.
-/

namespace Federation

open Document (Literal)

/-! ## Faults -/

/-- What can be wrong with the arguments of a directive. -/
inductive ArgumentError where
  | wrongType (found expected : String)
  | unknown (name : String)
  | duplicate (name : String)
  | missing (name : String)
  | belowZero (value : Int)
  | tooLarge (value : Int)
deriving DecidableEq, Repr

/-- The fault in words. -/
def ArgumentError.message : ArgumentError → String
  | .wrongType found expected => s!"found a {found} where we expected a {expected}"
  | .unknown name => s!"unknown field: {name}"
  | .duplicate name => s!"duplicate field: {name}"
  | .missing name => s!"missing field: {name}"
  | .belowZero value => s!"integer was less than zero: {value}"
  | .tooLarge value => s!"integer was too large: {value}"

/-- The kind of a literal in words. -/
def literalKind : Literal → String
  | .null => "Null"
  | .int _ => "Int"
  | .float _ => "Float"
  | .string _ => "String"
  | .boolean _ => "Boolean"
  | .enum _ => "Enum"
  | .list _ => "List"
  | .object _ => "Object"
  | .variable _ => "Variable"

/-! ## Typed values -/

/-- Reads a typed value. -/
abbrev ArgumentReader (α : Type) : Type := Literal → Except ArgumentError α

namespace ArgumentReader

/-- A string. -/
def string : ArgumentReader String
  | .string s => .ok s
  | found => .error (.wrongType (literalKind found) "String")

/-- A truth value. -/
def boolean : ArgumentReader Bool
  | .boolean b => .ok b
  | found => .error (.wrongType (literalKind found) "Boolean")

/-- The number of values of 32 bits. -/
def wordCount : Nat := 4294967296

/-- An integer, of which the low 32 bits count. -/
def int32 : ArgumentReader Int
  | .int n => .ok (n.bmod wordCount)
  | found => .error (.wrongType (literalKind found) "Int")

/-- A natural number of at most 32 bits. -/
def nat32 : ArgumentReader Nat
  | .int n =>
    if n < 0 then .error (.belowZero n)
    else if wordCount ≤ n then .error (.tooLarge n)
    else .ok n.toNat
  | found => .error (.wrongType (literalKind found) "Int")

/-- A value or nothing. -/
def optional {α : Type} (reader : ArgumentReader α) : ArgumentReader (Option α)
  | .null => .ok none
  | found => (reader found).map some

/-- A list of strings; one string alone also counts as a list. -/
def strings : ArgumentReader (List String)
  | .list items => items.mapM string
  | .string s => .ok [s]
  | found => .error (.wrongType (literalKind found) "List")

end ArgumentReader

/-! ## Typed directives -/

/-- Reads an argument into its place, which has to be empty. -/
def fillOnce {α : Type} (name : String) (place : Option α) (reader : ArgumentReader α)
    (literal : Literal) : Except ArgumentError (Option α) := do
  if place.isSome then throw (.duplicate name)
  return some (← reader literal)

/-- Reads the arguments of `@cost`, which give its weight. -/
def readCost (arguments : List (String × Literal)) : Except ArgumentError Int := do
  let weight ← arguments.foldlM (fun weight (name, literal) =>
    match name with
    | "weight" => fillOnce name weight .int32 literal
    | _ => throw (.unknown name)) none
  match weight with
  | some weight => return weight
  | none => throw (.missing "weight")

/-- Reads the arguments of `@deprecated`, which may give a reason. -/
def readDeprecation (arguments : List (String × Literal)) : Except ArgumentError Deprecation := do
  let reason ← arguments.foldlM (fun reason (name, literal) =>
    match name with
    | "reason" => fillOnce name reason (.optional .string) literal
    | _ => throw (.unknown name)) none
  return { reason := reason.join }

/-- The arguments of `@listSize` read so far. -/
structure ListSizeArguments where
  assumedSize : Option (Option Nat) := none
  slicingArguments : Option (List String) := none
  sizedFields : Option (List String) := none
  requireOneSlicingArgument : Option Bool := none

/-- Reads one argument of `@listSize`. -/
def ListSizeArguments.read (a : ListSizeArguments) (name : String) (literal : Literal) :
    Except ArgumentError ListSizeArguments :=
  match name with
  | "assumedSize" =>
    return { a with assumedSize := ← fillOnce name a.assumedSize (.optional .nat32) literal }
  | "slicingArguments" =>
    return { a with slicingArguments := ← fillOnce name a.slicingArguments .strings literal }
  | "sizedFields" =>
    return { a with sizedFields := ← fillOnce name a.sizedFields .strings literal }
  | "requireOneSlicingArgument" =>
    return { a with
      requireOneSlicingArgument := ← fillOnce name a.requireOneSlicingArgument .boolean literal }
  | _ => throw (.unknown name)

/-- Reads the arguments of `@listSize`, all of which may be left out. -/
def readListSize (arguments : List (String × Literal)) : Except ArgumentError ListSize := do
  let a ← arguments.foldlM (fun a (name, literal) => a.read name literal) ({} : ListSizeArguments)
  return {
    assumedSize := a.assumedSize.join
    slicingArguments := a.slicingArguments.getD []
    sizedFields := a.sizedFields.getD []
    requireOneSlicingArgument := a.requireOneSlicingArgument.getD true }

end Federation
