import Federation.Document.Literal
import Federation.Number.Shortest

/-!
# Constant values

A value without variables: a default value, or an argument in a field set.
-/

namespace Federation

/-- A constant value. -/
inductive Value where
  | null
  | int (value : Int)
  | float (value : Number.Binary64)
  | string (value : String)
  | boolean (value : Bool)
  | enum (name : String)
  | list (items : List Value)
  | object (fields : List (String × Value))
deriving Repr, Inhabited

namespace Value

/-! ## From literals -/

mutual

/-- The value that a literal writes, unless it holds a variable. -/
def ofLiteral? : Document.Literal → Option Value
  | .null => some .null
  | .int n => some (.int n)
  | .float x => some (.float x)
  | .string s => some (.string s)
  | .boolean b => some (.boolean b)
  | .enum name => some (.enum name)
  | .list items => (ofLiterals? items).map .list
  | .object fields => (ofFields? fields).map .object
  | .variable _ => none

/-- The values that literals write. -/
def ofLiterals? : List Document.Literal → Option (List Value)
  | [] => some []
  | first :: others => do
    let first ← ofLiteral? first
    let others ← ofLiterals? others
    return first :: others

/-- The named values that named literals write. -/
def ofFields? : List (String × Document.Literal) → Option (List (String × Value))
  | [] => some []
  | (name, first) :: others => do
    let first ← ofLiteral? first
    let others ← ofFields? others
    return (name, first) :: others

end

/-! ## Texts in a value -/

mutual

/-- The texts that a value mentions, in order. -/
def mentions : Value → List String
  | .string s => [s]
  | .enum name => [name]
  | .list items => mentionsOfItems items
  | .object fields => mentionsOfFields fields
  | .null | .int _ | .float _ | .boolean _ => []

/-- The texts that the items of a list mention. -/
def mentionsOfItems : List Value → List String
  | [] => []
  | first :: others => mentions first ++ mentionsOfItems others

/-- The texts that the fields of an object mention, each name before its value. -/
def mentionsOfFields : List (String × Value) → List String
  | [] => []
  | (name, first) :: others => name :: mentions first ++ mentionsOfFields others

end

/-! ## Text -/

mutual

/-- A value as schemas write it. -/
def text : Value → String
  | .null => "null"
  | .int n => toString n
  | .float x => x.text
  | .string s => Text.quote s
  | .boolean true => "true"
  | .boolean false => "false"
  | .enum name => name
  | .list items => "[" ++ ", ".intercalate (itemTexts items) ++ "]"
  | .object fields => "\x7b" ++ ", ".intercalate (fieldTexts fields) ++ "\x7d"

/-- The texts of the items of a list. -/
def itemTexts : List Value → List String
  | [] => []
  | first :: others => text first :: itemTexts others

/-- The texts of the fields of an object. -/
def fieldTexts : List (String × Value) → List String
  | [] => []
  | (name, first) :: others => (name ++ ": " ++ text first) :: fieldTexts others

end

@[simp] theorem itemTexts_eq_map (items : List Value) : itemTexts items = items.map text := by
  induction items with
  | nil => simp [itemTexts]
  | cons first others ih => simp [itemTexts, ih]

end Value

end Federation
