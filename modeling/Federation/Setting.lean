import Federation.Number.Shortest
import Federation.Unicode.Printable

/-!
# Settings

Options and filters come from configuration files. A setting is what such a file holds at one place;
reading it fails with the cause when it is not of the form that is asked for.
-/

namespace Federation

/-- A value in a configuration file. Entries of a table have different names. -/
inductive Setting where
  | null
  | boolean (value : Bool)
  | integer (value : Int)
  /-- A number that is not written as an integer, or is too large for one of 64 bits. -/
  | double (value : Number.Binary64)
  | text (value : String)
  | list (items : List Setting)
  | table (entries : List (String × Setting))
deriving Repr, Inhabited

namespace Setting

/-! ## Describing -/

/-- The hexadecimal digits of a number, without leading zeros. -/
def hexDigits (n : Nat) : String :=
  String.ofList (Nat.toDigits 16 n)

/-- One character of a quoted text. -/
def describeChar (c : Char) : String :=
  if c = '\"' then "\\\""
  else if c = '\\' then "\\\\"
  else if c = '\n' then "\\n"
  else if c = '\r' then "\\r"
  else if c = '\t' then "\\t"
  else if c.toNat = 0 then "\\0"
  else if Unicode.isPrintable c then c.toString
  else "\\u\x7b" ++ hexDigits c.toNat ++ "\x7d"

/-- The text of a double, with a fraction that may be zero. -/
def describeDouble (x : Number.Binary64) : String :=
  if x.magnitude == .infinite || x.text.toList.contains '.' then x.text else x.text ++ ".0"

/-- What is found in place of something else. -/
def describe : Setting → String
  | .null => "null"
  | .boolean value => "boolean `" ++ toString value ++ "`"
  | .integer value => "integer `" ++ toString value ++ "`"
  | .double value => "floating point `" ++ describeDouble value ++ "`"
  | .text value => "string \"" ++ String.join (value.toList.map describeChar) ++ "\""
  | .list _ => "sequence"
  | .table _ => "map"

end Setting

/-! ## Errors -/

/-- Why a setting cannot be read. -/
inductive SettingError where
  | unknownField (name : String) (expected : List String)
  | wrongType (found : Setting) (expected : String)
  | tooLong (length : Nat)

/-- The cause in words. -/
def SettingError.message : SettingError → String
  | .unknownField name expected =>
    let choices := " or ".intercalate (expected.map fun field => "`" ++ field ++ "`")
    "unknown field `" ++ name ++ "`, expected " ++ choices
  | .wrongType found expected => "invalid type: " ++ found.describe ++ ", expected " ++ expected
  | .tooLong length =>
    "invalid length " ++ toString length ++ ", expected fewer elements in array"

namespace Setting

/-! ## Reading -/

/-- Reads a truth value. -/
def asBool : Setting → Except SettingError Bool
  | .boolean value => .ok value
  | found => .error (.wrongType found "a boolean")

/-- Reads a text. -/
def asText : Setting → Except SettingError String
  | .text value => .ok value
  | found => .error (.wrongType found "a string")

/-- Reads a list of texts. -/
def asTexts : Setting → Except SettingError (List String)
  | .list items => items.mapM asText
  | found => .error (.wrongType found "a sequence")

/-- A named part of a record: how a setting changes it. -/
structure Part (α : Type) where
  name : String
  update : Setting → α → Except SettingError α

/-- Changes the part of a name. -/
def setPart {α : Type} (parts : List (Part α)) (record : α) (entry : String × Setting) :
    Except SettingError α :=
  match parts.find? fun part => part.name == entry.1 with
  | some part => part.update entry.2 record
  | none => .error (.unknownField entry.1 (parts.map Part.name))

/-- Changes the first parts in their order. -/
def setParts {α : Type} (parts : List (Part α)) (record : α) (items : List Setting) :
    Except SettingError α :=
  (parts.zip items).foldlM (fun record entry => entry.1.update entry.2 record) record

/-- Reads a record from a table of named parts, or from a list of its first parts. What is not
mentioned stays as it is by default. -/
def asRecord {α : Type} (typeName : String) (parts : List (Part α)) (default : α) :
    Setting → Except SettingError α
  | .table entries => entries.foldlM (setPart parts) default
  | .list items => do
    let record ← setParts parts default items
    if parts.length < items.length then .error (.tooLong items.length) else .ok record
  | found => .error (.wrongType found ("struct " ++ typeName))

end Setting

end Federation
