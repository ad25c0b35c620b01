import Federation.Merge.Field

/-!
# Plain elements

Elements of a schema that carry no description, no default value and no directives but those that
are named.
-/

namespace Federation

/-- A field without arguments. -/
def Field.plain (name : String) (type : TypeRef) (isShareable : Bool := false) : Field where
  name
  type
  description := none
  attributes := { isShareable }
  inExtension := false

/-- A shareable field without arguments, ready to be merged. -/
def FieldInGraph.plain (name : String) (type : TypeRef) : FieldInGraph where
  definition := Field.plain name type true
  isExternal := false
  isShareable := true
  requires := none
  provides := none

/-- An argument or input field, ready to be merged. -/
def InputInGraph.plain (name : String) (type : TypeRef) : InputInGraph where
  name
  type
  description := none
  attributes := {}
  defaultValue := none

/-- An object type without keys. -/
def TypeDef.plainObject (name : String) (fields : List Field) : TypeDef where
  name
  kind := .object
  description := none
  isExtension := false
  fields

/-- A union type. -/
def TypeDef.plainUnion (name : String) (members : List String) : TypeDef where
  name
  kind := .union
  description := none
  isExtension := false
  members

/-- A subgraph of version 2.3 whose queries start at `Query`, if it defines this type. -/
def Subgraph.plain (name : String) (definitions : List TypeDef) : Subgraph where
  name
  enumValue := name
  url := none
  version := .v2 3
  roots := { query := (definitions.map TypeDef.name).find? fun name => name == "Query" }
  definitions

end Federation
