import Federation.Subgraph.Basic

/-!
# Taking in a schema

A schema is taken in step by step. Each step may mention texts, change the subgraph that is being
built, and report problems; it never touches other subgraphs.
-/

namespace Federation

/-- A subgraph in the making. -/
structure Progress where
  names : NameTable
  subgraph : Subgraph
  /-- Something in the schema is too large to be held. -/
  isBeyondLimit : Bool := false

/-- A step of taking in a schema. -/
abbrev Ingestion (α : Type) : Type := StateM Progress α

namespace Ingestion

/-- Mentions a text. -/
def mention (text : String) : Ingestion Unit :=
  modify fun p => { p with names := p.names.mention text }

/-- Mentions a text if there is one. -/
def mentionOptional (text : Option String) : Ingestion Unit :=
  match text with
  | some text => mention text
  | none => return ()

/-- Mentions texts one after the other. -/
def mentionAll (texts : List String) : Ingestion Unit :=
  modify fun p => { p with names := p.names.mentionAll texts }

/-- The subgraph as built so far. -/
def subgraph : Ingestion Subgraph :=
  return (← get).subgraph

/-- Changes the subgraph. -/
def modifySubgraph (f : Subgraph → Subgraph) : Ingestion Unit :=
  modify fun p => { p with subgraph := f p.subgraph }

/-- Changes the type of a name. -/
def modifyDefinition (name : String) (f : TypeDef → TypeDef) : Ingestion Unit :=
  modifySubgraph fun s => s.modifyDefinition name f

/-- Reports an error about the subgraph, whose name stands in front of the message. -/
def report (code : ErrorCode) (message : String) : Ingestion Unit :=
  modifySubgraph fun s =>
    { s with diagnostics := s.diagnostics ++ [.error code s!"[{s.name}] {message}"] }

/-- Notes that directives of some features are applied. -/
def useFeatures (features : Features) : Ingestion Unit :=
  modifySubgraph fun s => { s with features := s.features.union features }

/-- Notes that something is too large to be held. -/
def passLimit : Ingestion Unit :=
  modify fun p => { p with isBeyondLimit := true }

/-- Takes in a description, whose text is mentioned. -/
def describe (description : Option Document.Description) : Ingestion (Option String) := do
  match description with
  | none => return none
  | some description =>
    match description.text? with
    | none =>
      passLimit
      return none
    | some text =>
      mention text
      return some text

/-- Mentions the name of a type reference, which may not have too many list levels. -/
def mentionType (type : TypeRef) : Ingestion Unit := do
  if TypeRef.maxListLevels < type.wrapping.lists.length then passLimit
  mention type.name

/-- Reads a field set. -/
def readFieldSet (text : String) : Ingestion (Except FieldSetError SelectionSet) := do
  let p ← get
  let (result, names) := (SelectionSet.read text).run.run p.names
  set { p with names }
  if let .error .beyondLimit := result then passLimit
  return result

end Ingestion

end Federation
