import Federation.Ingestion.Types
import Federation.Ingestion.Usage

/-!
# Adding a subgraph

A schema document becomes the last subgraph of a set. Its name should be new; otherwise the subgraph
stays empty and the repetition is reported.
-/

namespace Federation

/-! ## Names in the enumeration of subgraphs -/

/-- The name in upper case, with an underscore for every character that is not an ASCII letter or
digit, and one in front of a digit. -/
def enumBase (name : String) : String :=
  let cs := name.toList.map fun c => if c.isAlphanum then c.toUpper else '_'
  match cs with
  | [] => "_"
  | c :: _ => String.ofList (if c.isDigit then '_' :: cs else cs)

/-- The base itself, then the base with the numbers from one up to a bound. -/
def enumCandidates (base : String) (bound : Nat) : List String :=
  base :: (List.range bound).map fun i => s!"{base}_{i + 1}"

/-- The first candidate that no other subgraph has. Among one candidate more than there are taken
values, one is free. -/
def freeEnumValue (taken : List String) (name : String) : String :=
  let base := enumBase name
  ((enumCandidates base taken.length).find? fun value => !taken.contains value).getD base

namespace SubgraphSet

/-- A subgraph of a name, before its schema is taken in, and the table that mentions it. -/
def start (set : SubgraphSet) (name : String) (url : Option String) : NameTable × Subgraph :=
  let enumValue := freeEnumValue (set.subgraphs.map Subgraph.enumValue) name
  let names := (set.names.mention name).mention enumValue
  let names := match url with
    | some url => names.mention url
    | none => names
  (names, { name := name, enumValue := enumValue, url := url })

/-- Takes in a whole schema. -/
def ingestSchema (schema : Document.Schema) : Ingestion Unit := do
  let roots ← ingestSchemaBlocks schema.schemaBlocks
  ingestTypeBlocks roots schema.typeBlocks

/-- The subgraph that a schema makes of an empty one, and the table that mentions its texts. -/
def build (schema : Document.Schema) (names : NameTable) (empty : Subgraph) : Progress :=
  let p := ((ingestSchema schema).run { names, subgraph := empty }).2
  { p with subgraph := (p.subgraph.withUsages).sorted p.names }

/-- Adds a schema document as a subgraph, unless something in it is too large to be held. -/
def add (set : SubgraphSet) (schema : Document.Schema) (name : String) (url : Option String) :
    Except Document.ReadError SubgraphSet :=
  let (names, empty) := set.start name url
  if set.hasName name then
    let repeated := Diagnostic.error .invalidSubgraphName
      s!"[{name}] A subgraph named \"{name}\" was already ingested."
    .ok { names, subgraphs := set.subgraphs ++ [{ empty with diagnostics := [repeated] }] }
  else
    let p := build schema names empty
    if p.isBeyondLimit then .error .beyondLimit
    else .ok { names := p.names, subgraphs := set.subgraphs ++ [p.subgraph] }

/-- Reads a schema document and adds it as a subgraph. -/
def addText (set : SubgraphSet) (text name : String) (url : Option String) :
    Except Document.ReadError SubgraphSet := do
  set.add (← Document.Schema.read text) name url

end SubgraphSet

end Federation
