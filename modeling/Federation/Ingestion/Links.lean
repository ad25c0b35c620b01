import Federation.Ingestion.Progress

/-!
# Schema blocks

Schema blocks come first: they choose the root types and link specifications.
-/

namespace Federation

open Document (Directive Literal)

/-! ## Root types -/

/-- How the name of an object type relates to the chosen root types. -/
inductive RootMatch where
  /-- The type is a root. -/
  | root (root : RootOperation)
  /-- The type has the usual name of a root, but another type is that root. -/
  | displaced
  | notRoot
deriving DecidableEq, Repr

namespace RootTypes

/-- The names that a schema block chooses. -/
def choose (r : RootTypes) (block : Document.SchemaBlock) : RootTypes where
  query := (block.root? .query).or r.query
  mutation := (block.root? .mutation).or r.mutation
  subscription := (block.root? .subscription).or r.subscription

/-- How a name relates to one kind of operation. -/
def matchOne? (r : RootTypes) (name : String) (root : RootOperation) : Option RootMatch :=
  match r.get root with
  | some custom =>
    if custom = name then some (.root root)
    else if name = root.typeName then some .displaced
    else none
  | none => if name = root.typeName then some (.root root) else none

/-- How a name relates to the root types. -/
def matchName (r : RootTypes) (name : String) : RootMatch :=
  (RootOperation.all.findSome? (r.matchOne? name)).getD .notRoot

/-- The name under which a type is composed: chosen root types get their usual names. -/
def canonicalName (r : RootTypes) (name : String) : String :=
  match RootOperation.all.find? fun root => r.get root == some name with
  | some root => root.typeName
  | none => name

@[simp] theorem canonicalName_default (name : String) :
    ({} : RootTypes).canonicalName name = name := by
  simp [canonicalName, RootOperation.all, RootTypes.get]

end RootTypes

/-! ## Imports -/

/-- The first field of an object literal that is a string. -/
def stringField? (fields : List (String × Literal)) (name : String) : Option String :=
  (fields.lookup name).bind Literal.asString?

/-- A name to import, perhaps under an alias. -/
structure ImportRequest where
  name : String
  alias? : Option String

/-- What is wrong with an entry of an import list. -/
inductive ImportError where
  | nameMissing
  | wrongType
deriving DecidableEq, Repr

/-- The fault in words, for an import from a URL. -/
def ImportError.message (url : String) : ImportError → String
  | .nameMissing => s!"Invalid @link import in \"{url}\": the `name` field is required."
  | .wrongType => s!"Invalid @link import in \"{url}\": expected a string or an object."

/-- Reads an entry of an import list. -/
def ImportRequest.read : Literal → Except ImportError ImportRequest
  | .string name => .ok { name, alias? := none }
  | .object fields =>
    match stringField? fields "name" with
    | some name => .ok { name, alias? := stringField? fields "as" }
    | none => .error .nameMissing
  | _ => .error .wrongType

/-- A directive is renamed to a directive, and a type to a type. -/
def ImportRequest.mismatch? (r : ImportRequest) : Option String :=
  match r.alias? with
  | none => none
  | some other =>
    if hasAtSign other == hasAtSign r.name then none
    else if hasAtSign r.name then
      some s!"Invalid @link import renaming: directive \"{r.name}\" imported name should start with a '@' character, but got \"{other}\"."
    else
      some s!"Invalid @link import renaming: type \"{r.name}\" imported name should not start with a '@' character, but got \"{other}\"."

/-- Takes in an entry of an import list. -/
def ingestImport (url : String) (spec : Spec) (entry : Literal) : Ingestion Unit := do
  match ImportRequest.read entry with
  | .error fault => Ingestion.report .invalidLinkDirectiveUsage (fault.message url)
  | .ok request =>
    match request.mismatch? with
    | some message => Ingestion.report .linkImportNameMismatch message
    | none =>
      let localName := withoutAtSign (request.alias?.getD request.name)
      let specName := withoutAtSign request.name
      Ingestion.mention localName
      Ingestion.mention specName
      let found : Import := { spec, specName, isDirective := hasAtSign request.name }
      Ingestion.modifySubgraph fun s => { s with imports := (localName, found) :: s.imports }

/-! ## Links -/

/-- Takes in the link of a specification. -/
def ingestSpec (directive : Directive) (url : String) (named : SpecUrl) : Ingestion Unit := do
  let spec := Spec.ofName named.name
  let nameSpace := withoutAtSign ((directive.text? "as").getD named.name)
  Ingestion.mention url
  Ingestion.mention nameSpace
  let link : Link := { url := url, spec := spec, nameSpace := nameSpace }
  Ingestion.modifySubgraph fun s => { s with links := s.links ++ [link] }
  let entries := ((directive.argument? "import").bind Literal.asItems?).getD []
  entries.forM (ingestImport url spec)

/-- Takes in a `@link` directive. The federation specification also sets the version. -/
def ingestLink (directive : Directive) : Ingestion Unit := do
  match directive.text? "url" with
  | none =>
    Ingestion.report .invalidLinkDirectiveUsage
      "Invalid @link directive: the `url` argument is required."
  | some url =>
    match SpecUrl.read? url with
    | none =>
      Ingestion.report .invalidLinkDirectiveUsage
        s!"Invalid @link directive: \"{url}\" is not a valid spec url."
    | some named =>
      if Spec.ofName named.name = .federation then
        match FederationVersion.ofSegment? named.version with
        | some version =>
          Ingestion.modifySubgraph fun s => { s with version }
          ingestSpec directive url named
        | none =>
          Ingestion.report .invalidLinkDirectiveUsage
            s!"Invalid @link directive: unsupported federation version \"{named.version}\"."
      else ingestSpec directive url named

/-- Takes in a schema block. -/
def ingestSchemaBlock (roots : RootTypes) (block : Document.SchemaBlock) : Ingestion RootTypes := do
  (block.directives.filter fun directive => directive.name == "link").forM ingestLink
  return roots.choose block

/-- Takes in all schema blocks, and gives the root types they choose. -/
def ingestSchemaBlocks (blocks : List Document.SchemaBlock) : Ingestion RootTypes :=
  blocks.foldlM ingestSchemaBlock {}

end Federation
