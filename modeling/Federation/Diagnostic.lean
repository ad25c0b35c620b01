/-!
# Diagnostics

What a composition has to say about its subgraphs: messages with a code, each an error or a warning.
Only errors make a composition fail.
-/

namespace Federation

/-! ## Codes -/

/-- The causes of diagnostics. -/
inductive ErrorCode where
  | authRequirementsAppliedOnInterface
  | costAppliedToInterfaceField
  | directiveCostInvalidWeight
  | enumValueMismatch
  | externalMissingOnBase
  | externalUnused
  | fieldArgumentTypeMismatch
  | fieldTypeMismatch
  | fromSubgraphDoesNotExist
  | implementedByInaccessible
  | interfaceKeyMissingImplementationType
  | interfaceKeyNotOnImplementation
  | interfaceObjectUsageError
  | invalidFieldSharing
  | invalidGraphql
  | invalidLinkDirectiveUsage
  | invalidSubgraphName
  | keyInvalidFields
  | keyInvalidFieldsType
  | linkImportNameMismatch
  | listSizeAppliedToNonList
  | listSizeInvalidAssumedSize
  | listSizeInvalidSizedField
  | listSizeInvalidSlicingArgument
  | missingTransitiveAuthRequirements
  | noQueries
  | overrideCollisionWithAnotherDirective
  | overrideFromSelfError
  | overrideLabelInvalid
  | overrideSourceHasOverride
  | providesFieldsMissingExternal
  | providesInvalidFields
  | providesInvalidFieldsType
  | providesOnNonObjectField
  | requiredInputFieldMissingInSomeSubgraph
  | requiresFieldsMissingExternal
  | requiresInvalidFields
  | requiresInvalidFieldsType
  | rootTypeUsed
  | satisfiabilityError
  | typeKindMismatch
deriving DecidableEq, Repr

/-- The code as it is reported. -/
def ErrorCode.text : ErrorCode → String
  | .authRequirementsAppliedOnInterface => "AUTH_REQUIREMENTS_APPLIED_ON_INTERFACE"
  | .costAppliedToInterfaceField => "COST_APPLIED_TO_INTERFACE_FIELD"
  | .directiveCostInvalidWeight => "DIRECTIVE_COST_INVALID_WEIGHT"
  | .enumValueMismatch => "ENUM_VALUE_MISMATCH"
  | .externalMissingOnBase => "EXTERNAL_MISSING_ON_BASE"
  | .externalUnused => "EXTERNAL_UNUSED"
  | .fieldArgumentTypeMismatch => "FIELD_ARGUMENT_TYPE_MISMATCH"
  | .fieldTypeMismatch => "FIELD_TYPE_MISMATCH"
  | .fromSubgraphDoesNotExist => "FROM_SUBGRAPH_DOES_NOT_EXIST"
  | .implementedByInaccessible => "IMPLEMENTED_BY_INACCESSIBLE"
  | .interfaceKeyMissingImplementationType => "INTERFACE_KEY_MISSING_IMPLEMENTATION_TYPE"
  | .interfaceKeyNotOnImplementation => "INTERFACE_KEY_NOT_ON_IMPLEMENTATION"
  | .interfaceObjectUsageError => "INTERFACE_OBJECT_USAGE_ERROR"
  | .invalidFieldSharing => "INVALID_FIELD_SHARING"
  | .invalidGraphql => "INVALID_GRAPHQL"
  | .invalidLinkDirectiveUsage => "INVALID_LINK_DIRECTIVE_USAGE"
  | .invalidSubgraphName => "INVALID_SUBGRAPH_NAME"
  | .keyInvalidFields => "KEY_INVALID_FIELDS"
  | .keyInvalidFieldsType => "KEY_INVALID_FIELDS_TYPE"
  | .linkImportNameMismatch => "LINK_IMPORT_NAME_MISMATCH"
  | .listSizeAppliedToNonList => "LIST_SIZE_APPLIED_TO_NON_LIST"
  | .listSizeInvalidAssumedSize => "LIST_SIZE_INVALID_ASSUMED_SIZE"
  | .listSizeInvalidSizedField => "LIST_SIZE_INVALID_SIZED_FIELD"
  | .listSizeInvalidSlicingArgument => "LIST_SIZE_INVALID_SLICING_ARGUMENT"
  | .missingTransitiveAuthRequirements => "MISSING_TRANSITIVE_AUTH_REQUIREMENTS"
  | .noQueries => "NO_QUERIES"
  | .overrideCollisionWithAnotherDirective => "OVERRIDE_COLLISION_WITH_ANOTHER_DIRECTIVE"
  | .overrideFromSelfError => "OVERRIDE_FROM_SELF_ERROR"
  | .overrideLabelInvalid => "OVERRIDE_LABEL_INVALID"
  | .overrideSourceHasOverride => "OVERRIDE_SOURCE_HAS_OVERRIDE"
  | .providesFieldsMissingExternal => "PROVIDES_FIELDS_MISSING_EXTERNAL"
  | .providesInvalidFields => "PROVIDES_INVALID_FIELDS"
  | .providesInvalidFieldsType => "PROVIDES_INVALID_FIELDS_TYPE"
  | .providesOnNonObjectField => "PROVIDES_ON_NON_OBJECT_FIELD"
  | .requiredInputFieldMissingInSomeSubgraph => "REQUIRED_INPUT_FIELD_MISSING_IN_SOME_SUBGRAPH"
  | .requiresFieldsMissingExternal => "REQUIRES_FIELDS_MISSING_EXTERNAL"
  | .requiresInvalidFields => "REQUIRES_INVALID_FIELDS"
  | .requiresInvalidFieldsType => "REQUIRES_INVALID_FIELDS_TYPE"
  | .rootTypeUsed => "ROOT_TYPE_USED"
  | .satisfiabilityError => "SATISFIABILITY_ERROR"
  | .typeKindMismatch => "TYPE_KIND_MISMATCH"

/-! ## Diagnostics -/

/-- Errors are fatal, warnings are not. -/
inductive Severity where
  | error | warning
deriving DecidableEq, Repr

/-- The severity as it is reported. -/
def Severity.text : Severity → String
  | .error => "error"
  | .warning => "warning"

/-- A message with its code and severity. -/
structure Diagnostic where
  severity : Severity
  code : ErrorCode
  message : String
deriving DecidableEq, Repr

namespace Diagnostic

/-- An error. -/
def error (code : ErrorCode) (message : String) : Diagnostic :=
  { severity := .error, code, message }

/-- A warning. -/
def warning (code : ErrorCode) (message : String) : Diagnostic :=
  { severity := .warning, code, message }

/-- The diagnostic makes a composition fail. -/
def isFatal (d : Diagnostic) : Bool :=
  d.severity == .error

/-- The same diagnostic as an error. -/
def promote (d : Diagnostic) : Diagnostic :=
  { d with severity := .error }

@[simp] theorem isFatal_error (code : ErrorCode) (message : String) :
    (error code message).isFatal = true := rfl

@[simp] theorem isFatal_warning (code : ErrorCode) (message : String) :
    (warning code message).isFatal = false := rfl

@[simp] theorem isFatal_promote (d : Diagnostic) : d.promote.isFatal = true := rfl

end Diagnostic

/-- Diagnostics in the order they were found. -/
abbrev Diagnostics : Type := List Diagnostic

namespace Diagnostics

/-- Some diagnostic is fatal. -/
def anyFatal (ds : Diagnostics) : Bool :=
  ds.any Diagnostic.isFatal

/-- The fatal diagnostics. -/
def errors (ds : Diagnostics) : Diagnostics :=
  ds.filter Diagnostic.isFatal

/-- The diagnostics that are not fatal. -/
def warnings (ds : Diagnostics) : Diagnostics :=
  ds.filter fun d => !d.isFatal

/-- All diagnostics as errors. -/
def promoteAll (ds : Diagnostics) : Diagnostics :=
  ds.map Diagnostic.promote

end Diagnostics

/-! ## Lists of subgraphs in messages -/

/-- A name in quotation marks, just as it is. -/
def quotedName (name : String) : String :=
  "\"" ++ name ++ "\""

/-- Subgraphs as a phrase: `subgraph "a"`, or `subgraphs "a", "b" and "c"`. -/
def subgraphPhrase (names : List String) : String :=
  match names.map quotedName with
  | [] => "no subgraph"
  | [single] => "subgraph " ++ single
  | first :: others =>
    let all := first :: others
    "subgraphs " ++ ", ".intercalate all.dropLast ++ " and " ++ all.getLast?.getD ""

end Federation
