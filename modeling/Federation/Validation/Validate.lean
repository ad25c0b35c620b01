import Federation.Validation.Access
import Federation.Validation.Cost
import Federation.Validation.FieldSets
import Federation.Validation.Interfaces
import Federation.Validation.Resolution
import Federation.Validation.Types

/-!
# Validation

All rules, in the order in which they speak about each type and field. At last, the schema has to
have a query type with fields.
-/

namespace Federation.Validation

/-- All rules. -/
def rules : List Rule :=
  [externalMissingOnBase, externalUnused, invalidFieldSharing, overrideRules, accessOnRequires,
    accessOnInterface, listSizeRules, costOnInterfaceField, interfaceKeyNotOnImplementation,
    interfaceObjectUsage, fieldTypes, implementedByInaccessible, fieldSetSelections, enumValues,
    requiredInputFields]

/-- Some subgraph defines a field of the query type. -/
def hasQueries (m : MergedSchema) : Bool :=
  m.types.any fun t =>
    t.kind == .object && t.name == RootOperation.query.typeName &&
      t.fields.any fun field => !field.byGraph.isEmpty

/-- There are queries. -/
def queryProblems (m : MergedSchema) : Diagnostics :=
  if hasQueries m then []
  else [.error .noQueries
    "No queries found in any subgraph: a supergraph must have a query root type."]

/-- All that is wrong with a merged schema. -/
def validate (c : Context) : Diagnostics :=
  checkAll rules c ++ queryProblems c.merged

end Federation.Validation
