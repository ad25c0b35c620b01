import Federation.Composition
import Federation.Ingestion.Ingest
import Federation.Proofs.Access.Conjunction
import Federation.Proofs.Merge.FieldTypes
import Federation.Proofs.Merge.Completion
import Federation.Proofs.QueryGraph.KeyLeaves
import Federation.Proofs.Satisfiability.Alarms
import Federation.Proofs.Satisfiability.Check
import Federation.Proofs.Satisfiability.Labels
import Federation.Proofs.Supergraph.Neutral
import Federation.Proofs.Supergraph.Emission
import Federation.Proofs.Supergraph.DefaultValues
import Federation.Proofs.Supergraph.References
import Federation.Proofs.Validation.RequiredAccess
import Federation.Proofs.Ingestion.Parts
import Federation.Proofs.Ingestion.Growth
import Federation.Proofs.Ingestion.Convergence
import Federation.Proofs.Ingestion.RootNames
import Federation.Proofs.Merge.Alone
import Federation.Proofs.QueryGraph.FieldMoves
import Federation.Proofs.QueryGraph.Copies
import Federation.Proofs.QueryGraph.KeyOrder
import Federation.Proofs.Satisfiability.Alone
import Federation.Proofs.Supergraph.Alone
import Federation.Proofs.Supergraph.Conservative
import Federation.Proofs.Validation.Gating
import Federation.Proofs.Supergraph.Declarations
import Federation.Proofs.Validation.SelectedFields
import Federation.Proofs.Satisfiability.MetaField
import Federation.Proofs.Satisfiability.Termination
import Federation.Proofs.Supergraph.Implementing
import Federation.Proofs.Supergraph.EmptyTypes
import Federation.Proofs.Supergraph.ListSizes
import Federation.Proofs.Supergraph.ApiOutline
import Federation.Proofs.Supergraph.LeastHidden
import Federation.Proofs.Supergraph.Descriptions
import Federation.Proofs.Document.Selections
import Federation.Proofs.Ingestion.GraphNames
import Federation.Proofs.Ingestion.Repetition
import Federation.Proofs.QueryGraph.Sessions
import Federation.Proofs.Satisfiability.Starts
import Federation.Proofs.Supergraph.TypeTexts
