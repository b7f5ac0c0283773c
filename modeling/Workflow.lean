import Workflow.Main
import Workflow.Process.Builder
import Workflow.Disk
import Workflow.Proofs.Invariant
import Workflow.Proofs.Generator.Agreement
import Workflow.Proofs.Generator.Skeleton
import Workflow.Proofs.Generator.Delimiting
import Workflow.Proofs.Outline.Pieces
import Workflow.Proofs.Outline.RoundTrip
import Workflow.Proofs.Outline.ReaderAgreement
import Workflow.Proofs.Outline.QuotedPlace
import Workflow.Proofs.Outline.Termination
import Workflow.Proofs.Document.Writing
import Workflow.Proofs.Document.Fault
import Workflow.Proofs.Catalog.Folder
import Workflow.Proofs.Catalog.Sharing
import Workflow.Proofs.Diagram.Drawing
import Workflow.Proofs.Reference
import Workflow.Proofs.CommandLine.Agreement
import Workflow.Proofs.Flowchart.Recovery
import Workflow.Proofs.Simulation.Dependence
import Workflow.Proofs.Process.Lookup
import Workflow.Proofs.Process.Building
import Workflow.Proofs.Process.Encoding
