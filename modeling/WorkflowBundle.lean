import WorkflowBundle.Archive
import WorkflowBundle.Blake3
import WorkflowBundle.Closure
import WorkflowBundle.Closure.Drawing
import WorkflowBundle.CommandLine
import WorkflowBundle.Compile
import WorkflowBundle.Config
import WorkflowBundle.Config.File
import WorkflowBundle.DataType.Compatibility
import WorkflowBundle.Defect
import WorkflowBundle.Digraph.Cycle
import WorkflowBundle.Index
import WorkflowBundle.Json.Reader
import WorkflowBundle.Main
import WorkflowBundle.NamePattern
import WorkflowBundle.Text.Utf8
import WorkflowBundle.Workflow.Check
import WorkflowBundle.Workflow.Graph
import WorkflowBundle.Yaml.Node
import WorkflowBundle.Yaml.Scanner
import WorkflowBundle.Yaml.Token
import WorkflowBundle.Proofs.SortedMap
import WorkflowBundle.Proofs.StableSort
import WorkflowBundle.Proofs.Digraph.Reach
import WorkflowBundle.Proofs.Digraph.Insertion
import WorkflowBundle.Proofs.Entity
import WorkflowBundle.Proofs.Index
import WorkflowBundle.Proofs.InterfaceTable
import WorkflowBundle.Proofs.Digraph.Acyclic
import WorkflowBundle.Proofs.Digraph.CycleSearch
import WorkflowBundle.Proofs.Compile
import WorkflowBundle.Proofs.Closure
import WorkflowBundle.Proofs.Workflow.Bindings
import WorkflowBundle.Proofs.WellBound
import WorkflowBundle.Proofs.Defect
import WorkflowBundle.Proofs.OrderIndependence
import WorkflowBundle.Proofs.Workflow.Locality
import WorkflowBundle.Proofs.IndexInsertion
import WorkflowBundle.Proofs.FaultIsolation
import WorkflowBundle.Proofs.DataType.Compatibility
import WorkflowBundle.Proofs.Workflow.Sources
import WorkflowBundle.Proofs.Workflow.Arms
import WorkflowBundle.Proofs.Workflow.Conditions
import WorkflowBundle.Proofs.Workflow.Links
import WorkflowBundle.Proofs.Workflow.Layout
import WorkflowBundle.Proofs.Workflow.WellFormed
import WorkflowBundle.Proofs.UnionRule
import WorkflowBundle.Proofs.Workflow.PlanCalls
import WorkflowBundle.Proofs.Archive.Paths
import WorkflowBundle.Proofs.Archive.Selection
import WorkflowBundle.Proofs.Json.Scalars
import WorkflowBundle.Proofs.Json.Text
import WorkflowBundle.Proofs.Json.RoundTrip
import WorkflowBundle.Proofs.Document
import WorkflowBundle.Proofs.Wire.Values
import WorkflowBundle.Proofs.Wire.Workflows
import WorkflowBundle.Proofs.Wire.Entities
import WorkflowBundle.Proofs.Wire.Closures
import WorkflowBundle.Proofs.Wire.Canonical
import WorkflowBundle.Proofs.DataType.Admission
import WorkflowBundle.Proofs.Digraph.ShortestCycle
import WorkflowBundle.Proofs.CycleReport
import WorkflowBundle.Proofs.Workflow.Wiring
import WorkflowBundle.Proofs.Workflow.ExecutionOrder
import WorkflowBundle.Proofs.Workflow.Anchors
import WorkflowBundle.Proofs.Workflow.Edges
import WorkflowBundle.Proofs.DataType.Preorder
import WorkflowBundle.Proofs.Narrowing
import WorkflowBundle.Proofs.Workflow.CallFaults
import WorkflowBundle.Proofs.Workflow.BindingReport
import WorkflowBundle.Proofs.Workflow.Accepted
import WorkflowBundle.Proofs.Workflow.Rearrangement
import WorkflowBundle.Proofs.Archive.Skipping
import WorkflowBundle.Proofs.Archive.LargerLimits
import WorkflowBundle.Proofs.Identification
import WorkflowBundle.Proofs.FullIdentifier
import WorkflowBundle.Proofs.Gathering
import WorkflowBundle.Proofs.Indexing
import WorkflowBundle.Proofs.Drawing.Nodes
import WorkflowBundle.Proofs.ScalarBinding
import WorkflowBundle.Proofs.Drawing.Mermaid
import WorkflowBundle.Proofs.Drawing.DotText
import WorkflowBundle.Proofs.Drawing.Dot
