import CallHierarchy.Main
import CallHierarchy.Proofs.Project.Comment
import CallHierarchy.Proofs.Project.Growth
import CallHierarchy.Proofs.Project.Order
import CallHierarchy.Proofs.Run.Attribution
import CallHierarchy.Proofs.Symbol.ExportSearch
import CallHierarchy.Proofs.Symbol.ExportRoute
import CallHierarchy.Proofs.CallGraph.Forest
import CallHierarchy.Proofs.CallGraph.Views
import CallHierarchy.Proofs.Run.Interchange
import CallHierarchy.Proofs.Command.Files
import CallHierarchy.Proofs.Run.Layout
import CallHierarchy.Proofs.Run.Walk
import CallHierarchy.Proofs.Source.Order
import CallHierarchy.Proofs.Scope.Rules
import CallHierarchy.Proofs.Scope.Lexical
import CallHierarchy.Proofs.Json.Token
import CallHierarchy.Proofs.Source.Keys
import CallHierarchy.Proofs.Json.Value
import CallHierarchy.Proofs.Json.Comment
import CallHierarchy.Proofs.Json.Record
import CallHierarchy.Proofs.CallGraph.Document
import CallHierarchy.Proofs.Path
import CallHierarchy.Proofs.Config.Lineage
import CallHierarchy.Proofs.Config.Inheritance
import CallHierarchy.Proofs.Run.DeclarationIndex
import CallHierarchy.Proofs.Run.Invocation
import CallHierarchy.Proofs.Run.Construction
import CallHierarchy.Proofs.Symbol.Cutoff
import CallHierarchy.Proofs.Symbol.Stability
import CallHierarchy.Proofs.Config.Outcome
import CallHierarchy.Proofs.Symbol.CallDepth
import CallHierarchy.Proofs.Symbol.ClassMember
import CallHierarchy.Proofs.Symbol.NamespaceAccess
import CallHierarchy.Proofs.Path.Walk
import CallHierarchy.Proofs.Import.Spelling
import CallHierarchy.Proofs.CallGraph.Recursion
import CallHierarchy.Proofs.CallGraph.DotReading
import CallHierarchy.Proofs.CallGraph.Stack
import CallHierarchy.Proofs.Run.Drawing
import CallHierarchy.Proofs.Project.Loading
import CallHierarchy.Proofs.Scope.Hoisting
import CallHierarchy.Proofs.Symbol.CalledFunction
import CallHierarchy.Proofs.Symbol.ExportStatement
import CallHierarchy.Proofs.Text.Replacement
import CallHierarchy.Proofs.CallGraph.DotLabel
