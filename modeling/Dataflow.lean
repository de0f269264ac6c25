import Dataflow.OrderedMap
import Dataflow.WorkQueue
import Dataflow.Place
import Dataflow.Text.Blank
import Dataflow.Text.Printable
import Dataflow.Text.Quoted
import Dataflow.Text.Split
import Dataflow.Decimal.Shortest
import Dataflow.Decimal.Double
import Dataflow.Datum
import Dataflow.Report
import Dataflow.Log
import Dataflow.Config
import Dataflow.Body.Ty
import Dataflow.Body.MethodRef
import Dataflow.Body.Exp
import Dataflow.Body.Stmt
import Dataflow.Body.Basic
import Dataflow.Body.Builder
import Dataflow.Traversal
import Dataflow.FlowGraph.Basic
import Dataflow.FlowGraph.OfBody
import Dataflow.Value
import Dataflow.Fact.Basic
import Dataflow.Fact.Registers
import Dataflow.VarSet
import Dataflow.Eval
import Dataflow.FixedPoint.System
import Dataflow.FixedPoint.Worklist
import Dataflow.FixedPoint.RoundRobin
import Dataflow.Solution
import Dataflow.Analysis.Basic
import Dataflow.Analysis.Solve
import Dataflow.Analysis.ConstProp
import Dataflow.Analysis.Liveness
import Dataflow.FixedPoint.Closure
import Dataflow.DeadCode
import Dataflow.Program.ClassDecl
import Dataflow.Program.Hierarchy
import Dataflow.Program.Relations
import Dataflow.Program.Drafts
import Dataflow.CallGraph.Basic
import Dataflow.CallGraph.Resolve
import Dataflow.CallGraph.Build
import Dataflow.Supergraph.Basic
import Dataflow.Supergraph.OfCalls
import Dataflow.CallGraph.Tables
import Dataflow.Supergraph.Tables
import Dataflow.Supergraph.ConstProp
import Dataflow.Failure
import Dataflow.Session
import Dataflow.KeyedQueue
import Dataflow.Proofs.FixedPoint.Climb
import Dataflow.Proofs.Analysis.Accumulation
import Dataflow.Proofs.Analysis.Closed
import Dataflow.Proofs.Analysis.Sound
import Dataflow.Proofs.FixedPoint.Settle
import Dataflow.Proofs.Supergraph.Equations
import Dataflow.Proofs.Supergraph.Firm
import Dataflow.Proofs.Supergraph.Falls
import Dataflow.Proofs.CallGraph.Reach
import Dataflow.Proofs.Lists
import Dataflow.Proofs.CallGraph.Resolves
import Dataflow.Proofs.Supergraph.Edges
import Dataflow.Proofs.Supergraph.Termination
import Dataflow.Proofs.Run.Calls
import Dataflow.Proofs.Supergraph.Sound
import Dataflow.Proofs.Analysis.Bounds
import Dataflow.Proofs.Analysis.Live
import Dataflow.Proofs.Supergraph.Exact
import Dataflow.Proofs.Analysis.Strategies
import Dataflow.Proofs.CallGraph.Exact
import Dataflow.Proofs.Supergraph.Wired
import Dataflow.Proofs.FixedPoint.Parallel
import Dataflow.Proofs.Analysis.Seeding
import Dataflow.Proofs.Body.Built
import Dataflow.Proofs.DeadCode.Basis
import Dataflow.Proofs.DeadCode.Explored
import Dataflow.Proofs.Run.Omission
import Dataflow.Proofs.DeadCode.Influence
import Dataflow.Proofs.Eval.Arithmetic
import Dataflow.Proofs.FlowGraph.Control
import Dataflow.Proofs.Fact.Words
import Dataflow.Proofs.Analysis.Passes
import Dataflow.Proofs.Supergraph.Passes
import Dataflow.Proofs.Supergraph.Carried
import Dataflow.Proofs.Supergraph.Scoped
import Dataflow.Proofs.Fact.Registers
import Dataflow.Proofs.Fact.Meets
import Dataflow.Proofs.DeadCode.Exact
import Dataflow.Proofs.DeadCode.Effects
import Dataflow.Proofs.Program.Dispatch
import Dataflow.Proofs.Program.Relations
import Dataflow.Proofs.CallGraph.Subtypes
import Dataflow.Body.Assembly
import Dataflow.Proofs.Body.Assembly
import Dataflow.Proofs.Body.Labels
import Dataflow.Proofs.Body.Refusals
import Dataflow.FlowGraph.Tables
import Dataflow.Proofs.FlowGraph.Tables
import Dataflow.Proofs.Text.Blank
import Dataflow.Proofs.Text.Split
import Dataflow.Proofs.Config
import Dataflow.Proofs.Body.Subsignature
import Dataflow.Proofs.Program.Overloads
import Dataflow.Proofs.KeyedQueue
import Dataflow.Proofs.CallGraph.Tables
import Dataflow.Proofs.Supergraph.Tables
