import Dataflow.Analysis.Basic
import Dataflow.FixedPoint.RoundRobin
import Dataflow.FixedPoint.Worklist
import Dataflow.Solution

namespace Dataflow

def Strategy.solverName : Strategy → String
  | .iterative => "IterativeSolver"
  | .worklist => "WorkListSolver"

def FlowGraph.changeLimit (g : FlowGraph) : Nat := 2 * g.body.mentioned.length + 1

namespace Analysis

variable {φ : Type}

/-- The equations of an analysis on a graph. Facts only accumulate on the side where they come in. -/
def system (a : Analysis φ) (g : FlowGraph) : System Node φ where
  initial := a.initial
  collect n result before := (a.sources g n).foldl (fun t m => a.meetInto (result m) t) before
  transfer n := a.transfer (g.body.stmtOf? n)
  same := a.same
  dependents := a.sinks g

def begin (a : Analysis φ) (g : FlowGraph) : System.State Node φ where
  inputs := .ofList (g.nodes.map (fun n => (n, a.initial)))
  results := .ofList (g.nodes.map (fun n =>
    (n, if n = a.start then a.boundary g.body else a.initial)))

def visitLimit (a : Analysis φ) (g : FlowGraph) : Nat :=
  g.nodes.foldr (fun n k => g.changeLimit * (a.sinks g n).length + k) (a.order g).length

def passLimit (a : Analysis φ) (g : FlowGraph) : Nat :=
  (a.order g).length * g.changeLimit + 1

def solveWorklist (a : Analysis φ) (g : FlowGraph) : System.Progress Node φ :=
  (a.system g).settle (a.visitLimit g) ⟨a.begin g, .ofList (a.order g)⟩

def solveRounds (a : Analysis φ) (g : FlowGraph) : Nat × System.State Node φ :=
  (a.system g).rounds (a.order g) (a.passLimit g) 0 (a.begin g)

def run (a : Analysis φ) (s : Strategy) (g : FlowGraph) : Nat × System.State Node φ :=
  match s with
  | .iterative => a.solveRounds g
  | .worklist => (0, (a.solveWorklist g).state)

def solve (a : Analysis φ) (s : Strategy) (g : FlowGraph) :
    Except GraphError (Solution Node φ) := do
  g.validate
  let (passes, st) := a.run s g
  let (before, after) := match a.direction with
    | .forward => (st.inputs, st.results)
    | .backward => (st.results, st.inputs)
  return {
    analysis := a.name
    solver := s.solverName
    transfers := st.visits
    passes, before, after
    frozen := true }

end Analysis

end Dataflow
