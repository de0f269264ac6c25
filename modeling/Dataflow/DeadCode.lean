import Dataflow.Analysis.ConstProp
import Dataflow.Analysis.Liveness
import Dataflow.Analysis.Solve
import Dataflow.FixedPoint.Closure
import Dataflow.FlowGraph.OfBody

namespace Dataflow

/-- Which constant conditions count as true: the number 1 alone, or every positive number. -/
inductive BranchTruth where
  | eqOne
  | positive
  deriving DecidableEq

def BranchTruth.holds : BranchTruth → Int → Bool
  | eqOne, n => n = 1
  | positive, n => 0 < n

def Config.branchTruth (c : Config) : BranchTruth :=
  if c.has "branch-truth" "positive" then .positive else .eqOne

namespace DeadCode

def configOrDefault : Option Config → Except ConfigError Config
  | none => .ok (.default .deadcode)
  | some c =>
    if c.analysis = .deadcode then .ok c
    else .error (.unusableAnalysis "DeadCodeDetection" c.analysis)

def isTrue (t : BranchTruth) (v : Value) : Except NotConstant Bool := v.constant.map t.holds

/-- How far the targets of a switch have been followed for a constant selector. -/
structure CaseScan where
  targets : List Node := []
  matched : Bool := false
  falling : Bool := false
  default : Option Node := none

/-- Look at one edge of a switch. The first case that matches is taken; from then on the next case is
taken too as long as the last target taken can fall through. -/
def CaseScan.look (b : Body) (selector : Int) (s : CaseScan) (e : Edge) : CaseScan :=
  match e.kind with
  | .switchDefault => { s with default := some e.target }
  | .switchCase =>
    if (!s.matched && e.caseValue = some selector) || s.falling then
      { s with
        targets := s.targets ++ [e.target]
        matched := true
        falling := b.fallsThrough e.target }
    else s
  | _ => s

/-- The targets of a switch that control can reach for a constant selector; without a match that is
the default. -/
def switchTargets (b : Body) (selector : Int) (edges : List Edge) : List Node :=
  let s := edges.foldl (CaseScan.look b selector) {}
  s.targets ++ (if s.matched then [] else s.default.toList)

/-- The nodes that control can go on to from a node, given what is known before it. -/
def liveTargets (t : BranchTruth) (g : FlowGraph) (known : Fact) (n : Node) : List Node :=
  let edges := g.outEdges n
  match g.body.stmtOf? n with
  | some (.branch condition _) =>
    match evaluate condition known with
    | .const v =>
      let wanted : EdgeKind := if t.holds v then .ifTrue else .ifFalse
      (edges.filter (fun e => e.kind = wanted)).map Edge.target
    | _ => edges.map Edge.target
  | some (.switch x _ _ _) =>
    match known.get x with
    | .const v => switchTargets g.body v edges
    | _ => edges.map Edge.target
  | _ => edges.map Edge.target

def isDeadAssignment (live : VarSet) : Option (Stmt Target) → Bool
  | some (.assign x e) => !live.contains x && e.isPure
  | _ => false

def explored (t : BranchTruth) (g : FlowGraph) (constants : Solution Node Fact) : List Node :=
  closure (fun n => liveTargets t g (constants.before.getD n .empty) n) g.nodes.length [] [.entry]

/-- The dead statements by position: those that control cannot reach, and the dead assignments among
the others. -/
def analyze (t : BranchTruth) (g : FlowGraph) (constants : Solution Node Fact)
    (live : Solution Node VarSet) : List Nat :=
  let visited := explored t g constants
  (List.range g.body.size).filter (fun i =>
    !visited.contains (.stmt i) ||
      isDeadAssignment (live.after.getD (.stmt i) .empty) (g.body.stmt? i))

/-- What the detection rests on: a graph and what two analyses say about it. -/
structure Basis where
  graph : FlowGraph
  constants : Solution Node Fact
  live : Solution Node VarSet

namespace Basis

def ofBody (b : Body) : Except GraphError Basis := do
  let graph ← FlowGraph.ofBody b
  let constants ← (constProp (.default .constprop)).solve .worklist graph
  let live ← (liveness (.default .livevar)).solve .worklist graph
  return { graph, constants, live }

def dead (s : Basis) (t : BranchTruth) : List Nat := analyze t s.graph s.constants s.live

end Basis

inductive Kept where
  | graph (g : FlowGraph)
  | constants (s : Solution Node Fact)
  | live (s : Solution Node VarSet)
  | dead (positions : List Nat)

def graphName : String := "cfg"

def Basis.kept (s : Basis) : ResultTable Kept :=
  .ofList [(graphName, .graph s.graph), (AnalysisId.constprop.name, .constants s.constants),
    (AnalysisId.livevar.name, .live s.live)]

def Basis.ofKept (owner : String) (t : ResultTable Kept) : Except ResultError Basis :=
  let missing (name : String) : ResultError := .missing name owner t.keys
  match t.get? graphName with
  | some (.graph graph) =>
    match t.get? AnalysisId.constprop.name with
    | some (.constants constants) =>
      match t.get? AnalysisId.livevar.name with
      | some (.live live) => .ok { graph, constants, live }
      | _ => .error (missing AnalysisId.livevar.name)
    | _ => .error (missing AnalysisId.constprop.name)
  | _ => .error (missing graphName)

end DeadCode

end Dataflow
