import Dataflow.Analysis.ConstProp
import Dataflow.FixedPoint.Worklist
import Dataflow.Solution
import Dataflow.Supergraph.Basic

namespace Dataflow.Supergraph

/-- Past a call, what its result variable held is gone. The result itself comes along return edges, or
can be anything if some method called is not in the graph. -/
def pastCall (result : Option Var) (analysed : Bool) (f : Fact) : Fact :=
  match result with
  | none => f
  | some x => if analysed || !x.holdsInt then f.erase x else f.update x .nac

def intoCall (params args : List Var) (f : Fact) : Fact :=
  (params.zip args).foldl (fun t p => t.update p.1 (f.get p.2)) .empty

def common : List Value → Value
  | [] => .undef
  | v :: rest => if rest.all (fun w => w = v) then v else .nac

/-- What comes back from a call: the value that the variables returned agree on. -/
def outOfCall (result : Option Var) (returned : List Var) (f : Fact) : Fact :=
  match result with
  | none => .empty
  | some x =>
    if returned.isEmpty || !x.holdsInt then .empty
    else Fact.empty.update x (common (returned.map f.get))

def along (g : Supergraph) (e : SuperEdge) (f : Fact) : Fact :=
  match e with
  | .normal _ _ _ => f
  | .callToReturn site _ analysed => pastCall ((g.callAt? site).bind Prod.fst) analysed f
  | .call site callee =>
    intoCall ((g.body? callee).elim [] Body.params) ((g.callAt? site).elim [] (fun c => c.2.args)) f
  | .ret callee site _ =>
    outOfCall ((g.callAt? site).bind Prod.fst) ((g.body? callee).elim [] Body.returnVars) f

/-- What holds before a point whatever comes in: the parameters of a method at which the program
starts hold anything at its entry. -/
def boundary (g : Supergraph) (p : Point) : Fact :=
  if p.node = .entry ∧ p.method ∈ g.entryMethods then
    (g.body? p.method).elim .empty (ConstProp.boundary .intOnly)
  else .empty

/-- The equations of constant propagation across calls. What comes in is collected afresh each time;
a call site itself changes nothing. -/
def system (g : Supergraph) : System Point Fact where
  initial := .empty
  collect p result _ :=
    (g.inEdges p).foldl (fun t e => (g.along e (result e.source)).meetInto t) (g.boundary p)
  transfer p f := if g.isCallSite p then f else ConstProp.transfer (g.stmtOf? p) f
  same := Fact.same
  dependents := g.succs

def begin (g : Supergraph) : System.Progress Point Fact where
  state := {
    inputs := .ofList (g.points.map (fun p => (p, g.boundary p)))
    results := .ofList (g.points.map (fun p => (p, .empty))) }
  queue := .ofList g.points

def solutionOf (st : System.State Point Fact) : Solution Point Fact where
  analysis := "InterConstantPropagation"
  solver := "InterSolver"
  transfers := st.visits
  before := st.inputs
  after := st.results
  frozen := true

/-- The solution of constant propagation across calls, if the worklist runs empty within as many
visits as the fuel allows. -/
def solve? (g : Supergraph) (fuel : Nat) : Except GraphError (Option (Solution Point Fact)) := do
  g.validate
  let p := g.system.settle fuel g.begin
  return if p.queue.isEmpty then some (solutionOf p.state) else none

end Dataflow.Supergraph
