import Dataflow.Body.Builder
import Dataflow.CallGraph.Build
import Dataflow.DeadCode
import Dataflow.Supergraph.ConstProp

namespace Dataflow

inductive Failure where
  | graph (e : GraphError)
  | build (e : BuildError)
  | hierarchy (e : HierarchyError)
  | config (e : ConfigError)
  | result (e : ResultError)
  | operator (e : OperatorMismatch)
  | notConstant (e : NotConstant)
  | place (e : PlaceError)
  | emptyQueue
  | notInGraph (text : String)
  | unsettled

namespace Failure

def ofStop : CallGraph.Stop → Failure
  | .failed e => .hierarchy e
  | .outOfFuel => .unsettled

def message : Failure → String
  | graph e => e.report.text
  | build e => e.report.text
  | hierarchy e => e.report.text
  | config e => e.report.text
  | result e => e.report.text
  | operator e => e.message
  | notConstant e => e.message
  | place e => e.message
  | emptyQueue => Text.quoted "dictionary is empty"
  | notInGraph text => text
  | unsettled => "no fixed point within the budget"

end Failure

end Dataflow
