import Dataflow.Supergraph.Basic

namespace Dataflow.Supergraph

/-- The graphs of the reachable methods that have a body: those at hand, else those of their bodies. -/
def embed (h : Hierarchy) (calls : CallGraph) (ready : OrderedMap MethodRef FlowGraph) :
    Except GraphError (List (MethodRef × FlowGraph)) :=
  (calls.reachable.filterMap (fun m => (h.body? m).map (fun b => (m, b)))).mapM (fun e =>
    match ready.get? e.1 with
    | some g => .ok (e.1, g)
    | none => do return (e.1, ← FlowGraph.ofBody e.2))

/-- The edges that leave a call site, and those that lead back to it: past the call, then for each
callee into it and back behind the site. -/
def callEdges (callees : Site → List MethodRef) (graphs : OrderedMap MethodRef FlowGraph)
    (g : FlowGraph) (site : Site) : List SuperEdge :=
  let all := callees site
  let known := all.filter graphs.contains
  let analysed := !all.isEmpty && known.length = all.length
  let node : Node := .stmt site.position
  (g.outEdges node).map (fun e => .callToReturn site ⟨site.method, e.target⟩ analysed) ++
    known.flatMap (fun m =>
      .call site m :: (g.succs node).map (fun n => .ret m site ⟨site.method, n⟩))

def nodeEdges (callees : Site → List MethodRef) (graphs : OrderedMap MethodRef FlowGraph)
    (m : MethodRef) (g : FlowGraph) (n : Node) : List SuperEdge :=
  match n, g.body.stmtOf? n with
  | .stmt i, some (.invoke _ _) => callEdges callees graphs g ⟨m, i⟩
  | _, _ => (g.outEdges n).map (fun e => .normal ⟨m, n⟩ ⟨m, e.target⟩ e.kind)

def join (calls : CallGraph) (graphs : OrderedMap MethodRef FlowGraph) : Supergraph where
  calls
  graphs
  edges := graphs.entries.flatMap (fun e =>
    e.2.nodes.flatMap (nodeEdges calls.callees graphs e.1 e.2))

def ofCalls (h : Hierarchy) (calls : CallGraph)
    (ready : OrderedMap MethodRef FlowGraph) : Except GraphError Supergraph := do
  return join calls (.ofList (← embed h calls ready))

end Dataflow.Supergraph
