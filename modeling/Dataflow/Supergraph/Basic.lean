import Dataflow.CallGraph.Basic
import Dataflow.FlowGraph.OfBody

namespace Dataflow

structure Point where
  method : MethodRef
  node : Node
  deriving DecidableEq

/-- An edge between points. Calls lead from a site to the entries of the methods it may run, and from
their exits back to the nodes behind the site. -/
inductive SuperEdge where
  | normal (source target : Point) (kind : EdgeKind)
  /-- Past a call. What the call yields comes back along return edges if all methods it may run are
  in the graph. -/
  | callToReturn (site : Site) (target : Point) (calleesAnalysed : Bool)
  | call (site : Site) (callee : MethodRef)
  | ret (callee : MethodRef) (site : Site) (target : Point)
  deriving DecidableEq

def Site.point (s : Site) : Point := ⟨s.method, .stmt s.position⟩

namespace SuperEdge

def source : SuperEdge → Point
  | normal s _ _ => s
  | callToReturn site _ _ => site.point
  | call site _ => site.point
  | ret callee _ _ => ⟨callee, .exit⟩

def target : SuperEdge → Point
  | normal _ t _ => t
  | callToReturn _ t _ => t
  | call _ callee => ⟨callee, .entry⟩
  | ret _ _ t => t

def tag : SuperEdge → String
  | normal _ _ kind => kind.name
  | callToReturn _ _ _ => "call-to-return"
  | call _ callee => "call " ++ callee.text
  | ret callee _ _ => "return " ++ callee.text

def kindName : SuperEdge → String
  | normal _ _ _ => "NormalEdge"
  | callToReturn _ _ _ => "CallToReturnEdge"
  | call _ _ => "CallEdge"
  | ret _ _ _ => "ReturnEdge"

end SuperEdge

/-- The graphs of the methods a program can reach, joined at their calls. -/
structure Supergraph where
  calls : CallGraph
  graphs : OrderedMap MethodRef FlowGraph
  edges : List SuperEdge

namespace Supergraph

def methods (g : Supergraph) : List MethodRef := g.graphs.keys

def hasMethod (g : Supergraph) (m : MethodRef) : Bool := g.graphs.contains m

def graph? (g : Supergraph) (m : MethodRef) : Option FlowGraph := g.graphs.get? m

def body? (g : Supergraph) (m : MethodRef) : Option Body := (g.graph? m).map FlowGraph.body

def entryMethods (g : Supergraph) : List MethodRef := g.calls.entries.filter g.hasMethod

def points (g : Supergraph) : List Point :=
  g.graphs.entries.flatMap (fun e => e.2.nodes.map (fun n => ⟨e.1, n⟩))

def hasPoint (g : Supergraph) (p : Point) : Bool := (g.graph? p.method).any (fun f => f.hasNode p.node)

def stmtOf? (g : Supergraph) (p : Point) : Option (Stmt Target) :=
  (g.body? p.method).bind (fun b => b.stmtOf? p.node)

def isCallSite (g : Supergraph) (p : Point) : Bool := (g.stmtOf? p).any Stmt.isInvoke

def outEdges (g : Supergraph) (p : Point) : List SuperEdge := g.edges.filter (fun e => e.source = p)

def inEdges (g : Supergraph) (p : Point) : List SuperEdge := g.edges.filter (fun e => e.target = p)

def succs (g : Supergraph) (p : Point) : List Point :=
  ((g.outEdges p).map SuperEdge.target).eraseDups

def preds (g : Supergraph) (p : Point) : List Point :=
  ((g.inEdges p).map SuperEdge.source).eraseDups

def callees (g : Supergraph) (s : Site) : List MethodRef := (g.calls.callees s).filter g.hasMethod

def returnSites (g : Supergraph) (p : Point) : List Node :=
  (g.graph? p.method).elim [] (fun f => f.succs p.node)

def callAt? (g : Supergraph) (s : Site) : Option (Option Var × Call) :=
  match g.stmtOf? s.point with
  | some (.invoke result call) => some (result, call)
  | _ => none

def nodeText (g : Supergraph) (p : Point) : String :=
  (g.body? p.method).elim "" (fun b => b.nodeText p.node)

def edgeText (g : Supergraph) (e : SuperEdge) : String :=
  "(" ++ g.nodeText e.source ++ ")--[" ++ e.tag ++ "]-->(" ++ g.nodeText e.target ++ ")"

def text (g : Supergraph) : String :=
  "InterproceduralCFG(methods=" ++ toString g.methods.length ++ ", nodes=" ++
    toString g.points.length ++ ", edges=" ++ toString g.edges.length ++ ")"

/-- A graph can be solved if the program starts at a method in it and no edge leaves it. -/
def validate (g : Supergraph) : Except GraphError Unit :=
  if g.entryMethods.isEmpty then .error (.noEntryMethod (g.calls.entries.map MethodRef.text))
  else match g.edges.find? (fun e => !g.hasPoint e.target) with
    | some e => .error (.edgeLeavesGraph (g.edgeText e) e.source.method.text)
    | none => .ok ()

theorem mem_succs_iff (g : Supergraph) (p q : Point) :
    q ∈ g.succs p ↔ ∃ e ∈ g.edges, e.source = p ∧ e.target = q := by
  simp only [succs, outEdges, List.mem_eraseDups, List.mem_map, List.mem_filter, decide_eq_true_eq]
  grind

end Supergraph

end Dataflow
