import Dataflow.CallGraph.Tables
import Dataflow.Supergraph.OfCalls

namespace Dataflow

/-- A supergraph in tables: of each point the method that it lies in, and each edge twice, under the point
it leaves and under the point it reaches. -/
structure SuperTables where
  calls : CallTables
  graphs : OrderedMap MethodRef FlowGraph := .empty
  points : List Point := []
  owner : OrderedMap Point MethodRef := .empty
  leaving : OrderedMap Point (List SuperEdge) := .empty
  reaching : OrderedMap Point (List SuperEdge) := .empty

namespace SuperTables

def enter (m : MethodRef) (t : SuperTables) (n : Node) : SuperTables :=
  let p : Point := ⟨m, n⟩
  { t with
    points := t.points ++ [p]
    owner := t.owner.insert p m
    leaving := t.leaving.insert p []
    reaching := t.reaching.insert p [] }

def embed (t : SuperTables) (e : MethodRef × FlowGraph) : SuperTables :=
  e.2.nodes.foldl (enter e.1) { t with graphs := t.graphs.insert e.1 e.2 }

/-- File an edge under both its ends. An end that is no point of the graph is an error. -/
def add (t : SuperTables) (e : SuperEdge) : Except Point SuperTables :=
  if !t.leaving.contains e.source then .error e.source
  else if !t.reaching.contains e.target then .error e.target
  else .ok { t with
    leaving := t.leaving.file e.source e
    reaching := t.reaching.file e.target e }

def wiring (t : SuperTables) : List SuperEdge :=
  t.graphs.entries.flatMap (fun e =>
    e.2.nodes.flatMap (Supergraph.nodeEdges t.calls.callees t.graphs e.1 e.2))

def build (calls : CallTables) (graphs : List (MethodRef × FlowGraph)) : Except Point SuperTables :=
  let t := graphs.foldl embed { calls }
  t.wiring.foldlM add t

def ofCalls (h : Hierarchy) (calls : CallTables) (ready : OrderedMap MethodRef FlowGraph) :
    Except GraphError (Except Point SuperTables) := do
  return build calls (← Supergraph.embed h calls.graph ready)

def graph (t : SuperTables) : Supergraph := .join t.calls.graph t.graphs

def methods (t : SuperTables) : List MethodRef := t.graphs.keys

def entryMethods (t : SuperTables) : List MethodRef := t.calls.entries.filter t.graphs.contains

def methodOf? (t : SuperTables) (p : Point) : Option MethodRef := t.owner.get? p

def hasPoint (t : SuperTables) (p : Point) : Bool := t.owner.contains p

def graphAt? (t : SuperTables) (p : Point) : Option FlowGraph := (t.methodOf? p).bind t.graphs.get?

def isCallSite (t : SuperTables) (p : Point) : Bool :=
  ((t.graphAt? p).bind (fun f => f.body.stmtOf? p.node)).any Stmt.isInvoke

def callees (t : SuperTables) (s : Site) : List MethodRef :=
  (t.calls.callees s).filter t.graphs.contains

def outEdges? (t : SuperTables) (p : Point) : Option (List SuperEdge) := t.leaving.get? p

def inEdges? (t : SuperTables) (p : Point) : Option (List SuperEdge) := t.reaching.get? p

def succs? (t : SuperTables) (p : Point) : Option (List Point) :=
  (t.outEdges? p).map (fun es => (es.map SuperEdge.target).eraseDups)

def preds? (t : SuperTables) (p : Point) : Option (List Point) :=
  (t.inEdges? p).map (fun es => (es.map SuperEdge.source).eraseDups)

def returnSites? (t : SuperTables) (p : Point) : Option (List Node) :=
  (t.graphAt? p).map (fun f => f.succs p.node)

def edges (t : SuperTables) : List SuperEdge := t.leaving.values.flatten

def nodeText (t : SuperTables) (p : Point) : String :=
  (t.graphAt? p).elim "" (fun f => f.body.nodeText p.node)

def edgeText (t : SuperTables) (e : SuperEdge) : String :=
  "(" ++ t.nodeText e.source ++ ")--[" ++ e.tag ++ "]-->(" ++ t.nodeText e.target ++ ")"

def text (t : SuperTables) : String :=
  "InterproceduralCFG(methods=" ++ toString t.methods.length ++ ", nodes=" ++
    toString t.points.length ++ ", edges=" ++ toString t.edges.length ++ ")"

def validate (t : SuperTables) : Except GraphError Unit :=
  if t.entryMethods.isEmpty then .error (.noEntryMethod (t.calls.entries.map MethodRef.text))
  else match t.edges.find? (fun e => !t.hasPoint e.target) with
    | some e => .error (.edgeLeavesGraph (t.edgeText e)
        ((t.methodOf? e.source).elim "" MethodRef.text))
    | none => .ok ()

end SuperTables

end Dataflow
