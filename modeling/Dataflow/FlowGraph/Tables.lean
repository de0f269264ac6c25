import Dataflow.FlowGraph.Basic

namespace Dataflow

/-- A control-flow graph that keeps each edge twice, under the node it leaves and under the node it
reaches. -/
structure EdgeTables where
  body : Body
  leaving : OrderedMap Node (List Edge)
  reaching : OrderedMap Node (List Edge)

namespace EdgeTables

def blank (b : Body) : OrderedMap Node (List Edge) := .ofList (b.nodes.map (fun n => (n, [])))

def bare (b : Body) : EdgeTables := ⟨b, blank b, blank b⟩

def strayEnd? (t : EdgeTables) (e : Edge) : Option Node :=
  [e.source, e.target].find? (fun n => !t.body.hasNode n)

/-- File an edge in both tables, unless one of its ends is no node of the graph. -/
def add (t : EdgeTables) (e : Edge) : Except GraphError Edge × EdgeTables :=
  match t.strayEnd? e with
  | some n => (.error (.strayEndpoint (t.body.nodeText n) t.body.name), t)
  | none =>
    let t := { t with leaving := t.leaving.file e.source e }
    (.ok e, { t with reaching := t.reaching.file e.target e })

def addAll (t : EdgeTables) (edges : List Edge) : EdgeTables := edges.foldl (fun t e => (t.add e).2) t

def outEdges? (t : EdgeTables) (n : Node) : Option (List Edge) := t.leaving.get? n

def inEdges? (t : EdgeTables) (n : Node) : Option (List Edge) := t.reaching.get? n

def succs? (t : EdgeTables) (n : Node) : Option (List Node) :=
  (t.outEdges? n).map (fun es => (es.map Edge.target).eraseDups)

def preds? (t : EdgeTables) (n : Node) : Option (List Node) :=
  (t.inEdges? n).map (fun es => (es.map Edge.source).eraseDups)

def edgesBySource (t : EdgeTables) : List Edge :=
  t.body.nodes.flatMap (fun n => t.leaving.getD n [])

def validate (t : EdgeTables) : Except GraphError Unit :=
  if t.reaching.getD .entry [] ≠ [] then .error (.entryHasPredecessors t.body.name)
  else if t.leaving.getD .exit [] ≠ [] then .error (.exitHasSuccessors t.body.name)
  else match t.body.nodes.find? (fun n => n ≠ .exit && (t.leaving.getD n []).isEmpty) with
    | some n => .error (.noSuccessors (t.body.nodeText n) t.body.name)
    | none => .ok ()

end EdgeTables

end Dataflow
