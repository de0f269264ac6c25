import Dataflow.Body.Basic

namespace Dataflow

/-- A node of a control-flow graph: the entry, the exit, or a statement of the body. A stray node is a
statement of no body. -/
inductive Node where
  | entry
  | stmt (position : Nat)
  | exit
  | stray (serial : Nat) (tag : String)
  deriving DecidableEq

namespace Body

def nodeNumber (b : Body) : Node → Int
  | .entry => -1
  | .stmt i => b.numberOf i
  | .exit => b.size
  | .stray _ _ => -1

def nodeText (b : Body) : Node → String
  | .entry => "-1@entry"
  | .stmt i => b.textAt i
  | .exit => toString b.size ++ "@exit"
  | .stray _ tag => "-1@" ++ tag

def nodes (b : Body) : List Node := .entry :: (List.range b.size).map .stmt ++ [.exit]

/-- The node at a place, where the entry is at -1, the statements follow from 0 and the exit is last.
Places below -1 count from the end. -/
def nodeAt (b : Body) (i : Int) : Except PlaceError Node := atPlace b.nodes (i + 1)

def hasNode (b : Body) : Node → Bool
  | .entry | .exit => true
  | .stmt i => i < b.size
  | .stray _ _ => false

def stmtOf? (b : Body) : Node → Option (Stmt Target)
  | .stmt i => b.stmt? i
  | _ => none

def fallsThrough (b : Body) (n : Node) : Bool := (b.stmtOf? n).all Stmt.fallsThrough

theorem mem_nodes_iff (b : Body) (n : Node) : n ∈ b.nodes ↔ b.hasNode n = true := by
  cases n <;> simp [nodes, hasNode]

theorem nodup_nodes (b : Body) : b.nodes.Nodup := by
  have h : ((List.range b.size).map Node.stmt).Nodup :=
    List.Pairwise.map _ (fun i k h => by simpa using h) List.nodup_range
  simp only [nodes, List.cons_append, List.nodup_cons, List.nodup_append]
  refine ⟨by simp, h, by simp, ?_⟩
  grind

end Body

inductive EdgeKind where
  | entry
  | fallThrough
  | goto
  | ifTrue
  | ifFalse
  | switchCase
  | switchDefault
  | ret
  | exception
  deriving DecidableEq

namespace EdgeKind

def all : List EdgeKind :=
  [entry, fallThrough, goto, ifTrue, ifFalse, switchCase, switchDefault, ret, exception]

def name : EdgeKind → String
  | entry => "entry"
  | fallThrough => "fall-through"
  | goto => "goto"
  | ifTrue => "if-true"
  | ifFalse => "if-false"
  | switchCase => "switch-case"
  | switchDefault => "switch-default"
  | ret => "return"
  | exception => "exception"

def ofName? (s : String) : Option EdgeKind := all.find? (fun k => k.name = s)

def isSwitch : EdgeKind → Bool
  | switchCase | switchDefault => true
  | _ => false

end EdgeKind

structure Edge where
  source : Node
  target : Node
  kind : EdgeKind
  caseValue : Option Int := none
  deriving DecidableEq

inductive GraphError where
  | strayEndpoint (node method : String)
  | entryHasPredecessors (method : String)
  | exitHasSuccessors (method : String)
  | noSuccessors (node method : String)
  | lostJump (stmt method : String)
  | noEntryMethod (methods : List String)
  | edgeLeavesGraph (edge method : String)
  deriving DecidableEq

def GraphError.report : GraphError → Report
  | strayEndpoint node method =>
    ⟨"edge endpoint " ++ node ++ " is not a node of this CFG", [("method", .text method)]⟩
  | entryHasPredecessors method => ⟨"CFG entry has predecessors", [("method", .text method)]⟩
  | exitHasSuccessors method => ⟨"CFG exit has successors", [("method", .text method)]⟩
  | noSuccessors node method =>
    ⟨"node " ++ node ++ " has no successors", [("method", .text method)]⟩
  | lostJump stmt method =>
    ⟨"jump " ++ stmt ++ " has no target in its method", [("method", .text method)]⟩
  | noEntryMethod methods =>
    ⟨"ICFG has no entry method with a body", [("entry_methods", .texts methods)]⟩
  | edgeLeavesGraph edge method =>
    ⟨"ICFG edge " ++ edge ++ " leaves the graph", [("method", .text method)]⟩

/-- A control-flow graph over the statements of a body, with its edges in the order in which they were
added. Every edge lies between nodes of the body. -/
structure FlowGraph where
  body : Body
  edges : List Edge := []
  ends : ∀ e ∈ edges, body.hasNode e.source = true ∧ body.hasNode e.target = true

namespace FlowGraph

def nodes (g : FlowGraph) : List Node := g.body.nodes

def hasNode (g : FlowGraph) (n : Node) : Bool := g.body.hasNode n

def addEdge (g : FlowGraph) (e : Edge) : Except GraphError FlowGraph :=
  if hs : g.hasNode e.source = true then
    if ht : g.hasNode e.target = true then
      .ok { body := g.body
            edges := g.edges ++ [e]
            ends := by
              intro d hd
              rcases List.mem_append.1 hd with hd | hd
              · exact g.ends d hd
              · obtain rfl := List.mem_singleton.1 hd
                exact ⟨hs, ht⟩ }
    else .error (.strayEndpoint (g.body.nodeText e.target) g.body.name)
  else .error (.strayEndpoint (g.body.nodeText e.source) g.body.name)

def outEdges (g : FlowGraph) (n : Node) : List Edge := g.edges.filter (fun e => e.source = n)

def inEdges (g : FlowGraph) (n : Node) : List Edge := g.edges.filter (fun e => e.target = n)

def succs (g : FlowGraph) (n : Node) : List Node := ((g.outEdges n).map Edge.target).eraseDups

def preds (g : FlowGraph) (n : Node) : List Node := ((g.inEdges n).map Edge.source).eraseDups

def edgesBySource (g : FlowGraph) : List Edge := g.nodes.flatMap g.outEdges

/-- A graph can be solved if nothing leads to the entry, nothing leads away from the exit, and every
other node leads somewhere. -/
def validate (g : FlowGraph) : Except GraphError Unit :=
  if g.inEdges .entry ≠ [] then .error (.entryHasPredecessors g.body.name)
  else if g.outEdges .exit ≠ [] then .error (.exitHasSuccessors g.body.name)
  else match g.nodes.find? (fun n => n ≠ .exit && (g.outEdges n).isEmpty) with
    | some n => .error (.noSuccessors (g.body.nodeText n) g.body.name)
    | none => .ok ()

theorem mem_succs_iff (g : FlowGraph) (n m : Node) :
    m ∈ g.succs n ↔ ∃ e ∈ g.edges, e.source = n ∧ e.target = m := by
  simp only [succs, outEdges, List.mem_eraseDups, List.mem_map, List.mem_filter, decide_eq_true_eq]
  grind

theorem mem_preds_iff (g : FlowGraph) (n m : Node) :
    n ∈ g.preds m ↔ ∃ e ∈ g.edges, e.source = n ∧ e.target = m := by
  simp only [preds, inEdges, List.mem_eraseDups, List.mem_map, List.mem_filter, decide_eq_true_eq]
  grind

theorem mem_succs_iff_mem_preds (g : FlowGraph) (n m : Node) : m ∈ g.succs n ↔ n ∈ g.preds m := by
  rw [mem_succs_iff, mem_preds_iff]

def edgeText (g : FlowGraph) (e : Edge) : String :=
  "CFGEdge(" ++ toString (g.body.nodeNumber e.source) ++ " -> " ++
    toString (g.body.nodeNumber e.target) ++ ", " ++ e.kind.name ++
    (e.caseValue.elim "" (fun v => "(" ++ toString v ++ ")")) ++ ")"

def text (g : FlowGraph) : String :=
  "CFG(" ++ Text.quoted g.body.name ++ ", nodes=" ++ toString g.nodes.length ++ ", edges=" ++
    toString g.edgesBySource.length ++ ")"

def summaryLine (g : FlowGraph) (n : Node) : String :=
  "  " ++ g.body.nodeText n ++ "  succ=[" ++
    ", ".intercalate ((g.outEdges n).map (fun e =>
      toString (g.body.nodeNumber e.target) ++ "(" ++ e.kind.name ++ ")")) ++ "]"

def summary (g : FlowGraph) : String :=
  "\n".intercalate (g.text :: g.nodes.map g.summaryLine)

end FlowGraph

end Dataflow
