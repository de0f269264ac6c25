import Dataflow.Program.Hierarchy
import Dataflow.WorkQueue

namespace Dataflow

structure Site where
  method : MethodRef
  position : Nat
  deriving DecidableEq

namespace Hierarchy

def callAt? (h : Hierarchy) (s : Site) : Option Call :=
  match (h.body? s.method).bind (fun b => b.stmt? s.position) with
  | some (.invoke _ c) => some c
  | _ => none

def siteStmtText (h : Hierarchy) (s : Site) : String :=
  (h.body? s.method).elim "" (fun b => b.textAt s.position)

def siteText (h : Hierarchy) (s : Site) : String := s.method.text ++ " " ++ h.siteStmtText s

def sitesOf (h : Hierarchy) (m : MethodRef) : List Site :=
  (h.body? m).elim [] (fun b => b.callSites.map (fun i => ⟨m, i⟩))

end Hierarchy

structure CallEdge where
  kind : CallKind
  site : Site
  callee : MethodRef
  deriving DecidableEq

namespace CallEdge

def caller (e : CallEdge) : MethodRef := e.site.method

def text (h : Hierarchy) (e : CallEdge) : String :=
  "CallGraphEdge(" ++ e.kind.name ++ ", " ++ e.caller.text ++ "/" ++ h.siteStmtText e.site ++ " -> " ++
    e.callee.text ++ ")"

end CallEdge

/-- Which methods can be reached and who calls whom. All lists are in the order of discovery and hold
each item once. -/
structure CallGraph where
  entries : List MethodRef := []
  reachable : List MethodRef := []
  edges : List CallEdge := []
  nodup_entries : entries.Nodup := by simp
  nodup_reachable : reachable.Nodup := by simp
  nodup_edges : edges.Nodup := by simp

namespace CallGraph

def addEntry (g : CallGraph) (m : MethodRef) : CallGraph :=
  if h : m ∈ g.entries then g
  else { g with
    entries := g.entries ++ [m]
    nodup_entries := by have := g.nodup_entries; grind }

def contains (g : CallGraph) (m : MethodRef) : Bool := g.reachable.contains m

def addReachable (g : CallGraph) (m : MethodRef) : CallGraph :=
  if h : m ∈ g.reachable then g
  else { g with
    reachable := g.reachable ++ [m]
    nodup_reachable := by have := g.nodup_reachable; grind }

def containsEdge (g : CallGraph) (e : CallEdge) : Bool := g.edges.contains e

def addEdge (g : CallGraph) (e : CallEdge) : CallGraph :=
  if h : e ∈ g.edges then g
  else { g with
    edges := g.edges ++ [e]
    nodup_edges := by have := g.nodup_edges; grind }

def sitesIn (g : CallGraph) (h : Hierarchy) (m : MethodRef) : List Site :=
  if g.contains m then h.sitesOf m else []

def edgesFrom (g : CallGraph) (s : Site) : List CallEdge := g.edges.filter (fun e => e.site = s)

def edgesInto (g : CallGraph) (m : MethodRef) : List CallEdge :=
  g.edges.filter (fun e => e.callee = m)

def callees (g : CallGraph) (s : Site) : List MethodRef := (g.edgesFrom s).map CallEdge.callee

def callers (g : CallGraph) (m : MethodRef) : List Site := (g.edgesInto m).map CallEdge.site

def text (g : CallGraph) : String :=
  "CallGraph(methods=" ++ toString g.reachable.length ++ ", edges=" ++ toString g.edges.length ++ ")"

theorem mem_edgesFrom_iff (g : CallGraph) (s : Site) (e : CallEdge) :
    e ∈ g.edgesFrom s ↔ e ∈ g.edges ∧ e.site = s := by
  simp [edgesFrom]

theorem mem_edges_addEdge (g : CallGraph) (e e' : CallEdge) :
    e' ∈ (g.addEdge e).edges ↔ e' ∈ g.edges ∨ e' = e := by
  rw [addEdge]
  split <;> grind

theorem mem_reachable_addReachable (g : CallGraph) (m m' : MethodRef) :
    m' ∈ (g.addReachable m).reachable ↔ m' ∈ g.reachable ∨ m' = m := by
  rw [addReachable]
  split <;> grind

end CallGraph

end Dataflow
