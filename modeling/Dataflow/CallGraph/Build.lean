import Dataflow.CallGraph.Resolve
import Dataflow.Config

namespace Dataflow

namespace CallGraph

/-- Why a search for the methods that can be reached stops short. -/
inductive Stop where
  | failed (e : HierarchyError)
  | outOfFuel

/-- A call graph in the making: the methods found and not yet looked at, each once, and the sites met so
far that resolve to nothing. `CallTables.Search` finds the same with a queue that repeats methods. -/
structure Search where
  graph : CallGraph
  queue : WorkQueue MethodRef
  unresolved : List Site := []

namespace Search

def meetCallee (kind : CallKind) (site : Site) (s : Search) (callee : MethodRef) : Search :=
  let graph := s.graph.addEdge ⟨kind, site, callee⟩
  { s with graph, queue := if graph.contains callee then s.queue else s.queue.add callee }

def meetSite (kind : CallKind) (site : Site) (callees : List MethodRef) (s : Search) : Search :=
  let s := if callees.isEmpty then { s with unresolved := s.unresolved ++ [site] } else s
  callees.foldl (meetCallee kind site) s

/-- Look at the methods found until there are no more. Each uses one unit of fuel. -/
def complete (h : Hierarchy) : Nat → Search → Search × Except Stop Unit
  | 0, s => (s, .error .outOfFuel)
  | fuel + 1, s =>
    match s.queue.pop? with
    | none => (s, .ok ())
    | some (m, rest) =>
      let s := { s with graph := s.graph.addReachable m, queue := rest }
      match h.resolveEach meetSite (h.sitesOf m) s with
      | (s, .error e) => (s, .error (.failed e))
      | (s, .ok _) => complete h fuel s

def start (main : MethodRef) : Search :=
  { graph := ({} : CallGraph).addEntry main, queue := .ofList [main] }

end Search

def search (p : Program) : Search × Except Stop Unit :=
  Search.complete p.hierarchy (p.hierarchy.refs.length + 2) (.start p.main)

def ofProgram (p : Program) : Except Stop CallGraph :=
  let (s, outcome) := search p
  outcome.map (fun _ => s.graph)

def checkConfig : Option Config → Except ConfigError Unit
  | none => .ok ()
  | some c =>
    if c.analysis = .cha then .ok () else .error (.unusableAnalysis "CHABuilder" c.analysis)

end CallGraph

end Dataflow
