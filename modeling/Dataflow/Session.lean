import Dataflow.Failure
import Dataflow.Log
import Dataflow.Supergraph.Tables

namespace Dataflow

/-- A computation that keeps a log and can fail. What was logged before a failure stays. -/
abbrev Session := ExceptT Failure (StateM (List LogRecord))

namespace Session

def outcome {α : Type} (x : Session α) : Except Failure α × List LogRecord := ExceptT.run x []

def ofExcept {ε α : Type} (wrap : ε → Failure) (x : Except ε α) : Session α :=
  match x with
  | .ok a => pure a
  | .error e => throw (wrap e)

def log (level : Level) (channel message : String) : Session Unit :=
  modify (· ++ [⟨level, rootChannel ++ "." ++ channel, message⟩])

def flowGraph (b : Body) : Session FlowGraph := do
  let g ← ofExcept .graph (FlowGraph.ofBody b)
  if b.size ≠ 0 then log .debug "ctrlflow_graph" ("built " ++ g.text)
  return g

def logSolution {φ : Type} (g : FlowGraph) (s : Solution Node φ) : Session Unit :=
  log .debug "dataflow_engine"
    (s.analysis ++ "/" ++ s.solver ++ " on " ++ g.body.name ++ ": " ++ toString s.transfers ++
      " transfers, " ++ toString s.passes ++ " passes")

def solve {φ : Type} (a : Analysis φ) (strategy : Strategy) (g : FlowGraph) :
    Session (Solution Node φ) := do
  let s ← ofExcept .graph (a.solve strategy g)
  logSolution g s
  return s

def deadCodeFrom (b : Body) (config : Option Config) (kept : ResultTable DeadCode.Kept) :
    Session (List Nat) := do
  let c ← ofExcept .config (DeadCode.configOrDefault config)
  let basis ← ofExcept .result (DeadCode.Basis.ofKept b.name kept)
  let dead := basis.dead c.branchTruth
  log .debug "ctrlflow_analyses" (b.name ++ ": " ++ toString dead.length ++ " dead statement(s)")
  return dead

def deadCode (b : Body) (config : Option Config) :
    Session (List Nat × ResultTable DeadCode.Kept) := do
  let g ← flowGraph b
  let basis ← ofExcept .graph (DeadCode.Basis.ofBody b)
  logSolution g basis.constants
  logSolution g basis.live
  let dead ← deadCodeFrom b config basis.kept
  return (dead, basis.kept.insert AnalysisId.deadcode.name (.dead dead))

def program (h : Hierarchy) (c : ClassDecl) (m : Method) : Session Program := do
  let p ← ofExcept .hierarchy (Program.make h c m)
  log .debug "hierarchy"
    ("program with " ++ toString h.size ++ " classes, main " ++ m.ref.text)
  return p

def callGraph (p : Program) : Session CallTables := do
  let (s, result) := CallTables.search p
  for site in s.unresolved do
    log .debug "callgraph"
      ("no CHA target for " ++ p.hierarchy.siteStmtText site ++ " in " ++ site.method.text)
  ofExcept .ofStop result
  log .info "callgraph"
    ("CHA call graph from " ++ p.main.text ++ ": " ++ toString s.tables.methods.length ++
      " reachable methods, " ++ toString s.tables.calls.length ++ " edges")
  return s.tables

def embedMethod (h : Hierarchy) (ready : OrderedMap MethodRef FlowGraph) (m : MethodRef) :
    Session Unit :=
  match h.body? m with
  | none =>
    log .warning "interproc_analysis"
      ("reachable method " ++ m.text ++ " has no IR; left out of the ICFG")
  | some b => if ready.contains m then pure () else discard (flowGraph b)

def supergraph (h : Hierarchy) (calls : CallTables) (ready : OrderedMap MethodRef FlowGraph) :
    Session SuperTables := do
  calls.methods.forM (embedMethod h ready)
  match ← ofExcept .graph (SuperTables.ofCalls h calls ready) with
  | .error p => throw (.notInGraph p.method.text)
  | .ok t =>
    log .info "interproc_analysis"
      ("ICFG: " ++ toString t.methods.length ++ " methods, " ++ toString t.points.length ++
        " nodes, " ++ toString t.edges.length ++ " edges")
    return t

/-- As many visits as a solution across calls is given: more than any run lives to make. -/
def budget : Nat := 1000000000000000000

def solveCalls (g : Supergraph) : Session (Solution Point Fact) := do
  match ← ofExcept .graph (g.solve? budget) with
  | none => throw .unsettled
  | some s =>
    log .debug "interproc_analysis"
      (s.analysis ++ "/" ++ s.solver ++ ": " ++ toString s.size ++ " nodes, " ++
        toString s.transfers ++ " transfers")
    return s

def constPropAcrossCalls (p : Program) (config : Option Config) :
    Session (Supergraph × Solution Point Fact) := do
  let calls ← callGraph p
  let t ← supergraph p.hierarchy calls .empty
  let _ ← ofExcept .config (Config.orDefault "InterConstantPropagation" .interConstprop config)
  return (t.graph, ← solveCalls t.graph)

end Session

end Dataflow
