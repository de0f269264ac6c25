import Dataflow.CallGraph.Build

namespace Dataflow

/-- A call graph in tables: the call sites of each method, and each edge twice, under the site it leaves
and under the method it reaches. -/
structure CallTables where
  entries : List MethodRef := []
  reachable : OrderedMap MethodRef Unit := .empty
  sites : OrderedMap MethodRef (List Site) := .empty
  leaving : OrderedMap Site (List CallEdge) := .empty
  reaching : OrderedMap MethodRef (List CallEdge) := .empty
  edges : OrderedMap CallEdge Unit := .empty
  nodup_entries : entries.Nodup := by exact List.nodup_nil

namespace CallTables

def addEntry (t : CallTables) (m : MethodRef) : CallTables :=
  if h : m ∈ t.entries then t
  else { t with
    entries := t.entries ++ [m]
    nodup_entries := by have := t.nodup_entries; grind }

def contains (t : CallTables) (m : MethodRef) : Bool := t.reachable.contains m

/-- Make a method reachable, and tell whether it was not. -/
def addReachable (h : Hierarchy) (t : CallTables) (m : MethodRef) : Bool × CallTables :=
  if t.contains m then (false, t)
  else (true, { t with
    reachable := t.reachable.insert m ()
    sites := t.sites.insert m (h.sitesOf m)
    leaving := (h.sitesOf m).foldl (fun l s => l.setDefault s []) t.leaving
    reaching := t.reaching.setDefault m [] })

def addEdge (t : CallTables) (e : CallEdge) : Bool × CallTables :=
  if t.edges.contains e then (false, t)
  else (true, { t with
    edges := t.edges.insert e ()
    leaving := t.leaving.file e.site e
    reaching := t.reaching.file e.callee e })

def methods (t : CallTables) : List MethodRef := t.reachable.keys

def calls (t : CallTables) : List CallEdge := t.edges.keys

def sitesIn (t : CallTables) (m : MethodRef) : List Site := t.sites.getD m []

def edgesFrom (t : CallTables) (s : Site) : List CallEdge := t.leaving.getD s []

def edgesInto (t : CallTables) (m : MethodRef) : List CallEdge := t.reaching.getD m []

def callees (t : CallTables) (s : Site) : List MethodRef := (t.edgesFrom s).map CallEdge.callee

def callers (t : CallTables) (m : MethodRef) : List Site := (t.edgesInto m).map CallEdge.site

def text (t : CallTables) : String :=
  "CallGraph(methods=" ++ toString t.methods.length ++ ", edges=" ++ toString t.calls.length ++ ")"

def graph (t : CallTables) : CallGraph where
  entries := t.entries
  reachable := t.methods
  edges := t.calls
  nodup_entries := t.nodup_entries
  nodup_reachable := t.reachable.nodup_keys
  nodup_edges := t.edges.nodup_keys

/-- A call graph in the making, in tables. A method can wait many times, and still wait when it was
looked at. -/
structure Search where
  tables : CallTables
  queue : List MethodRef
  unresolved : List Site := []

namespace Search

def meetCallee (kind : CallKind) (site : Site) (s : Search) (callee : MethodRef) : Search :=
  let (_, tables) := s.tables.addEdge ⟨kind, site, callee⟩
  { s with tables, queue := if tables.contains callee then s.queue else s.queue ++ [callee] }

def meetSite (kind : CallKind) (site : Site) (callees : List MethodRef) (s : Search) : Search :=
  let s := if callees.isEmpty then { s with unresolved := s.unresolved ++ [site] } else s
  callees.foldl (meetCallee kind site) s

def visit (h : Hierarchy) (s : Search) (m : MethodRef) (rest : List MethodRef) : Bool × Search :=
  let (new, tables) := s.tables.addReachable h m
  (new, { s with tables, queue := rest })

/-- Look at the methods that wait until there are no more, and pass over those that were looked at. Each
uses one unit of fuel. -/
def complete (h : Hierarchy) : Nat → Search → Search × Except CallGraph.Stop Unit
  | 0, s => (s, .error .outOfFuel)
  | fuel + 1, s =>
    match s.queue with
    | [] => (s, .ok ())
    | m :: rest =>
      match s.visit h m rest with
      | (false, s) => complete h fuel s
      | (true, s) =>
        match h.resolveEach meetSite (s.tables.sitesIn m) s with
        | (s, .error e) => (s, .error (.failed e))
        | (s, .ok _) => complete h fuel s

def start (main : MethodRef) : Search :=
  { tables := ({} : CallTables).addEntry main, queue := [main] }

/-- Enough for a search in which each call site makes every method there is wait. -/
def fuel (p : Program) : Nat :=
  let refs := p.hierarchy.refs
  ((p.main :: refs).flatMap p.hierarchy.sitesOf).length * refs.length + 2

end Search

def search (p : Program) : Search × Except CallGraph.Stop Unit :=
  Search.complete p.hierarchy (Search.fuel p) (.start p.main)

def ofProgram (p : Program) : Except CallGraph.Stop CallTables :=
  let (s, outcome) := search p
  outcome.map (fun _ => s.tables)

end CallTables

end Dataflow
