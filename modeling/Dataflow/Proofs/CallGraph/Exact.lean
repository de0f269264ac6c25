import Dataflow.Proofs.CallGraph.Tables

namespace Dataflow

namespace CallGraph

/-- A call graph that is exactly the part of a program that can be reached from its main method. -/
structure Exact (h : Hierarchy) (main : MethodRef) (g : CallGraph) : Prop where
  entries : g.entries = [main]
  head : g.reachable.head? = some main
  nodup : g.reachable.Nodup
  least : IsLeast {l : Set MethodRef | main ∈ l ∧ ∀ m ∈ l, ∀ n, h.Calls m n → n ∈ l}
    {m | m ∈ g.reachable}
  chain : ∀ m ∈ g.reachable, h.Chain main (h.depth main m) m
  sorted : g.reachable.Pairwise (fun m n => h.depth main m ≤ h.depth main n)
  called : ∀ front n back, g.reachable = front ++ n :: back → front ≠ [] → ∃ m ∈ front, h.Calls m n
  nodup_edges : g.edges.Nodup
  mem_edges_iff : ∀ e, e ∈ g.edges ↔ e.caller ∈ g.reachable ∧ e.site ∈ h.sitesOf e.caller ∧
    ∃ c l, h.callAt? e.site = some c ∧ e.kind = c.kind ∧ h.resolve e.site c = .ok l ∧ e.callee ∈ l
  callees : ∀ m ∈ g.reachable, ∀ s ∈ h.sitesOf m, h.resolveAt s = .ok (g.callees s)
  nodup_callees : ∀ s, (g.callees s).Nodup
  reachable_of_mem_edges : ∀ e ∈ g.edges, e.caller ∈ g.reachable ∧ e.callee ∈ g.reachable

theorem exact_of_ofProgram {p : Program} {g : CallGraph} (hg : ofProgram p = .ok g) :
    g.Exact p.hierarchy p.main := by
  obtain ⟨s, hs, rfl⟩ := search_of_ofProgram hg
  obtain ⟨hentries, hq⟩ := Search.orderly_search hs
  have hf := Search.faithful_complete (Search.faithful_start p.hierarchy p.main) hs
  have horder := hf.order
  rw [hq] at horder
  constructor
  case entries => exact hentries.entries
  case head =>
    have hhead := horder.head
    rwa [List.append_nil] at hhead
  case nodup => exact s.graph.nodup_reachable
  case least =>
    refine ⟨⟨horder.main_mem, fun m hm n hn => horder.mem_of_calls hm hn⟩, ?_⟩
    rintro l ⟨hmain, hclosed⟩ n hn
    obtain ⟨k, hk⟩ := (horder.mem_iff n).1 hn
    induction hk with
    | start => exact hmain
    | call hm hc ih => exact hclosed _ (ih ((horder.mem_iff _).2 ⟨_, hm⟩)) _ hc
  case chain => exact fun m hm => horder.chain_depth hm
  case sorted => exact horder.sorted
  case called => exact fun front n back hl hfront => horder.exists_caller hl hfront
  case nodup_edges => exact s.graph.nodup_edges
  case mem_edges_iff =>
    intro e
    rw [hf.mem_edges_iff, Hierarchy.mem_edgesOf_iff, Hierarchy.mem_edgesAt_iff]
    simp only [true_and]
  case callees => exact fun m hm site hsite => hf.callees_eq hm hsite
  case nodup_callees => exact hf.nodup_callees
  case reachable_of_mem_edges =>
    intro e he
    obtain ⟨hm, he⟩ := (hf.mem_edges_iff e).1 he
    exact ⟨hm, horder.mem_of_calls hm ((p.hierarchy.calls_iff _ _).2 ⟨e, he, rfl⟩)⟩

theorem ofProgram_ok {p : Program} (hs : p.hierarchy.Sane) : ∃ g, ofProgram p = .ok g := by
  have hfuel := Search.search_ne_outOfFuel p
  have hfailed := Search.complete_ne_failed hs (p.hierarchy.refs.length + 2) (.start p.main)
  rw [ofProgram]
  rw [← search] at hfailed
  cases hp : (search p).2 with
  | ok _ => exact ⟨_, by simp only [hp]; rfl⟩
  | error stop =>
      cases stop with
      | failed e => exact absurd hp (hfailed e)
      | outOfFuel => exact absurd hp hfuel

end CallGraph

namespace CallTables

/-- Tables that hold exactly the part of a program that can be reached from its main method. -/
structure Exact (h : Hierarchy) (main : MethodRef) (t : CallTables) : Prop where
  graph : t.graph.Exact h main
  inStep : t.InStep h
  sitesIn : ∀ m, t.sitesIn m = if m ∈ t.methods then h.sitesOf m else []
  callees : ∀ m ∈ t.methods, ∀ s ∈ h.sitesOf m, h.resolveAt s = .ok (t.callees s)
  nodup_callees : ∀ s, (t.callees s).Nodup
  edgesFrom : ∀ s, t.edgesFrom s = t.calls.filter (fun e => e.site = s)
  edgesInto : ∀ m, t.edgesInto m = t.calls.filter (fun e => e.callee = m)

theorem exact_of_ofProgram {p : Program} {t : CallTables} (ht : ofProgram p = .ok t) :
    t.Exact p.hierarchy p.main := by
  have hgraph := CallGraph.exact_of_ofProgram (graph_of_ofProgram ht)
  have hstep := inStep_of_ofProgram ht
  have hanswers := hstep.answers
  constructor
  case graph => exact hgraph
  case inStep => exact hstep
  case sitesIn =>
    intro m
    rw [CallTables.sitesIn, OrderedMap.getD, hstep.sites]
    split <;> rfl
  case callees =>
    intro m hm s hs
    rw [hanswers.callees]
    exact hgraph.callees m hm s hs
  case nodup_callees =>
    intro s
    rw [hanswers.callees]
    exact hgraph.nodup_callees s
  case edgesFrom => exact hanswers.edgesFrom
  case edgesInto => exact hanswers.edgesInto

/-- Class hierarchy analysis builds exactly the reachable part of a program, breadth first. It comes to an
end however often its queue repeats a method, and it fails only on a program that names something wrong. -/
theorem ofProgram_exact (p : Program) :
    (∀ t, ofProgram p = .ok t → t.Exact p.hierarchy p.main) ∧
      ofProgram p ≠ .error .outOfFuel ∧
      (ofProgram p).map graph = CallGraph.ofProgram p ∧
      (p.hierarchy.Sane → ∃ t, ofProgram p = .ok t) := by
  refine ⟨fun t ht => exact_of_ofProgram ht, ?_, map_graph_ofProgram p, fun hs => ?_⟩
  · have hfuel := Search.search_ne_outOfFuel p
    intro hp
    rw [ofProgram] at hp
    cases hs : (search p).2 with
    | ok _ => simp only [hs] at hp; cases hp
    | error stop =>
        simp only [hs] at hp
        cases hp
        exact hfuel hs
  · obtain ⟨g, hg⟩ := CallGraph.ofProgram_ok hs
    obtain ⟨t, ht, -⟩ := exists_of_ofProgram hg
    exact ⟨t, ht⟩

end CallTables

namespace Shapes

def main : MethodRef := ⟨"Main", "void main()"⟩

def area (name : String) : MethodRef := ⟨name, "int area()"⟩

def shape : Var := ⟨0, 0, "shape", .cls "Shape", 0⟩

def square : Var := ⟨1, 0, "square", .cls "Square", 0⟩

def mainBody : Body where
  name := "main"
  params := [shape]
  vars := [shape]
  stmts := [.invoke none ⟨.interface, area "Shape", [], some shape⟩, .ret none]

def circleBody : Body where
  name := "area"
  params := [square]
  vars := [square]
  stmts := [
    .invoke none ⟨.virtual, area "Square", [], some square⟩,
    .invoke none ⟨.static, main, [square], none⟩,
    .ret none]

def method (name : String) (body : Option Body) : String × Method :=
  ((area name).subsig, { ref := area name, body })

def classes : List ClassDecl := [
  { serial := 0
    name := "Main"
    methods := .ofList [(main.subsig, { ref := main, isStatic := true, body := some mainBody })] },
  { serial := 1
    name := "Shape"
    isInterface := true
    methods := .ofList [("int area()", { ref := area "Shape", isAbstract := true })] },
  { serial := 2, name := "Square", interfaces := ["Shape"], methods := .ofList [method "Square" none] },
  { serial := 3
    name := "Circle"
    interfaces := ["Shape"]
    methods := .ofList [method "Circle" (some circleBody)] }]

def program : Program where
  hierarchy := ⟨.ofList (classes.map (fun c => (c.name, c)))⟩
  main := main

def calls : CallGraph where
  entries := [main]
  reachable := [main, area "Square", area "Circle"]
  edges := [
    ⟨.interface, ⟨main, 0⟩, area "Square"⟩,
    ⟨.interface, ⟨main, 0⟩, area "Circle"⟩,
    ⟨.virtual, ⟨area "Circle", 0⟩, area "Square"⟩,
    ⟨.static, ⟨area "Circle", 1⟩, main⟩]
  nodup_entries := List.nodup_singleton main
  nodup_reachable := by decide
  nodup_edges := by decide

theorem ofProgram_program : CallGraph.ofProgram program = .ok calls := rfl

theorem receivers_declared : program.hierarchy.methods.all (fun m => m.body.all (fun b =>
    b.stmts.all (fun s => match s with
      | .invoke _ c => program.hierarchy.contains c.method.className
      | _ => true))) = true := by
  decide

theorem sane_program : program.hierarchy.Sane where
  receiver m s hs c hc := by
    obtain ⟨b, hb, result, hi⟩ := Hierarchy.exists_of_callAt? hc
    obtain ⟨d, hd, hdb⟩ := Hierarchy.exists_of_body? hb
    have hall := List.all_eq_true.1 receivers_declared d hd
    rw [hdb] at hall
    exact Option.isSome_iff_exists.1 (List.all_eq_true.1 hall _ (List.mem_of_getElem? hi))
  superclass c hc name hn := by
    have hnone : ∀ c ∈ program.hierarchy.decls, c.superclass = none := by decide
    rw [hnone c hc] at hn
    cases hn
  interface := by
    have hall : ∀ c ∈ program.hierarchy.decls, ∀ name ∈ c.interfaces,
        ((program.hierarchy.classNamed? name).map ClassDecl.isInterface) = some true := by decide
    exact fun c hc name hname => Option.map_eq_some_iff.1 (hall c hc name hname)
  acyclic c hc := by
    have hnone : ∀ c ∈ program.hierarchy.decls, program.hierarchy.superclass? c = .ok none := by
      have hnone : ∀ c ∈ program.hierarchy.decls, c.superclass = none := by decide
      intro c hc
      rw [Hierarchy.superclass?, hnone c hc]
    obtain ⟨b, -, hlast⟩ := Relation.TransGen.tail'_iff.1 hc
    obtain ⟨d, hfirst, -⟩ := Relation.TransGen.head'_iff.1 hc
    rw [Hierarchy.Extends, hnone c (Hierarchy.mem_decls_of_superclass? hlast)] at hfirst
    cases hfirst

theorem ofProgram_exact_shapes : program.hierarchy.Sane ∧
    ∃ t, CallTables.ofProgram program = .ok t ∧ t.Exact program.hierarchy main ∧ t.graph = calls ∧
      t.callees ⟨main, 0⟩ = [area "Square", area "Circle"] ∧
      t.callers (area "Square") = [⟨main, 0⟩, ⟨area "Circle", 0⟩] := by
  obtain ⟨hexact, -, hgraph, hbuilds⟩ := CallTables.ofProgram_exact program
  obtain ⟨t, ht⟩ := hbuilds sane_program
  have htables := hexact t ht
  have hcalls : t.graph = calls := by
    rw [ht, ofProgram_program] at hgraph
    exact Except.ok.inj hgraph
  have hedges : t.calls = calls.edges := congrArg CallGraph.edges hcalls
  refine ⟨sane_program, t, ht, htables, hcalls, ?_, ?_⟩
  · rw [CallTables.callees, htables.edgesFrom, hedges]
    decide
  · rw [CallTables.callers, htables.edgesInto, hedges]
    decide

end Shapes

end Dataflow
