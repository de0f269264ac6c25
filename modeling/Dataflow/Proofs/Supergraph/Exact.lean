import Dataflow.Proofs.Supergraph.Sound

namespace Dataflow

namespace Supergraph

variable {h : Hierarchy} {calls : CallGraph} {ready : OrderedMap MethodRef FlowGraph}
  {g : Supergraph}

/-- Facts before and after the points that solve all equations: before a point, each variable has the
meet of what the boundary and the edges into the point say of it; a call site changes nothing, and any
other point what its statement changes. -/
structure Solves (g : Supergraph) (before after : Point → Fact) : Prop where
  ends : ∀ e ∈ g.edges, e.source ∈ g.points ∧ e.target ∈ g.points
  get_before : ∀ p ∈ g.points, ∀ x, (before p).get x = ((g.boundary p).get x).meet
    (Value.meetAll ((g.inEdges p).map (fun e => (g.along e (after e.source)).get x)))
  get_after : ∀ p ∈ g.points, ∀ x, (after p).get x =
    (if g.isCallSite p then before p else ConstProp.transfer (g.stmtOf? p) (before p)).get x

theorem get_collect (g : Supergraph) (p : Point) (result : Point → Fact) (before : Fact)
    (x : Var) : (g.system.collect p result before).get x = ((g.boundary p).get x).meet
      (Value.meetAll ((g.inEdges p).map (fun e => (g.along e (result e.source)).get x))) := by
  rw [collect_eq, Fact.get_foldl_meetInto, List.map_map]
  rfl

/-- Whatever constant propagation across calls returns solves the equations exactly, and not only from
above: what the worklist collects is collected afresh, and whoever mentions a result that changes is
visited again. -/
theorem solves_of_solve? (hg : ofCalls h calls ready = .ok g) {fuel : Nat}
    {s : Solution Point Fact} (hs : g.solve? fuel = .ok (some s)) :
    ∃ before after, g.Solves before after ∧ ∀ p ∈ g.points,
      s.before.get? p = some (before p) ∧ s.after.get? p = some (after p) := by
  obtain ⟨st, rfl, hst⟩ := stable_of_solve? hs
  refine ⟨g.system.input st, g.system.result st, ⟨?_, ?_, ?_⟩, ?_⟩
  · obtain ⟨l, -, rfl⟩ := ofCalls_eq hg
    exact fun e he => ends_join calls _ he
  · intro p hp x
    obtain ⟨-, -, hin, -⟩ := hst p hp
    rw [← get_collect g p _ (g.system.input st p)]
    exact congrArg (fun f => f.get x) hin.symm
  · intro p hp x
    obtain ⟨-, -, -, hout⟩ := hst p hp
    exact (Fact.same_iff _ _).1 hout x
  · intro p hp
    obtain ⟨hi, hr, -⟩ := hst p hp
    exact ⟨hi, hr⟩

end Supergraph

open Supergraph Successor in
theorem solves_of_solve?_successor : CallGraph.ofProgram program = .ok calls ∧
    ofCalls program.hierarchy calls .empty = .ok graph ∧
    ∃ s before after, graph.solve? 30 = .ok (some s) ∧ graph.Solves before after ∧
      ∀ p ∈ graph.points, s.before.get? p = some (before p) ∧ s.after.get? p = some (after p) := by
  obtain ⟨s, hs⟩ := solved
  obtain ⟨before, after, hsolves, hfacts⟩ := solves_of_solve? ofCalls_calls hs
  exact ⟨ofProgram_program, ofCalls_calls, s, before, after, hs, hsolves, hfacts⟩

end Dataflow
