import Dataflow.DeadCode
import Dataflow.Proofs.Analysis.Live
import Dataflow.Proofs.Analysis.Passes
import Dataflow.Proofs.Body.Built
import Dataflow.Proofs.FlowGraph.OfBody

namespace Dataflow

namespace Fact

def IntConsts (f : Fact) : Prop := ∀ x n, f.get x = .const n → x.holdsInt = true

theorem intConsts_iff {f : Fact} :
    f.IntConsts ↔ f.Each (fun x v => ∀ n, v = .const n → x.holdsInt = true) := by
  rw [each_iff]
  refine forall_congr' fun x => ⟨fun h _ => h, fun h n hn => h (fun hu => ?_) n hn⟩
  rw [hu] at hn
  cases hn

end Fact

theorem ConstProp.intConsts_run (c : Config) (g : FlowGraph) (s : Strategy) (n : Node) :
    (((constProp c).system g).input ((constProp c).run s g).2 n).IntConsts := by
  refine Fact.intConsts_iff.2 (each_of_passes (fun x v w hv hw k hk => ?_)
    (each_boundary fun _ _ _ _ hk => nomatch hk)
    (fun t f hf => each_transfer hf fun _ _ _ _ hx => ⟨fun _ _ => hx, fun _ _ _ _ _ => hx⟩)
    ((constProp c).passes_run s g) n).1
  exact (Value.const_of_meet hk).elim (hv k) (hw k)

namespace DeadCode

/-- What the detection rests on is true of the graph of a body: constants are closed facts that
concern variables for ints only, and liveness is what paths define. -/
structure Basis.Grounded (s : Basis) (b : Body) : Prop where
  graph : FlowGraph.ofBody b = .ok s.graph
  constants : s.constants.Closed (constProp (.default .constprop)) s.graph
  ints : ∀ n f, s.constants.before.get? n = some f → f.IntConsts
  live : s.live.Live s.graph

theorem Basis.graph_of_ofBody {b : Body} {s : Basis} (h : Basis.ofBody b = .ok s) :
    FlowGraph.ofBody b = .ok s.graph := by
  obtain ⟨g, hg, h⟩ := bind_eq_ok_iff.1 h
  obtain ⟨constants, -, h⟩ := bind_eq_ok_iff.1 h
  obtain ⟨live, -, h⟩ := bind_eq_ok_iff.1 h
  cases h
  exact hg

theorem exists_basis {b : Body} {g : FlowGraph} (hb : FlowGraph.ofBody b = .ok g) :
    ∃ s, Basis.ofBody b = .ok s ∧ s.Grounded b := by
  have hg := FlowGraph.validate_ofBody hb
  obtain ⟨constants, hconstants, hclosed⟩ := Analysis.exists_closed
    (constProp_accumulates (.default .constprop)) hg (constProp_grows _ g.body) .worklist
  obtain ⟨_, hfound, -, hkeys, -, hfacts⟩ :=
    Analysis.solve_facts (a := constProp (.default .constprop)) hg .worklist
  obtain ⟨live, hlive, hexact⟩ := Liveness.exists_live (.default .livevar) hg .worklist
  rw [hconstants] at hfound
  cases hfound
  refine ⟨⟨g, constants, live⟩, ?_, hb, hclosed, fun n f hf => ?_, hexact⟩
  · exact bind_eq_ok_iff.2 ⟨g, hb, bind_eq_ok_iff.2 ⟨constants, hconstants,
      bind_eq_ok_iff.2 ⟨live, hlive, rfl⟩⟩⟩
  · have hn : n ∈ g.nodes := by
      rw [← hkeys]
      by_contra hn
      rw [OrderedMap.get?_of_not_mem hn] at hf
      cases hf
    have hget := (hfacts n hn).1
    change constants.before.get? n = _ at hget
    rw [hf] at hget
    cases hget
    exact ConstProp.intConsts_run _ g .worklist n

theorem exists_basis_of_built {b : Body} (hb : b.Built) :
    ∃ s, Basis.ofBody b = .ok s ∧ s.Grounded b := by
  obtain ⟨g, hg⟩ := hb.resolved.exists_graph
  exact exists_basis hg

end DeadCode

end Dataflow
