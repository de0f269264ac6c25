import Dataflow.FlowGraph.Basic

namespace Dataflow.FlowGraph

variable {g : FlowGraph}

theorem validate_eq_ok_iff (g : FlowGraph) :
    g.validate = .ok () ↔ g.inEdges .entry = [] ∧ g.outEdges .exit = [] ∧
      ∀ n ∈ g.nodes, n ≠ .exit → g.outEdges n ≠ [] := by
  rw [validate]
  by_cases hentry : g.inEdges .entry = []
  · by_cases hexit : g.outEdges .exit = []
    · rw [if_neg (not_not_intro hentry), if_neg (not_not_intro hexit)]
      split
      · rename_i n hn
        have hm := List.mem_of_find?_eq_some hn
        have hp := List.find?_some hn
        simp only [Bool.and_eq_true, decide_eq_true_eq, List.isEmpty_iff] at hp
        refine ⟨fun h => (nomatch h), fun h => absurd hp.2 (h.2.2 n hm hp.1)⟩
      · rename_i hn
        refine ⟨fun _ => ⟨hentry, hexit, fun n hm hne he => ?_⟩, fun _ => rfl⟩
        have hf := List.find?_eq_none.1 hn n hm
        simp [hne, he] at hf
    · rw [if_neg (not_not_intro hentry), if_pos hexit]
      exact ⟨fun h => (nomatch h), fun h => absurd h.2.1 hexit⟩
  · rw [if_pos hentry]
    exact ⟨fun h => (nomatch h), fun h => absurd h.1 hentry⟩

theorem hasNode_of_mem_succs {n m : Node} (h : m ∈ g.succs n) :
    n ∈ g.nodes ∧ m ∈ g.nodes := by
  obtain ⟨e, he, rfl, rfl⟩ := (g.mem_succs_iff n m).1 h
  have hends := g.ends e he
  exact ⟨(g.body.mem_nodes_iff _).2 hends.1, (g.body.mem_nodes_iff _).2 hends.2⟩

theorem ne_entry_of_mem_succs (hg : g.validate = .ok ()) {n m : Node} (h : m ∈ g.succs n) :
    m ≠ .entry := by
  obtain ⟨e, he, -, ht⟩ := (g.mem_succs_iff n m).1 h
  rintro rfl
  have hin : e ∈ g.inEdges .entry := List.mem_filter.2 ⟨he, decide_eq_true ht⟩
  rw [((validate_eq_ok_iff g).1 hg).1] at hin
  cases hin

theorem ne_exit_of_mem_succs (hg : g.validate = .ok ()) {n m : Node} (h : m ∈ g.succs n) :
    n ≠ .exit := by
  obtain ⟨e, he, hs, -⟩ := (g.mem_succs_iff n m).1 h
  rintro rfl
  have hout : e ∈ g.outEdges .exit := List.mem_filter.2 ⟨he, decide_eq_true hs⟩
  rw [((validate_eq_ok_iff g).1 hg).2.1] at hout
  cases hout

end Dataflow.FlowGraph
