import Dataflow.Proofs.Supergraph.Edges
import Dataflow.Proofs.Supergraph.Falls

namespace Dataflow

theorem OrderedMap.eq_of_entries {κ ν : Type} {m m' : OrderedMap κ ν}
    (h : m.entries = m'.entries) : m = m' := by
  obtain ⟨l, hl⟩ := m
  obtain ⟨l', hl'⟩ := m'
  congr

theorem Fact.eq_of_entries {f g : Fact} (h : f.entries = g.entries) : f = g := by
  have hb : f.bindings = g.bindings := OrderedMap.eq_of_entries h
  obtain ⟨b, hd⟩ := f
  obtain ⟨b', hd'⟩ := g
  congr

theorem WorkQueue.eq_of_items {α : Type} {q q' : WorkQueue α} (h : q.items = q'.items) : q = q' := by
  obtain ⟨l, hl⟩ := q
  obtain ⟨l', hl'⟩ := q'
  congr

namespace Supergraph

variable {p : Program} {calls : CallGraph} {g : Supergraph}

theorem afresh_system (g : Supergraph) : g.system.Afresh := fun _ _ _ _ => rfl

theorem solve?_eq_none_iff (hg : g.validate = .ok ()) (fuel : Nat) :
    g.solve? fuel = .ok none ↔ (g.system.settle fuel g.begin).queue.items ≠ [] := by
  rw [solve?_of_validate hg, Except.ok.injEq]
  by_cases hq : (g.system.settle fuel g.begin).queue.items = []
  · rw [if_pos hq]
    exact ⟨fun h => (nomatch h), fun h => absurd hq h⟩
  · rw [if_neg hq]
    exact ⟨fun _ => hq, fun _ => rfl⟩

/-- When constant propagation across calls stops. It does if and only if results fall only so often,
where a result falls when a variable in it that was not a constant becomes a constant or undefined
again. The number of falls bounds the number of visits. -/
theorem returns_iff_falls_bounded (hcalls : CallGraph.ofProgram p = .ok calls)
    (hg : ofCalls p.hierarchy calls .empty = .ok g)
    (hmain : (p.hierarchy.body? p.main).isSome = true) :
    ((∃ fuel s, g.solve? fuel = .ok (some s)) ↔
      ∃ k, ∀ fuel, g.system.tally g.system.falls fuel g.begin ≤ k) ∧
    ∀ k, (∀ fuel, g.system.tally g.system.falls fuel g.begin ≤ k) →
      ∃ s, g.solve? (System.fallLimit g.points.length g.edges.length g.mentioned.length k) =
        .ok (some s) := by
  have hv := (validate_ofCalls_iff hcalls hg).2 hmain
  constructor
  · rw [← drained_iff hv]
    constructor
    · rintro ⟨fuel, s, hs⟩
      exact ⟨fuel, ((solve?_eq_ok_iff g fuel s).1 hs).2.1⟩
    · rintro ⟨fuel, hq⟩
      exact ⟨fuel, _, (solve?_eq_ok_iff g fuel _).2 ⟨hv, hq, rfl⟩⟩
  · intro k hk
    exact ⟨_, (solve?_eq_ok_iff g _ _).2 ⟨hv, drained_of_falls_le hv hk, rfl⟩⟩

end Supergraph

namespace Endless

open Supergraph

def a : Var := ⟨0, 0, "a", .primitive .int, 0⟩

def b : Var := ⟨0, 1, "b", .primitive .int, 1⟩

def x : Var := ⟨0, 2, "x", .primitive .int, 2⟩

def body : Body where
  name := "main"
  vars := [a, b, x]
  stmts := [
    .assign a (.int 1),
    .branch (.binary (.cond .eq) a a) (.stmt 9),
    .assign x (.binary (.arith .add) a b),
    .goto (.stmt 8),
    .goto (.stmt 8),
    .goto (.stmt 4),
    .goto (.stmt 5),
    .goto (.stmt 6),
    .goto (.stmt 7),
    .assign b (.int 2),
    .goto (.stmt 2)]

def main : MethodRef := ⟨"Main", "void main()"⟩

def program : Program where
  hierarchy := ⟨.ofList [("Main",
    { serial := 0
      name := "Main"
      methods := .ofList [("void main()", { ref := main, isStatic := true, body := some body })] })]⟩
  main := main

def calls : CallGraph where
  entries := [main]
  reachable := [main]
  nodup_entries := List.nodup_singleton main
  nodup_reachable := List.nodup_singleton main
  nodup_edges := List.nodup_nil

def flow : FlowGraph where
  body := body
  edges := [
    ⟨.entry, .stmt 0, .entry, none⟩,
    ⟨.stmt 0, .stmt 1, .fallThrough, none⟩,
    ⟨.stmt 1, .stmt 9, .ifTrue, none⟩,
    ⟨.stmt 1, .stmt 2, .ifFalse, none⟩,
    ⟨.stmt 2, .stmt 3, .fallThrough, none⟩,
    ⟨.stmt 3, .stmt 8, .goto, none⟩,
    ⟨.stmt 4, .stmt 8, .goto, none⟩,
    ⟨.stmt 5, .stmt 4, .goto, none⟩,
    ⟨.stmt 6, .stmt 5, .goto, none⟩,
    ⟨.stmt 7, .stmt 6, .goto, none⟩,
    ⟨.stmt 8, .stmt 7, .goto, none⟩,
    ⟨.stmt 9, .stmt 10, .fallThrough, none⟩,
    ⟨.stmt 10, .stmt 2, .goto, none⟩]
  ends := by decide

def graph : Supergraph := join calls (.ofList [(main, flow)])

theorem ofProgram_program : CallGraph.ofProgram program = .ok calls := rfl

theorem ofCalls_calls : ofCalls program.hierarchy calls .empty = .ok graph := rfl

def returning : System.Progress Point Fact := graph.system.settle 27 graph.begin

theorem queue_returning : returning.queue.items ≠ [] ∧
    (graph.system.settle 10 returning).queue.items = returning.queue.items := by
  decide +kernel

theorem results_returning : (graph.system.settle 10 returning).state.results.entries.map
      (fun e => (e.1, e.2.entries)) =
    returning.state.results.entries.map (fun e => (e.1, e.2.entries)) := by
  decide +kernel

theorem alike_returning : System.Alike (graph.system.settle 10 returning) returning where
  results := by
    have hinj : Function.Injective (fun e : Point × Fact => (e.1, e.2.entries)) := by
      intro d e he
      obtain ⟨hp, hf⟩ := Prod.mk.inj he
      exact Prod.ext hp (Fact.eq_of_entries hf)
    exact OrderedMap.eq_of_entries (List.map_injective_iff.2 hinj results_returning)
  queue := WorkQueue.eq_of_items queue_returning.2

theorem pending (fuel : Nat) : (graph.system.settle fuel graph.begin).queue.items ≠ [] := by
  intro he
  have hd := System.drained_mono (Nat.le_add_left fuel 27) he
  rw [System.settle_add] at hd
  exact System.settle_endless (afresh_system graph) (Nat.succ_pos 9) alike_returning
    queue_returning.1 fuel hd

theorem never_returns : CallGraph.ofProgram program = .ok calls ∧
    ofCalls program.hierarchy calls .empty = .ok graph ∧
    (program.hierarchy.body? program.main).isSome = true ∧
    ∀ fuel, graph.solve? fuel = .ok none := by
  have hv : graph.validate = .ok () := (validate_ofCalls_iff ofProgram_program ofCalls_calls).2 rfl
  exact ⟨ofProgram_program, ofCalls_calls, rfl,
    fun fuel => (solve?_eq_none_iff hv fuel).2 (pending fuel)⟩

theorem falls_unbounded : CallGraph.ofProgram program = .ok calls ∧
    ofCalls program.hierarchy calls .empty = .ok graph ∧
    (program.hierarchy.body? program.main).isSome = true ∧
    ¬ ∃ k, ∀ fuel, graph.system.tally graph.system.falls fuel graph.begin ≤ k := by
  refine ⟨ofProgram_program, ofCalls_calls, rfl, fun hk => ?_⟩
  obtain ⟨fuel, s, hs⟩ := (returns_iff_falls_bounded ofProgram_program ofCalls_calls rfl).1.2 hk
  exact pending fuel ((solve?_eq_ok_iff graph fuel s).1 hs).2.1

end Endless

end Dataflow
