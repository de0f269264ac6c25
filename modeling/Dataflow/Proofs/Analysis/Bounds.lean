import Dataflow.Proofs.Analysis.Closed
import Dataflow.Proofs.FixedPoint.History
import Mathlib.Data.List.Nodup

namespace Dataflow

theorem length_filter_ne {α : Type} [DecidableEq α] {l : List α} (h : l.Nodup) {a : α}
    (ha : a ∈ l) : (l.filter (fun b => b ≠ a)).length = l.length - 1 := by
  have he : l.erase a = l.filter (fun b => b ≠ a) := by
    rw [h.erase_eq_filter]
    congr
    funext b
    by_cases hb : b = a <;> simp [hb]
  rw [← he, List.length_erase_of_mem ha]

namespace Analysis

variable {φ : Type} {a : Analysis φ} {g : FlowGraph}

def itinerary (a : Analysis φ) (s : Strategy) (g : FlowGraph) : List Node :=
  match s with
  | .iterative => (List.replicate (a.solveRounds g).1 (a.order g)).flatten
  | .worklist => (a.system g).taken (a.visitLimit g) ⟨a.begin g, .ofList (a.order g)⟩

def history (a : Analysis φ) (s : Strategy) (g : FlowGraph) : List (System.State Node φ × Node) :=
  (a.system g).history (a.begin g) (a.itinerary s g)

theorem length_order (a : Analysis φ) (g : FlowGraph) :
    (a.order g).length = g.nodes.length - 1 := by
  have hn : g.nodes.Nodup := g.body.nodup_nodes
  have hs := start_mem_nodes a g
  rw [start] at hs
  rw [order]
  cases hd : a.direction with
  | forward =>
      rw [hd] at hs
      exact length_filter_ne hn hs
  | backward =>
      rw [hd] at hs
      have hl : g.nodes.reverse.length = g.nodes.length := List.length_reverse
      rw [← hl]
      exact length_filter_ne (List.nodup_reverse.2 hn) (List.mem_reverse.2 hs)

theorem solveRounds_eq (a : Analysis φ) (g : FlowGraph) :
    (a.solveRounds g).1 ≤ a.passLimit g ∧
      (a.solveRounds g).2 = (a.system g).visitAll (a.begin g) (a.itinerary .iterative g) := by
  obtain ⟨k, hk, h⟩ := (a.system g).rounds_eq (a.order g) (a.passLimit g) 0 (a.begin g)
  rw [Nat.zero_add] at h
  have h : a.solveRounds g = _ := h
  rw [itinerary, h]
  exact ⟨hk, rfl⟩

theorem run_eq_visitAll (a : Analysis φ) (s : Strategy) (g : FlowGraph) :
    (a.run s g).2 = (a.system g).visitAll (a.begin g) (a.itinerary s g) := by
  cases s with
  | iterative => exact (solveRounds_eq a g).2
  | worklist => exact System.state_settle (a.visitLimit g) ⟨a.begin g, .ofList (a.order g)⟩

theorem mem_order_of_mem_itinerary (hg : g.validate = .ok ()) {s : Strategy} {n : Node}
    (h : n ∈ a.itinerary s g) : n ∈ a.order g := by
  cases s with
  | iterative =>
      obtain ⟨l, hl, hn⟩ := List.mem_flatten.1 h
      exact (List.eq_of_mem_replicate hl) ▸ hn
  | worklist =>
      have hd : ∀ n ∈ a.order g, ∀ m ∈ (a.system g).dependents n, m ∈ a.order g :=
        fun _ _ _ hm => mem_order_of_mem_sinks hg hm
      exact System.mem_of_mem_taken hd _ (fun n hn => (queue_begin a g n).1 hn) h

theorem visits_run (a : Analysis φ) (s : Strategy) (g : FlowGraph) :
    (a.run s g).2.visits = (a.itinerary s g).length := by
  rw [run_eq_visitAll, System.visits_visitAll]
  exact Nat.zero_add _

theorem length_itinerary_iterative (a : Analysis φ) (g : FlowGraph) :
    (a.itinerary .iterative g).length = (a.solveRounds g).1 * (g.nodes.length - 1) := by
  rw [itinerary, ← length_order a g]
  simp

theorem counts_solve (hg : g.validate = .ok ()) (s : Strategy) :
    ∃ sol, a.solve s g = .ok sol ∧ sol.transfers = (a.itinerary s g).length ∧
      sol.passes = (a.run s g).1 := by
  rw [solve, hg, ← visits_run]
  cases hd : a.direction with
  | forward => exact ⟨_, rfl, rfl, rfl⟩
  | backward => exact ⟨_, rfl, rfl, rfl⟩

/-- As many visits as a worklist needs at most: one of each node but the first, and one of each
neighbour whenever a result changes. -/
def visitBound (a : Analysis φ) (g : FlowGraph) : Nat :=
  (g.nodes.length - 1) +
    (g.nodes.map (fun n => (2 * g.body.mentioned.length + 1) * (a.sinks g n).length)).sum

/-- As many passes as rounds need at most: one for each change of a result, and one without. -/
def passBound (g : FlowGraph) : Nat :=
  (g.nodes.length - 1) * (2 * g.body.mentioned.length + 1) + 1

/-- How much work it takes to solve a graph. Both loops come to an end by themselves: with the fuel
for as many visits, or passes, as the bounds say, no more fuel makes a difference. -/
structure Bounded (a : Analysis φ) (g : FlowGraph) : Prop where
  changes_le : ∀ s n, (a.history s g).countP (fun v => v.2 = n && (a.system g).changes v.1 v.2) ≤
    2 * g.body.mentioned.length + 1
  worklist : ∃ sol, a.solve .worklist g = .ok sol ∧
    sol.transfers = (a.itinerary .worklist g).length ∧ sol.transfers ≤ a.visitBound g
  drained : (a.solveWorklist g).queue.items = [] ∧ ∀ fuel, a.visitBound g ≤ fuel →
    (a.system g).settle fuel ⟨a.begin g, .ofList (a.order g)⟩ = a.solveWorklist g
  iterative : ∃ sol, a.solve .iterative g = .ok sol ∧ sol.passes ≤ passBound g ∧
    sol.transfers = sol.passes * (g.nodes.length - 1)
  quiet : ∀ fuel, passBound g ≤ fuel →
    (a.system g).rounds (a.order g) fuel 0 (a.begin g) = a.solveRounds g

variable {fits : φ → Prop} {height : φ → Nat}

theorem current_begin (a : Analysis φ) (g : FlowGraph) : (a.system g).Current [] (a.begin g) :=
  fun _ hn => absurd hn List.not_mem_nil

theorem visitLimit_eq_visitBound (a : Analysis φ) (g : FlowGraph) :
    a.visitLimit g = a.visitBound g := by
  rw [visitLimit_eq, length_order, Nat.add_comm]
  rfl

theorem passLimit_eq_passBound (a : Analysis φ) (g : FlowGraph) : a.passLimit g = passBound g := by
  rw [passLimit, length_order]
  rfl

theorem rounds_of_passLimit_le (ha : a.Accumulates)
    (hb : a.Grows g.body fits height (2 * g.body.mentioned.length)) {fuel : Nat}
    (hle : a.passLimit g ≤ fuel) :
    (a.system g).rounds (a.order g) fuel 0 (a.begin g) = a.solveRounds g := by
  apply System.rounds_of_le (local_system ha g) (climbs_system hb) hle 0 (fits_begin hb)
    (current_begin a g)
  rw [potential_begin, passLimit, FlowGraph.changeLimit]
  simp

theorem bounded_of_grows (ha : a.Accumulates) (hg : g.validate = .ok ())
    (hb : a.Grows g.body fits height (2 * g.body.mentioned.length)) : a.Bounded g where
  changes_le s n := by
    have h := System.changes_le_slack (local_system ha g) (climbs_system hb) (fits_begin hb)
      (current_begin a g) n (a.itinerary s g)
    rw [System.slack, if_neg List.not_mem_nil] at h
    exact h
  worklist := by
    obtain ⟨sol, hsol, ht, -⟩ := counts_solve (a := a) hg .worklist
    refine ⟨sol, hsol, ht, ?_⟩
    rw [ht, ← visitLimit_eq_visitBound]
    exact System.length_taken_le _ _
  drained := by
    have hq := queue_solveWorklist ha hg hb
    refine ⟨hq, fun fuel hle => ?_⟩
    rw [← visitLimit_eq_visitBound] at hle
    obtain ⟨k, rfl⟩ := Nat.le.dest hle
    rw [System.settle_add]
    exact System.settle_of_drained hq k
  iterative := by
    obtain ⟨sol, hsol, ht, hp⟩ := counts_solve (a := a) hg .iterative
    refine ⟨sol, hsol, ?_, ?_⟩
    · rw [hp, ← passLimit_eq_passBound]
      exact (solveRounds_eq a g).1
    · rw [ht, hp]
      exact length_itinerary_iterative a g
  quiet fuel hle := rounds_of_passLimit_le ha hb (by rwa [passLimit_eq_passBound])

end Analysis

/-- Both strategies stop on every graph that passes validation, within bounds known beforehand. What
comes out of a node may rise and fall, but what comes in can only climb, two steps a variable, and
with nothing new coming in a result does not change again. -/
theorem solve_bounded (c d : Config) (g : FlowGraph) (hg : g.validate = .ok ()) :
    (constProp c).Bounded g ∧ (liveness d).Bounded g :=
  ⟨Analysis.bounded_of_grows (constProp_accumulates c) hg (constProp_grows c g.body),
    Analysis.bounded_of_grows (liveness_accumulates d) hg (liveness_grows d g.body)⟩

open FlowGraph in
theorem solve_bounded_countdown : countdown.validate = .ok () ∧
    (constProp (.default .constprop)).Bounded countdown ∧
    (liveness (.default .livevar)).Bounded countdown := by
  have hg : countdown.validate = .ok () := by decide
  exact ⟨hg, solve_bounded (.default .constprop) (.default .livevar) countdown hg⟩

end Dataflow
