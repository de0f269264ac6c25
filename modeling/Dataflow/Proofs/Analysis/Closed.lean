import Dataflow.Proofs.Analysis.Accumulation
import Dataflow.Proofs.FlowGraph.Valid

namespace Dataflow

namespace Solution

variable {ν φ : Type}

/-- The facts on the side where they come in: before the nodes, or after them if facts flow against
the edges. -/
def inward (s : Solution ν φ) : Direction → OrderedMap ν φ
  | .forward => s.before
  | .backward => s.after

def outward (s : Solution ν φ) : Direction → OrderedMap ν φ
  | .forward => s.after
  | .backward => s.before

/-- A finished solution with a fact on both sides of exactly the nodes of a graph, at which nothing
is left to do: each result is the transfer of what came in, and what came in has met the results of
all neighbours from which facts flow. The node from which facts flow is as it was at first. -/
structure Closed (a : Analysis φ) (g : FlowGraph) (s : Solution Node φ) : Prop where
  frozen : s.frozen = true
  keys_before : s.before.keys = g.nodes
  keys_after : s.after.keys = g.nodes
  start_inward : (s.inward a.direction).get? a.start = some a.initial
  start_outward : (s.outward a.direction).get? a.start = some (a.boundary g.body)
  settled : ∀ n ∈ g.nodes, n ≠ a.start → ∃ into out,
    (s.inward a.direction).get? n = some into ∧ (s.outward a.direction).get? n = some out ∧
      a.same out (a.transfer (g.body.stmtOf? n) into) = true ∧
      ∀ m ∈ a.sources g n, ∃ from', (s.outward a.direction).get? m = some from' ∧
        a.meetInto from' into = into

def Related (R : φ → φ → Prop) (g : FlowGraph) (s t : Solution Node φ) : Prop :=
  ∀ n ∈ g.nodes, ∃ f f' h h', s.before.get? n = some f ∧ t.before.get? n = some f' ∧
    s.after.get? n = some h ∧ t.after.get? n = some h' ∧ R f f' ∧ R h h'

end Solution

namespace System

variable {ν φ : Type} [DecidableEq ν] {S : System ν φ} {order : List ν} {st₀ st : State ν φ}

theorem frame_reached (h : S.Reached order st₀ st) {n : ν} (hn : n ∉ order) :
    S.input st n = S.input st₀ n ∧ S.result st n = S.result st₀ n := by
  induction h with
  | start => exact ⟨rfl, rfl⟩
  | visit _ hm ih =>
      have hne : n ≠ _ := fun he => hn (he ▸ hm)
      rw [input_visit_of_ne S _ hne, result_visit_of_ne S _ hne]
      exact ih

theorem keys_visit (S : System ν φ) {st : State ν φ} {n : ν} (hi : n ∈ st.inputs.keys)
    (hr : n ∈ st.results.keys) : (S.visit st n).2.inputs.keys = st.inputs.keys ∧
      (S.visit st n).2.results.keys = st.results.keys := by
  simp only [visit]
  split
  · exact ⟨OrderedMap.keys_insert_of_mem hi _, rfl⟩
  · exact ⟨OrderedMap.keys_insert_of_mem hi _, OrderedMap.keys_insert_of_mem hr _⟩

theorem keys_reached {nodes : List ν} (hi : st₀.inputs.keys = nodes)
    (hr : st₀.results.keys = nodes) (ho : ∀ n ∈ order, n ∈ nodes)
    (h : S.Reached order st₀ st) : st.inputs.keys = nodes ∧ st.results.keys = nodes := by
  induction h with
  | start => exact ⟨hi, hr⟩
  | visit _ hm ih =>
      obtain ⟨hi', hr'⟩ := ih
      obtain ⟨hi'', hr''⟩ := keys_visit S (hi' ▸ ho _ hm) (hr' ▸ ho _ hm)
      exact ⟨hi''.trans hi', hr''.trans hr'⟩

end System

namespace Analysis

variable {φ : Type} {a : Analysis φ} {g : FlowGraph}

theorem mem_order_of_mem_sinks (hg : g.validate = .ok ()) {n m : Node} (h : m ∈ a.sinks g n) :
    m ∈ a.order g := by
  rw [mem_order_iff]
  rw [sinks] at h
  rw [start]
  cases hd : a.direction with
  | forward =>
      rw [hd] at h
      exact ⟨(FlowGraph.hasNode_of_mem_succs h).2, FlowGraph.ne_entry_of_mem_succs hg h⟩
  | backward =>
      rw [hd] at h
      have h := (g.mem_succs_iff_mem_preds m n).2 h
      exact ⟨(FlowGraph.hasNode_of_mem_succs h).1, FlowGraph.ne_exit_of_mem_succs hg h⟩

theorem mem_nodes_of_mem_sources {n m : Node} (h : m ∈ a.sources g n) : m ∈ g.nodes := by
  rw [sources] at h
  cases hd : a.direction with
  | forward =>
      rw [hd] at h
      exact (FlowGraph.hasNode_of_mem_succs ((g.mem_succs_iff_mem_preds m n).2 h)).1
  | backward =>
      rw [hd] at h
      exact (FlowGraph.hasNode_of_mem_succs h).2

theorem start_mem_nodes (a : Analysis φ) (g : FlowGraph) : a.start ∈ g.nodes := by
  apply (g.body.mem_nodes_iff a.start).2
  rw [start]
  cases a.direction <;> rfl

theorem input_begin (a : Analysis φ) (g : FlowGraph) (n : Node) :
    (a.system g).input (a.begin g) n = a.initial := by
  have h := OrderedMap.getD_tabulate g.body.nodup_nodes (fun _ => a.initial) n a.initial
  rw [ite_self] at h
  exact h

theorem result_begin (a : Analysis φ) (g : FlowGraph) (n : Node) :
    (a.system g).result (a.begin g) n =
      if n = a.start then a.boundary g.body else a.initial := by
  have h := OrderedMap.getD_tabulate g.body.nodup_nodes
    (fun n => if n = a.start then a.boundary g.body else a.initial) n a.initial
  refine h.trans ?_
  by_cases hn : n = a.start
  · rw [if_pos (hn ▸ start_mem_nodes a g)]
  · rw [if_neg hn, ite_self]

theorem keys_begin (a : Analysis φ) (g : FlowGraph) :
    (a.begin g).inputs.keys = g.nodes ∧ (a.begin g).results.keys = g.nodes :=
  ⟨OrderedMap.keys_tabulate g.body.nodup_nodes _, OrderedMap.keys_tabulate g.body.nodup_nodes _⟩

variable {fits : φ → Prop} {height : φ → Nat} {bound : Nat}

theorem fits_begin (hg : a.Grows g.body fits height bound) :
    (a.system g).Fits fits (a.begin g) := by
  intro n
  rw [input_begin, result_begin]
  refine ⟨hg.initial_fits, ?_⟩
  split
  · exact hg.boundary_fits
  · exact hg.initial_fits

theorem queue_begin (a : Analysis φ) (g : FlowGraph) (n : Node) :
    n ∈ (WorkQueue.ofList (a.order g)).items ↔ n ∈ a.order g := by
  simp [WorkQueue.ofList, WorkQueue.mem_items_addAll]

theorem run_reached (hg : g.validate = .ok ()) (s : Strategy) :
    (a.system g).Reached (a.order g) (a.begin g) (a.run s g).2 := by
  cases s with
  | iterative => exact System.reached_rounds _ 0 .start
  | worklist =>
      have hd : ∀ n ∈ a.order g, ∀ m ∈ (a.system g).dependents n, m ∈ a.order g :=
        fun _ _ _ hm => mem_order_of_mem_sinks hg hm
      exact (System.reached_settle (p := ⟨a.begin g, .ofList (a.order g)⟩) (a.visitLimit g) hd
        (fun n hn => (queue_begin a g n).1 hn) .start).2

theorem visitLimit_eq (a : Analysis φ) (g : FlowGraph) :
    a.visitLimit g = (g.nodes.map (fun n => g.changeLimit * (a.sinks g n).length)).sum +
      (a.order g).length := by
  rw [visitLimit]
  induction g.nodes with
  | nil => exact (Nat.zero_add _).symm
  | cons n nodes ih => rw [List.foldr_cons, List.map_cons, List.sum_cons, ih, Nat.add_assoc]

theorem potential_begin (a : Analysis φ) (g : FlowGraph) (bound : Nat) (weight : Node → Nat)
    (nodes : List Node) :
    (a.system g).potential height bound weight nodes [] (a.begin g) =
      (nodes.map (fun n => (bound + 1) * weight n)).sum := by
  simp only [System.potential, System.slack, List.not_mem_nil, if_false]

theorem queue_solveWorklist (ha : a.Accumulates) (hg : g.validate = .ok ())
    (hb : a.Grows g.body fits height (2 * g.body.mentioned.length)) :
    (a.solveWorklist g).queue.items = [] := by
  have hd : ∀ n ∈ g.nodes, ∀ m ∈ (a.system g).dependents n, m ∈ g.nodes :=
    fun _ _ m hm => ((mem_order_iff a g m).1 (mem_order_of_mem_sinks hg hm)).1
  apply System.settle_drains (local_system ha g) (climbs_system hb) hd (a.visitLimit g) _ []
  · intro n hn
    exact ((mem_order_iff a g n).1 ((queue_begin a g n).1 hn)).1
  · exact fits_begin hb
  · exact fun n hn => absurd hn List.not_mem_nil
  · have hsize := size_addAll_le WorkQueue.empty (a.order g)
    have hzero : (WorkQueue.empty : WorkQueue Node).size = 0 := rfl
    rw [potential_begin]
    rw [visitLimit_eq]
    change (WorkQueue.empty.addAll (a.order g)).size + _ ≤ _
    rw [FlowGraph.changeLimit]
    rw [Nat.add_comm]
    exact Nat.add_le_add_left (by omega) _

theorem solveRounds_quiet (ha : a.Accumulates)
    (hb : a.Grows g.body fits height (2 * g.body.mentioned.length)) :
    ∃ st, ((a.system g).sweep st (a.order g)).1 = false ∧
      (a.solveRounds g).2 = ((a.system g).sweep st (a.order g)).2 := by
  have hc : (a.system g).Current [] (a.begin g) := fun n hn => absurd hn List.not_mem_nil
  apply System.rounds_quiet (local_system ha g) (climbs_system hb) _ 0 (fits_begin hb) hc
  · rw [potential_begin]
    rw [passLimit, FlowGraph.changeLimit]
    simp

theorem run_stable (ha : a.Accumulates) (hg : g.validate = .ok ())
    (hb : a.Grows g.body fits height (2 * g.body.mentioned.length)) (s : Strategy) {n : Node}
    (hn : n ∈ a.order g) : (a.system g).Stable (a.run s g).2 n := by
  cases s with
  | iterative =>
      obtain ⟨st, hq, he⟩ := solveRounds_quiet ha hb
      change (a.system g).Stable (a.solveRounds g).2 n
      rw [he]
      exact System.stable_sweep_of_quiet (local_system ha g) hq (.inl hn)
  | worklist =>
      have hp : (a.system g).Attended (a.order g) ⟨a.begin g, .ofList (a.order g)⟩ :=
        fun m hm hq => absurd ((queue_begin a g m).2 hm) hq
      apply System.attended_settle (local_system ha g) (a.visitLimit g) hp n hn
      have he := queue_solveWorklist ha hg hb
      rw [solveWorklist] at he
      rw [he]
      exact List.not_mem_nil

theorem solve_eq_ok (a : Analysis φ) (s : Strategy) (hg : g.validate = .ok ()) :
    ∃ sol, a.solve s g = .ok sol ∧ sol.frozen = true ∧
      sol.inward a.direction = (a.run s g).2.inputs ∧
      sol.outward a.direction = (a.run s g).2.results := by
  rw [solve]
  rw [hg]
  cases hd : a.direction with
  | forward => exact ⟨_, rfl, rfl, rfl, rfl⟩
  | backward => exact ⟨_, rfl, rfl, rfl, rfl⟩

theorem solve_facts (hg : g.validate = .ok ()) (s : Strategy) :
    ∃ sol, a.solve s g = .ok sol ∧ sol.frozen = true ∧ sol.before.keys = g.nodes ∧
      sol.after.keys = g.nodes ∧ ∀ n ∈ g.nodes,
        (sol.inward a.direction).get? n = some ((a.system g).input (a.run s g).2 n) ∧
          (sol.outward a.direction).get? n = some ((a.system g).result (a.run s g).2 n) := by
  obtain ⟨sol, hsol, hfrozen, hin, hout⟩ := solve_eq_ok a s hg
  obtain ⟨hki, hkr⟩ := System.keys_reached (keys_begin a g).1 (keys_begin a g).2
    (fun n hn => ((mem_order_iff a g n).1 hn).1) (run_reached hg s)
  have hkeys : sol.before.keys = g.nodes ∧ sol.after.keys = g.nodes := by
    rw [← hin] at hki
    rw [← hout] at hkr
    cases hd : a.direction with
    | forward => rw [hd] at hki hkr; exact ⟨hki, hkr⟩
    | backward => rw [hd] at hki hkr; exact ⟨hkr, hki⟩
  refine ⟨sol, hsol, hfrozen, hkeys.1, hkeys.2, fun n hn => ⟨?_, ?_⟩⟩
  · rw [hin]
    exact OrderedMap.get?_eq_some_getD (hki.symm ▸ hn) _
  · rw [hout]
    exact OrderedMap.get?_eq_some_getD (hkr.symm ▸ hn) _

theorem related_of_solves {a' : Analysis φ} (hd : a.direction = a'.direction)
    (hg : g.validate = .ok ()) {s t : Strategy} {sol sol' : Solution Node φ}
    (hsol : a.solve s g = .ok sol) (hsol' : a'.solve t g = .ok sol') {R : φ → φ → Prop}
    (h : ∀ n ∈ g.nodes, R ((a.system g).input (a.run s g).2 n) ((a'.system g).input (a'.run t g).2 n) ∧
      R ((a.system g).result (a.run s g).2 n) ((a'.system g).result (a'.run t g).2 n)) :
    sol.Related R g sol' := by
  obtain ⟨_, hs, -, -, -, hfacts⟩ := solve_facts (a := a) hg s
  obtain ⟨_, ht, -, -, -, hfacts'⟩ := solve_facts (a := a') hg t
  rw [hsol] at hs
  rw [hsol'] at ht
  cases hs
  cases ht
  intro n hn
  obtain ⟨hi, hr⟩ := hfacts n hn
  obtain ⟨hi', hr'⟩ := hfacts' n hn
  obtain ⟨hin, hres⟩ := h n hn
  rw [← hd] at hi' hr'
  cases hd : a.direction with
  | forward =>
      rw [hd] at hi hr hi' hr'
      exact ⟨_, _, _, _, hi, hi', hr, hr', hin, hres⟩
  | backward =>
      rw [hd] at hi hr hi' hr'
      exact ⟨_, _, _, _, hr, hr', hi, hi', hres, hin⟩

theorem related_of_solve (hg : g.validate = .ok ()) {s t : Strategy} {sol sol' : Solution Node φ}
    (hsol : a.solve s g = .ok sol) (hsol' : a.solve t g = .ok sol') {R : φ → φ → Prop}
    (h : ∀ n ∈ g.nodes, R ((a.system g).input (a.run s g).2 n) ((a.system g).input (a.run t g).2 n) ∧
      R ((a.system g).result (a.run s g).2 n) ((a.system g).result (a.run t g).2 n)) :
    sol.Related R g sol' :=
  related_of_solves rfl hg hsol hsol' h

theorem facts_start (hg : g.validate = .ok ()) (s : Strategy) :
    (a.system g).input (a.run s g).2 a.start = a.initial ∧
      (a.system g).result (a.run s g).2 a.start = a.boundary g.body := by
  have hstart : a.start ∉ a.order g := fun h => ((mem_order_iff a g _).1 h).2 rfl
  obtain ⟨hi, hr⟩ := System.frame_reached (run_reached hg s) hstart
  rw [hi, hr, input_begin, result_begin, if_pos rfl]
  exact ⟨rfl, rfl⟩

/-- What came into a node has met the results of all its sources: it is what another visit would
collect. -/
theorem meetInto_run (ha : a.Accumulates) (hg : g.validate = .ok ())
    (hb : a.Grows g.body fits height (2 * g.body.mentioned.length)) (s : Strategy) {n m : Node}
    (hn : n ∈ a.order g) (hm : m ∈ a.sources g n) :
    a.meetInto ((a.system g).result (a.run s g).2 m) ((a.system g).input (a.run s g).2 n) =
      (a.system g).input (a.run s g).2 n := by
  rw [← (run_stable ha hg hb s hn).1]
  exact meetAll_absorb ha _ hm _

/-- The analyses return closed solutions, whatever the order of the visits: neither does the queue
lose a node that is still to be visited, nor does a sweep without change come too early. -/
theorem exists_closed (ha : a.Accumulates) (hg : g.validate = .ok ())
    (hb : a.Grows g.body fits height (2 * g.body.mentioned.length)) (s : Strategy) :
    ∃ sol, a.solve s g = .ok sol ∧ sol.Closed a g := by
  obtain ⟨sol, hsol, hfrozen, hbefore, hafter, hfacts⟩ := solve_facts (a := a) hg s
  obtain ⟨hsi, hsr⟩ := facts_start (a := a) hg s
  obtain ⟨hin, hout⟩ := hfacts a.start (start_mem_nodes a g)
  refine ⟨sol, hsol, hfrozen, hbefore, hafter, hsi ▸ hin, hsr ▸ hout, fun n hn hne => ?_⟩
  have ho : n ∈ a.order g := (mem_order_iff a g n).2 ⟨hn, hne⟩
  exact ⟨_, _, (hfacts n hn).1, (hfacts n hn).2, (run_stable ha hg hb s ho).2, fun m hm =>
    ⟨_, (hfacts m (mem_nodes_of_mem_sources hm)).2, meetInto_run ha hg hb s ho hm⟩⟩

end Analysis

/-- On every graph that passes validation, constant propagation and liveness return closed
solutions, under both strategies and all options. -/
theorem solve_closed (c d : Config) (s : Strategy) (g : FlowGraph) (hg : g.validate = .ok ()) :
    (∃ sol, (constProp c).solve s g = .ok sol ∧ sol.Closed (constProp c) g) ∧
      (∃ sol, (liveness d).solve s g = .ok sol ∧ sol.Closed (liveness d) g) :=
  ⟨Analysis.exists_closed (constProp_accumulates c) hg (constProp_grows c g.body) s,
    Analysis.exists_closed (liveness_accumulates d) hg (liveness_grows d g.body) s⟩

namespace FlowGraph

def counter : Var := ⟨0, 0, "n", .primitive .int, 0⟩

def one : Var := ⟨0, 1, "one", .primitive .int, 1⟩

def countdown : FlowGraph where
  body :=
    { name := "countdown"
      params := [counter]
      vars := [counter, one]
      stmts := [
        .assign one (.int 1),
        .assign counter (.binary (.arith .sub) counter one),
        .branch (.binary (.cond .gt) counter one) (.stmt 1),
        .ret (some counter)] }
  edges := [
    ⟨.entry, .stmt 0, .entry, none⟩,
    ⟨.stmt 0, .stmt 1, .fallThrough, none⟩,
    ⟨.stmt 1, .stmt 2, .fallThrough, none⟩,
    ⟨.stmt 2, .stmt 1, .ifTrue, none⟩,
    ⟨.stmt 2, .stmt 3, .ifFalse, none⟩,
    ⟨.stmt 3, .exit, .ret, none⟩]
  ends := by decide

end FlowGraph

open FlowGraph in
theorem solve_closed_countdown : countdown.validate = .ok () ∧
    (∃ sol, (constProp (.default .constprop)).solve .worklist countdown = .ok sol ∧
      sol.Closed (constProp (.default .constprop)) countdown) ∧
    (∃ sol, (liveness (.default .livevar)).solve .worklist countdown = .ok sol ∧
      sol.Closed (liveness (.default .livevar)) countdown) := by
  have hg : countdown.validate = .ok () := by decide
  exact ⟨hg, solve_closed (.default .constprop) (.default .livevar) .worklist countdown hg⟩

end Dataflow
