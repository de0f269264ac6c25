import Dataflow.Proofs.Analysis.Closed
import Mathlib.Data.List.Chain

namespace Dataflow

namespace FlowGraph

variable {g : FlowGraph} {x : Var}

def usesAt (g : FlowGraph) (n : Node) : List Var := (g.body.stmtOf? n).elim [] Stmt.uses

def defAt? (g : FlowGraph) (n : Node) : Option Var := (g.body.stmtOf? n).bind Stmt.def?

/-- A variable is read behind a node if a path of one or more edges leads from there to a node that
reads it, and no node that it leads through defines the variable. -/
def ReadBehind (g : FlowGraph) (n : Node) (x : Var) : Prop :=
  ∃ (through : List Node) (m : Node), (n :: (through ++ [m])).IsChain (fun k l => l ∈ g.succs k) ∧
    x ∈ g.usesAt m ∧ ∀ k ∈ through, g.defAt? k ≠ some x

/-- A variable is live at a node if the node reads it, or leaves it to be read behind. -/
def LiveAt (g : FlowGraph) (n : Node) (x : Var) : Prop :=
  x ∈ g.usesAt n ∨ g.defAt? n ≠ some x ∧ g.ReadBehind n x

theorem ReadBehind.of_liveAt {n m : Node} (hm : m ∈ g.succs n) (h : g.LiveAt m x) :
    g.ReadBehind n x := by
  rcases h with hu | ⟨hd, through, k, hchain, hu, hfree⟩
  · exact ⟨[], m, List.isChain_pair.2 hm, hu, fun k hk => absurd hk List.not_mem_nil⟩
  · refine ⟨m :: through, k, List.isChain_cons_cons.2 ⟨hm, hchain⟩, hu, fun l hl => ?_⟩
    rcases List.mem_cons.1 hl with rfl | hl
    · exact hd
    · exact hfree l hl

/-- What holds of the nodes that read a variable, and passes from a node to those before it if the
node does not define the variable, holds wherever the variable is read behind. -/
theorem ReadBehind.induction {P : Node → Prop}
    (step : ∀ n m, m ∈ g.succs n → (x ∈ g.usesAt m ∨ g.defAt? m ≠ some x ∧ P m) → P n) {n : Node}
    (h : g.ReadBehind n x) : P n := by
  obtain ⟨through, m, hchain, hu, hfree⟩ := h
  induction through generalizing n with
  | nil => exact step n m (List.isChain_pair.1 hchain) (.inl hu)
  | cons k through ih =>
      obtain ⟨hk, hchain⟩ := List.isChain_cons_cons.1 hchain
      obtain ⟨hd, hfree⟩ := List.forall_mem_cons.1 hfree
      exact step n k hk (.inr ⟨hd, ih hchain hfree⟩)

end FlowGraph

namespace Liveness

open FlowGraph

variable {c : Config} {g : FlowGraph} {x : Var}

theorem mem_transfer_at (g : FlowGraph) (n : Node) (live : VarSet) (x : Var) :
    x ∈ transfer (g.body.stmtOf? n) live ↔ x ∈ g.usesAt n ∨ g.defAt? n ≠ some x ∧ x ∈ live := by
  rw [usesAt, defAt?]
  cases h : g.body.stmtOf? n with
  | none => simp [transfer]
  | some s => exact mem_transfer s live x

theorem mem_meetAll (c : Config) (r : Node → VarSet) (l : List Node) (t : VarSet) :
    x ∈ (liveness c).meetAll r l t ↔ x ∈ t ∨ ∃ m ∈ l, x ∈ r m := by
  induction l generalizing t with
  | nil => simp [Analysis.meetAll]
  | cons m l ih =>
      change x ∈ (liveness c).meetAll r l (t.union (r m)) ↔ _
      rw [ih, VarSet.mem_union, List.exists_mem_cons_iff, or_assoc]

def Witnessed (c : Config) (g : FlowGraph) : System.State Node VarSet → Prop :=
  ((liveness c).system g).Throughout (fun n f => ∀ x ∈ f, g.ReadBehind n x)
    (fun n f => ∀ x ∈ f, g.LiveAt n x)

theorem witnessed_begin (c : Config) (g : FlowGraph) : Witnessed c g ((liveness c).begin g) := by
  have hnone : ∀ {P : Var → Prop}, ∀ x ∈ VarSet.empty, P x :=
    fun x h => absurd h (VarSet.not_mem_empty x)
  intro n
  rw [Analysis.input_begin, Analysis.result_begin]
  refine ⟨hnone, ?_⟩
  split
  · exact hnone
  · exact hnone

theorem witnessed_visit {st : System.State Node VarSet} (h : Witnessed c g st) (n : Node) :
    Witnessed c g (((liveness c).system g).visit st n).2 := by
  have hin : ∀ x ∈ ((liveness c).system g).incoming st n, g.ReadBehind n x := by
    intro x hx
    rcases (mem_meetAll c _ _ _).1 hx with hx | ⟨m, hm, hx⟩
    · exact (h n).1 x hx
    · exact .of_liveAt hm ((h m).2 x hx)
  refine System.throughout_visit h hin (fun x hx => ?_)
  exact ((mem_transfer_at g n _ x).1 hx).imp_right (fun hx => ⟨hx.1, hin x hx.2⟩)

theorem witnessed_reached {st : System.State Node VarSet}
    (h : ((liveness c).system g).Reached ((liveness c).order g) ((liveness c).begin g) st) :
    Witnessed c g st := by
  induction h with
  | start => exact witnessed_begin c g
  | visit _ _ ih => exact witnessed_visit ih _

theorem mem_result_run (hg : g.validate = .ok ()) (s : Strategy) {n : Node} (hn : n ∈ g.nodes)
    (hne : n ≠ .exit) (x : Var) : x ∈ ((liveness c).system g).result ((liveness c).run s g).2 n ↔
      x ∈ g.usesAt n ∨ g.defAt? n ≠ some x ∧
        x ∈ ((liveness c).system g).input ((liveness c).run s g).2 n := by
  have hst := Analysis.run_stable (liveness_accumulates c) hg (liveness_grows c g.body) s
    (((liveness c).mem_order_iff g n).2 ⟨hn, hne⟩)
  rw [(VarSet.same_iff _ _).1 hst.2]
  exact mem_transfer_at g n _ x

theorem mem_input_run (hg : g.validate = .ok ()) (s : Strategy) {n m : Node}
    (hm : m ∈ g.succs n) (hx : x ∈ ((liveness c).system g).result ((liveness c).run s g).2 m) :
    x ∈ ((liveness c).system g).input ((liveness c).run s g).2 n := by
  have ho : n ∈ (liveness c).order g := ((liveness c).mem_order_iff g n).2
    ⟨(hasNode_of_mem_succs hm).1, ne_exit_of_mem_succs hg hm⟩
  have h := Analysis.meetInto_run (liveness_accumulates c) hg (liveness_grows c g.body) s ho hm
  exact VarSet.subset_of_union_eq_self h hx

theorem not_mem_run_exit (c : Config) (hg : g.validate = .ok ()) (s : Strategy) (x : Var) :
    ¬ x ∈ ((liveness c).system g).input ((liveness c).run s g).2 .exit ∧
      ¬ x ∈ ((liveness c).system g).result ((liveness c).run s g).2 .exit := by
  obtain ⟨hi, hr⟩ := Analysis.facts_start (a := liveness c) hg s
  change ((liveness c).system g).input ((liveness c).run s g).2 .exit = _ at hi
  change ((liveness c).system g).result ((liveness c).run s g).2 .exit = _ at hr
  rw [hi, hr]
  exact ⟨VarSet.not_mem_empty x, VarSet.not_mem_empty x⟩

theorem mem_input_run_iff (hg : g.validate = .ok ()) (s : Strategy) (n : Node) (x : Var) :
    x ∈ ((liveness c).system g).input ((liveness c).run s g).2 n ↔ g.ReadBehind n x := by
  constructor
  · exact (witnessed_reached (Analysis.run_reached hg s) n).1 x
  · refine ReadBehind.induction (fun n m hm h => mem_input_run hg s hm ?_)
    by_cases hne : m = .exit
    · subst hne
      rcases h with h | ⟨-, h⟩
      · cases h
      · exact absurd h (not_mem_run_exit c hg s x).1
    · exact (mem_result_run hg s (hasNode_of_mem_succs hm).2 hne x).2 h

theorem mem_result_run_iff (hg : g.validate = .ok ()) (s : Strategy) {n : Node} (hn : n ∈ g.nodes)
    (x : Var) : x ∈ ((liveness c).system g).result ((liveness c).run s g).2 n ↔ g.LiveAt n x := by
  by_cases hne : n = .exit
  · subst hne
    refine iff_of_false (not_mem_run_exit c hg s x).2 ?_
    rintro (h | ⟨-, h⟩)
    · cases h
    · exact (not_mem_run_exit c hg s x).1 ((mem_input_run_iff hg s .exit x).2 h)
  · rw [mem_result_run hg s hn hne, mem_input_run_iff hg s n x]
    rfl

end Liveness

/-- The facts of a solution are liveness by its definition: after a node, the variables that some path
reads before it defines them; before it, those the node reads or leaves to be read. -/
def Solution.Live (g : FlowGraph) (sol : Solution Node VarSet) : Prop :=
  ∀ n ∈ g.nodes, ∃ before after, sol.before.get? n = some before ∧ sol.after.get? n = some after ∧
    ∀ x, (x ∈ after ↔ g.ReadBehind n x) ∧
      (n ≠ .exit → (x ∈ before ↔ x ∈ g.usesAt n ∨ x ∈ after ∧ g.defAt? n ≠ some x))

namespace Liveness

variable {c : Config} {g : FlowGraph}

theorem exists_live (c : Config) (hg : g.validate = .ok ()) (s : Strategy) :
    ∃ sol, (liveness c).solve s g = .ok sol ∧ sol.Live g := by
  obtain ⟨sol, hsol, -, -, -, hfacts⟩ := Analysis.solve_facts (a := liveness c) hg s
  refine ⟨sol, hsol, fun n hn => ?_⟩
  obtain ⟨hafter, hbefore⟩ := hfacts n hn
  refine ⟨_, _, hbefore, hafter, fun x => ⟨mem_input_run_iff hg s n x, fun hne => ?_⟩⟩
  rw [and_comm]
  exact mem_result_run hg s hn hne x

theorem related_same (hg : g.validate = .ok ()) {s t : Strategy} {sol sol' : Solution Node VarSet}
    (hsol : (liveness c).solve s g = .ok sol) (hsol' : (liveness c).solve t g = .ok sol') :
    sol.Related (fun f f' => f.same f' = true) g sol' := by
  refine Analysis.related_of_solve hg hsol hsol' (fun n hn => ⟨?_, ?_⟩)
  · refine (VarSet.same_iff _ _).2 (fun x => ?_)
    rw [mem_input_run_iff hg s, mem_input_run_iff hg t]
  · refine (VarSet.same_iff _ _).2 (fun x => ?_)
    rw [mem_result_run_iff hg s hn, mem_result_run_iff hg t hn]

end Liveness

/-- Liveness is exact on every graph that passes validation: under both strategies the solution is what
paths define, so that the two agree. -/
theorem liveness_exact (c : Config) (g : FlowGraph) (hg : g.validate = .ok ()) :
    (∀ s, ∃ sol, (liveness c).solve s g = .ok sol ∧ sol.Live g) ∧
      ∃ sol sol', (liveness c).solve .iterative g = .ok sol ∧
        (liveness c).solve .worklist g = .ok sol' ∧
        sol.Related (fun f f' => f.same f' = true) g sol' := by
  have hlive := Liveness.exists_live c hg
  obtain ⟨sol, hsol, -⟩ := hlive .iterative
  obtain ⟨sol', hsol', -⟩ := hlive .worklist
  exact ⟨hlive, sol, sol', hsol, hsol', Liveness.related_same hg hsol hsol'⟩

open FlowGraph in
theorem liveness_exact_countdown : countdown.validate = .ok () ∧
    countdown.ReadBehind (.stmt 2) counter ∧
    ∀ s, ∃ sol after, (liveness (.default .livevar)).solve s countdown = .ok sol ∧
      sol.after.get? (.stmt 2) = some after ∧ counter ∈ after := by
  have hg : countdown.validate = .ok () := by decide
  have hread : countdown.ReadBehind (.stmt 2) counter :=
    ⟨[], .stmt 1, List.isChain_pair.2 (by decide), by decide, fun k hk => absurd hk List.not_mem_nil⟩
  refine ⟨hg, hread, fun s => ?_⟩
  obtain ⟨sol, hsol, hlive⟩ := (liveness_exact (.default .livevar) countdown hg).1 s
  obtain ⟨_, after, -, hafter, h⟩ := hlive (.stmt 2) (by decide)
  exact ⟨sol, after, hsol, hafter, (h counter).1.2 hread⟩

end Dataflow
