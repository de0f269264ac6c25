import Dataflow.Proofs.DeadCode.Explored
import Dataflow.Session

namespace Dataflow

namespace DeadCode

variable {b : Body} {t : BranchTruth} {g : FlowGraph} {f : Fact} {s : Basis} {n m : Node}

/-- Control can take an edge, for all that is known before the source of it. Of a branch whose
condition is known that is the edge for its truth; of a switch whose selector is known, the cases
taken, or the default where no case has its value. -/
def Open (t : BranchTruth) (g : FlowGraph) (f : Fact) (e : Edge) : Prop :=
  match g.body.stmtOf? e.source with
  | some (.branch c _) =>
    ∀ v, evaluate c f = .const v → e.kind = if t.holds v then .ifTrue else .ifFalse
  | some (.switch x _ _ _) =>
    ∀ v, f.get x = .const v → e ∈ takenCases g.body v (g.outEdges e.source) ∨
      (∀ d ∈ caseEdges (g.outEdges e.source), d.caseValue ≠ some v) ∧ e.isDefault = true
  | _ => True

theorem mem_liveTargets_iff (hb : FlowGraph.ofBody b = .ok g) :
    m ∈ liveTargets t g f n ↔ ∃ e ∈ g.outEdges n, e.target = m ∧ Open t g f e := by
  have hsource : ∀ e ∈ g.outEdges n, e.source = n :=
    fun e he => of_decide_eq_true (List.mem_filter.1 he).2
  have hall : (∀ e ∈ g.outEdges n, Open t g f e) → (m ∈ (g.outEdges n).map Edge.target ↔
      ∃ e ∈ g.outEdges n, e.target = m ∧ Open t g f e) := by
    intro h
    rw [List.mem_map]
    exact exists_congr fun e => and_congr_right fun he => (and_iff_left (h e he)).symm
  cases hs : g.body.stmtOf? n with
  | none =>
      simp only [liveTargets, hs]
      exact hall fun e he => by simp only [Open, hsource e he, hs]
  | some stmt =>
      cases stmt with
      | nop _ | assign _ _ | invoke _ _ | goto _ | ret _ =>
          simp only [liveTargets, hs]
          exact hall fun e he => by simp only [Open, hsource e he, hs]
      | branch c target =>
          simp only [liveTargets, hs]
          split
          · rename_i v hv
            rw [List.mem_map]
            refine exists_congr fun e => ?_
            rw [List.mem_filter, decide_eq_true_iff, and_assoc, and_congr_right_iff]
            intro he
            simp only [Open, hsource e he, hs, hv, Value.const.injEq, forall_eq', and_comm]
          · rename_i hv
            refine hall fun e he => ?_
            simp only [Open, hsource e he, hs]
            exact fun v hconst => absurd hconst (hv v)
      | switch x values targets default =>
          simp only [liveTargets, hs]
          split
          · rename_i v hv
            rw [mem_switchTargets_iff (default_unique hb hs)]
            refine exists_congr fun e => and_congr_right fun he => and_congr_right fun _ => ?_
            simp only [Open, hsource e he, hs, hv, Value.const.injEq, forall_eq']
          · rename_i hv
            refine hall fun e he => ?_
            simp only [Open, hsource e he, hs]
            exact fun v hconst => absurd hconst (hv v)

def Basis.Leads (s : Basis) (t : BranchTruth) (n m : Node) : Prop :=
  ∃ e f, e ∈ s.graph.outEdges n ∧ e.target = m ∧ s.constants.before.get? n = some f ∧
    Open t s.graph f e

/-- Control can get to a node over edges that are open. -/
def Basis.Reaches (s : Basis) (t : BranchTruth) : Node → Prop :=
  Relation.ReflTransGen (s.Leads t) .entry

theorem Basis.Grounded.leads_iff (hs : s.Grounded b) : s.Leads t n m ↔
    m ∈ liveTargets t s.graph (s.constants.before.getD n .empty) n := by
  rw [mem_liveTargets_iff hs.graph]
  constructor
  · rintro ⟨e, f, he, htarget, hf, hopen⟩
    rw [OrderedMap.getD, hf]
    exact ⟨e, he, htarget, hopen⟩
  · rintro ⟨e, he, htarget, hopen⟩
    have hn : n ∈ s.constants.before.keys := by
      rw [hs.constants.keys_before]
      obtain ⟨hmem, hsource⟩ := List.mem_filter.1 he
      exact (s.graph.body.mem_nodes_iff n).2 (of_decide_eq_true hsource ▸ (s.graph.ends e hmem).1)
    exact ⟨e, _, he, htarget, OrderedMap.get?_eq_some_getD hn .empty, hopen⟩

theorem Basis.Grounded.mem_explored_iff (hs : s.Grounded b) :
    n ∈ explored t s.graph s.constants ↔ s.Reaches t n := by
  rw [DeadCode.mem_explored_iff, Basis.Reaches]
  have hleads : s.Leads t =
      fun n m => m ∈ liveTargets t s.graph (s.constants.before.getD n .empty) n := by
    funext n m
    exact propext hs.leads_iff
  rw [hleads]

theorem Basis.Reaches.path (h : s.Reaches t n) :
    Relation.ReflTransGen (fun n m => m ∈ s.graph.succs n) .entry n := by
  refine Relation.ReflTransGen.mono ?_ _ _ h
  rintro n m ⟨e, f, he, rfl, -⟩
  exact FlowGraph.target_mem_succs he

/-- What is reported for a body: numbers of its statements in order, and of these the ones that
control cannot get to and the ones that assign to a variable not live behind them what has no effect.
-/
structure Basis.Exact (s : Basis) (b : Body) (t : BranchTruth) : Prop where
  graph : FlowGraph.ofBody b = .ok s.graph
  increasing : ((s.dead t).map b.numberOf).Pairwise (· < ·)
  within : ∀ i ∈ s.dead t, b.nodeNumber .entry < b.numberOf i ∧ b.numberOf i < b.nodeNumber .exit
  mem_iff : ∀ i, i ∈ s.dead t ↔ i < b.size ∧ (¬ s.Reaches t (.stmt i) ∨
    s.Reaches t (.stmt i) ∧ ∃ x e live, b.stmt? i = some (.assign x e) ∧
      s.live.after.get? (.stmt i) = some live ∧ x ∉ live ∧ e.isPure = true)
  unreachable : ∀ i < b.size,
    ¬ Relation.ReflTransGen (fun n m => m ∈ s.graph.succs n) .entry (.stmt i) → i ∈ s.dead t

theorem Basis.Grounded.exact (hs : s.Grounded b) (hnumbered : b.numbered = true)
    (t : BranchTruth) : s.Exact b t := by
  have hnumber : ∀ i, b.numberOf i = i := fun i => if_pos hnumbered
  refine ⟨hs.graph, ?_, fun i hi => ?_, fun i => ?_, fun i hi hpath => ?_⟩
  · rw [List.pairwise_map]
    simp only [hnumber, Int.ofNat_lt]
    exact List.pairwise_lt_range.sublist List.filter_sublist
  · have hi := (hs.mem_dead_iff.1 hi).1
    have hentry : b.nodeNumber .entry = -1 := rfl
    have hexit : b.nodeNumber .exit = b.size := rfl
    rw [hnumber]
    omega
  · rw [hs.mem_dead_iff, hs.mem_explored_iff]
    tauto
  · exact hs.mem_dead_iff.2 ⟨hi, .inl fun hex => hpath (hs.mem_explored_iff.1 hex).path⟩

end DeadCode

namespace Session

theorem outcome_deadCode {b : Body} {s : DeadCode.Basis} {config : Option Config} {c : Config}
    (hs : DeadCode.Basis.ofBody b = .ok s) (hc : DeadCode.configOrDefault config = .ok c) :
    (deadCode b config).outcome.1 = .ok (s.dead c.branchTruth,
      s.kept.insert AnalysisId.deadcode.name (.dead (s.dead c.branchTruth))) := by
  rw [deadCode, flowGraph, DeadCode.Basis.graph_of_ofBody hs, hs]
  by_cases h : b.size = 0
  · simp only [deadCodeFrom, hc, h]; rfl
  · simp only [deadCodeFrom, hc, h, ne_eq, not_false_eq_true, if_true]; rfl

end Session

namespace DeadCode

/-- The detection finds its basis for every body that a builder makes. What it reports is exact
for either reading of the truth of conditions, and it is what is answered and kept. -/
theorem dead_exact {b : Body} (hb : b.Built) : ∃ s, Basis.ofBody b = .ok s ∧
    (∀ t, s.Exact b t) ∧ ∀ config c, configOrDefault config = .ok c →
      (Session.deadCode b config).outcome.1 = .ok (s.dead c.branchTruth,
        s.kept.insert AnalysisId.deadcode.name (.dead (s.dead c.branchTruth))) := by
  obtain ⟨s, hs, hgrounded⟩ := exists_basis_of_built hb
  exact ⟨s, hs, fun t => hgrounded.exact hb.numbered t,
    fun _ _ hc => Session.outcome_deadCode hs hc⟩

namespace Falling

def k : Var := ⟨0, 0, "k", .primitive .int, 0⟩

def r : Var := ⟨0, 1, "r", .primitive .int, 1⟩

def requests : List Builder.Request := [
  .newVar "k" (.primitive .int),
  .newVar "r" (.primitive .int),
  .append (.assign k (.int 1)),
  .append (.switch k [2, 1, 3, 1] ["other", "first", "next", "again"] "other"),
  .label "first",
  .append (.assign r (.var k)),
  .label "next",
  .append (.goto "end"),
  .label "again",
  .append (.nop "nop"),
  .label "other",
  .append (.assign r (.var k)),
  .label "end",
  .append (.assign r (.int 7)),
  .append (.ret (some r))]

def body : Body where
  name := "main"
  vars := [k, r]
  stmts := [
    .assign k (.int 1),
    .switch k [2, 1, 3, 1] [.stmt 5, .stmt 2, .stmt 3, .stmt 4] (.stmt 5),
    .assign r (.var k),
    .goto (.stmt 6),
    .nop "nop",
    .assign r (.var k),
    .assign r (.int 7),
    .ret (some r)]

theorem built_body : body.Built := ⟨"main", 0, requests, rfl⟩

theorem dead_body : (Basis.ofBody body).toOption.map (fun s => (s.dead .eqOne, s.dead .positive)) =
    some ([2, 4, 5], [2, 4, 5]) := by
  decide +kernel

theorem dead_exact_falling : body.Built ∧ ∃ s, Basis.ofBody body = .ok s ∧
    s.dead .eqOne = [2, 4, 5] ∧ s.Reaches .eqOne (.stmt 3) ∧ ¬ s.Reaches .eqOne (.stmt 4) ∧
      (Session.deadCode body none).outcome.1.toOption.map Prod.fst = some [2, 4, 5] := by
  obtain ⟨s, hs, hexact, hanswer⟩ := dead_exact built_body
  have hd := dead_body
  rw [hs] at hd
  obtain ⟨hone, -⟩ := Prod.mk.inj (Option.some.inj hd)
  have hiff := (hexact .eqOne).mem_iff
  rw [hone] at hiff
  refine ⟨built_body, s, hs, hone, ?_, ?_, ?_⟩
  · by_contra hnot
    exact absurd ((hiff 3).2 ⟨by decide, .inl hnot⟩) (by decide)
  · intro hreached
    obtain ⟨-, hnot | ⟨-, x, e, live, hstmt, -⟩⟩ := (hiff 4).1 (by decide)
    · exact hnot hreached
    · cases hstmt
  · rw [hanswer none (.default .deadcode) rfl]
    exact congrArg some hone

end Falling

end DeadCode

end Dataflow
