import Dataflow.Proofs.Analysis.Closed
import Dataflow.Supergraph.ConstProp
import Mathlib.Data.List.Nodup

namespace Dataflow

namespace Fact

theorem le_foldl_meetInto (l : List Fact) (t : Fact) (x : Var) :
    t.get x ≤ (l.foldl (fun t f => f.meetInto t) t).get x := by
  induction l generalizing t with
  | nil => exact le_refl _
  | cons f l ih =>
      have h : t.get x ≤ (f.meetInto t).get x := by
        rw [get_meetInto]
        exact Value.le_meet_right _ _
      exact le_trans h (ih (f.meetInto t))

theorem le_foldl_meetInto_of_mem {l : List Fact} {f : Fact} (hf : f ∈ l) (t : Fact) (x : Var) :
    f.get x ≤ (l.foldl (fun t f => f.meetInto t) t).get x := by
  induction l generalizing t with
  | nil => cases hf
  | cons d l ih =>
      rcases List.mem_cons.1 hf with rfl | hf
      · have h : f.get x ≤ (f.meetInto t).get x := by
          rw [get_meetInto]
          exact Value.le_meet_left _ _
        exact le_trans h (le_foldl_meetInto l _ x)
      · exact ih hf (d.meetInto t)

end Fact

namespace Supergraph

variable {g : Supergraph}

theorem mem_points_iff (g : Supergraph) (p : Point) :
    p ∈ g.points ↔ ∃ f, g.graph? p.method = some f ∧ p.node ∈ f.nodes := by
  obtain ⟨m, n⟩ := p
  simp only [points, graph?, List.mem_flatMap, List.mem_map, Point.mk.injEq]
  constructor
  · rintro ⟨e, he, k, hk, rfl, rfl⟩
    exact ⟨e.2, (OrderedMap.get?_eq_some_iff _ _ _).2 he, hk⟩
  · rintro ⟨f, hf, hn⟩
    exact ⟨(m, f), (OrderedMap.get?_eq_some_iff _ _ _).1 hf, n, hn, rfl, rfl⟩

theorem hasPoint_iff (g : Supergraph) (p : Point) : g.hasPoint p = true ↔ p ∈ g.points := by
  rw [mem_points_iff, hasPoint, Option.any_eq_true]
  constructor
  · rintro ⟨f, hf, hn⟩
    exact ⟨f, hf, (f.body.mem_nodes_iff _).2 hn⟩
  · rintro ⟨f, hf, hn⟩
    exact ⟨f, hf, (f.body.mem_nodes_iff _).1 hn⟩

theorem nodup_points (g : Supergraph) : g.points.Nodup := by
  rw [points, List.nodup_flatMap]
  constructor
  · intro e _
    exact e.2.body.nodup_nodes.map (fun k l h => (Point.mk.inj h).2)
  · have hk := List.pairwise_map.1 g.graphs.nodup_keys
    refine hk.imp (fun hne p hp hp' => ?_)
    obtain ⟨k, -, rfl⟩ := List.mem_map.1 hp
    obtain ⟨l, -, he⟩ := List.mem_map.1 hp'
    exact hne (Point.mk.inj he).1.symm

theorem validate_eq_ok_iff (g : Supergraph) :
    g.validate = .ok () ↔ g.entryMethods ≠ [] ∧ ∀ e ∈ g.edges, e.target ∈ g.points := by
  rw [validate]
  by_cases hm : g.entryMethods = []
  · rw [if_pos (by rw [hm]; rfl)]
    exact ⟨fun h => (nomatch h), fun h => absurd hm h.1⟩
  · rw [if_neg (by rwa [List.isEmpty_iff])]
    split
    · rename_i e he
      have hp := List.find?_some he
      refine ⟨fun h => (nomatch h), fun h => ?_⟩
      have ht := (hasPoint_iff g _).2 (h.2 e (List.mem_of_find?_eq_some he))
      rw [ht] at hp
      cases hp
    · rename_i hn
      refine ⟨fun _ => ⟨hm, fun e he => ?_⟩, fun _ => rfl⟩
      have hf := List.find?_eq_none.1 hn e he
      rw [← hasPoint_iff]
      simpa using hf

theorem mem_points_of_mem_succs (hg : g.validate = .ok ()) {p q : Point} (h : q ∈ g.succs p) :
    q ∈ g.points := by
  obtain ⟨e, he, -, rfl⟩ := (g.mem_succs_iff p q).1 h
  exact ((validate_eq_ok_iff g).1 hg).2 e he

theorem collect_eq (g : Supergraph) (p : Point) (result : Point → Fact) (before : Fact) :
    g.system.collect p result before =
      ((g.inEdges p).map (fun e => g.along e (result e.source))).foldl (fun t f => f.meetInto t)
        (g.boundary p) := by
  rw [List.foldl_map]
  rfl

theorem boundary_le_collect (g : Supergraph) (p : Point) (result : Point → Fact) (before : Fact)
    (x : Var) : (g.boundary p).get x ≤ (g.system.collect p result before).get x := by
  rw [collect_eq]
  exact Fact.le_foldl_meetInto _ _ x

theorem along_le_collect {e : SuperEdge} (he : e ∈ g.edges) (result : Point → Fact)
    (before : Fact) (x : Var) :
    (g.along e (result e.source)).get x ≤ (g.system.collect e.target result before).get x := by
  have hmem : g.along e (result e.source) ∈
      (g.inEdges e.target).map (fun e => g.along e (result e.source)) :=
    List.mem_map.2 ⟨e, List.mem_filter.2 ⟨he, decide_eq_true rfl⟩, rfl⟩
  rw [collect_eq]
  exact Fact.le_foldl_meetInto_of_mem hmem _ x

theorem local_system (g : Supergraph) : g.system.Local where
  collect_congr {p f f' before} h := by
    rw [collect_eq, collect_eq]
    congr 1
    apply List.map_congr_left
    intro e he
    obtain ⟨he, ht⟩ := List.mem_filter.1 he
    rw [h e.source ((g.mem_succs_iff _ _).2 ⟨e, he, rfl, of_decide_eq_true ht⟩)]
  collect_collect _ _ _ := rfl
  same_refl := Fact.same_refl

theorem result_begin (g : Supergraph) (p : Point) :
    g.system.result g.begin.state p = .empty := by
  have h := OrderedMap.getD_tabulate g.nodup_points (fun _ => Fact.empty) p Fact.empty
  rw [ite_self] at h
  exact h

theorem queue_begin (g : Supergraph) (p : Point) : p ∈ g.begin.queue.items ↔ p ∈ g.points := by
  change p ∈ (WorkQueue.ofList g.points).items ↔ _
  simp [WorkQueue.ofList, WorkQueue.mem_items_addAll]

theorem keys_begin (g : Supergraph) :
    g.begin.state.inputs.keys = g.points ∧ g.begin.state.results.keys = g.points :=
  ⟨OrderedMap.keys_tabulate g.nodup_points _, OrderedMap.keys_tabulate g.nodup_points _⟩

theorem solve?_of_validate (hg : g.validate = .ok ()) (fuel : Nat) :
    g.solve? fuel = .ok (if (g.system.settle fuel g.begin).queue.items = [] then
      some (solutionOf (g.system.settle fuel g.begin).state) else none) := by
  rw [solve?, hg]
  simp only [← List.isEmpty_iff]
  rfl

theorem solve?_eq_ok_iff (g : Supergraph) (fuel : Nat) (s : Solution Point Fact) :
    g.solve? fuel = .ok (some s) ↔ g.validate = .ok () ∧
      (g.system.settle fuel g.begin).queue.items = [] ∧
        s = solutionOf (g.system.settle fuel g.begin).state := by
  cases hg : g.validate with
  | error e =>
      rw [solve?, hg]
      exact ⟨fun h => (nomatch h), fun h => (nomatch h.1)⟩
  | ok u =>
      rw [solve?_of_validate hg, Except.ok.injEq]
      by_cases hq : (g.system.settle fuel g.begin).queue.items = []
      · rw [if_pos hq, Option.some.injEq]
        exact ⟨fun h => ⟨rfl, hq, h.symm⟩, fun h => h.2.2.symm⟩
      · rw [if_neg hq]
        exact ⟨fun h => (nomatch h), fun h => absurd h.2.1 hq⟩

/-- Facts that agree with all equations: what holds before a point takes in the boundary and what
flows along every edge into it, and what holds after it is the transfer of that. -/
def Balanced (g : Supergraph) (s : Solution Point Fact) : Prop :=
  ∀ p ∈ g.points, ∃ into out, s.before.get? p = some into ∧ s.after.get? p = some out ∧
    (∀ x, (g.boundary p).get x ≤ into.get x) ∧
    (∀ e ∈ g.edges, e.target = p → ∀ from', s.after.get? e.source = some from' →
      ∀ x, (g.along e from').get x ≤ into.get x) ∧
    out.same (g.system.transfer p into) = true

/-- When the worklist runs empty, there is a fact on both sides of every point, and another visit of it
would change nothing. -/
theorem stable_of_solve? {fuel : Nat} {s : Solution Point Fact}
    (h : g.solve? fuel = .ok (some s)) : ∃ st, s = solutionOf st ∧ ∀ p ∈ g.points,
      st.inputs.get? p = some (g.system.input st p) ∧
        st.results.get? p = some (g.system.result st p) ∧ g.system.Stable st p := by
  obtain ⟨hg, hq, rfl⟩ := (solve?_eq_ok_iff g fuel s).1 h
  have hd : ∀ p ∈ g.points, ∀ q ∈ g.system.dependents p, q ∈ g.points :=
    fun _ _ _ hq => mem_points_of_mem_succs hg hq
  have hr := (System.reached_settle fuel hd (fun p hp => (queue_begin g p).1 hp)
    (.start : g.system.Reached g.points g.begin.state g.begin.state)).2
  obtain ⟨hki, hkr⟩ := System.keys_reached (keys_begin g).1 (keys_begin g).2 (fun _ hp => hp) hr
  have hb : g.system.Attended g.points g.begin :=
    fun p hp hn => absurd ((queue_begin g p).2 hp) hn
  refine ⟨_, rfl, fun p hp => ⟨?_, ?_, ?_⟩⟩
  · exact OrderedMap.get?_eq_some_getD (hki.symm ▸ hp) _
  · exact OrderedMap.get?_eq_some_getD (hkr.symm ▸ hp) _
  · exact System.attended_settle (local_system g) fuel hb p hp (by rw [hq]; exact List.not_mem_nil)

theorem balanced_of_solve? {fuel : Nat} {s : Solution Point Fact}
    (h : g.solve? fuel = .ok (some s)) : g.Balanced s := by
  obtain ⟨st, rfl, hst⟩ := stable_of_solve? h
  intro p hp
  obtain ⟨hi, hr, hin, hout⟩ := hst p hp
  refine ⟨_, _, hi, hr, ?_, ?_, hout⟩
  · intro x
    have h := boundary_le_collect g p (g.system.result st) (g.system.input st p) x
    rw [show g.system.collect p _ _ = _ from hin] at h
    exact h
  · rintro e he rfl from' hf x
    have h := along_le_collect he (g.system.result st) (g.system.input st e.target) x
    have hf : st.results.get? e.source = some from' := hf
    have hres : g.system.result st e.source = from' := by
      rw [System.result, OrderedMap.getD, hf, Option.getD_some]
    rw [show g.system.collect e.target _ _ = _ from hin, hres] at h
    exact h

end Supergraph

end Dataflow
