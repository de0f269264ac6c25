import Dataflow.Proofs.Fact.Words
import Dataflow.Proofs.Supergraph.Passes
import Dataflow.Proofs.Supergraph.Sound

namespace Dataflow

def Body.ownVars (b : Body) : List Var := b.params ++ b.stmts.filterMap Stmt.def?

theorem Body.mem_ownVars_of_def {b : Body} {n : Node} {s : Stmt Target} {x : Var}
    (hs : b.stmtOf? n = some s) (hx : s.def? = some x) : x ∈ b.ownVars :=
  List.mem_append_right _ (List.mem_filterMap.2 ⟨s, Analysis.mem_stmts_of_stmtOf? hs, hx⟩)

/-- The method whose variables are bound by what flows along an edge. -/
def SuperEdge.home : SuperEdge → MethodRef
  | normal s _ _ => s.method
  | callToReturn site _ _ => site.method
  | call _ callee => callee
  | ret _ site _ => site.method

namespace Supergraph

variable {h : Hierarchy} {calls : CallGraph} {ready : OrderedMap MethodRef FlowGraph}
  {g : Supergraph}

theorem method_target_join {graphs : OrderedMap MethodRef FlowGraph} {e : SuperEdge}
    (he : e ∈ (join calls graphs).edges) : e.target.method = e.home := by
  obtain ⟨m, f, n, -, -, he⟩ := (mem_edges_join calls graphs e).1 he
  obtain ⟨d, -, rfl⟩ | ⟨i, rfl, ⟨d, -, analysed, rfl⟩ | ⟨c, fc, -, rfl | ⟨k, -, rfl⟩⟩⟩ :=
    nodeEdges_cases he <;> rfl

def Owns (g : Supergraph) (m : MethodRef) (x : Var) : Prop :=
  ∃ b, g.body? m = some b ∧ x ∈ b.ownVars

theorem owns_of_def {p : Point} {s : Stmt Target} {x : Var} (hs : g.stmtOf? p = some s)
    (hx : s.def? = some x) : g.Owns p.method x := by
  obtain ⟨b, hb, hs⟩ := Option.bind_eq_some_iff.1 hs
  exact ⟨b, hb, Body.mem_ownVars_of_def hs hx⟩

theorem owns_of_param {m : MethodRef} {x : Var} (h : x ∈ (g.body? m).elim [] Body.params) :
    g.Owns m x := by
  obtain ⟨b, hb, hx⟩ := exists_body_of_param h
  exact ⟨b, hb, List.mem_append_left _ hx⟩

theorem owns_of_result {s : Site} {x : Var} (h : (g.callAt? s).bind Prod.fst = some x) :
    g.Owns s.method x := by
  obtain ⟨t, hs, hx⟩ := exists_stmt_of_result h
  exact owns_of_def hs hx

/-- Facts bind variables of their method only: calls rename what they pass, and returns bind what the
call defines. -/
theorem keeps_owns (calls : CallGraph) (graphs : OrderedMap MethodRef FlowGraph) :
    (join calls graphs).Keeps (fun p x _ => (join calls graphs).Owns p.method x) where
  meet _ _ _ _ hv _ := hv
  boundary _ := each_boundary fun _ hx _ => owns_of_param hx
  along e he f hf := by
    rw [method_target_join he]
    -- what was bound where a call or a return edge starts is gone where it ends
    cases e with
    | normal _ _ _ => exact hf
    | callToReturn _ _ analysed => exact each_pastCall hf (fun _ hx _ => owns_of_result hx) analysed
    | call _ _ => exact each_intoCall fun p hp _ => owns_of_param (List.of_mem_zip hp).1
    | ret _ _ _ => exact each_outOfCall fun _ hx _ => owns_of_result hx
  transfer _ _ hf := ConstProp.each_transfer hf fun _ _ ht hx _ =>
    ⟨owns_of_def ht hx, fun _ _ _ => owns_of_def ht hx⟩

theorem common_cases (l : List Value) : common l = .undef ∨ common l = .nac ∨ common l ∈ l := by
  cases l with
  | nil => exact .inl rfl
  | cons v rest =>
      rw [common]
      split
      · exact .inr (.inr List.mem_cons_self)
      · exact .inr (.inl rfl)

theorem fits_common {l : List Value} (h : ∀ v ∈ l, v.Fits) : (common l).Fits := by
  obtain hl | hl | hl := common_cases l
  · exact hl ▸ Value.fits_undef
  · exact hl ▸ Value.fits_nac
  · exact h _ hl

theorem keeps_fits (g : Supergraph) : g.Keeps (fun _ _ v => v.Fits) where
  meet _ _ _ _ := Value.Fits.meet
  boundary _ := each_boundary fun _ _ _ => Value.fits_nac
  along e _ f hf := by
    cases e with
    | normal _ _ _ => exact hf
    | callToReturn _ _ analysed => exact each_pastCall hf (fun _ _ _ => Value.fits_nac) analysed
    | call _ _ => exact each_intoCall fun p _ _ => Fact.fits_get hf p.2
    | ret _ _ _ =>
        refine each_outOfCall fun _ _ _ => fits_common fun v hv => ?_
        obtain ⟨x, -, rfl⟩ := List.mem_map.1 hv
        exact Fact.fits_get hf x
  transfer _ _ hf := ConstProp.each_fits_transfer _ hf

end Supergraph

theorem ConstProp.each_fits_of_passes {c : Config} {s : Strategy} {f : FlowGraph}
    {st : System.State Node Fact} (hst : (constProp c).Passes s f st) (n : Node) :
    (((constProp c).system f).input st n).Each (fun _ v => v.Fits) ∧
      (((constProp c).system f).result st n).Each (fun _ v => v.Fits) :=
  each_of_passes (fun _ _ _ => Value.Fits.meet) (each_boundary fun _ _ _ => Value.fits_nac)
    (fun t _ hu => each_fits_transfer t hu) hst n

/-- In every state that solving passes through, facts stay in their method: they bind parameters of its
body and variables that its statements define. And they stay in the words, in a method and across
calls. -/
theorem Supergraph.facts_scoped {h : Hierarchy} {calls : CallGraph}
    {ready : OrderedMap MethodRef FlowGraph} {g : Supergraph} (hg : ofCalls h calls ready = .ok g)
    (hready : ∀ m f, ready.get? m = some f → h.body? m = some f.body) :
    (∀ st, g.Passes st → ∀ p ∈ g.points, ∃ b, h.body? p.method = some b ∧
      (g.system.input st p).Each (fun x _ => x ∈ b.ownVars) ∧
        (g.system.result st p).Each (fun x _ => x ∈ b.ownVars)) ∧
    (∀ st, g.Passes st → ∀ p, (g.system.input st p).Words ∧ (g.system.result st p).Words) ∧
    ∀ c s f st, (constProp c).Passes s f st → ∀ n,
      (((constProp c).system f).input st n).Words ∧
        (((constProp c).system f).result st n).Words := by
  refine ⟨fun st hst p hp => ?_, fun st hst p => ?_, fun c s f st hst n => ?_⟩
  · obtain ⟨f, hf, -⟩ := (mem_points_iff g p).1 hp
    have hb : g.body? p.method = some f.body := by rw [body?, hf]; rfl
    have hown : ∀ x, g.Owns p.method x → x ∈ f.body.ownVars := by
      rintro x ⟨b, hb', hx⟩
      rw [hb] at hb'
      cases hb'
      exact hx
    obtain ⟨l, -, rfl⟩ := ofCalls_eq hg
    obtain ⟨hin, hout⟩ := (keeps_owns calls _).each_of_passes hst p
    exact ⟨f.body, body_of_graph? hg hready hf, hin.imp fun x _ => hown x,
      hout.imp fun x _ => hown x⟩
  · obtain ⟨hin, hout⟩ := (keeps_fits g).each_of_passes hst p
    exact ⟨Fact.words_of_fits hin, Fact.words_of_fits hout⟩
  · obtain ⟨hin, hout⟩ := ConstProp.each_fits_of_passes hst n
    exact ⟨Fact.words_of_fits hin, Fact.words_of_fits hout⟩

open Supergraph in
theorem Successor.facts_scoped_successor :
    ofCalls program.hierarchy calls .empty = .ok graph ∧
    (∀ m (f : FlowGraph), OrderedMap.get? .empty m = some f →
      program.hierarchy.body? m = some f.body) ∧
    ∃ s, graph.solve? 30 = .ok (some s) ∧ ∃ st, graph.Passes st ∧ s = solutionOf st ∧
      (∀ p ∈ graph.points, ∃ b, program.hierarchy.body? p.method = some b ∧
        (graph.system.input st p).Each (fun x _ => x ∈ b.ownVars) ∧
          (graph.system.result st p).Each (fun x _ => x ∈ b.ownVars)) ∧
      ∀ p, (graph.system.input st p).Words ∧ (graph.system.result st p).Words := by
  have hready : ∀ m (f : FlowGraph), OrderedMap.get? .empty m = some f →
      program.hierarchy.body? m = some f.body := fun _ _ hf => nomatch hf
  obtain ⟨s, hs⟩ := solved
  obtain ⟨st, hst, he⟩ := passes_of_solve? hs
  obtain ⟨hown, hwords, -⟩ := facts_scoped ofCalls_calls hready
  exact ⟨ofCalls_calls, hready, s, hs, st, hst, he, hown st hst, hwords st hst⟩

end Dataflow
