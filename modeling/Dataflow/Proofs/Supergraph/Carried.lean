import Dataflow.Proofs.Supergraph.Passes
import Dataflow.Proofs.Supergraph.Sound

namespace Dataflow

namespace Supergraph

def passed (g : Supergraph) : SuperEdge → List (Var × Var)
  | .call site callee => ((g.body? callee).elim [] Body.params).zip
      ((g.callAt? site).elim [] (fun c => c.2.args))
  | .normal _ _ _ | .callToReturn _ _ _ | .ret _ _ _ => []

/-- The variables that constants get to: those for ints, and parameters of any type that such a variable
is passed to. -/
inductive Carries (g : Supergraph) : Var → Prop
  | int {x} : x.holdsInt = true → Carries g x
  | param {e p} : e ∈ g.edges → p ∈ g.passed e → Carries g p.2 → Carries g p.1

def PassesInts (g : Supergraph) : Prop :=
  ∀ e ∈ g.edges, ∀ p ∈ g.passed e, p.2.holdsInt = true → p.1.holdsInt = true

instance (g : Supergraph) : Decidable g.PassesInts :=
  inferInstanceAs (Decidable (∀ e ∈ g.edges, ∀ p ∈ g.passed e, _ → _))

variable {g : Supergraph}

theorem PassesInts.holdsInt (hg : g.PassesInts) {x : Var} (h : g.Carries x) :
    x.holdsInt = true := by
  induction h with
  | int hx => exact hx
  | param he hp _ ih => exact hg _ he _ hp ih

/-- Edges into a method are the only ones that may bind a variable for something else than ints. -/
theorem keeps_carries (g : Supergraph) : g.Keeps (fun _ x _ => g.Carries x) where
  meet _ _ _ _ hv _ := hv
  boundary _ := each_boundary fun _ _ hx => .int hx
  along e he f hf := by
    cases e with
    | normal _ _ _ => exact hf
    | callToReturn _ _ analysed => exact each_pastCall hf (fun _ _ hx => .int hx) analysed
    | call site callee =>
        -- nothing is asked of the parameter's type, only whether the argument is bound
        refine each_intoCall fun p hp hbound => .param (e := .call site callee) he hp ?_
        exact Fact.each_iff.1 hf p.2 hbound
    | ret _ _ _ => exact each_outOfCall fun _ _ hx => .int hx
  transfer _ _ hf := ConstProp.each_transfer hf fun _ _ _ _ hx => ⟨.int hx, fun _ _ _ => .int hx⟩

end Supergraph

theorem ConstProp.each_holdsInt_of_passes {c : Config} (hc : c.seeding = .intOnly) {s : Strategy}
    {f : FlowGraph} {st : System.State Node Fact} (hst : (constProp c).Passes s f st) (n : Node) :
    (((constProp c).system f).input st n).Each (fun x _ => x.holdsInt = true) ∧
      (((constProp c).system f).result st n).Each (fun x _ => x.holdsInt = true) := by
  refine each_of_passes (fun _ _ _ hv _ => hv) (each_boundary fun x _ hx => ?_)
    (fun t u hu => each_transfer hu fun _ _ _ _ hx => ⟨hx, fun _ _ _ => hx⟩) hst n
  rw [hc] at hx
  exact hx.resolve_left (by decide)

/-- Which variables take part in constant propagation, in every state that solving passes through. In a
method, with parameters known as far as they are for ints, only variables for ints do. Across calls
parameters of other types can, if a call passes a variable to them that does; if no call passes an int
to such a parameter, only variables for ints do. -/
theorem Supergraph.binds_carried {c : Config} (hc : c.seeding = .intOnly) :
    (∀ s f st, (constProp c).Passes s f st → ∀ n,
      (((constProp c).system f).input st n).Each (fun x _ => x.holdsInt = true) ∧
      (((constProp c).system f).result st n).Each (fun x _ => x.holdsInt = true)) ∧
    ∀ (g : Supergraph) (st), g.Passes st → ∀ p,
      ((g.system.input st p).Each (fun x _ => g.Carries x) ∧
        (g.system.result st p).Each (fun x _ => g.Carries x)) ∧
      (g.PassesInts → (g.system.input st p).Each (fun x _ => x.holdsInt = true) ∧
        (g.system.result st p).Each (fun x _ => x.holdsInt = true)) := by
  refine ⟨fun s f st hst => ConstProp.each_holdsInt_of_passes hc hst, fun g st hst p => ?_⟩
  obtain ⟨hin, hout⟩ := g.keeps_carries.each_of_passes hst p
  exact ⟨⟨hin, hout⟩, fun hg =>
    ⟨hin.imp fun _ _ => hg.holdsInt, hout.imp fun _ _ => hg.holdsInt⟩⟩

open Supergraph in
theorem Successor.binds_carried_successor :
    (Config.default .constprop).seeding = .intOnly ∧ graph.PassesInts ∧
      ∃ s, graph.solve? 30 = .ok (some s) ∧ ∃ st, graph.Passes st ∧ s = solutionOf st ∧ ∀ p,
        (graph.system.input st p).Each (fun x _ => x.holdsInt = true) ∧
          (graph.system.result st p).Each (fun x _ => x.holdsInt = true) := by
  have hints : graph.PassesInts := by decide
  obtain ⟨s, hs⟩ := solved
  obtain ⟨st, hst, he⟩ := passes_of_solve? hs
  refine ⟨rfl, hints, s, hs, st, hst, he, fun p => ?_⟩
  exact ((binds_carried (c := .default .constprop) rfl).2 graph st hst p).2 hints

namespace Widened

open Supergraph

def a : Var := ⟨0, 0, "a", .primitive .int, 0⟩

def n : Var := ⟨1, 0, "n", .primitive .long, 0⟩

def main : MethodRef := ⟨"Main", "void main()"⟩

def wide : MethodRef := ⟨"Main", "void wide(long)"⟩

def mainBody : Body where
  name := "main"
  vars := [a]
  stmts := [.assign a (.int 1), .invoke none ⟨.static, wide, [a], none⟩, .ret none]

def wideBody : Body where
  name := "wide"
  params := [n]
  vars := [n]
  stmts := [.ret none]

def program : Program where
  hierarchy := ⟨.ofList [("Main",
    { serial := 0
      name := "Main"
      methods := .ofList [
        ("void main()", { ref := main, isStatic := true, body := some mainBody }),
        ("void wide(long)", { ref := wide, isStatic := true, body := some wideBody })] })]⟩
  main := main

def calls : CallGraph where
  entries := [main]
  reachable := [main, wide]
  edges := [⟨.static, ⟨main, 1⟩, wide⟩]
  nodup_entries := List.nodup_singleton main
  nodup_reachable := by decide
  nodup_edges := List.nodup_singleton _

def mainFlow : FlowGraph where
  body := mainBody
  edges := [
    ⟨.entry, .stmt 0, .entry, none⟩,
    ⟨.stmt 0, .stmt 1, .fallThrough, none⟩,
    ⟨.stmt 1, .stmt 2, .fallThrough, none⟩,
    ⟨.stmt 2, .exit, .ret, none⟩]
  ends := by decide

def wideFlow : FlowGraph where
  body := wideBody
  edges := [
    ⟨.entry, .stmt 0, .entry, none⟩,
    ⟨.stmt 0, .exit, .ret, none⟩]
  ends := by decide

def graph : Supergraph := join calls (.ofList [(main, mainFlow), (wide, wideFlow)])

theorem ofProgram_program : CallGraph.ofProgram program = .ok calls := rfl

theorem ofCalls_calls : ofCalls program.hierarchy calls .empty = .ok graph := rfl

/-- The parameter is bound to the constant in the end, though it is no variable for ints. -/
theorem binds_long : CallGraph.ofProgram program = .ok calls ∧
    ofCalls program.hierarchy calls .empty = .ok graph ∧
    ∃ st, graph.Passes st ∧ graph.solve? 20 = .ok (some (solutionOf st)) ∧
      (n, .const 1) ∈ (graph.system.input st ⟨wide, .entry⟩).entries ∧ n.holdsInt = false := by
  have hv : graph.validate = .ok () := (validate_ofCalls_iff ofProgram_program ofCalls_calls).2 rfl
  have hq : (graph.system.settle 20 graph.begin).queue.items = [] := by decide +kernel
  have hn : (graph.system.input (graph.system.settle 20 graph.begin).state ⟨wide, .entry⟩).entries =
      [(n, .const 1)] := by decide +kernel
  refine ⟨ofProgram_program, ofCalls_calls, _, .between 20, ?_, ?_, rfl⟩
  · exact (solve?_eq_ok_iff graph 20 _).2 ⟨hv, hq, rfl⟩
  · rw [hn]
    exact List.mem_singleton_self _

end Widened

end Dataflow
