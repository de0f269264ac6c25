import Dataflow.CallGraph.Basic
import Dataflow.FlowGraph.OfBody
import Dataflow.Proofs.Run.Local
import Dataflow.Supergraph.Basic

namespace Dataflow

/-- A method in execution. It keeps the word that the last statement returned. -/
structure Frame where
  method : MethodRef
  node : Node
  store : Store
  returned : Option Word

def Frame.point (f : Frame) : Point := ⟨f.method, f.node⟩

namespace Store

def pass (σ τ : Store) (p : Var × Var) : Store :=
  fun y => if y = p.1 then (if p.2.holdsInt then σ p.2 else none) else τ y

/-- The store a method is entered with: parameters and arguments belong together by their places, and
nothing else is assigned. -/
def enter (σ : Store) (params args : List Var) : Store :=
  (params.zip args).foldl σ.pass (fun _ => none)

inductive Receives (σ : Store) (returned : Option Word) : Option Var → Store → Prop
  | drop : Receives σ returned none σ
  | bind {x w} : (x.holdsInt = true → returned = some w) →
      Receives σ returned (some x) (σ.assign x w)

end Store

def Body.returned? (b : Body) (n : Node) (σ : Store) : Option Word :=
  match b.stmtOf? n with
  | some (.ret (some y)) => if y.holdsInt then σ y else none
  | _ => none

namespace Program

/-- One step of a program with its frames, the running one first. A call enters any of the methods its
site may run, and when that has come to its exit control goes on behind the site. A call of a method
without a body, or one that leads nowhere, comes back at once with any word. -/
inductive Step (p : Program) (calls : CallGraph) : List Frame → List Frame → Prop
  | inside {m b g n k σ τ r rest} : p.hierarchy.body? m = some b → FlowGraph.ofBody b = .ok g →
      (∀ result call, b.stmtOf? n ≠ some (.invoke result call)) → b.Acts n σ τ → k ∈ g.succs n →
      Step p calls (⟨m, n, σ, r⟩ :: rest) (⟨m, k, τ, b.returned? n σ⟩ :: rest)
  | call {m b i result call c d σ r rest} : p.hierarchy.body? m = some b →
      b.stmt? i = some (.invoke result call) → σ.Assigned call.uses → c ∈ calls.callees ⟨m, i⟩ →
      p.hierarchy.body? c = some d →
      Step p calls (⟨m, .stmt i, σ, r⟩ :: rest)
        (⟨c, .entry, σ.enter d.params call.args, none⟩ :: ⟨m, .stmt i, σ, r⟩ :: rest)
  | back {m b g i result call c k σ τ σ' r r' rest} : p.hierarchy.body? m = some b →
      FlowGraph.ofBody b = .ok g → b.stmt? i = some (.invoke result call) →
      σ.Receives r result σ' → k ∈ g.succs (.stmt i) →
      Step p calls (⟨c, .exit, τ, r⟩ :: ⟨m, .stmt i, σ, r'⟩ :: rest) (⟨m, k, σ', none⟩ :: rest)
  | skip {m b g i result call k σ σ' r w rest} : p.hierarchy.body? m = some b →
      FlowGraph.ofBody b = .ok g → b.stmt? i = some (.invoke result call) →
      σ.Assigned call.uses →
      (calls.callees ⟨m, i⟩ = [] ∨ ∃ c ∈ calls.callees ⟨m, i⟩, p.hierarchy.body? c = none) →
      σ.Receives (some w) result σ' → k ∈ g.succs (.stmt i) →
      Step p calls (⟨m, .stmt i, σ, r⟩ :: rest) (⟨m, k, σ', none⟩ :: rest)

/-- Runs of a program, by the number of their steps: the frames at their end. A run starts in the main
method with any words in its parameters. -/
inductive Run (p : Program) (calls : CallGraph) : Nat → List Frame → Prop
  | start {b σ} : p.hierarchy.body? p.main = some b → b.Starts σ →
      Run p calls 0 [⟨p.main, .entry, σ, none⟩]
  | step {k frames frames'} : Run p calls k frames → Step p calls frames frames' →
      Run p calls (k + 1) frames'

end Program

end Dataflow
