import Dataflow.FlowGraph.Basic
import Dataflow.Proofs.Run.Word

namespace Dataflow

/-- The words that the int variables of a method hold. A variable not assigned yet holds none, and
variables of other types are not followed. -/
abbrev Store := Var → Option Word

namespace Store

def set (σ : Store) (x : Var) (w : Word) : Store := fun y => if y = x then some w else σ y

def assign (σ : Store) (x : Var) (w : Word) : Store := if x.holdsInt then σ.set x w else σ

@[simp]
theorem set_self (σ : Store) (x : Var) (w : Word) : σ.set x w x = some w := if_pos rfl

theorem set_of_ne (σ : Store) {x y : Var} (h : y ≠ x) (w : Word) : σ.set x w y = σ y := if_neg h

theorem assign_self (σ : Store) {x : Var} (h : x.holdsInt = true) (w : Word) :
    σ.assign x w x = some w := by
  rw [assign, if_pos h, set_self]

theorem assign_of_ne (σ : Store) {x y : Var} (h : y ≠ x) (w : Word) : σ.assign x w y = σ y := by
  rw [assign]
  split
  · exact σ.set_of_ne h w
  · rfl

def Assigned (σ : Store) (xs : List Var) : Prop :=
  ∀ x ∈ xs, x.holdsInt = true → (σ x).isSome = true

end Store

/-- The words an expression can yield. Int literals, variables for ints and operators over such
variables yield what they compute, everything else can yield any word. -/
def Exp.Yields (σ : Store) : Exp → Word → Prop
  | .int n, w => w = BitVec.ofInt 32 n
  | .var x, w => x.holdsInt = true → σ x = some w
  | .binary op l r, w => l.holdsInt = true → r.holdsInt = true →
      ∃ a b, σ l = some a ∧ σ r = some b ∧ op.onWords a b = some w
  | _, _ => True

/-- What a statement can make of a store. The result of a call can be any word. A statement does not
act at all when an expression in it yields nothing, as after a division by 0. -/
inductive Stmt.Acts (σ : Store) : Stmt Target → Store → Prop
  | nop {tag} : Acts σ (.nop tag) σ
  | assign {x e w} : e.Yields σ w → Acts σ (.assign x e) (σ.assign x w)
  | invoke {c} : Acts σ (.invoke none c) σ
  | result {x c} (w : Word) : Acts σ (.invoke (some x) c) (σ.assign x w)
  | branch {e t w} : e.Yields σ w → Acts σ (.branch e t) σ
  | goto {t} : Acts σ (.goto t) σ
  | switch {x values targets default} : Acts σ (.switch x values targets default) σ
  | ret {value} : Acts σ (.ret value) σ

/-- What a node can make of a store. A statement that reads an int variable not assigned yet does not
act. The entry and the exit do nothing. -/
inductive Body.Acts (b : Body) (n : Node) (σ : Store) : Store → Prop
  | pass : b.stmtOf? n = none → Acts b n σ σ
  | act {s τ} : b.stmtOf? n = some s → σ.Assigned s.uses → s.Acts σ τ → Acts b n σ τ

def Body.Starts (b : Body) (σ : Store) : Prop :=
  ∀ x, (σ x).isSome = true ↔ x ∈ b.params ∧ x.holdsInt = true

/-- Runs of a body along the edges of a graph, by the number of their steps: the node that is reached
and the store there. -/
inductive FlowGraph.Run (g : FlowGraph) : Nat → Node → Store → Prop
  | start {σ} : g.body.Starts σ → Run g 0 .entry σ
  | step {k n m σ τ} : Run g k n σ → g.body.Acts n σ τ → m ∈ g.succs n → Run g (k + 1) m τ

end Dataflow
