import Dataflow.Config
import Dataflow.FlowGraph.Basic

namespace Dataflow

inductive Direction where
  | forward
  | backward
  deriving DecidableEq

/-- A data-flow analysis of one method. Facts flow from the entry along the edges, or from the exit
against them. -/
structure Analysis (φ : Type) where
  name : String
  direction : Direction
  config : Config
  boundary : Body → φ
  initial : φ
  meetInto : φ → φ → φ
  transfer : Option (Stmt Target) → φ → φ
  same : φ → φ → Bool

namespace Analysis

variable {φ : Type}

def text (a : Analysis φ) : String := a.name ++ "(" ++ a.config.text ++ ")"

def start (a : Analysis φ) : Node :=
  match a.direction with
  | .forward => .entry
  | .backward => .exit

def sources (a : Analysis φ) (g : FlowGraph) (n : Node) : List Node :=
  match a.direction with
  | .forward => g.preds n
  | .backward => g.succs n

def sinks (a : Analysis φ) (g : FlowGraph) (n : Node) : List Node :=
  match a.direction with
  | .forward => g.succs n
  | .backward => g.preds n

/-- The nodes to be visited in their order: all but the one from which facts flow, backward analyses
beginning at the end. -/
def order (a : Analysis φ) (g : FlowGraph) : List Node :=
  match a.direction with
  | .forward => g.nodes.filter (fun n => n ≠ .entry)
  | .backward => g.nodes.reverse.filter (fun n => n ≠ .exit)

theorem mem_sinks_iff_mem_sources (a : Analysis φ) (g : FlowGraph) (n m : Node) :
    m ∈ a.sinks g n ↔ n ∈ a.sources g m := by
  rw [sinks, sources]
  cases a.direction
  · exact g.mem_succs_iff_mem_preds n m
  · exact (g.mem_succs_iff_mem_preds m n).symm

theorem mem_order_iff (a : Analysis φ) (g : FlowGraph) (n : Node) :
    n ∈ a.order g ↔ n ∈ g.nodes ∧ n ≠ a.start := by
  rw [order, start]
  cases a.direction <;> simp

end Analysis

end Dataflow
