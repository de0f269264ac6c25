import Dataflow.Analysis.Basic
import Dataflow.VarSet

namespace Dataflow

namespace Liveness

/-- The variables live before a statement, given those live after it. -/
def transfer (s : Option (Stmt Target)) (live : VarSet) : VarSet :=
  match s with
  | none => live
  | some s =>
    s.uses.foldl VarSet.insert (s.def?.elim live live.erase)

theorem mem_transfer (s : Stmt Target) (live : VarSet) (x : Var) :
    x ∈ transfer (some s) live ↔ x ∈ s.uses ∨ (s.def? ≠ some x ∧ x ∈ live) := by
  rw [transfer, VarSet.mem_foldl_insert]
  cases h : s.def? with
  | none => simp
  | some y =>
    simp only [Option.elim_some, VarSet.mem_erase]
    grind

end Liveness

def liveness (c : Config) : Analysis VarSet where
  name := "LiveVariableAnalysis"
  direction := .backward
  config := c
  boundary _ := .empty
  initial := .empty
  meetInto s target := target.union s
  transfer := Liveness.transfer
  same := VarSet.same

def livenessWith (c : Option Config) : Except ConfigError (Analysis VarSet) :=
  (Config.orDefault "LiveVariableAnalysis" .livevar c).map liveness

end Dataflow
