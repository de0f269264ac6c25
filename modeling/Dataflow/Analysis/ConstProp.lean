import Dataflow.Analysis.Basic
import Dataflow.Eval

namespace Dataflow

/-- Which parameters are known to hold anything when a method starts. -/
inductive Seeding where
  | intOnly
  | all
  deriving DecidableEq

def Config.seeding (c : Config) : Seeding :=
  if c.has "param-seeding" "all" then .all else .intOnly

namespace ConstProp

def boundary (s : Seeding) (b : Body) : Fact :=
  b.params.foldl
    (fun f x => if s = .all || x.holdsInt then f.update x .nac else f) .empty

/-- The effect of a statement: it defines at most one variable, which counts if it is for ints. The
result of a call can be anything. -/
def transfer (s : Option (Stmt Target)) (f : Fact) : Fact :=
  match s with
  | some (.assign x e) => if x.holdsInt then f.update x (evaluate e f) else f
  | some (.invoke (some x) _) => if x.holdsInt then f.update x .nac else f
  | _ => f

theorem transfer_assign (x : Var) (e : Exp) (f : Fact) :
    transfer (some (.assign x e)) f = if x.holdsInt then f.update x (evaluate e f) else f := rfl

theorem transfer_result (x : Var) (c : Call) (f : Fact) :
    transfer (some (.invoke (some x) c)) f = if x.holdsInt then f.update x .nac else f := rfl

end ConstProp

def constProp (c : Config) : Analysis Fact where
  name := "ConstantPropagation"
  direction := .forward
  config := c
  boundary := ConstProp.boundary c.seeding
  initial := .empty
  meetInto := Fact.meetInto
  transfer := ConstProp.transfer
  same := Fact.same

def constPropWith (c : Option Config) : Except ConfigError (Analysis Fact) :=
  (Config.orDefault "ConstantPropagation" .constprop c).map constProp

end Dataflow
