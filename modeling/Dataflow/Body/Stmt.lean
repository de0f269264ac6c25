import Dataflow.Body.Exp

namespace Dataflow

/-- A statement whose jumps name their targets by values of `τ`: labels while a body is being put
together, positions once it is finished. -/
inductive Stmt (τ : Type) where
  | nop (tag : String)
  | assign (target : Var) (value : Exp)
  | invoke (result : Option Var) (call : Call)
  | branch (condition : Exp) (target : τ)
  | goto (target : τ)
  /-- Case values belong to case targets in pairs; what is left over of the longer list has no
  effect on control. -/
  | switch (selector : Var) (values : List Int) (targets : List τ) (default : τ)
  | ret (value : Option Var)

namespace Stmt

variable {τ σ : Type}

def def? : Stmt τ → Option Var
  | assign x _ => some x
  | invoke result _ => result
  | _ => none

def uses : Stmt τ → List Var
  | assign _ e => e.uses
  | invoke _ c => c.uses
  | branch e _ => e.uses
  | switch x _ _ _ => [x]
  | ret value => value.toList
  | nop _ | goto _ => []

def isInvoke : Stmt τ → Bool
  | invoke _ _ => true
  | _ => false

def fallsThrough : Stmt τ → Bool
  | goto _ | switch _ _ _ _ | ret _ => false
  | nop _ | assign _ _ | invoke _ _ | branch _ _ => true

def targets? : Stmt τ → Option (List τ)
  | branch _ t => some [t]
  | goto t => some [t]
  | switch _ _ ts d => some (ts ++ [d])
  | nop _ | assign _ _ | invoke _ _ | ret _ => none

def targets (s : Stmt τ) : List τ := s.targets?.getD []

def mapTargets {ε : Type} (f : τ → Except ε σ) : Stmt τ → Except ε (Stmt σ)
  | nop tag => .ok (nop tag)
  | assign x e => .ok (assign x e)
  | invoke result c => .ok (invoke result c)
  | branch e t => do return branch e (← f t)
  | goto t => do return goto (← f t)
  | switch x values ts d => do return switch x values (← ts.mapM f) (← f d)
  | ret value => .ok (ret value)

def text (target : τ → String) : Stmt τ → String
  | nop tag => tag
  | assign x e => x.name ++ " = " ++ e.text
  | invoke result c => (result.elim "" (fun x => x.name ++ " = ")) ++ c.text
  | branch e t => "if (" ++ e.text ++ ") goto " ++ target t
  | goto t => "goto " ++ target t
  | switch x values ts d =>
    "switch (" ++ x.name ++ ") \x7b" ++
      ", ".intercalate ((values.zip ts).map (fun p => toString p.1 ++ "->" ++ target p.2)) ++
      ", default->" ++ target d ++ "\x7d"
  | ret none => "return"
  | ret (some x) => "return " ++ x.name

end Stmt

end Dataflow
