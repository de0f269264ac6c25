import Dataflow.Body.Basic

namespace Dataflow

/-- The facts before and after the nodes of a graph. A finished solution is frozen. -/
structure Solution (ν φ : Type) where
  analysis : String
  solver : String
  transfers : Nat := 0
  passes : Nat := 0
  before : OrderedMap ν φ := .empty
  after : OrderedMap ν φ := .empty
  frozen : Bool := false

namespace Solution

variable {ν φ : Type}

def freeze (s : Solution ν φ) : Solution ν φ := { s with frozen := true }

def nodes (s : Solution ν φ) : List ν := s.before.keys

def size (s : Solution ν φ) : Nat := s.before.size

def text (s : Solution ν φ) : String :=
  "DataflowResult(" ++ Text.quoted s.analysis ++ ", solver=" ++ Text.quoted s.solver ++ ", nodes=" ++
    toString s.size ++ ", transfers=" ++ toString s.transfers ++ ")"

variable [DecidableEq ν]

def contains (s : Solution ν φ) (n : ν) : Bool := s.before.contains n

def factBefore (s : Solution ν φ) (nodeText : ν → String) (n : ν) : Except ResultError φ :=
  match s.before.get? n with
  | some f => .ok f
  | none => .error (.noBefore (nodeText n) s.analysis)

def factAfter (s : Solution ν φ) (nodeText : ν → String) (n : ν) : Except ResultError φ :=
  match s.after.get? n with
  | some f => .ok f
  | none => .error (.noAfter (nodeText n) s.analysis)

def setBefore (s : Solution ν φ) (nodeText : ν → String) (n : ν) (f : φ) :
    Except ResultError (Solution ν φ) :=
  if s.frozen then .error (.frozen (nodeText n) s.analysis)
  else .ok { s with before := s.before.insert n f }

def setAfter (s : Solution ν φ) (nodeText : ν → String) (n : ν) (f : φ) :
    Except ResultError (Solution ν φ) :=
  if s.frozen then .error (.frozen (nodeText n) s.analysis)
  else .ok { s with after := s.after.insert n f }

end Solution

end Dataflow
