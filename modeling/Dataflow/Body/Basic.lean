import Dataflow.Body.Stmt
import Dataflow.OrderedMap
import Dataflow.Place
import Dataflow.Report

namespace Dataflow

inductive Target where
  | unset
  | stmt (position : Nat)
  | outside
  deriving DecidableEq

structure Body where
  name : String
  params : List Var := []
  this : Option Var := none
  vars : List Var := []
  stmts : List (Stmt Target)
  /-- Whether the statements carry their positions as numbers. Else each has the number -1. -/
  numbered : Bool := true

namespace Body

def size (b : Body) : Nat := b.stmts.length

def stmt? (b : Body) (i : Nat) : Option (Stmt Target) := b.stmts[i]?

def numberOf (b : Body) (i : Nat) : Int := if b.numbered then i else -1

def targetNumber? (b : Body) : Target → Option Int
  | .unset => none
  | .stmt i => some (b.numberOf i)
  | .outside => some (-1)

def targetText (b : Body) (t : Target) : String := (b.targetNumber? t).elim "?" toString

def stmtText (b : Body) (i : Nat) (s : Stmt Target) : String :=
  toString (b.numberOf i) ++ "@" ++ s.text b.targetText

def textAt (b : Body) (i : Nat) : String := (b.stmt? i).elim "" (b.stmtText i)

def returnVars (b : Body) : List Var :=
  (b.stmts.filterMap (fun s => match s with | .ret value => value | _ => none)).eraseDups

def callSites (b : Body) : List Nat :=
  (List.range b.size).filter (fun i => (b.stmt? i).any Stmt.isInvoke)

def mentioned (b : Body) : List Var :=
  (b.params ++ b.stmts.flatMap (fun s => s.def?.toList ++ s.uses)).eraseDups

def text (b : Body) : String :=
  "IR(" ++ Text.quoted b.name ++ ", params=" ++ toString b.params.length ++ ", stmts=" ++
    toString b.size ++ ")"

def paramAt (b : Body) (i : Int) : Except PlaceError Var := atPlace b.params i

def positionAt (b : Body) (i : Int) : Except PlaceError Nat := place b.size i

def targetNumbers? (b : Body) (s : Stmt Target) : Option (List Int) :=
  s.targets?.map (List.filterMap b.targetNumber?)

end Body

abbrev ResultTable (α : Type) := OrderedMap String α

inductive ResultError where
  | missing (name owner : String) (available : List String)
  | frozen (node analysis : String)
  | noBefore (node analysis : String)
  | noAfter (node analysis : String)
  deriving DecidableEq

def ResultError.report : ResultError → Report
  | missing name owner available =>
    ⟨"no '" ++ name ++ "' result stored for " ++ owner,
      [("available", .texts (available.mergeSort (fun a b => a ≤ b)))]⟩
  | frozen node analysis =>
    ⟨"cannot modify a solved result (node " ++ node ++ ")", [("analysis", .text analysis)]⟩
  | noBefore node analysis => ⟨"no IN fact for " ++ node, [("analysis", .text analysis)]⟩
  | noAfter node analysis => ⟨"no OUT fact for " ++ node, [("analysis", .text analysis)]⟩

def ResultTable.fetch {α : Type} (t : ResultTable α) (owner name : String) : Except ResultError α :=
  match t.get? name with
  | some a => .ok a
  | none => .error (.missing name owner t.keys)

end Dataflow
