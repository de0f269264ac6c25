import Dataflow.Body.Basic

namespace Dataflow

abbrev Draft := Stmt String

def Draft.text (s : Draft) : String := "-1@" ++ Stmt.text (fun _ => "?") s

inductive BuildError where
  | unknownOperator (symbol : String)
  | notCondition (symbol : String)
  | duplicateLabel (label method : String)
  | undefinedLabel (label method : String)
  | danglingLabels (labels : List String) (method : String)
  | emptyBody (method : String)
  | alreadyBuilt (method : String)
  deriving DecidableEq

def BuildError.report : BuildError → Report
  | unknownOperator symbol => ⟨"unknown binary operator '" ++ symbol ++ "'", []⟩
  | notCondition symbol => ⟨"'" ++ symbol ++ "' is not a condition operator", []⟩
  | duplicateLabel label method =>
    ⟨"duplicate label '" ++ label ++ "'", [("method", .text method)]⟩
  | undefinedLabel label method =>
    ⟨"undefined label '" ++ label ++ "'", [("method", .text method)]⟩
  | danglingLabels labels method =>
    ⟨"label(s) " ++ Text.quotedList labels ++ " do not precede a statement",
      [("method", .text method)]⟩
  | emptyBody method => ⟨"method " ++ method ++ " has an empty body", []⟩
  | alreadyBuilt method => ⟨"IR for " ++ method ++ " already built", []⟩

def Exp.ofSymbol (symbol : String) (left right : Var) : Except BuildError Exp :=
  match BinaryOp.ofSymbol? symbol with
  | some op => .ok (.binary op left right)
  | none => .error (.unknownOperator symbol)

def Exp.ofCondition (symbol : String) (left right : Var) : Except BuildError Exp :=
  match BinaryOp.ofSymbol? symbol with
  | some (.cond op) => .ok (.binary (.cond op) left right)
  | some _ => .error (.notCondition symbol)
  | none => .error (.unknownOperator symbol)

/-- A body that is being put together. A label names the statement appended next and can be used as a
jump target before that. -/
structure Builder where
  name : String
  scope : Nat := 0
  vars : List Var := []
  params : List Var := []
  this : Option Var := none
  stmts : List Draft := []
  labels : OrderedMap String Nat := .empty
  pending : List String := []
  /-- The labels named by jumps that were refused because the body was finished. Finishing it again
  asks for them too. -/
  refused : List String := []
  built : Bool := false

namespace Builder

inductive Request where
  | newVar (name : String) (type : Ty)
  | newParam (name : String) (type : Ty)
  | newThis (type : Ty)
  | label (name : String)
  | append (s : Draft)
  | assignBinary (target : Var) (symbol : String) (left right : Var)
  | branchOn (symbol : String) (left right : Var) (label : String)
  | build

inductive Reply where
  | var (x : Var)
  | stmt (s : Draft)
  | done
  | body (b : Body)

def makeVar (b : Builder) (name : String) (type : Ty) : Var :=
  ⟨b.scope, b.vars.length, name, type, b.vars.length⟩

def newVar (b : Builder) (name : String) (type : Ty) : Builder :=
  { b with vars := b.vars ++ [b.makeVar name type] }

def newParam (b : Builder) (name : String) (type : Ty) : Builder :=
  { b.newVar name type with params := b.params ++ [b.makeVar name type] }

def newThis (b : Builder) (type : Ty) : Builder :=
  { b.newVar "this" type with this := some (b.makeVar "this" type) }

def label (b : Builder) (name : String) : Except BuildError Builder :=
  if b.labels.contains name || b.pending.contains name then .error (.duplicateLabel name b.name)
  else .ok { b with pending := b.pending ++ [name] }

def append (b : Builder) (s : Draft) : Except BuildError Builder :=
  if b.built then .error (.alreadyBuilt b.name)
  else .ok
    { b with
      labels := b.pending.foldl (fun m l => m.insert l b.stmts.length) b.labels
      pending := []
      stmts := b.stmts ++ [s] }

def resolve (b : Builder) (label : String) : Except BuildError Target :=
  match b.labels.get? label with
  | some i => .ok (.stmt i)
  | none => .error (.undefinedLabel label b.name)

def build (b : Builder) : Except BuildError Body :=
  if b.pending ≠ [] then .error (.danglingLabels b.pending b.name)
  else if b.stmts = [] then .error (.emptyBody b.name)
  else do
    let stmts ← b.stmts.mapM (Stmt.mapTargets b.resolve)
    b.refused.forM (fun l => do let _ ← b.resolve l)
    return { name := b.name, params := b.params, this := b.this, vars := b.vars, stmts }

/-- Append on request: a refused jump leaves its labels behind. -/
def appendOrRefuse (b : Builder) (s : Draft) : Except BuildError Reply × Builder :=
  match b.append s with
  | .ok b' => (.ok (.stmt s), b')
  | .error e => (.error e, { b with refused := b.refused ++ s.targets })

def answer (b : Builder) : Request → Except BuildError Reply × Builder
  | .newVar name type => (.ok (.var (b.makeVar name type)), b.newVar name type)
  | .newParam name type => (.ok (.var (b.makeVar name type)), b.newParam name type)
  | .newThis type => (.ok (.var (b.makeVar "this" type)), b.newThis type)
  | .label name =>
    match b.label name with
    | .ok b' => (.ok .done, b')
    | .error e => (.error e, b)
  | .append s => b.appendOrRefuse s
  | .assignBinary x symbol l r =>
    match Exp.ofSymbol symbol l r with
    | .ok e => b.appendOrRefuse (.assign x e)
    | .error e => (.error e, b)
  | .branchOn symbol l r label =>
    match Exp.ofCondition symbol l r with
    | .ok e => b.appendOrRefuse (.branch e label)
    | .error e => (.error e, b)
  | .build =>
    match b.build with
    | .ok body => (.ok (.body body), { b with built := true })
    | .error e => (.error e, b)

def run (b : Builder) : List Request → List (Except BuildError Reply) × Builder
  | [] => ([], b)
  | r :: rest =>
    let (reply, b') := b.answer r
    let (replies, b'') := b'.run rest
    (reply :: replies, b'')

end Builder

end Dataflow
