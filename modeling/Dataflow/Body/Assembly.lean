import Dataflow.Body.Builder

namespace Dataflow

namespace Stmt

variable {τ σ : Type}

def retarget (f : τ → σ) : Stmt τ → Stmt σ
  | nop tag => nop tag
  | assign x e => assign x e
  | invoke result c => invoke result c
  | branch e t => branch e (f t)
  | goto t => goto (f t)
  | switch x values ts d => switch x values (ts.map f) (f d)
  | ret value => ret value

def setTarget (t : τ) : Stmt τ → Stmt τ
  | branch e _ => branch e t
  | goto _ => goto t
  | s => s

def setCases (ts : List τ) : Stmt τ → Stmt τ
  | switch x values _ d => switch x values ts d
  | s => s

def setDefault (t : τ) : Stmt τ → Stmt τ
  | switch x values ts _ => switch x values ts t
  | s => s

end Stmt

inductive JumpLabels where
  | one (label : String)
  | cases (labels : List String) (default : String)

def JumpLabels.toList : JumpLabels → List String
  | one l => [l]
  | cases ls d => ls ++ [d]

def Draft.jumpLabels? : Draft → Option JumpLabels
  | .branch _ l => some (.one l)
  | .goto l => some (.one l)
  | .switch _ _ ls d => some (.cases ls d)
  | .nop _ | .assign _ _ | .invoke _ _ | .ret _ => none

/-- A jump that has no targets yet. The one that a finished body refused was to stand behind the last
statement, where there is none. -/
structure Fixup where
  position : Nat
  labels : JumpLabels

namespace Fixup

/-- Give a jump its targets where it stands. Those of the cases are set before the default is looked
at. -/
def patch (resolve : String → Except BuildError Target) (stmts : List (Stmt Target)) (f : Fixup) :
    Except BuildError Unit × List (Stmt Target) :=
  match f.labels with
  | .one l =>
    match resolve l with
    | .ok t => (.ok (), stmts.modify f.position (Stmt.setTarget t))
    | .error e => (.error e, stmts)
  | .cases ls d =>
    match ls.mapM resolve with
    | .ok ts =>
      let stmts := stmts.modify f.position (Stmt.setCases ts)
      match resolve d with
      | .ok t => (.ok (), stmts.modify f.position (Stmt.setDefault t))
      | .error e => (.error e, stmts)
    | .error e => (.error e, stmts)

def patchAll (resolve : String → Except BuildError Target) (stmts : List (Stmt Target)) :
    List Fixup → Except BuildError Unit × List (Stmt Target)
  | [] => (.ok (), stmts)
  | f :: rest =>
    match f.patch resolve stmts with
    | (.ok _, stmts) => patchAll resolve stmts rest
    | (.error e, stmts) => (.error e, stmts)

end Fixup

/-- A body that is put together in place. Jumps are appended without targets and noted; finishing the
body gives the targets to all that were noted, and the numbers to the statements. -/
structure Assembly where
  body : Body
  scope : Nat
  labels : OrderedMap String Nat := .empty
  pending : List String := []
  fixups : List Fixup := []
  built : Bool := false

namespace Assembly

def start (name : String) (scope : Nat) : Assembly where
  body := { name, stmts := [], numbered := false }
  scope

def makeVar (a : Assembly) (name : String) (type : Ty) : Var :=
  ⟨a.scope, a.body.vars.length, name, type, a.body.vars.length⟩

def addVar (a : Assembly) (x : Var) : Assembly :=
  { a with body := { a.body with vars := a.body.vars ++ [x] } }

def addParam (a : Assembly) (x : Var) : Assembly :=
  let a := a.addVar x
  { a with body := { a.body with params := a.body.params ++ [x] } }

def addThis (a : Assembly) (x : Var) : Assembly :=
  let a := a.addVar x
  { a with body := { a.body with this := some x } }

def label (a : Assembly) (name : String) : Except BuildError Builder.Reply × Assembly :=
  if a.labels.contains name || a.pending.contains name then
    (.error (.duplicateLabel name a.body.name), a)
  else (.ok .done, { a with pending := a.pending ++ [name] })

def note (a : Assembly) (s : Draft) : Assembly :=
  { a with fixups := a.fixups ++ (s.jumpLabels?.map (Fixup.mk a.body.size)).toList }

def append (a : Assembly) (s : Draft) : Except BuildError Builder.Reply × Assembly :=
  let a := a.note s
  if a.built then (.error (.alreadyBuilt a.body.name), a)
  else
    (.ok (.stmt s),
      { a with
        labels := a.pending.foldl (fun m l => m.insert l a.body.size) a.labels
        pending := []
        body := { a.body with stmts := a.body.stmts ++ [s.retarget (fun _ => .unset)] } })

def resolve (a : Assembly) (label : String) : Except BuildError Target :=
  match a.labels.get? label with
  | some i => .ok (.stmt i)
  | none => .error (.undefinedLabel label a.body.name)

def build (a : Assembly) : Except BuildError Body × Assembly :=
  if a.pending ≠ [] then (.error (.danglingLabels a.pending a.body.name), a)
  else if a.body.stmts = [] then (.error (.emptyBody a.body.name), a)
  else
    match Fixup.patchAll a.resolve a.body.stmts a.fixups with
    | (.error e, stmts) => (.error e, { a with body := { a.body with stmts } })
    | (.ok _, stmts) =>
      let body := { a.body with stmts, numbered := true }
      (.ok body, { a with body, built := true })

def answer (a : Assembly) : Builder.Request → Except BuildError Builder.Reply × Assembly
  | .newVar name type => (.ok (.var (a.makeVar name type)), a.addVar (a.makeVar name type))
  | .newParam name type => (.ok (.var (a.makeVar name type)), a.addParam (a.makeVar name type))
  | .newThis type => (.ok (.var (a.makeVar "this" type)), a.addThis (a.makeVar "this" type))
  | .label name => a.label name
  | .append s => a.append s
  | .assignBinary x symbol l r =>
    match Exp.ofSymbol symbol l r with
    | .ok e => a.append (.assign x e)
    | .error e => (.error e, a)
  | .branchOn symbol l r label =>
    match Exp.ofCondition symbol l r with
    | .ok e => a.append (.branch e label)
    | .error e => (.error e, a)
  | .build =>
    let (body, a) := a.build
    (body.map .body, a)

def run (a : Assembly) : List Builder.Request → List (Except BuildError Builder.Reply) × Assembly
  | [] => ([], a)
  | r :: rest =>
    let (reply, a) := a.answer r
    let (replies, a) := a.run rest
    (reply :: replies, a)

end Assembly

end Dataflow
