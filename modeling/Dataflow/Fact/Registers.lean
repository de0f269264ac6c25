import Dataflow.Fact.Basic

namespace Dataflow

/-- Facts under names. A name refers to a cell that holds its fact, and one not used yet stands for the
empty fact. A change is made in the cell, where every name that refers to it would see it; copies are
put into new cells. -/
structure Registers where
  cells : List Fact := []
  refs : OrderedMap String Nat := .empty

namespace Registers

def empty : Registers := {}

def read (r : Registers) (name : String) : Fact :=
  ((r.refs.get? name).bind (fun i => r.cells[i]?)).getD .empty

def place (r : Registers) (name : String) (f : Fact) : Registers where
  cells := r.cells ++ [f]
  refs := r.refs.insert name r.cells.length

def write (r : Registers) (name : String) (f : Fact) : Registers :=
  match r.refs.get? name with
  | some i => { r with cells := r.cells.set i f }
  | none => r.place name f

inductive Op where
  | make (name : String) (bindings : List (Var × Value))
  | update (name : String) (x : Var) (v : Value)
  | remove (name : String) (x : Var)
  | get (name : String) (x : Var)
  | contains (name : String) (x : Var)
  | copy (name other : String)
  | copyFrom (name other : String)
  | same (name other : String)
  | meetFrom (name other : String)

inductive Answer where
  | none
  | flag (b : Bool)
  | value (v : Value)
  deriving DecidableEq

def Op.name : Op → String
  | .make name _ | .update name _ _ | .remove name _ | .get name _ | .contains name _ => name
  | .copy name _ | .copyFrom name _ | .same name _ | .meetFrom name _ => name

def meetBinding (name : String) (r : Registers) (e : Var × Value) : Registers :=
  r.write name ((r.read name).update e.1 (e.2.meet ((r.read name).get e.1)))

def apply (r : Registers) : Op → Answer × Registers
  | .make name l => (.none, r.place name (.ofList l))
  | .update name x v =>
    let (changed, f) := (r.read name).assign x v
    (.flag changed, r.write name f)
  | .remove name x =>
    let (changed, f) := (r.read name).remove x
    (.flag changed, r.write name f)
  | .get name x => (.value ((r.read name).get x), r)
  | .contains name x => (.flag ((r.read name).contains x), r)
  | .copy name other => (.none, r.place name (r.read other))
  | .copyFrom name other =>
    let (changed, f) := (r.read name).copyFrom (r.read other)
    (.flag changed, if changed then r.place name f else r)
  | .same name other => (.flag ((r.read name).same (r.read other)), r)
  | .meetFrom name other =>
    -- the bindings are listed before the first of them is met
    (.none, (r.read other).entries.foldl (meetBinding name) r)

def run (r : Registers) : List Op → List Answer × Registers
  | [] => ([], r)
  | op :: rest =>
    let (answer, r') := r.apply op
    let (answers, r'') := r'.run rest
    (answer :: answers, r'')

end Registers

end Dataflow
