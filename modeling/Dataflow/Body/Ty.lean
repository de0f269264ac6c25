namespace Dataflow

inductive Primitive where
  | byte
  | short
  | int
  | char
  | boolean
  | long
  | float
  | double
  deriving DecidableEq

namespace Primitive

def all : List Primitive := [byte, short, int, char, boolean, long, float, double]

def text : Primitive → String
  | byte => "byte"
  | short => "short"
  | int => "int"
  | char => "char"
  | boolean => "boolean"
  | long => "long"
  | float => "float"
  | double => "double"

def ofText? (s : String) : Option Primitive := all.find? (fun p => p.text = s)

def isIntLike : Primitive → Bool
  | byte | short | int | char | boolean => true
  | long | float | double => false

theorem ofText?_text (p : Primitive) : ofText? p.text = some p := by
  cases p <;> rfl

end Primitive

inductive Ty where
  | primitive (p : Primitive)
  | cls (name : String)
  | array (element : Ty)
  | void
  deriving DecidableEq

namespace Ty

instance : Inhabited Ty := ⟨void⟩

def text : Ty → String
  | primitive p => p.text
  | cls name => name
  | array t => t.text ++ "[]"
  | void => "void"

def isIntLike : Ty → Bool
  | primitive p => p.isIntLike
  | _ => false

end Ty

/-- A local variable. Names need not be unique: the scope and the place in it where a variable was
made tell it from all others. -/
structure Var where
  scope : Nat
  slot : Nat
  name : String
  type : Ty
  /-- The number by which answers refer to the variable. -/
  index : Int
  deriving DecidableEq

def Var.holdsInt (x : Var) : Bool := x.type.isIntLike

end Dataflow
