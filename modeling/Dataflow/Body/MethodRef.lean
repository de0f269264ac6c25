import Dataflow.Body.Ty

namespace Dataflow

/-- The return type, the name and the parameter types of a method in one text. It tells the methods
of a class apart. -/
def subsignature (name : String) (params : List Ty) (returns : Ty) : String :=
  returns.text ++ " " ++ name ++ "(" ++ ",".intercalate (params.map Ty.text) ++ ")"

/-- A method as a call names it: a class and a subsignature. The class may differ from the one that
declares the method to be run. -/
structure MethodRef where
  className : String
  subsig : String
  deriving DecidableEq

namespace MethodRef

def text (m : MethodRef) : String := "<" ++ m.className ++ ": " ++ m.subsig ++ ">"

def name (m : MethodRef) : String :=
  let head := m.subsig.toList.takeWhile (fun c => c ≠ '(')
  String.ofList (head.reverse.takeWhile (fun c => c ≠ ' ')).reverse

end MethodRef

end Dataflow
