import Dataflow.Body.Basic

namespace Dataflow

inductive HierarchyError where
  | duplicateClass (name : String)
  | unknownClass (name referrer : String)
  | unknownReceiver (name site method : String)
  | notInterface (name listedBy : String)
  | abstractBody (method : MethodRef)
  | duplicateMethod (subsig className : String)
  | undeclaredMain (method : MethodRef)
  /-- The superclasses of a class run in a circle. -/
  | endlessChain (name : String)
  deriving DecidableEq

def HierarchyError.report : HierarchyError → Report
  | duplicateClass name => ⟨"duplicate class '" ++ name ++ "'", []⟩
  | unknownClass name referrer =>
    ⟨"unknown class '" ++ name ++ "'", [("referrer", .text referrer)]⟩
  | unknownReceiver name site method =>
    ⟨"unknown class '" ++ name ++ "'", [("call_site", .text site), ("method", .text method)]⟩
  | notInterface name listedBy =>
    ⟨"'" ++ listedBy ++ "' lists non-interface '" ++ name ++ "' as an interface", []⟩
  | abstractBody method => ⟨"abstract method " ++ method.text ++ " cannot have a body", []⟩
  | duplicateMethod subsig className =>
    ⟨"duplicate method " ++ subsig ++ " in " ++ className, []⟩
  | undeclaredMain method =>
    ⟨"main method " ++ method.text ++ " is not declared in the hierarchy", []⟩
  | endlessChain name => ⟨"superclass cycle from '" ++ name ++ "'", []⟩

/-- A method declaration. A concrete method without a body belongs to a library. -/
structure Method where
  ref : MethodRef
  isStatic : Bool := false
  isAbstract : Bool := false
  body : Option Body := none

def Method.withBody (m : Method) (b : Body) : Except HierarchyError Method :=
  if m.isAbstract then .error (.abstractBody m.ref) else .ok { m with body := some b }

structure MethodSpec where
  name : String
  params : List Ty := []
  returns : Ty := .void
  isStatic : Bool := false
  isAbstract : Bool := false
  body : Option Body := none

def MethodSpec.subsig (s : MethodSpec) : String := subsignature s.name s.params s.returns

structure ClassDecl where
  /-- Tells declarations of one name apart. -/
  serial : Nat
  name : String
  superclass : Option String := none
  interfaces : List String := []
  isInterface : Bool := false
  markedAbstract : Bool := false
  methods : OrderedMap String Method := .empty

namespace ClassDecl

def isAbstract (c : ClassDecl) : Bool := c.markedAbstract || c.isInterface

def method? (c : ClassDecl) (subsig : String) : Option Method := c.methods.get? subsig

def concrete? (c : ClassDecl) (subsig : String) : Option Method :=
  (c.method? subsig).filter (fun m => !m.isAbstract)

def makeMethod (c : ClassDecl) (s : MethodSpec) : Except HierarchyError Method :=
  let m : Method := ⟨⟨c.name, s.subsig⟩, s.isStatic, s.isAbstract, none⟩
  match s.body with
  | none => .ok m
  | some b => m.withBody b

def addMethod (c : ClassDecl) (s : MethodSpec) : Except HierarchyError ClassDecl := do
  let m ← c.makeMethod s
  if c.methods.contains s.subsig then .error (.duplicateMethod s.subsig c.name)
  else .ok { c with methods := c.methods.insert s.subsig m }

def setBody (c : ClassDecl) (m : Method) (b : Body) : Except HierarchyError ClassDecl := do
  let m ← m.withBody b
  return { c with methods := c.methods.insert m.ref.subsig m }

def text (c : ClassDecl) : String :=
  (if c.isInterface then "<interface " else "<class ") ++ c.name ++ ">"

end ClassDecl

end Dataflow
