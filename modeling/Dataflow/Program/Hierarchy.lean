import Dataflow.FixedPoint.Closure
import Dataflow.Program.ClassDecl

namespace Dataflow

structure Hierarchy where
  classes : OrderedMap String ClassDecl := .empty

namespace Hierarchy

def classNamed? (h : Hierarchy) (name : String) : Option ClassDecl := h.classes.get? name

def contains (h : Hierarchy) (name : String) : Bool := h.classes.contains name

def decls (h : Hierarchy) : List ClassDecl := h.classes.values

def size (h : Hierarchy) : Nat := h.classes.size

def add (h : Hierarchy) (c : ClassDecl) : Except HierarchyError Hierarchy :=
  if h.contains c.name then .error (.duplicateClass c.name)
  else .ok ⟨h.classes.insert c.name c⟩

def declares (h : Hierarchy) (c : ClassDecl) : Bool :=
  (h.classNamed? c.name).any (fun d => d.serial = c.serial)

def refresh (h : Hierarchy) (c : ClassDecl) : Hierarchy :=
  if h.declares c then ⟨h.classes.insert c.name c⟩ else h

def method? (h : Hierarchy) (m : MethodRef) : Option Method :=
  (h.classNamed? m.className).bind (fun c => c.method? m.subsig)

def body? (h : Hierarchy) (m : MethodRef) : Option Body := (h.method? m).bind Method.body

def methods (h : Hierarchy) : List Method := h.decls.flatMap (fun c => c.methods.values)

def refs (h : Hierarchy) : List MethodRef := h.methods.map Method.ref

def required (h : Hierarchy) (name referrer : String) : Except HierarchyError ClassDecl :=
  match h.classNamed? name with
  | some c => .ok c
  | none => .error (.unknownClass name referrer)

def superclass? (h : Hierarchy) (c : ClassDecl) : Except HierarchyError (Option ClassDecl) :=
  match c.superclass with
  | none => .ok none
  | some name => (h.required name c.name).map some

def checkInterface (h : Hierarchy) (c : ClassDecl) (name : String) : Except HierarchyError Unit := do
  let i ← h.required name c.name
  if i.isInterface then .ok () else .error (.notInterface name c.name)

def checkClass (h : Hierarchy) (c : ClassDecl) : Except HierarchyError Unit := do
  let _ ← h.superclass? c
  c.interfaces.forM (h.checkInterface c)

def check (h : Hierarchy) : Except HierarchyError Unit := h.decls.forM h.checkClass

def subclasses (h : Hierarchy) (name : String) : List String :=
  (h.decls.filter (fun c => c.superclass = some name)).map ClassDecl.name

def listing (h : Hierarchy) (interfaces : Bool) (name : String) : List String :=
  h.decls.flatMap (fun c =>
    if c.isInterface = interfaces then (c.interfaces.filter (fun i => i = name)).map (fun _ => c.name)
    else [])

def implementors (h : Hierarchy) (name : String) : List String := h.listing false name

def subinterfaces (h : Hierarchy) (name : String) : List String := h.listing true name

def directSubtypes (h : Hierarchy) (name : String) : List String :=
  h.subclasses name ++ h.implementors name ++ h.subinterfaces name

/-- All subtypes of a class but itself, each once, the nearer ones first. -/
def subtypes (h : Hierarchy) (name : String) : List String :=
  (closure h.directSubtypes (h.size + 1) [] [name]).tail

/-- Follow the superclasses from a class to the first that declares a concrete method. The fuel is a
number of classes to look at; a chain that uses it up runs in a circle. -/
def dispatchFrom (h : Hierarchy) (subsig : String) :
    Nat → ClassDecl → Except HierarchyError (Option Method)
  | 0, c => .error (.endlessChain c.name)
  | fuel + 1, c =>
    match c.concrete? subsig with
    | some m => .ok (some m)
    | none => do
      match ← h.superclass? c with
      | none => return none
      | some d => h.dispatchFrom subsig fuel d

/-- The method that a class runs for a subsignature: the nearest concrete one on its chain of
superclasses. The chain has at most one class more than the hierarchy, as it may start outside. -/
def dispatch (h : Hierarchy) (c : ClassDecl) (subsig : String) :
    Except HierarchyError (Option Method) :=
  h.dispatchFrom subsig (h.size + 1) c

end Hierarchy

structure Program where
  hierarchy : Hierarchy
  main : MethodRef

namespace Program

def make (h : Hierarchy) (c : ClassDecl) (m : Method) : Except HierarchyError Program :=
  if h.declares c then .ok ⟨h, m.ref⟩ else .error (.undeclaredMain m.ref)

def text (p : Program) : String :=
  "Program(main=" ++ p.main.text ++ ", classes=" ++ toString p.hierarchy.size ++ ")"

end Program

end Dataflow
