import Dataflow.Program.Hierarchy

namespace Dataflow

/-- For each class the names of those that name it directly. -/
structure Relations where
  subclasses : OrderedMap String (List String)
  implementors : OrderedMap String (List String)
  subinterfaces : OrderedMap String (List String)

namespace Relations

def fileInterface (h : Hierarchy) (c : ClassDecl) (r : Relations) (name : String) :
    Except HierarchyError Relations := do
  h.checkInterface c name
  return if c.isInterface then { r with subinterfaces := r.subinterfaces.file name c.name }
    else { r with implementors := r.implementors.file name c.name }

def fileClass (h : Hierarchy) (r : Relations) (c : ClassDecl) : Except HierarchyError Relations := do
  let r := match ← h.superclass? c with
    | none => r
    | some d => { r with subclasses := r.subclasses.file d.name c.name }
  c.interfaces.foldlM (fileInterface h c) r

def ofHierarchy (h : Hierarchy) : Except HierarchyError Relations :=
  let blank : OrderedMap String (List String) := .ofList (h.classes.keys.map (fun n => (n, [])))
  h.decls.foldlM (fileClass h) ⟨blank, blank, blank⟩

inductive Query where
  | subclasses
  | implementors
  | subinterfaces
  deriving DecidableEq

def find (r : Relations) (q : Query) (name : String) : List String :=
  match q with
  | .subclasses => r.subclasses.getD name []
  | .implementors => r.implementors.getD name []
  | .subinterfaces => r.subinterfaces.getD name []

end Relations

/-- A hierarchy that works out its relations when first asked and keeps them until a class is added. -/
structure IndexedHierarchy where
  hierarchy : Hierarchy := {}
  index : Option Relations := none

namespace IndexedHierarchy

def add (h : IndexedHierarchy) (c : ClassDecl) : Except HierarchyError IndexedHierarchy := do
  return { hierarchy := ← h.hierarchy.add c, index := none }

def relations (h : IndexedHierarchy) : Except HierarchyError Relations × IndexedHierarchy :=
  match h.index with
  | some r => (.ok r, h)
  | none =>
    match Relations.ofHierarchy h.hierarchy with
    | .ok r => (.ok r, { h with index := some r })
    | .error e => (.error e, h)

def query (h : IndexedHierarchy) (q : Relations.Query) (name : String) :
    Except HierarchyError (List String) × IndexedHierarchy :=
  let (r, h') := h.relations
  (r.map (fun r => r.find q name), h')

end IndexedHierarchy

end Dataflow
