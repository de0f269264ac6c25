import Dataflow.Program.Relations

namespace Dataflow

/-- Class declarations being made, a hierarchy that some of them were added to, and the main methods
of the programs made from it so far. -/
structure Drafts where
  decls : List ClassDecl
  indexed : IndexedHierarchy := {}
  mains : List MethodRef := []

namespace Drafts

def hierarchy (d : Drafts) : Hierarchy := d.indexed.hierarchy

def register (d : Drafts) (c : ClassDecl) : Except HierarchyError Drafts := do
  return { d with indexed := ← d.indexed.add c }

def replace (d : Drafts) (c : ClassDecl) : Drafts :=
  { d with
    decls := d.decls.map (fun e => if e.serial = c.serial then c else e)
    indexed := { d.indexed with hierarchy := d.hierarchy.refresh c } }

end Drafts

end Dataflow
