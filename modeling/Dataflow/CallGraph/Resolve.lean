import Dataflow.CallGraph.Basic

namespace Dataflow.Hierarchy

def receiverClass (h : Hierarchy) (s : Site) (c : Call) : Except HierarchyError ClassDecl :=
  match h.classNamed? c.method.className with
  | some d => .ok d
  | none => .error (.unknownReceiver c.method.className (h.siteStmtText s) s.method.text)

def dispatchNamed (h : Hierarchy) (subsig name : String) :
    Except HierarchyError (Option MethodRef) :=
  match h.classNamed? name with
  | some c => do return (← h.dispatch c subsig).map Method.ref
  | none => .ok none

def dispatchAll (h : Hierarchy) (name subsig : String) : Except HierarchyError (List MethodRef) := do
  h.check
  let found ← (name :: h.subtypes name).mapM (h.dispatchNamed subsig)
  return (found.filterMap id).eraseDups

/-- The methods that a call may run. A static call runs what the named class declares, a special one
what that class would run, any other one what the class or a subtype would run. -/
def resolve (h : Hierarchy) (s : Site) (c : Call) : Except HierarchyError (List MethodRef) := do
  let d ← h.receiverClass s c
  match c.kind with
  | .static => return ((d.method? c.method.subsig).map Method.ref).toList
  | .special => return ((← h.dispatch d c.method.subsig).map Method.ref).toList
  | .virtual | .interface => h.dispatchAll d.name c.method.subsig

def resolveAt (h : Hierarchy) (s : Site) : Except HierarchyError (List MethodRef) :=
  match h.callAt? s with
  | some c => h.resolve s c
  | none => .ok []

/-- Resolve call sites one after the other and pass on what each may run. What was passed on before a
failure stays. -/
def resolveEach {σ : Type} (h : Hierarchy) (meet : CallKind → Site → List MethodRef → σ → σ) :
    List Site → σ → σ × Except HierarchyError Unit
  | [], s => (s, .ok ())
  | site :: rest, s =>
    match h.callAt? site with
    | none => resolveEach h meet rest s
    | some call =>
      match h.resolve site call with
      | .error e => (s, .error e)
      | .ok callees => resolveEach h meet rest (meet call.kind site callees s)

end Dataflow.Hierarchy
