import Dataflow.Body.Ty
import Dataflow.OrderedMap
import Dataflow.Value

namespace Dataflow

/-- What is known of the variables at a program point. A variable without binding is undefined, and
no binding says so. -/
structure Fact where
  bindings : OrderedMap Var Value
  defined : ∀ x, bindings.get? x ≠ some .undef

namespace Fact

def empty : Fact := ⟨.empty, by simp⟩

instance : Inhabited Fact := ⟨empty⟩

def get (f : Fact) (x : Var) : Value := f.bindings.getD x .undef

def contains (f : Fact) (x : Var) : Bool := f.bindings.contains x

def size (f : Fact) : Nat := f.bindings.size

def entries (f : Fact) : List (Var × Value) := f.bindings.entries

def remove (f : Fact) (x : Var) : Bool × Fact :=
  (f.contains x, ⟨f.bindings.erase x, fun y => by
    rw [OrderedMap.get?_erase]
    have h := f.defined y
    grind⟩)

/-- Bind a variable, and tell whether that made a difference. To bind it to the undefined value is to
forget it. -/
def assign (f : Fact) (x : Var) (v : Value) : Bool × Fact :=
  if hv : v = .undef then f.remove x
  else (f.bindings.get? x ≠ some v, ⟨f.bindings.insert x v, fun y => by
    rw [OrderedMap.get?_insert]
    have h := f.defined y
    grind⟩)

def update (f : Fact) (x : Var) (v : Value) : Fact := (f.assign x v).2

def erase (f : Fact) (x : Var) : Fact := (f.remove x).2

def ofList (l : List (Var × Value)) : Fact :=
  (OrderedMap.ofList l).entries.foldl (fun f e => f.update e.1 e.2) empty

def same (f g : Fact) : Bool := f.bindings.sameBindings g.bindings

/-- Take over another fact, order of bindings included, unless it says the same; and tell whether it
was taken over. -/
def copyFrom (f g : Fact) : Bool × Fact := if f.same g then (false, f) else (true, g)

def meetInto (f target : Fact) : Fact :=
  f.entries.foldl (fun t e => t.update e.1 (e.2.meet (t.get e.1))) target

def text (f : Fact) : String :=
  "\x7b" ++ ", ".intercalate ((f.entries.mergeSort (fun a b => a.1.name ≤ b.1.name)).map
    (fun e => e.1.name ++ "=" ++ e.2.text)) ++ "\x7d"

@[simp] theorem get_empty (x : Var) : empty.get x = .undef := rfl

theorem get_eq_iff (f : Fact) (x : Var) {v : Value} (hv : v ≠ .undef) :
    f.get x = v ↔ f.bindings.get? x = some v := by
  rw [get, OrderedMap.getD]
  cases h : f.bindings.get? x with
  | none => simp [Ne.symm hv]
  | some w => simp

theorem contains_iff (f : Fact) (x : Var) : f.contains x = true ↔ f.get x ≠ .undef := by
  have h := f.defined x
  rw [contains, OrderedMap.contains, get, OrderedMap.getD]
  cases hx : f.bindings.get? x with
  | none => simp
  | some w => rw [hx] at h; simpa using h

@[simp] theorem get_erase (f : Fact) (x y : Var) :
    (f.erase x).get y = if y = x then .undef else f.get y := by
  simp only [erase, remove, get, OrderedMap.getD, OrderedMap.get?_erase]
  split <;> simp

@[simp] theorem get_update (f : Fact) (x : Var) (v : Value) (y : Var) :
    (f.update x v).get y = if y = x then v else f.get y := by
  rw [update, assign]
  split
  · rename_i h
    subst h
    exact get_erase f x y
  · simp only [get, OrderedMap.getD, OrderedMap.get?_insert]
    split <;> simp

theorem same_iff (f g : Fact) : f.same g = true ↔ ∀ x, f.get x = g.get x := by
  rw [same, OrderedMap.sameBindings_iff]
  refine forall_congr' fun x => ?_
  have hf := f.defined x
  have hg := g.defined x
  simp only [get, OrderedMap.getD]
  generalize f.bindings.get? x = v at *
  generalize g.bindings.get? x = w at *
  cases v <;> cases w <;> simp_all [eq_comm]

end Fact

end Dataflow
