import Dataflow.Body.Ty

namespace Dataflow

structure VarSet where
  items : List Var
  nodup : items.Nodup

namespace VarSet

def empty : VarSet := ⟨[], List.nodup_nil⟩

instance : Inhabited VarSet := ⟨empty⟩

def size (s : VarSet) : Nat := s.items.length

def contains (s : VarSet) (x : Var) : Bool := s.items.contains x

/-- Put in a variable, and tell whether it was new. -/
def add (s : VarSet) (x : Var) : Bool × VarSet :=
  if h : x ∈ s.items then (false, s)
  else (true, ⟨x :: s.items, List.nodup_cons.2 ⟨h, s.nodup⟩⟩)

def remove (s : VarSet) (x : Var) : Bool × VarSet :=
  if x ∈ s.items then
    (true, ⟨s.items.filter (fun y => y ≠ x), List.filter_sublist.nodup s.nodup⟩)
  else (false, s)

def insert (s : VarSet) (x : Var) : VarSet := (s.add x).2

def erase (s : VarSet) (x : Var) : VarSet := (s.remove x).2

def merge (s t : VarSet) : Bool × VarSet :=
  let u := t.items.foldl insert s
  (u.size ≠ s.size, u)

def union (s t : VarSet) : VarSet := (s.merge t).2

def ofList (l : List Var) : VarSet := l.foldl insert empty

def same (s t : VarSet) : Bool := s.items.all t.contains && t.items.all s.contains

/-- Take over another set unless it has the same elements, and tell whether it was taken over. -/
def copyFrom (s t : VarSet) : Bool × VarSet := if s.same t then (false, s) else (true, t)

def precedes (x y : Var) : Bool := x.index < y.index || (x.index = y.index && x.name ≤ y.name)

def toList (s : VarSet) : List Var := s.items.mergeSort precedes

def text (s : VarSet) : String := "\x7b" ++ ", ".intercalate (s.toList.map Var.name) ++ "\x7d"

instance : Membership Var VarSet := ⟨fun s x => x ∈ s.items⟩

theorem mem_def (s : VarSet) (x : Var) : x ∈ s ↔ x ∈ s.items := Iff.rfl

@[simp] theorem not_mem_empty (x : Var) : ¬ x ∈ empty := by
  simp [mem_def, empty]

@[simp] theorem contains_iff (s : VarSet) (x : Var) : s.contains x = true ↔ x ∈ s := by
  simp [contains, mem_def]

theorem insert_eq_self {s : VarSet} {x : Var} (h : x ∈ s) : s.insert x = s := by
  rw [mem_def] at h
  rw [insert, add, dif_pos h]

@[simp] theorem mem_insert (s : VarSet) (x y : Var) : y ∈ s.insert x ↔ y = x ∨ y ∈ s := by
  simp only [mem_def, insert, add]
  split <;> grind

@[simp] theorem mem_erase (s : VarSet) (x y : Var) : y ∈ s.erase x ↔ y ≠ x ∧ y ∈ s := by
  simp only [mem_def, erase, remove]
  split <;> grind

theorem mem_foldl_insert (l : List Var) (s : VarSet) (y : Var) :
    y ∈ l.foldl insert s ↔ y ∈ l ∨ y ∈ s := by
  induction l generalizing s with
  | nil => simp
  | cons x l ih =>
    rw [List.foldl_cons, ih, mem_insert, List.mem_cons]
    grind

@[simp] theorem mem_union (s t : VarSet) (y : Var) : y ∈ s.union t ↔ y ∈ s ∨ y ∈ t := by
  rw [union, merge, mem_foldl_insert, ← mem_def, or_comm]

theorem same_iff (s t : VarSet) : s.same t = true ↔ ∀ x, x ∈ s ↔ x ∈ t := by
  simp only [same, Bool.and_eq_true, List.all_eq_true, contains_iff, ← mem_def]
  exact ⟨fun h x => ⟨h.1 x, h.2 x⟩, fun h => ⟨fun x => (h x).1, fun x => (h x).2⟩⟩

end VarSet

end Dataflow
