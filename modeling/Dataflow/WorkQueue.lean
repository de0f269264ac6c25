namespace Dataflow

/-- A first-in first-out queue that holds each item at most once. -/
structure WorkQueue (α : Type) where
  items : List α
  nodup : items.Nodup

namespace WorkQueue

variable {α : Type}

def empty : WorkQueue α := ⟨[], List.nodup_nil⟩

def size (q : WorkQueue α) : Nat := q.items.length

def isEmpty (q : WorkQueue α) : Bool := q.items.isEmpty

def pop? (q : WorkQueue α) : Option (α × WorkQueue α) :=
  match h : q.items with
  | [] => none
  | a :: rest => some (a, ⟨rest, (List.nodup_cons.1 (h ▸ q.nodup)).2⟩)

@[simp] theorem items_empty : (empty : WorkQueue α).items = [] := rfl

theorem pop?_eq_none_iff (q : WorkQueue α) : q.pop? = none ↔ q.items = [] := by
  obtain ⟨items, h⟩ := q
  cases items <;> simp [pop?]

theorem items_of_pop? {q r : WorkQueue α} {a : α} (h : q.pop? = some (a, r)) :
    q.items = a :: r.items := by
  obtain ⟨items, hi⟩ := q
  cases items with
  | nil => simp [pop?] at h
  | cons b rest =>
    simp only [pop?, Option.some.injEq, Prod.mk.injEq] at h
    obtain ⟨rfl, rfl⟩ := h
    rfl

variable [DecidableEq α]

def contains (q : WorkQueue α) (a : α) : Bool := q.items.contains a

def add (q : WorkQueue α) (a : α) : WorkQueue α :=
  if h : a ∈ q.items then q
  else ⟨q.items ++ [a], by have := q.nodup; grind⟩

def addAll (q : WorkQueue α) (l : List α) : WorkQueue α := l.foldl add q

def ofList (l : List α) : WorkQueue α := empty.addAll l

@[simp] theorem items_add (q : WorkQueue α) (a : α) :
    (q.add a).items = if a ∈ q.items then q.items else q.items ++ [a] := by
  rw [add]
  split <;> rfl

theorem mem_items_add (q : WorkQueue α) (a b : α) :
    b ∈ (q.add a).items ↔ b = a ∨ b ∈ q.items := by
  rw [items_add]
  split <;> grind

theorem mem_items_addAll (q : WorkQueue α) (l : List α) (b : α) :
    b ∈ (q.addAll l).items ↔ b ∈ l ∨ b ∈ q.items := by
  induction l generalizing q with
  | nil => simp [addAll]
  | cons a l ih =>
    have h := ih (q.add a)
    rw [mem_items_add] at h
    simp only [addAll, List.foldl_cons, List.mem_cons] at h ⊢
    rw [h]
    grind

end WorkQueue

end Dataflow
