import Dataflow.Failure

namespace Dataflow

namespace WorkQueue

variable {α σ : Type}

inductive Request (α : Type) where
  | add (a : α)
  | pop
  | contains (a : α)
  | nonempty

inductive Reply (α : Type) where
  | flag (b : Bool)
  | item (a : α)

structure Exchange (α : Type) where
  request : Request α
  reply : Except Failure (Reply α)

def serve (answer : σ → Request α → Except Failure (Reply α) × σ) (s : σ) :
    List (Request α) → List (Exchange α) × σ
  | [] => ([], s)
  | r :: rest =>
    let (reply, s') := answer s r
    let (log, s'') := serve answer s' rest
    (⟨r, reply⟩ :: log, s'')

variable [DecidableEq α]

def answer (q : WorkQueue α) : Request α → Except Failure (Reply α) × WorkQueue α
  | .add a => (.ok (.flag (!q.contains a)), q.add a)
  | .pop =>
    match q.pop? with
    | none => (.error .emptyQueue, q)
    | some (a, rest) => (.ok (.item a), rest)
  | .contains a => (.ok (.flag (q.contains a)), q)
  | .nonempty => (.ok (.flag (!q.isEmpty)), q)

def run (q : WorkQueue α) (requests : List (Request α)) : List (Exchange α) × WorkQueue α :=
  serve answer q requests

end WorkQueue

/-- A work queue whose pending items are the keys of a map, which keeps their order. -/
structure KeyedQueue (α : Type) where
  pending : OrderedMap α Unit

namespace KeyedQueue

open WorkQueue (Request Reply Exchange)

variable {α : Type}

def empty : KeyedQueue α := ⟨.empty⟩

def items (q : KeyedQueue α) : List α := q.pending.keys

def size (q : KeyedQueue α) : Nat := q.pending.size

def isEmpty (q : KeyedQueue α) : Bool := q.size = 0

variable [DecidableEq α]

def contains (q : KeyedQueue α) (a : α) : Bool := q.pending.contains a

def add (q : KeyedQueue α) (a : α) : Bool × KeyedQueue α :=
  if q.contains a then (false, q) else (true, ⟨q.pending.insert a ()⟩)

def pop (q : KeyedQueue α) : Except Failure α × KeyedQueue α :=
  match q.pending.entries with
  | [] => (.error .emptyQueue, q)
  | (a, _) :: _ => (.ok a, ⟨q.pending.erase a⟩)

def ofList (l : List α) : KeyedQueue α := l.foldl (fun q a => (q.add a).2) empty

def answer (q : KeyedQueue α) : Request α → Except Failure (Reply α) × KeyedQueue α
  | .add a =>
    let (added, q') := q.add a
    (.ok (.flag added), q')
  | .pop =>
    let (oldest, q') := q.pop
    (oldest.map .item, q')
  | .contains a => (.ok (.flag (q.contains a)), q)
  | .nonempty => (.ok (.flag (!q.isEmpty)), q)

def run (q : KeyedQueue α) (requests : List (Request α)) : List (Exchange α) × KeyedQueue α :=
  WorkQueue.serve answer q requests

end KeyedQueue

end Dataflow
