import Dataflow.OrderedMap

namespace Dataflow

/-- A system of equations over nodes. The fact that comes into a node is collected from the results
of others and from the fact that came in before; the result is transferred from it. -/
structure System (ν φ : Type) where
  initial : φ
  collect : ν → (ν → φ) → φ → φ
  transfer : ν → φ → φ
  same : φ → φ → Bool
  dependents : ν → List ν

namespace System

variable {ν φ : Type}

structure State (ν φ : Type) where
  inputs : OrderedMap ν φ
  results : OrderedMap ν φ
  visits : Nat := 0

variable [DecidableEq ν]

def input (S : System ν φ) (st : State ν φ) (n : ν) : φ := st.inputs.getD n S.initial

def result (S : System ν φ) (st : State ν φ) (n : ν) : φ := st.results.getD n S.initial

def incoming (S : System ν φ) (st : State ν φ) (n : ν) : φ :=
  S.collect n (S.result st) (S.input st n)

/-- Collect and transfer at one node, and tell whether that changed its result. A result that says
the same as before is kept as it was. -/
def visit (S : System ν φ) (st : State ν φ) (n : ν) : Bool × State ν φ :=
  let fact := S.incoming st n
  let new := S.transfer n fact
  if S.same (S.result st n) new then
    (false, { st with inputs := st.inputs.insert n fact, visits := st.visits + 1 })
  else
    (true,
      { inputs := st.inputs.insert n fact, results := st.results.insert n new,
        visits := st.visits + 1 })

theorem changed_visit (S : System ν φ) (st : State ν φ) (n : ν) :
    (S.visit st n).1 = !S.same (S.result st n) (S.transfer n (S.incoming st n)) := by
  simp only [visit]
  split <;> simp_all

theorem visits_visit (S : System ν φ) (st : State ν φ) (n : ν) :
    (S.visit st n).2.visits = st.visits + 1 := by
  simp only [visit]
  split <;> rfl

theorem input_visit (S : System ν φ) (st : State ν φ) (n m : ν) :
    S.input (S.visit st n).2 m = if m = n then S.incoming st n else S.input st m := by
  simp only [visit]
  split <;> simp [input]

theorem result_visit (S : System ν φ) (st : State ν φ) (n m : ν) :
    S.result (S.visit st n).2 m =
      if m = n ∧ (S.visit st n).1 = true then S.transfer n (S.incoming st n)
      else S.result st m := by
  rw [changed_visit]
  simp only [visit]
  split <;> simp_all [result]

end System

end Dataflow
