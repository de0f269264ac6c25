import Dataflow.FixedPoint.System
import Dataflow.WorkQueue

namespace Dataflow.System

variable {ν φ : Type} [DecidableEq ν]

structure Progress (ν φ : Type) where
  state : State ν φ
  queue : WorkQueue ν

/-- Visit the oldest pending node. If its result changes, its dependents become pending. -/
def step? (S : System ν φ) (p : Progress ν φ) : Option (Progress ν φ) :=
  match p.queue.pop? with
  | none => none
  | some (n, rest) =>
    let (changed, st) := S.visit p.state n
    some ⟨st, if changed then rest.addAll (S.dependents n) else rest⟩

def settle (S : System ν φ) : Nat → Progress ν φ → Progress ν φ
  | 0, p => p
  | fuel + 1, p =>
    match S.step? p with
    | none => p
    | some p' => S.settle fuel p'

theorem step?_eq_none_iff (S : System ν φ) (p : Progress ν φ) :
    S.step? p = none ↔ p.queue.items = [] := by
  rw [← WorkQueue.pop?_eq_none_iff, step?]
  split <;> simp_all

/-- What steps preserve holds of the outcome. -/
theorem settle_induction (S : System ν φ) {P : Progress ν φ → Prop}
    (step : ∀ p q, P p → S.step? p = some q → P q) (fuel : Nat) {p : Progress ν φ} (h : P p) :
    P (S.settle fuel p) := by
  induction fuel generalizing p with
  | zero => exact h
  | succ fuel ih =>
    rw [settle]
    split
    · exact h
    · exact ih (step _ _ h ‹_›)

end Dataflow.System
