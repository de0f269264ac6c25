import Dataflow.FixedPoint.System

namespace Dataflow.System

variable {ν φ : Type} [DecidableEq ν]

def sweep (S : System ν φ) : State ν φ → List ν → Bool × State ν φ
  | st, [] => (false, st)
  | st, n :: rest =>
    let (changed, st') := S.visit st n
    let (more, st'') := S.sweep st' rest
    (changed || more, st'')

/-- Sweep until a sweep changes nothing, at most as often as the fuel allows, and count the sweeps. -/
def rounds (S : System ν φ) (order : List ν) : Nat → Nat → State ν φ → Nat × State ν φ
  | 0, passes, st => (passes, st)
  | fuel + 1, passes, st =>
    let (changed, st') := S.sweep st order
    if changed then S.rounds order fuel (passes + 1) st' else (passes + 1, st')

end Dataflow.System
