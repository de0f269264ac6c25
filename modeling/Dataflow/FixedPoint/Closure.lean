namespace Dataflow

variable {α : Type} [DecidableEq α]

/-- What can be reached, in breadth-first order: the items done, then those found and not yet looked
at, then what these lead to. One unit of fuel is spent on each item. -/
def closure (next : α → List α) : Nat → List α → List α → List α
  | 0, done, found => done ++ found
  | _ + 1, done, [] => done
  | fuel + 1, done, a :: found =>
    closure next fuel (done ++ [a])
      (found ++ ((next a).eraseDups.filter (fun b => b ∉ done ++ a :: found)))

theorem mem_closure_of_mem {next : α → List α} {fuel : Nat} {done found : List α} {a : α}
    (h : a ∈ done ++ found) : a ∈ closure next fuel done found := by
  induction fuel generalizing done found with
  | zero => exact h
  | succ fuel ih =>
    cases found with
    | nil => simpa [closure] using h
    | cons b found => exact ih (by grind)

end Dataflow
