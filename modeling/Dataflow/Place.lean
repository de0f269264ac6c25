namespace Dataflow

inductive PlaceError where
  | outside
  /-- The place is no signed number of 64 bits. -/
  | unaddressable
  deriving DecidableEq

namespace PlaceError

def message : PlaceError → String
  | outside => "list index out of range"
  | unaddressable => "cannot fit 'int' into an index-sized integer"

end PlaceError

def fromStart (length : Nat) (i : Int) : Int := if i < 0 then i + length else i

def place (length : Nat) (i : Int) : Except PlaceError Nat :=
  if i < -9223372036854775808 ∨ 9223372036854775808 ≤ i then .error .unaddressable
  else if 0 ≤ fromStart length i ∧ fromStart length i < length then
    .ok (fromStart length i).toNat
  else .error .outside

theorem lt_of_place {length k : Nat} {i : Int} (h : place length i = .ok k) : k < length := by
  rw [place] at h
  split at h
  · cases h
  · split at h
    · cases h
      omega
    · cases h

def atPlace {α : Type} (l : List α) (i : Int) : Except PlaceError α :=
  match h : place l.length i with
  | .error e => .error e
  | .ok k => .ok (l.get ⟨k, lt_of_place h⟩)

end Dataflow
