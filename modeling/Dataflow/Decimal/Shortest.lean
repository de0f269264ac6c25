namespace Dataflow.Decimal

/-- A positive number together with the numbers that round to it, as numerators over one
denominator. The ends belong to the range when it is closed. -/
structure Rounding where
  low : Nat
  value : Nat
  high : Nat
  den : Nat
  closed : Bool

/-- The number `mantissa * 2 ^ exponent` of a binary format and half the way to its neighbours. Below
a power of two the neighbour is nearer, and then `narrow` is set. -/
def Rounding.ofBinary (mantissa : Nat) (exponent : Int) (narrow : Bool) : Rounding :=
  let up := Nat.pow 2 (exponent - 2).toNat
  { low := (4 * mantissa - if narrow then 1 else 2) * up
    value := 4 * mantissa * up
    high := (4 * mantissa + 2) * up
    den := Nat.pow 2 (2 - exponent).toNat
    closed := mantissa % 2 = 0 }

namespace Rounding

def holds (r : Rounding) (c : Nat) (e : Int) : Bool :=
  let x := c * r.den * Nat.pow 10 e.toNat
  let s := Nat.pow 10 (-e).toNat
  if r.closed then r.low * s ≤ x && x ≤ r.high * s else r.low * s < x && x < r.high * s

def floorAt (r : Rounding) (e : Int) : Nat :=
  r.value * Nat.pow 10 (-e).toNat / (r.den * Nat.pow 10 e.toNat)

/-- The multiple of `10 ^ e` that rounds to the number, if one does: the nearer of two, and of two
equally near ones the even one. -/
def pick? (r : Rounding) (e : Int) : Option Nat :=
  let c := r.floorAt e
  match r.holds c e, r.holds (c + 1) e with
  | false, false => none
  | true, false => some c
  | false, true => some (c + 1)
  | true, true =>
    let x := 2 * r.value * Nat.pow 10 (-e).toNat
    let middle := (2 * c + 1) * r.den * Nat.pow 10 e.toNat
    some (if x < middle || (x = middle && c % 2 = 0) then c else c + 1)

def magnitude (r : Rounding) : Int :=
  if r.den ≤ r.value then ((toString (r.value / r.den)).length : Int)
  else 1 - (((List.range 400).find? (fun j => r.den ≤ r.value * Nat.pow 10 j)).getD 400 : Int)

/-- The fewest digits that round to the number, with the exponent of their unit. Seventeen always do
for a number of 53 bits. -/
def shortest (r : Rounding) : Nat × Int :=
  let k := r.magnitude
  ((List.range 17).findSome? (fun i =>
    let e := k - (i + 1 : Nat)
    (r.pick? e).map (fun c => (c, e)))).getD (r.floorAt (k - 17), k - 17)

end Rounding

def stripZeros : Nat → Nat × Int → Nat × Int
  | 0, d => d
  | fuel + 1, (c, e) => if c ≠ 0 ∧ c % 10 = 0 then stripZeros fuel (c / 10, e + 1) else (c, e)

end Dataflow.Decimal
