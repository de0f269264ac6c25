import Dataflow.Decimal.Shortest

namespace Dataflow

/-- A binary floating-point number of 64 bits, told apart by its bits. -/
structure Double where
  bits : UInt64
  deriving DecidableEq

namespace Double

def isNegative (x : Double) : Bool := x.bits >>> 63 = 1

def exponentField (x : Double) : Nat := ((x.bits >>> 52) &&& 0x7ff).toNat

def fraction (x : Double) : Nat := (x.bits &&& 0xfffffffffffff).toNat

def mantissa (x : Double) : Nat :=
  if x.exponentField = 0 then x.fraction else x.fraction + 4503599627370496

def exponent (x : Double) : Int := (max x.exponentField 1 : Nat) - 1075

def rounding (x : Double) : Decimal.Rounding :=
  .ofBinary x.mantissa x.exponent (x.fraction = 0 && 1 < x.exponentField)

/-- Digits are written out from `10 ^ -4` to below `10 ^ 16`, with at least one place after the point;
outside that range the first digit stands before the point and an exponent of two or more digits
follows. -/
def layOut (digits : Nat) (unit : Int) : String :=
  let ds := toString digits
  let n := ds.length
  let point : Int := n + unit
  if -4 < point && point ≤ 16 then
    if point ≤ 0 then "0." ++ String.ofList (List.replicate (-point).toNat '0') ++ ds
    else if (n : Int) ≤ point then
      ds ++ String.ofList (List.replicate (point - n).toNat '0') ++ ".0"
    else
      String.ofList (ds.toList.take point.toNat) ++ "." ++
        String.ofList (ds.toList.drop point.toNat)
  else
    let e := point - 1
    let size := toString e.natAbs
    String.ofList (ds.toList.take 1) ++
      (if n = 1 then "" else "." ++ String.ofList (ds.toList.drop 1)) ++
      (if e < 0 then "e-" else "e+") ++ (if size.length < 2 then "0" ++ size else size)

def text (x : Double) : String :=
  let sign := if x.isNegative then "-" else ""
  if x.exponentField = 0x7ff then
    if x.fraction = 0 then sign ++ "inf" else "nan"
  else if x.mantissa = 0 then sign ++ "0.0"
  else
    let d := Decimal.stripZeros 20 x.rounding.shortest
    sign ++ layOut d.1 d.2

def infinity (negative : Bool) : Double := ⟨if negative then 0xfff0000000000000 else 0x7ff0000000000000⟩

def nan : Double := ⟨0x7ff8000000000000⟩

def zero (negative : Bool) : Double := ⟨if negative then 0x8000000000000000 else 0⟩

def ofDecimal (negative : Bool) (digits : Nat) (unit : Int) : Double :=
  let size : Int := (toString digits).length + unit
  if digits = 0 || size < -400 then zero negative
  else if 400 < size then infinity negative
  else
    let x := Float.ofScientific digits (unit < 0) unit.natAbs
    ⟨(if negative then -x else x).toBits⟩

def digitsValue (l : List Char) : Nat := l.foldl (fun n c => 10 * n + (c.toNat - 48)) 0

def readExponent? : List Char → Option Int
  | [] => some 0
  | mark :: rest =>
    if mark = 'e' ∨ mark = 'E' then
      let (negative, ds) := match rest with
        | '-' :: ds => (true, ds)
        | '+' :: ds => (false, ds)
        | ds => (false, ds)
      if ds.isEmpty || !ds.all Char.isDigit then none
      else
        let n : Int := digitsValue ds
        some (if negative then -n else n)
    else none

def readMagnitude? (negative : Bool) (s : List Char) : Option Double :=
  let word := String.ofList (s.map Char.toLower)
  if word = "inf" || word = "infinity" then some (infinity negative)
  else if word = "nan" then some nan
  else
    let whole := s.takeWhile Char.isDigit
    let afterWhole := s.dropWhile Char.isDigit
    let (places, rest) := match afterWhole with
      | '.' :: r => (r.takeWhile Char.isDigit, r.dropWhile Char.isDigit)
      | r => ([], r)
    if whole.isEmpty && places.isEmpty then none
    else (readExponent? rest).map (fun e =>
      ofDecimal negative (digitsValue (whole ++ places)) (e - places.length))

def ofText? (s : String) : Option Double :=
  match s.toList with
  | '-' :: rest => readMagnitude? true rest
  | '+' :: rest => readMagnitude? false rest
  | rest => readMagnitude? false rest

end Double

end Dataflow
