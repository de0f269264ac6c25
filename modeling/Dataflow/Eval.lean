import Dataflow.Body.Exp
import Dataflow.Fact.Basic

namespace Dataflow

/-- The number of 32 bits in two's complement that is congruent to `n`. -/
def wrap (n : Int) : Int := n.bmod 4294967296

def shiftDistance (n : Int) : Nat := (n % 32).toNat

namespace ArithOp

/-- Division drops the fraction, and the remainder has the sign of the dividend. There is no result
for the divisor 0. -/
def result? : ArithOp → Int → Int → Option Int
  | add, a, b => some (wrap (a + b))
  | sub, a, b => some (wrap (a - b))
  | mul, a, b => some (wrap (a * b))
  | div, a, b => if b = 0 then none else some (wrap (a.tdiv b))
  | rem, a, b => if b = 0 then none else some (wrap (a.tmod b))

end ArithOp

namespace BitOp

def apply (op : BitOp) (a b : Int) : Int :=
  let x := BitVec.ofInt 32 a
  let y := BitVec.ofInt 32 b
  match op with
  | or => (x ||| y).toInt
  | and => (x &&& y).toInt
  | xor => (x ^^^ y).toInt

end BitOp

namespace CondOp

def holds : CondOp → Int → Int → Bool
  | eq, a, b => a = b
  | ne, a, b => a ≠ b
  | lt, a, b => a < b
  | gt, a, b => b < a
  | le, a, b => a ≤ b
  | ge, a, b => b ≤ a

end CondOp

namespace ShiftOp

def apply : ShiftOp → Int → Int → Int
  | shl, a, n => wrap (a <<< shiftDistance n)
  | shr, a, n => wrap (a >>> shiftDistance n)
  | ushr, a, n => (BitVec.ofInt 32 a >>> shiftDistance n).toInt

end ShiftOp

namespace BinaryOp

def apply : BinaryOp → Int → Int → Value
  | arith op, a, b => (op.result? a b).elim .undef .const
  | bit op, a, b => .const (op.apply a b)
  | cond op, a, b => .const (if op.holds a b then 1 else 0)
  | shift op, a, b => .const (op.apply a b)

end BinaryOp

/-- What is known of the value of a binary expression, given its value on two numbers. Two undefined
operands leave it undefined; with one of them the result is anything. -/
def evaluateOperands (op : Int → Int → Value) : Value → Value → Value
  | .undef, .undef => .undef
  | .const a, .const b => op a b
  | _, _ => .nac

/-- What is known of the value of an expression. Only int literals, variables for ints and operators
over such variables have a value that can be known. -/
def evaluate (e : Exp) (f : Fact) : Value :=
  match e with
  | .int n => .const (wrap n)
  | .var x => if x.holdsInt then f.get x else .nac
  | .binary op l r =>
    if l.holdsInt && r.holdsInt then evaluateOperands op.apply (f.get l) (f.get r) else .nac
  | .unclassed _ l r =>
    if l.holdsInt && r.holdsInt then evaluateOperands (fun _ _ => .nac) (f.get l) (f.get r)
    else .nac
  | _ => .nac

@[simp]
theorem evaluate_var (x : Var) (f : Fact) :
    evaluate (.var x) f = if x.holdsInt then f.get x else .nac := rfl

@[simp]
theorem evaluate_binary (op : BinaryOp) (l r : Var) (f : Fact) :
    evaluate (.binary op l r) f = if l.holdsInt && r.holdsInt then
      evaluateOperands op.apply (f.get l) (f.get r) else .nac := rfl

@[simp]
theorem evaluate_unclassed (op : BinaryOp) (l r : Var) (f : Fact) :
    evaluate (.unclassed op l r) f = if l.holdsInt && r.holdsInt then
      evaluateOperands (fun _ _ => .nac) (f.get l) (f.get r) else .nac := rfl

theorem wrap_bounds (n : Int) : -2147483648 ≤ wrap n ∧ wrap n < 2147483648 := by
  have h₁ := Int.le_bmod (x := n) (m := 4294967296) (by decide)
  have h₂ := Int.bmod_lt (x := n) (m := 4294967296) (by decide)
  simp only [wrap]
  omega

theorem wrap_of_bounds {n : Int} (h₁ : -2147483648 ≤ n) (h₂ : n < 2147483648) : wrap n = n := by
  rw [wrap, Int.bmod_eq_of_le] <;> omega

end Dataflow
