import Mathlib.Data.Int.Bitwise
import Mathlib.Data.Int.ModEq
import Dataflow.Body.Builder
import Dataflow.Proofs.Run.Word

namespace Dataflow

namespace BinaryOp

/-- What an operator computes, in terms of numbers. Sums, differences, products and shifts to the left
count modulo the number of words. A quotient drops the fraction, so that the remainder, if it is not 0,
has the sign of the dividend. The bits of a number are those of its two's complement, without end. -/
def Computes : BinaryOp → Int → Int → Int → Prop
  | arith .add, m, n, r => r ≡ m + n [ZMOD 4294967296]
  | arith .sub, m, n, r => r ≡ m - n [ZMOD 4294967296]
  | arith .mul, m, n, r => r ≡ m * n [ZMOD 4294967296]
  | arith .div, m, n, r => ∃ q t, m = q * n + t ∧ |t| < |n| ∧ 0 ≤ m * t ∧ r ≡ q [ZMOD 4294967296]
  | arith .rem, m, n, r => ∃ q, m = q * n + r ∧ |r| < |n| ∧ 0 ≤ m * r
  | bit .or, m, n, r => ∀ i, r.testBit i = (m.testBit i || n.testBit i)
  | bit .and, m, n, r => ∀ i, r.testBit i = (m.testBit i && n.testBit i)
  | bit .xor, m, n, r => ∀ i, r.testBit i = (m.testBit i ^^ n.testBit i)
  | cond .eq, m, n, r => r = if m = n then 1 else 0
  | cond .ne, m, n, r => r = if m ≠ n then 1 else 0
  | cond .lt, m, n, r => r = if m < n then 1 else 0
  | cond .gt, m, n, r => r = if m > n then 1 else 0
  | cond .le, m, n, r => r = if m ≤ n then 1 else 0
  | cond .ge, m, n, r => r = if m ≥ n then 1 else 0
  | shift .shl, m, n, r => r ≡ m * 2 ^ (n % 32).toNat [ZMOD 4294967296]
  | shift .shr, m, n, r => r = m / 2 ^ (n % 32).toNat
  | shift .ushr, m, n, r => r ≡ m % 4294967296 / 2 ^ (n % 32).toNat [ZMOD 4294967296]

def Divides (op : BinaryOp) : Prop := op = arith .div ∨ op = arith .rem

structure Exact (op : BinaryOp) (m n : Int) (v : Value) : Prop where
  words : v = (op.onWords (.ofInt 32 m) (.ofInt 32 n)).elim .undef (fun w => .const w.toInt)
  undef_iff : v = .undef ↔ op.Divides ∧ n = 0
  number : v = .undef ∨ ∃ r, v = .const r ∧ IsWord r ∧ op.Computes m n r

end BinaryOp

theorem abs_tmod_lt (m : Int) {n : Int} (hn : n ≠ 0) : |m.tmod n| < |n| := by
  rw [Int.abs_eq_natAbs, Int.abs_eq_natAbs, Int.natAbs_tmod]
  have := Nat.mod_lt m.natAbs (Int.natAbs_pos.2 hn)
  omega

theorem IsWord.tmod {m n : Int} (hn : IsWord n) (h : n ≠ 0) : IsWord (m.tmod n) := by
  have ht := abs_tmod_lt m h
  obtain ⟨h₁, h₂⟩ := hn
  rw [Int.abs_eq_natAbs, Int.abs_eq_natAbs] at ht
  constructor <;> omega

namespace BinaryOp

variable {m n r : Int}

theorem isWord_of_apply {op : BinaryOp} (h : op.apply m n = .const r) : IsWord r := by
  cases op with
  | arith op =>
      cases op <;> simp only [apply, ArithOp.result?, Option.elim] at h
      case add | sub | mul => exact (Value.const.inj h) ▸ isWord_wrap _
      case div | rem =>
          split at h
          · rename_i heq
            split at heq <;> cases heq
            exact (Value.const.inj h) ▸ isWord_wrap _
          · cases h
  | bit op => cases op <;> exact (Value.const.inj h) ▸ Word.isWord_toInt _
  | cond op =>
      rw [← Value.const.inj h]
      split <;> decide
  | shift op =>
      cases op with
      | shl | shr => exact (Value.const.inj h) ▸ isWord_wrap _
      | ushr => exact (Value.const.inj h) ▸ Word.isWord_toInt _

end BinaryOp

section

variable {a b : Var} {f : Fact} {m n : Int}

end

end Dataflow
