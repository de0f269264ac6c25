import Dataflow.Eval

namespace Dataflow

/-- The value of an int variable while a program runs: a signed machine word. -/
abbrev Word := BitVec 32

def Word.ofTruth (b : Bool) : Word := if b then 1 else 0

def IsWord (n : Int) : Prop := -2147483648 ≤ n ∧ n < 2147483648

instance (n : Int) : Decidable (IsWord n) := inferInstanceAs (Decidable (_ ∧ _))

namespace BinaryOp

/-- What an operator computes on words. Results wrap around, division drops the fraction, comparisons
are signed, and only the low five bits of a shift distance count. A division by 0 has no result. -/
def onWords : BinaryOp → Word → Word → Option Word
  | arith .add, a, b => some (a + b)
  | arith .sub, a, b => some (a - b)
  | arith .mul, a, b => some (a * b)
  | arith .div, a, b => if b = 0 then none else some (a.sdiv b)
  | arith .rem, a, b => if b = 0 then none else some (a.srem b)
  | bit .or, a, b => some (a ||| b)
  | bit .and, a, b => some (a &&& b)
  | bit .xor, a, b => some (a ^^^ b)
  | cond .eq, a, b => some (.ofTruth (a = b))
  | cond .ne, a, b => some (.ofTruth (a ≠ b))
  | cond .lt, a, b => some (.ofTruth (a.slt b))
  | cond .gt, a, b => some (.ofTruth (b.slt a))
  | cond .le, a, b => some (.ofTruth (a.sle b))
  | cond .ge, a, b => some (.ofTruth (b.sle a))
  | shift .shl, a, b => some (a <<< (b.toNat % 32))
  | shift .shr, a, b => some (a.sshiftRight (b.toNat % 32))
  | shift .ushr, a, b => some (a >>> (b.toNat % 32))

end BinaryOp

namespace Word

theorem wrap_toInt (w : Word) : wrap w.toInt = w.toInt :=
  wrap_of_bounds w.le_toInt w.toInt_lt

theorem toInt_ofInt (n : Int) : (BitVec.ofInt 32 n : Word).toInt = wrap n :=
  BitVec.toInt_ofInt n

theorem isWord_toInt (w : Word) : IsWord w.toInt := ⟨w.le_toInt, w.toInt_lt⟩

theorem toInt_ofTruth (b : Bool) : (ofTruth b).toInt = if b then 1 else 0 := by
  cases b <;> rfl

theorem toInt_eq_zero_iff (w : Word) : w.toInt = 0 ↔ w = 0 := by
  rw [← BitVec.toInt_inj]
  rfl

theorem shiftDistance_toInt (w : Word) : shiftDistance w.toInt = w.toNat % 32 := by
  have h : w.toInt % 32 = (w.toNat : Int) % 32 := by
    rw [BitVec.toInt_eq_toNat_cond]
    split <;> omega
  rw [shiftDistance, h]
  omega

theorem wrap_shiftLeft (w : Word) (n : Nat) : wrap (w.toInt <<< n) = (w <<< n).toInt := by
  have h : w.toInt <<< n = (w.toInt * 2 ^ n : Int) := Int.shiftLeft_eq _ _
  have h' : ((w.toNat <<< n : Nat) : Int) = (w.toNat * 2 ^ n : Int) := by
    rw [Nat.shiftLeft_eq]
    norm_cast
  rw [BitVec.toInt_shiftLeft, wrap, h, h', BitVec.toInt_eq_toNat_bmod, Int.bmod_mul_bmod]

theorem wrap_shiftRight (w : Word) (n : Nat) : wrap (w.toInt >>> n) = (w.sshiftRight n).toInt := by
  rw [← BitVec.toInt_sshiftRight, wrap_toInt]

theorem wrap_tdiv (a b : Word) : wrap (a.toInt.tdiv b.toInt) = (a.sdiv b).toInt :=
  (BitVec.toInt_sdiv a b).symm

theorem wrap_tmod (a b : Word) : wrap (a.toInt.tmod b.toInt) = (a.srem b).toInt := by
  rw [← BitVec.toInt_srem, wrap_toInt]

end Word

theorem isWord_wrap (n : Int) : IsWord (wrap n) := wrap_bounds n

namespace IsWord

variable {n : Int}

theorem wrap_eq (h : IsWord n) : wrap n = n := wrap_of_bounds h.1 h.2

theorem toInt_ofInt (h : IsWord n) : (BitVec.ofInt 32 n : Word).toInt = n := by
  rw [Word.toInt_ofInt, h.wrap_eq]

end IsWord

open BinaryOp in
theorem BinaryOp.apply_toInt (op : BinaryOp) (a b : Word) :
    op.apply a.toInt b.toInt = (op.onWords a b).elim .undef (fun w => .const w.toInt) := by
  cases op with
  | arith op =>
      have hb := Word.toInt_eq_zero_iff b
      cases op with
      | add | sub | mul => simp [apply, onWords, ArithOp.result?, wrap]
      | div | rem =>
          by_cases h : b = 0
          · simp [apply, onWords, ArithOp.result?, h]
          · have h' : b.toInt ≠ 0 := fun he => h (hb.1 he)
            simp only [apply, onWords, ArithOp.result?, if_neg h, if_neg h', Option.elim_some,
              Word.wrap_tdiv, Word.wrap_tmod]
  | bit op => cases op <;> simp [apply, onWords, BitOp.apply]
  | cond op =>
      cases op <;>
        simp [apply, onWords, CondOp.holds, Word.toInt_ofTruth, BitVec.toInt_inj,
          BitVec.slt_eq_decide, BitVec.sle_eq_decide]
  | shift op =>
      cases op with
      | shl | shr =>
          simp only [apply, onWords, ShiftOp.apply, Word.shiftDistance_toInt, Word.wrap_shiftLeft,
            Word.wrap_shiftRight, Option.elim_some]
      | ushr =>
          simp only [apply, onWords, ShiftOp.apply, Word.shiftDistance_toInt, BitVec.ofInt_toInt,
            Option.elim_some]

end Dataflow
