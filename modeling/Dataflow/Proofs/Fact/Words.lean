import Dataflow.Proofs.Analysis.Accumulation
import Dataflow.Proofs.Eval.Arithmetic

namespace Dataflow

namespace Value

def Fits (v : Value) : Prop := ∀ n, v = .const n → IsWord n

theorem fits_const {n : Int} (h : IsWord n) : (const n).Fits := fun _ he => const.inj he ▸ h

theorem fits_undef : undef.Fits := fun _ h => nomatch h

theorem fits_nac : nac.Fits := fun _ h => nomatch h

theorem Fits.meet {v w : Value} (hv : v.Fits) (hw : w.Fits) : (v.meet w).Fits :=
  fun n h => (const_of_meet h).elim (hv n) (hw n)

end Value

namespace Fact

variable {f : Fact}

theorem fits_get (h : f.Each (fun _ v => v.Fits)) (x : Var) : (f.get x).Fits := by
  by_cases hx : f.get x = .undef
  · exact hx ▸ Value.fits_undef
  · exact each_iff.1 h x hx

theorem fits_evaluateOperands {op : Int → Int → Value} (hop : ∀ m n, (op m n).Fits) (v w : Value) :
    (evaluateOperands op v w).Fits := by
  cases v <;> cases w <;>
    first
    | exact Value.fits_undef
    | exact Value.fits_nac
    | exact hop _ _

theorem fits_evaluate (h : f.Each (fun _ v => v.Fits)) (e : Exp) : (evaluate e f).Fits := by
  cases e with
  | int n => exact Value.fits_const (isWord_wrap n)
  | var x =>
      rw [evaluate_var]
      split
      · exact fits_get h x
      · exact Value.fits_nac
  | binary op l r =>
      rw [evaluate_binary]
      split
      · exact fits_evaluateOperands (fun _ _ _ hv => BinaryOp.isWord_of_apply hv) _ _
      · exact Value.fits_nac
  | unclassed op l r =>
      rw [evaluate_unclassed]
      split
      · exact fits_evaluateOperands (fun _ _ => Value.fits_nac) _ _
      · exact Value.fits_nac
  | long _ | double _ | str _ | null | neg _ | new _ _ | cast _ _ | instanceField _ _ _
  | staticField _ _ _ | element _ _ | call _ => exact Value.fits_nac

end Fact

/-- Every variable that is bound is known to hold one word, or not to be constant. -/
def Fact.Words (f : Fact) : Prop := f.Each (fun _ v => v = .nac ∨ ∃ n, v = .const n ∧ IsWord n)

theorem Fact.words_of_fits {f : Fact} (h : f.Each (fun _ v => v.Fits)) : f.Words := by
  intro x v hv
  cases v with
  | undef => exact absurd rfl ((mem_entries_iff f x _).1 hv).1
  | nac => exact .inl rfl
  | const n => exact .inr ⟨n, rfl, h x _ hv n rfl⟩

namespace ConstProp

theorem each_fits_transfer (s : Option (Stmt Target)) {f : Fact} (hf : f.Each (fun _ v => v.Fits)) :
    (transfer s f).Each (fun _ v => v.Fits) :=
  each_transfer hf fun _ _ _ _ _ => ⟨Value.fits_nac, fun e _ _ => Fact.fits_evaluate hf e⟩

end ConstProp

end Dataflow
