import Dataflow.Analysis.ConstProp
import Dataflow.Proofs.Fact.Order

namespace Dataflow

namespace Value

/-- A value that replaces another one knows no other constant. It may know nothing any more, and
whatever is no constant may be replaced by anything. -/
def Firm (v w : Value) : Prop := ∀ n, v = .const n → .const n ≤ w

variable {u u' v v' : Value}

theorem Firm.refl (v : Value) : Firm v v := fun _ h => le_of_eq h.symm

theorem firm_undef (v : Value) : Firm .undef v := fun _ h => nomatch h

theorem firm_nac (v : Value) : Firm .nac v := fun _ h => nomatch h

theorem firm_of_le (h : v ≤ v') : Firm v v' := fun _ hv => hv ▸ h

theorem Firm.meet (hu : Firm u u') (hv : Firm v v') : Firm (u.meet v) (u'.meet v') := by
  intro n h
  cases u with
  | undef =>
      rw [undef_meet] at h
      exact le_trans (hv n h) (le_meet_right _ _)
  | const m =>
      have hm : const m ≤ const n := h ▸ le_meet_left _ _
      have he : const n = const m := (const_le_iff.1 hm).resolve_right (fun h => nomatch h)
      rw [he]
      exact le_trans (hu m rfl) (le_meet_left _ _)
  | nac =>
      rw [nac_meet] at h
      cases h

theorem Firm.operands (op : Int → Int → Value) (hu : Firm u u') (hv : Firm v v') :
    Firm (evaluateOperands op u v) (evaluateOperands op u' v') := by
  cases u with
  | undef => cases v with
    | undef => exact firm_undef _
    | const _ | nac => exact firm_nac _
  | const m => cases v with
    | undef | nac => exact firm_nac _
    | const n =>
        rcases const_le_iff.1 (hu m rfl) with rfl | rfl
        · rcases const_le_iff.1 (hv n rfl) with rfl | rfl
          · exact Firm.refl _
          · exact firm_of_le (le_nac _)
        · exact firm_of_le (le_nac _)
  | nac => exact firm_nac _

end Value

namespace Fact

def Firm (f g : Fact) : Prop := ∀ x, (f.get x).Firm (g.get x)

variable {f g : Fact}

theorem Firm.refl (f : Fact) : Firm f f := fun _ => Value.Firm.refl _

theorem Firm.update (h : Firm f g) (x : Var) {v w : Value} (hv : v.Firm w) :
    Firm (f.update x v) (g.update x w) := by
  intro y
  rw [get_update, get_update]
  split
  · exact hv
  · exact h y

theorem Firm.erase (h : Firm f g) (x : Var) : Firm (f.erase x) (g.erase x) := by
  intro y
  rw [get_erase, get_erase]
  split
  · exact Value.Firm.refl _
  · exact h y

theorem Firm.meetInto {t u : Fact} (h : Firm f g) (ht : Firm t u) :
    Firm (f.meetInto t) (g.meetInto u) := by
  intro x
  rw [get_meetInto, get_meetInto]
  exact (h x).meet (ht x)

theorem Firm.evaluate (h : Firm f g) (e : Exp) :
    (Dataflow.evaluate e f).Firm (Dataflow.evaluate e g) := by
  cases e with
  | var x =>
      rw [evaluate_var, evaluate_var]
      split
      · exact h x
      · exact Value.firm_nac _
  | binary op l r =>
      rw [evaluate_binary, evaluate_binary]
      split
      · exact (h l).operands _ (h r)
      · exact Value.firm_nac _
  | unclassed op l r =>
      rw [evaluate_unclassed, evaluate_unclassed]
      split
      · exact (h l).operands _ (h r)
      · exact Value.firm_nac _
  | int n => exact Value.Firm.refl _
  | long _ | double _ | str _ | null | neg _ | new _ _ | cast _ _ | instanceField _ _ _
  | staticField _ _ _ | element _ _ | call _ => exact Value.firm_nac _

theorem Firm.transfer (h : Firm f g) (s : Option (Stmt Target)) :
    Firm (ConstProp.transfer s f) (ConstProp.transfer s g) := by
  cases s with
  | none => exact h
  | some s =>
      cases s with
      | assign x e =>
          rw [ConstProp.transfer_assign, ConstProp.transfer_assign]
          split
          · exact h.update x (h.evaluate e)
          · exact h
      | invoke result c =>
          cases result with
          | none => exact h
          | some x =>
              rw [ConstProp.transfer_result, ConstProp.transfer_result]
              split
              · exact h.update x (Value.firm_nac _)
              · exact h
      | nop _ | branch _ _ | goto _ | switch _ _ _ _ | ret _ => exact h

end Fact

end Dataflow
