import Dataflow.Analysis.ConstProp
import Dataflow.Proofs.Fact.Order

namespace Dataflow

theorem OrderedMap.lookup_filter {κ ν : Type} [DecidableEq κ] (p : κ → Bool) (l : List (κ × ν))
    (k : κ) : (l.filter (fun e => p e.1)).lookup k = if p k then l.lookup k else none := by
  induction l with
  | nil => simp
  | cons e rest ih =>
      obtain ⟨a, b⟩ := e
      rw [List.filter_cons, List.lookup_cons]
      by_cases hk : k = a
      · subst hk
        cases hp : p k with
        | true => simp
        | false => simp [ih, hp]
      · have hb : (k == a) = false := beq_eq_false_iff_ne.2 hk
        cases hp : p a with
        | true => simp [List.lookup_cons, hb, ih]
        | false => simp [hb, ih]

namespace Fact

def ints (f : Fact) : Fact where
  bindings := ⟨f.entries.filter (fun e => e.1.holdsInt),
    (List.filter_sublist.map Prod.fst).nodup f.bindings.nodup_keys⟩
  defined x := by
    have h := f.defined x
    rw [OrderedMap.get?, OrderedMap.lookup_filter]
    split
    · exact h
    · exact fun he => nomatch he

@[simp] theorem get_ints (f : Fact) (x : Var) :
    f.ints.get x = if x.holdsInt then f.get x else .undef := by
  rw [get, OrderedMap.getD, OrderedMap.get?, ints, OrderedMap.lookup_filter]
  split <;> rfl

/-- Two facts that do not differ as far as variables for ints are concerned. -/
def SameInts (f g : Fact) : Prop := ∀ x, x.holdsInt = true → f.get x = g.get x

variable {f g : Fact}

theorem sameInts_iff (f g : Fact) : f.SameInts g ↔ ∀ x, f.ints.get x = g.ints.get x := by
  refine forall_congr' (fun x => ?_)
  rw [get_ints, get_ints]
  cases x.holdsInt <;> simp

theorem evaluate_ints (e : Exp) (f : Fact) : evaluate e f.ints = evaluate e f := by
  cases e with
  | var x =>
      rw [evaluate_var, evaluate_var, get_ints]
      split <;> rfl
  | binary op l r =>
      rw [evaluate_binary, evaluate_binary, get_ints, get_ints]
      split
      · rename_i h
        obtain ⟨hl, hr⟩ := Bool.and_eq_true_iff.1 h
        rw [if_pos hl, if_pos hr]
      · rfl
  | unclassed op l r =>
      rw [evaluate_unclassed, evaluate_unclassed, get_ints, get_ints]
      split
      · rename_i h
        obtain ⟨hl, hr⟩ := Bool.and_eq_true_iff.1 h
        rw [if_pos hl, if_pos hr]
      · rfl
  | int _ | long _ | double _ | str _ | null | neg _ | new _ _ | cast _ _ | instanceField _ _ _
  | staticField _ _ _ | element _ _ | call _ => rfl

theorem get_ints_update (f : Fact) {x : Var} (hx : x.holdsInt = true) (v : Value) (y : Var) :
    (f.update x v).ints.get y = (f.ints.update x v).get y := by
  rw [get_ints, get_update, get_update, get_ints]
  by_cases hy : y = x
  · rw [if_pos hy, if_pos hy, hy, if_pos hx]
  · rw [if_neg hy, if_neg hy]

theorem get_ints_transfer (s : Option (Stmt Target)) (f : Fact) (x : Var) :
    (ConstProp.transfer s f).ints.get x = (ConstProp.transfer s f.ints).get x := by
  cases s with
  | none => rfl
  | some s =>
      cases s with
      | assign y e =>
          rw [ConstProp.transfer_assign, ConstProp.transfer_assign, evaluate_ints]
          split
          · exact get_ints_update f ‹_› _ x
          · rfl
      | invoke result c =>
          cases result with
          | none => rfl
          | some y =>
              rw [ConstProp.transfer_result, ConstProp.transfer_result]
              split
              · exact get_ints_update f ‹_› _ x
              · rfl
      | nop _ | branch _ _ | goto _ | switch _ _ _ _ | ret _ => rfl

theorem get_ints_meetInto (f t : Fact) (x : Var) :
    (f.meetInto t).ints.get x = (f.ints.meetInto t.ints).get x := by
  rw [get_ints, get_meetInto, get_meetInto, get_ints, get_ints]
  split
  · rfl
  · exact (Value.undef_meet _).symm

theorem evaluate_congr (h : ∀ x, f.get x = g.get x) (e : Exp) : evaluate e f = evaluate e g := by
  cases e with
  | var x => rw [evaluate_var, evaluate_var, h x]
  | binary op l r => rw [evaluate_binary, evaluate_binary, h l, h r]
  | unclassed op l r => rw [evaluate_unclassed, evaluate_unclassed, h l, h r]
  | int _ | long _ | double _ | str _ | null | neg _ | new _ _ | cast _ _ | instanceField _ _ _
  | staticField _ _ _ | element _ _ | call _ => rfl

theorem SameInts.evaluate (h : f.SameInts g) (e : Exp) :
    Dataflow.evaluate e f = Dataflow.evaluate e g := by
  rw [← evaluate_ints e f, ← evaluate_ints e g]
  exact evaluate_congr ((sameInts_iff f g).1 h) e

theorem SameInts.meetInto {t u : Fact} (h : f.SameInts g) (ht : t.SameInts u) :
    (f.meetInto t).SameInts (g.meetInto u) := by
  intro x hx
  rw [get_meetInto, get_meetInto, h x hx, ht x hx]

theorem SameInts.transfer (h : f.SameInts g) (s : Option (Stmt Target)) :
    (ConstProp.transfer s f).SameInts (ConstProp.transfer s g) := by
  cases s with
  | none => exact h
  | some s =>
      have hupdate : ∀ (x : Var) {v w : Value}, v = w → (f.update x v).SameInts (g.update x w) := by
        rintro x v w rfl y hy
        rw [get_update, get_update]
        split
        · rfl
        · exact h y hy
      cases s with
      | assign x e =>
          rw [ConstProp.transfer_assign, ConstProp.transfer_assign]
          split
          · exact hupdate x (h.evaluate e)
          · exact h
      | invoke result c =>
          cases result with
          | none => exact h
          | some x =>
              rw [ConstProp.transfer_result, ConstProp.transfer_result]
              split
              · exact hupdate x rfl
              · exact h
      | nop _ | branch _ _ | goto _ | switch _ _ _ _ | ret _ => exact h

end Fact

end Dataflow
