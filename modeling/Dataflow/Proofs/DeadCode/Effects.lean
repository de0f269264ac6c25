import Dataflow.Proofs.DeadCode.Exact
import Dataflow.Proofs.Eval.Arithmetic

namespace Dataflow

namespace Exp

/-- Evaluating the expression can fail or touch the heap: it allocates, casts, reads a field or an
element, calls a method or divides, whatever the form in which the operator stands. -/
def Effectful : Exp → Prop
  | new _ _ | cast _ _ | instanceField _ _ _ | staticField _ _ _ | element _ _ | call _ => True
  | binary op _ _ | unclassed op _ _ => op.Divides
  | int _ | long _ | double _ | str _ | null | var _ | neg _ => False

/-- An effect that the detection does not see: a call as the right side of an assignment, or a
division in the form that takes any operator. -/
def Unseen : Exp → Prop
  | call _ => True
  | unclassed op _ _ => op.Divides
  | _ => False

variable {e : Exp}

theorem Unseen.effectful (h : e.Unseen) : e.Effectful := by
  cases e with
  | call _ => trivial
  | unclassed op _ _ => exact h
  | int _ | long _ | double _ | str _ | null | var _ | binary _ _ _ | neg _ | new _ _ | cast _ _
  | instanceField _ _ _ | staticField _ _ _ | element _ _ => cases h

/-- What counts as pure has no effect, but for those that are not seen. -/
theorem isPure_iff : e.isPure = true ↔ (e.Effectful → e.Unseen) := by
  cases e with
  | int _ | long _ | double _ | str _ | null | var _ | neg _ | call _ | new _ _ | cast _ _
  | instanceField _ _ _ | staticField _ _ _ | element _ _ => simp [isPure, Effectful, Unseen]
  | unclassed op _ _ => simp [isPure, Effectful, Unseen]
  | binary op _ _ =>
      cases op with
      | arith op => cases op <;> simp [isPure, Effectful, Unseen, BinaryOp.Divides]
      | bit _ | cond _ | shift _ => simp [isPure, Effectful, Unseen, BinaryOp.Divides]

end Exp

namespace DeadCode

variable {b : Body} {s : Basis} {t : BranchTruth} {i : Nat}

theorem Basis.Grounded.mem_dead_iff_of_reaches (hs : s.Grounded b) (h : s.Reaches t (.stmt i)) :
    i ∈ s.dead t ↔ ∃ x e live, b.stmt? i = some (.assign x e) ∧
      s.live.after.get? (.stmt i) = some live ∧ x ∉ live ∧ (e.Effectful → e.Unseen) := by
  rw [hs.mem_dead_iff, hs.mem_explored_iff]
  simp only [Exp.isPure_iff]
  constructor
  · rintro ⟨-, hnot | hassign⟩
    · exact absurd h hnot
    · exact hassign
  · rintro ⟨x, e, live, hstmt, hassign⟩
    exact ⟨(List.getElem?_eq_some_iff.1 hstmt).1, .inr ⟨x, e, live, hstmt, hassign⟩⟩

/-- Of the statements that control can get to, those are reported that assign to a variable not live
behind them what has no effect, or an effect that is not seen. So none of them has an effect if and
only if control gets to no assignment to such a variable whose effect is not seen. -/
theorem dead_effects (hb : b.Built) : ∃ s, Basis.ofBody b = .ok s ∧ ∀ t,
    (∀ i, s.Reaches t (.stmt i) → (i ∈ s.dead t ↔ ∃ x e live,
      b.stmt? i = some (.assign x e) ∧ s.live.after.get? (.stmt i) = some live ∧ x ∉ live ∧
        (e.Effectful → e.Unseen))) ∧
    ((∀ i ∈ s.dead t, s.Reaches t (.stmt i) → ∀ x e, b.stmt? i = some (.assign x e) →
        ¬ e.Effectful) ↔
      ∀ i, s.Reaches t (.stmt i) → ∀ x e live, b.stmt? i = some (.assign x e) →
        s.live.after.get? (.stmt i) = some live → x ∉ live → ¬ e.Unseen) := by
  obtain ⟨s, hs, hgrounded⟩ := exists_basis_of_built hb
  refine ⟨s, hs, fun t => ⟨fun i h => hgrounded.mem_dead_iff_of_reaches h, ?_, ?_⟩⟩
  · intro hnone i hreached x e live hstmt hlive hx hunseen
    refine hnone i ?_ hreached x e hstmt hunseen.effectful
    exact (hgrounded.mem_dead_iff_of_reaches hreached).2
      ⟨x, e, live, hstmt, hlive, hx, fun _ => hunseen⟩
  · intro hseen i hi hreached x e hstmt heffect
    obtain ⟨y, d, live, hstmt', hlive, hy, hd⟩ :=
      (hgrounded.mem_dead_iff_of_reaches hreached).1 hi
    rw [hstmt] at hstmt'
    cases hstmt'
    exact hseen i hreached x e live hstmt hlive hy (hd heffect)

namespace Spent

def p : Var := ⟨0, 0, "p", .primitive .int, 0⟩

def x : Var := ⟨0, 1, "x", .primitive .int, 1⟩

def call : Call := ⟨.static, ⟨"Main", "int f()"⟩, [], none⟩

def requests : List Builder.Request := [
  .newParam "p" (.primitive .int),
  .newVar "x" (.primitive .int),
  .append (.assign x (.call call)),
  .append (.assign x (.unclassed (.arith .div) p p)),
  .assignBinary x "/" p p,
  .assignBinary x "+" p p,
  .append (.ret none)]

def body : Body where
  name := "main"
  params := [p]
  vars := [p, x]
  stmts := [
    .assign x (.call call),
    .assign x (.unclassed (.arith .div) p p),
    .assign x (.binary (.arith .div) p p),
    .assign x (.binary (.arith .add) p p),
    .ret none]

theorem built_body : body.Built := ⟨"main", 0, requests, rfl⟩

theorem dead_body : (Basis.ofBody body).toOption.map (fun s =>
    (s.dead .eqOne, s.dead .positive, explored .eqOne s.graph s.constants)) =
    some ([0, 1, 3], [0, 1, 3],
      [.entry, .stmt 0, .stmt 1, .stmt 2, .stmt 3, .stmt 4, .exit]) := by
  decide +kernel

variable {s : Basis}

theorem dead_of_body (hs : Basis.ofBody body = .ok s) :
    s.dead .eqOne = [0, 1, 3] ∧ s.dead .positive = [0, 1, 3] ∧
      ∀ i < body.size, s.Reaches .eqOne (.stmt i) := by
  obtain ⟨s', hs', hgrounded⟩ := exists_basis_of_built built_body
  rw [hs] at hs'
  cases hs'
  have hd := dead_body
  rw [hs] at hd
  obtain ⟨hone, hd⟩ := Prod.mk.inj (Option.some.inj hd)
  obtain ⟨hpositive, hex⟩ := Prod.mk.inj hd
  refine ⟨hone, hpositive, fun i hi => hgrounded.mem_explored_iff.1 ?_⟩
  have hall : ∀ i < body.size, Node.stmt i ∈
      [.entry, .stmt 0, .stmt 1, .stmt 2, .stmt 3, .stmt 4, .exit] := by decide
  rw [hex]
  exact hall i hi

theorem dead_effects_spent : body.Built ∧ ∃ s, Basis.ofBody body = .ok s ∧
    3 ∈ s.dead .eqOne ∧ s.Reaches .eqOne (.stmt 3) ∧ ∃ live,
      s.live.after.get? (.stmt 3) = some live ∧ x ∉ live := by
  obtain ⟨s, hs, heffects⟩ := dead_effects built_body
  obtain ⟨hdead, -, hreached⟩ := dead_of_body hs
  have hmem : 3 ∈ s.dead .eqOne := by
    rw [hdead]
    decide
  have hreached : s.Reaches .eqOne (.stmt 3) := hreached 3 (by decide)
  obtain ⟨y, e, live, hstmt, hlive, hy, -⟩ := ((heffects .eqOne).1 3 hreached).1 hmem
  cases hstmt
  exact ⟨built_body, s, hs, hmem, hreached, live, hlive, hy⟩

/-- A call and a division are reported though control gets to them. -/
theorem effects_reported : (Builder.run { name := "main" } requests).2.build = .ok body ∧
    ∃ s, Basis.ofBody body = .ok s ∧ s.dead .eqOne = [0, 1, 3] ∧ s.dead .positive = [0, 1, 3] ∧
      s.Reaches .eqOne (.stmt 0) ∧ s.Reaches .eqOne (.stmt 1) ∧
      body.stmt? 0 = some (.assign x (.call call)) ∧
      body.stmt? 1 = some (.assign x (.unclassed (.arith .div) p p)) ∧
      (Exp.call call).Effectful ∧ (Exp.unclassed (.arith .div) p p).Effectful := by
  obtain ⟨s, hs, -⟩ := exists_basis_of_built built_body
  obtain ⟨hone, hpositive, hreached⟩ := dead_of_body hs
  exact ⟨rfl, s, hs, hone, hpositive, hreached 0 (by decide), hreached 1 (by decide), rfl, rfl,
    trivial, .inl rfl⟩

end Spent

end DeadCode

end Dataflow
