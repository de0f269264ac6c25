import Dataflow.Body.Builder
import Dataflow.Proofs.Analysis.Bounds
import Dataflow.Proofs.Fact.Firm
import Dataflow.Proofs.FlowGraph.OfBody

namespace Dataflow

namespace Fact

/-- Wherever two facts differ, one of them does not know a constant any more. -/
def Akin (f g : Fact) : Prop := ∀ x, f.get x = g.get x ∨ f.get x = .nac ∨ g.get x = .nac

theorem akin_of_firm {f g : Fact} (hfg : f.Firm g) (hgf : g.Firm f) : f.Akin g := by
  intro x
  cases hf : f.get x with
  | nac => exact .inr (.inl rfl)
  | const n =>
      rcases Value.const_le_iff.1 (hfg x n hf) with hg | hg
      · exact .inl hg.symm
      · exact .inr (.inr hg)
  | undef =>
      cases hg : g.get x with
      | undef => exact .inl rfl
      | nac => exact .inr (.inr rfl)
      | const n =>
          have hn := hgf x n hg
          rw [hf] at hn
          cases Value.le_undef_iff.1 hn

end Fact

theorem evaluateOperands_nac_left (op : Int → Int → Value) (v : Value) :
    evaluateOperands op .nac v = .nac := by
  cases v <;> rfl

namespace Value

theorem evaluateOperands_le {op : Int → Int → Value} {u u' v v' : Value} (hu : u ≤ u') (hv : v ≤ v')
    (h : ∀ a b, u' = .const a → v' = .const b →
      (u = .undef ↔ v = .undef) ∨ op a b = .nac) :
    evaluateOperands op u v ≤ evaluateOperands op u' v' := by
  cases u' with
  | nac =>
      rw [evaluateOperands_nac_left]
      exact le_nac _
  | undef =>
      obtain rfl := le_undef_iff.1 hu
      cases v' with
      | undef =>
          obtain rfl := le_undef_iff.1 hv
          exact le_refl _
      | const _ | nac => exact le_nac _
  | const a =>
      cases v' with
      | undef | nac => exact le_nac _
      | const b =>
          rcases h a b rfl rfl with h | h
          · rcases le_const_iff.1 hu with rfl | rfl
            · obtain rfl := h.1 rfl
              exact undef_le _
            · obtain rfl := (le_const_iff.1 hv).resolve_left (fun hv => nomatch h.2 hv)
              exact le_refl _
          · change _ ≤ op a b
            rw [h]
            exact le_nac _

end Value

namespace ConstProp

/-- An operand comes late if it is still undefined beside a constant, though not in the end. -/
def comesLate (now final : Fact) (x y : Var) : Bool :=
  now.get x = .undef && (now.get y).isConst && final.get x ≠ .undef

def readsLate (s : Option (Stmt Target)) (now final : Fact) : Bool :=
  match s with
  | some (.assign x (.binary _ l r)) =>
    x.holdsInt && l.holdsInt && r.holdsInt && (comesLate now final l r || comesLate now final r l)
  | _ => false

variable {f g h : Fact}

theorem operand_of_not_comesLate {x y : Var} {a b : Int} (hle : f.get y ≤ g.get y) (hg : g.Firm h)
    (hx : g.get x = .const a) (hy : g.get y = .const b) (hl : comesLate f h x y = false)
    (hu : f.get x = .undef) : f.get y = .undef := by
  by_contra hne
  rw [hy] at hle
  have hc : f.get y = .const b := (Value.le_const_iff.1 hle).resolve_left hne
  have hfinal : h.get x ≠ .undef := by
    -- the constant on the right can have given way to not a constant, but it is not forgotten
    intro he
    have hk := hg x a hx
    rw [he] at hk
    cases Value.le_undef_iff.1 hk
  simp [comesLate, hu, hc, Value.isConst, hfinal] at hl

theorem evaluate_le {e : Exp} (hle : ∀ x, f.get x ≤ g.get x) (hg : g.Firm h)
    (hl : ∀ op l r, e = .binary op l r → l.holdsInt = true → r.holdsInt = true →
      comesLate f h l r = false ∧ comesLate f h r l = false) : evaluate e f ≤ evaluate e g := by
  cases e with
  | var x =>
      rw [evaluate_var, evaluate_var]
      split
      · exact hle x
      · exact le_refl _
  | binary op l r =>
      rw [evaluate_binary, evaluate_binary]
      split
      · rename_i hi
        obtain ⟨hil, hir⟩ := Bool.and_eq_true_iff.1 hi
        obtain ⟨hlr, hrl⟩ := hl op l r rfl hil hir
        refine Value.evaluateOperands_le (hle l) (hle r) (fun a b ha hb => .inl ⟨?_, ?_⟩)
        · exact operand_of_not_comesLate (hle r) hg ha hb hlr
        · exact operand_of_not_comesLate (hle l) hg hb ha hrl
      · exact le_refl _
  | unclassed op l r =>
      rw [evaluate_unclassed, evaluate_unclassed]
      split
      · exact Value.evaluateOperands_le (hle l) (hle r) (fun _ _ _ _ => .inr rfl)
      · exact le_refl _
  | int n => exact le_refl _
  | long _ | double _ | str _ | null | neg _ | new _ _ | cast _ _ | instanceField _ _ _
  | staticField _ _ _ | element _ _ | call _ => exact le_refl _

theorem get_update_le (hle : ∀ x, f.get x ≤ g.get x) {y : Var} {v w : Value} (hv : v ≤ w)
    (x : Var) : (f.update y v).get x ≤ (g.update y w).get x := by
  rw [Fact.get_update, Fact.get_update]
  split
  · exact hv
  · exact hle x

theorem transfer_le {s : Option (Stmt Target)} (hle : ∀ x, f.get x ≤ g.get x) (hg : g.Firm h)
    (hl : readsLate s f h = false) (x : Var) : (transfer s f).get x ≤ (transfer s g).get x := by
  cases s with
  | none => exact hle x
  | some s =>
      cases s with
      | assign y e =>
          rw [transfer_assign, transfer_assign]
          split
          · rename_i hy
            refine get_update_le hle (evaluate_le hle hg ?_) x
            rintro op l r rfl hil hir
            simpa [readsLate, hy, hil, hir] using hl
          · exact hle x
      | invoke result c =>
          cases result with
          | none => exact hle x
          | some y =>
              rw [transfer_result, transfer_result]
              split
              · exact get_update_le hle (le_refl _) x
              · exact hle x
      | nop _ | branch _ _ | goto _ | switch _ _ _ _ | ret _ => exact hle x

variable {c : Config} {g : FlowGraph}

/-- Whether the operands read while a graph is solved all come in time. -/
def Timely (c : Config) (s : Strategy) (g : FlowGraph) : Prop :=
  ∀ v ∈ (constProp c).history s g, readsLate (g.body.stmtOf? v.2)
    (((constProp c).system g).incoming v.1 v.2)
    (((constProp c).system g).input ((constProp c).run s g).2 v.2) = false

instance (c : Config) (s : Strategy) (g : FlowGraph) : Decidable (Timely c s g) :=
  inferInstanceAs (Decidable (∀ v ∈ _, _))

theorem meetInto_run (hg : g.validate = .ok ()) (s : Strategy) {n m : Node}
    (hn : n ∈ (constProp c).order g) (hm : m ∈ (constProp c).sources g n) :
    (((constProp c).system g).result ((constProp c).run s g).2 m).meetInto
        (((constProp c).system g).input ((constProp c).run s g).2 n) =
      ((constProp c).system g).input ((constProp c).run s g).2 n :=
  Analysis.meetInto_run (constProp_accumulates c) hg (constProp_grows c g.body) s hn hm

theorem get_result_run (hg : g.validate = .ok ()) (s : Strategy) {n : Node}
    (hn : n ∈ (constProp c).order g) (x : Var) :
    (((constProp c).system g).result ((constProp c).run s g).2 n).get x =
      (transfer (g.body.stmtOf? n)
        (((constProp c).system g).input ((constProp c).run s g).2 n)).get x :=
  (Fact.same_iff _ _).1 (Analysis.run_stable (constProp_accumulates c) hg
    (constProp_grows c g.body) s hn).2 x

theorem incoming_induction {P : Fact → Prop} {st : System.State Node Fact} {n : Node}
    (h : P (((constProp c).system g).input st n))
    (step : ∀ f, P f → ∀ m ∈ (constProp c).sources g n,
      P ((((constProp c).system g).result st m).meetInto f)) :
    P (((constProp c).system g).incoming st n) :=
  List.foldlRecOn _ _ h step

def Pointwise (r : Value → Value → Prop) (f f' : Fact) : Prop := ∀ x, r (f.get x) (f'.get x)

def Throughout (r : Value → Value → Prop) (c : Config) (g : FlowGraph)
    (st st' : System.State Node Fact) : Prop :=
  ((constProp c).system g).Throughout
    (fun n f => Pointwise r f (((constProp c).system g).input st' n))
    (fun n f => Pointwise r f (((constProp c).system g).result st' n)) st

/-- A relation that meets keep, and the statements a run visits, holds between all that the run finds on
its way and the end of any other run, also of one that starts with other parameters known. -/
theorem throughout_runs {R : Fact → Fact → Prop} {c' : Config} (hempty : ∀ f, R .empty f)
    (hboundary : R (boundary c.seeding g.body) (boundary c'.seeding g.body))
    (hmeet : ∀ {f f' t t'}, R f f' → R t t' → R (f.meetInto t) (f'.meetInto t'))
    (hsame : ∀ {f f' h}, (∀ x, f'.get x = h.get x) → R f h → R f f')
    (hg : g.validate = .ok ()) (s t : Strategy)
    (htransfer : ∀ v ∈ (constProp c).history s g,
      R (((constProp c).system g).incoming v.1 v.2)
        (((constProp c').system g).input ((constProp c').run t g).2 v.2) →
      R (transfer (g.body.stmtOf? v.2) (((constProp c).system g).incoming v.1 v.2))
        (transfer (g.body.stmtOf? v.2)
          (((constProp c').system g).input ((constProp c').run t g).2 v.2))) :
    ((constProp c).system g).Throughout
      (fun n f => R f (((constProp c').system g).input ((constProp c').run t g).2 n))
      (fun n f => R f (((constProp c').system g).result ((constProp c').run t g).2 n))
      ((constProp c).run s g).2 := by
  rw [Analysis.run_eq_visitAll _ s]
  refine System.visitAll_induction (P := ((constProp c).system g).Throughout _ _)
    (fun n => ⟨?_, ?_⟩) (fun v hv h => ?_)
  · rw [Analysis.input_begin]
    exact hempty _
  · rw [Analysis.result_begin]
    split
    · rename_i hn
      rw [hn]
      exact (Analysis.facts_start (a := constProp c') hg t).2 ▸ hboundary
    · exact hempty _
  · have hn := Analysis.mem_order_of_mem_itinerary hg (System.mem_of_mem_history hv)
    have hin : R (((constProp c).system g).incoming v.1 v.2)
        (((constProp c').system g).input ((constProp c').run t g).2 v.2) := by
      refine incoming_induction (P := fun f => R f _) (h v.2).1 (fun f hf m hm => ?_)
      rw [← meetInto_run (c := c') hg t hn hm]
      exact hmeet (h m).2 hf
    exact System.throughout_visit h hin
      (hsame (get_result_run (c := c') hg t hn) (htransfer v hv hin))

theorem throughout_run {r : Value → Value → Prop} (hundef : ∀ v, r .undef v) (hrefl : ∀ v, r v v)
    (hmeet : ∀ {u u' v v'}, r u u' → r v v' → r (u.meet v) (u'.meet v'))
    (hg : g.validate = .ok ()) (s t : Strategy)
    (htransfer : ∀ v ∈ (constProp c).history s g,
      Pointwise r (((constProp c).system g).incoming v.1 v.2)
        (((constProp c).system g).input ((constProp c).run t g).2 v.2) →
      Pointwise r (transfer (g.body.stmtOf? v.2) (((constProp c).system g).incoming v.1 v.2))
        (transfer (g.body.stmtOf? v.2)
          (((constProp c).system g).input ((constProp c).run t g).2 v.2))) :
    Throughout r c g ((constProp c).run s g).2 ((constProp c).run t g).2 := by
  refine throughout_runs (R := Pointwise r) (fun _ _ => hundef _) (fun _ => hrefl _) ?_ ?_ hg s t
    htransfer
  · intro f f' t t' hf ht x
    rw [Fact.get_meetInto, Fact.get_meetInto]
    exact hmeet (hf x) (ht x)
  · intro f f' h he hf x
    rw [he x]
    exact hf x

/-- A constant known on the way of any run is known at the end of every other, or gives way to not a
constant there. -/
theorem firm_run (hg : g.validate = .ok ()) (s t : Strategy) :
    Throughout Value.Firm c g ((constProp c).run s g).2 ((constProp c).run t g).2 :=
  throughout_run Value.firm_undef Value.Firm.refl Value.Firm.meet hg s t
    (fun _ _ hin => Fact.Firm.transfer hin _)

theorem le_run (hg : g.validate = .ok ()) {s : Strategy} (hs : Timely c s g) (t : Strategy) :
    Throughout (· ≤ ·) c g ((constProp c).run s g).2 ((constProp c).run t g).2 := by
  have hfirm := firm_run (c := c) hg t s
  exact throughout_run Value.undef_le le_refl Value.meet_le_meet hg s t
    (fun v hv hin => transfer_le hin (hfirm v.2).1 (hs v hv))

end ConstProp

/-- How the strategies compare. On every graph of a body their solutions differ at most in that one says
not a constant where the other says something else, and if under both all operands come in time they
are the same. -/
theorem constProp_strategies (c : Config) {b : Body} {g : FlowGraph}
    (hb : FlowGraph.ofBody b = .ok g) :
    ∃ sol sol', (constProp c).solve .iterative g = .ok sol ∧
      (constProp c).solve .worklist g = .ok sol' ∧ sol.Related Fact.Akin g sol' ∧
      (ConstProp.Timely c .iterative g → ConstProp.Timely c .worklist g →
        sol.Related (fun f f' => f.same f' = true) g sol') := by
  have hg := FlowGraph.validate_ofBody hb
  obtain ⟨sol, hsol, -⟩ := Analysis.solve_facts (a := constProp c) hg .iterative
  obtain ⟨sol', hsol', -⟩ := Analysis.solve_facts (a := constProp c) hg .worklist
  refine ⟨sol, sol', hsol, hsol', ?_, fun hs ht => ?_⟩
  · have h := ConstProp.firm_run (c := c) hg .iterative .worklist
    have h' := ConstProp.firm_run (c := c) hg .worklist .iterative
    exact Analysis.related_of_solve hg hsol hsol' (fun n _ =>
      ⟨Fact.akin_of_firm (h n).1 (h' n).1, Fact.akin_of_firm (h n).2 (h' n).2⟩)
  · have h := ConstProp.le_run hg hs .worklist
    have h' := ConstProp.le_run hg ht .iterative
    refine Analysis.related_of_solve hg hsol hsol' (fun n _ => ⟨?_, ?_⟩)
    · exact (Fact.same_iff _ _).2 (fun x => le_antisymm ((h n).1 x) ((h' n).1 x))
    · exact (Fact.same_iff _ _).2 (fun x => le_antisymm ((h n).2 x) ((h' n).2 x))

open FlowGraph in
theorem constProp_strategies_countdown : ofBody countdown.body = .ok countdown ∧
    ConstProp.Timely (.default .constprop) .iterative countdown ∧
    ConstProp.Timely (.default .constprop) .worklist countdown ∧
    ∃ sol sol', (constProp (.default .constprop)).solve .iterative countdown = .ok sol ∧
      (constProp (.default .constprop)).solve .worklist countdown = .ok sol' ∧
      sol.Related (fun f f' => f.same f' = true) countdown sol' := by
  have hb : ofBody countdown.body = .ok countdown := rfl
  have hs : ConstProp.Timely (.default .constprop) .iterative countdown := by decide +kernel
  have ht : ConstProp.Timely (.default .constprop) .worklist countdown := by decide +kernel
  obtain ⟨sol, sol', hsol, hsol', -, h⟩ := constProp_strategies (.default .constprop) hb
  exact ⟨hb, hs, ht, sol, sol', hsol, hsol', h hs ht⟩

namespace Racing

def p : Var := ⟨0, 0, "p", .primitive .int, 0⟩

def a : Var := ⟨0, 1, "a", .primitive .int, 1⟩

def b : Var := ⟨0, 2, "b", .primitive .int, 2⟩

def x : Var := ⟨0, 3, "x", .primitive .int, 3⟩

def requests : List Builder.Request := [
  .newParam "p" (.primitive .int),
  .newVar "a" (.primitive .int),
  .newVar "b" (.primitive .int),
  .newVar "x" (.primitive .int),
  .branchOn "==" p p "one",
  .append (.goto "other"),
  .label "relay",
  .append (.goto "sum"),
  .label "sum",
  .assignBinary x "+" a b,
  .append (.ret (some x)),
  .label "then b",
  .append (.assign b (.int 2)),
  .append (.goto "sum"),
  .label "then a",
  .append (.assign a (.int 1)),
  .append (.goto "relay"),
  .label "one",
  .append (.assign a (.int 1)),
  .append (.goto "then b"),
  .label "other",
  .append (.assign b (.int 2)),
  .append (.goto "then a")]

def body : Body where
  name := "main"
  params := [p]
  vars := [p, a, b, x]
  stmts := [
    .branch (.binary (.cond .eq) p p) (.stmt 9),
    .goto (.stmt 11),
    .goto (.stmt 3),
    .assign x (.binary (.arith .add) a b),
    .ret (some x),
    .assign b (.int 2),
    .goto (.stmt 3),
    .assign a (.int 1),
    .goto (.stmt 2),
    .assign a (.int 1),
    .goto (.stmt 5),
    .assign b (.int 2),
    .goto (.stmt 7)]

def flow : FlowGraph where
  body := body
  edges := [
    ⟨.entry, .stmt 0, .entry, none⟩,
    ⟨.stmt 0, .stmt 9, .ifTrue, none⟩,
    ⟨.stmt 0, .stmt 1, .ifFalse, none⟩,
    ⟨.stmt 1, .stmt 11, .goto, none⟩,
    ⟨.stmt 2, .stmt 3, .goto, none⟩,
    ⟨.stmt 3, .stmt 4, .fallThrough, none⟩,
    ⟨.stmt 4, .exit, .ret, none⟩,
    ⟨.stmt 5, .stmt 6, .fallThrough, none⟩,
    ⟨.stmt 6, .stmt 3, .goto, none⟩,
    ⟨.stmt 7, .stmt 8, .fallThrough, none⟩,
    ⟨.stmt 8, .stmt 2, .goto, none⟩,
    ⟨.stmt 9, .stmt 10, .fallThrough, none⟩,
    ⟨.stmt 10, .stmt 5, .goto, none⟩,
    ⟨.stmt 11, .stmt 12, .fallThrough, none⟩,
    ⟨.stmt 12, .stmt 7, .goto, none⟩]
  ends := by decide

theorem build_requests : (Builder.run { name := "main" } requests).2.build = .ok body := rfl

theorem ofBody_body : FlowGraph.ofBody body = .ok flow := rfl

theorem rounds_input_return :
    (((constProp (.default .constprop)).system flow).input
      ((constProp (.default .constprop)).run .iterative flow).2 (.stmt 4)).get x = .const 3 := by
  decide +kernel

theorem worklist_input_return :
    (((constProp (.default .constprop)).system flow).input
      ((constProp (.default .constprop)).run .worklist flow).2 (.stmt 4)).get x = .nac := by
  decide +kernel

theorem strategies_disagree :
    (Builder.run { name := "main" } requests).2.build = .ok body ∧
      FlowGraph.ofBody body = .ok flow ∧
      ∃ sol sol' f f', (constProp (.default .constprop)).solve .iterative flow = .ok sol ∧
        (constProp (.default .constprop)).solve .worklist flow = .ok sol' ∧
        sol.before.get? (.stmt 4) = some f ∧ sol'.before.get? (.stmt 4) = some f' ∧
        f.get x = .const 3 ∧ f'.get x = .nac ∧ f.same f' = false := by
  have hg := FlowGraph.validate_ofBody ofBody_body
  have hn : Node.stmt 4 ∈ flow.nodes := by decide
  obtain ⟨sol, hsol, -, -, -, hfacts⟩ :=
    Analysis.solve_facts (a := constProp (.default .constprop)) hg .iterative
  obtain ⟨sol', hsol', -, -, -, hfacts'⟩ :=
    Analysis.solve_facts (a := constProp (.default .constprop)) hg .worklist
  refine ⟨build_requests, ofBody_body, sol, sol', _, _, hsol, hsol', (hfacts _ hn).1,
    (hfacts' _ hn).1, rounds_input_return, worklist_input_return, ?_⟩
  refine Bool.eq_false_iff.2 (fun he => ?_)
  have hx := (Fact.same_iff _ _).1 he x
  rw [rounds_input_return, worklist_input_return] at hx
  cases hx

end Racing

end Dataflow
