import Dataflow.Proofs.Analysis.Strategies
import Dataflow.Proofs.Fact.Ints
import Dataflow.Proofs.FixedPoint.Parallel

namespace Dataflow

def Fact.AkinInts (f g : Fact) : Prop :=
  ∀ x, x.holdsInt = true → f.get x = g.get x ∨ f.get x = .nac ∨ g.get x = .nac

namespace ConstProp

variable {c c' : Config} {g : FlowGraph}

theorem sameInts_seed (s s' : Seeding) {f f' : Fact} (h : f.SameInts f') (l : List Var) :
    (l.foldl (fun f x => if s = .all || x.holdsInt then f.update x .nac else f) f).SameInts
      (l.foldl (fun f x => if s' = .all || x.holdsInt then f.update x .nac else f) f') := by
  induction l generalizing f f' with
  | nil => exact h
  | cons y l ih =>
      refine ih (fun x hx => ?_)
      by_cases he : x = y
      · subst he
        simp [hx]
      · have hkeep : ∀ (s : Seeding) (f : Fact),
            (if s = .all || y.holdsInt then f.update y .nac else f).get x = f.get x := by
          intro s f
          split
          · rw [Fact.get_update, if_neg he]
          · rfl
        rw [hkeep, hkeep]
        exact h x hx

theorem sameInts_boundary (s s' : Seeding) (b : Body) :
    (boundary s b).SameInts (boundary s' b) :=
  sameInts_seed s s' (fun _ _ => rfl) b.params

theorem respects_sameInts (c : Config) (g : FlowGraph) :
    ((constProp c).system g).Respects Fact.SameInts where
  collect n f f' before before' hf hb := by
    change Fact.SameInts (List.foldl _ _ _) (List.foldl _ _ _)
    generalize (constProp c).sources g n = l
    induction l generalizing before before' with
    | nil => exact hb
    | cons m l ih => exact ih _ _ ((hf m).meetInto hb)
  transfer n _ _ h := h.transfer _
  same hf hf' h x hx := by
    rw [(Fact.same_iff _ _).1 hf x, (Fact.same_iff _ _).1 hf' x]
    exact h x hx

theorem inStep_begin (c c' : Config) (g : FlowGraph) : ((constProp c).system g).InStep Fact.SameInts
    ((constProp c).begin g) ((constProp c').begin g) := by
  intro n
  have hi := Analysis.input_begin (constProp c) g n
  have hi' := Analysis.input_begin (constProp c') g n
  have hr := Analysis.result_begin (constProp c) g n
  have hr' := Analysis.result_begin (constProp c') g n
  change ((constProp c).system g).input ((constProp c').begin g) n = _ at hi'
  change ((constProp c).system g).result ((constProp c').begin g) n = _ at hr'
  rw [hi, hi', hr, hr']
  refine ⟨fun _ _ => rfl, ?_⟩
  by_cases hn : n = .entry
  · subst hn
    exact sameInts_boundary c.seeding c'.seeding g.body
  · have hs : n ≠ (constProp c).start := hn
    have hs' : n ≠ (constProp c').start := hn
    rw [if_neg hs, if_neg hs']
    exact fun _ _ => rfl

theorem inStep_rounds (hg : g.validate = .ok ()) (c c' : Config) :
    ((constProp c).system g).InStep Fact.SameInts ((constProp c).run .iterative g).2
      ((constProp c').run .iterative g).2 := by
  have hs : ∀ n ∈ (constProp c).order g, ((constProp c).system g).Stable
      ((constProp c).run .iterative g).2 n := fun n hn =>
    Analysis.run_stable (constProp_accumulates c) hg (constProp_grows c g.body) .iterative hn
  have hs' : ∀ n ∈ (constProp c).order g, ((constProp c).system g).Stable
      ((constProp c').run .iterative g).2 n := fun n hn =>
    Analysis.run_stable (constProp_accumulates c') hg (constProp_grows c' g.body) .iterative hn
  rw [Analysis.run_eq_visitAll] at hs hs' ⊢
  rw [Analysis.run_eq_visitAll]
  exact System.inStep_sweeps (Analysis.local_system (constProp_accumulates c) g)
    (respects_sameInts c g) (inStep_begin c c' g) hs hs'

theorem readsLate_ints (s : Option (Stmt Target)) (now final : Fact) :
    readsLate s now.ints final.ints = readsLate s now final := by
  simp only [readsLate]
  split
  · rename_i x op l r
    cases hl : l.holdsInt with
    | false => simp
    | true =>
        cases hr : r.holdsInt with
        | false => simp
        | true => simp [comesLate, hl, hr]
  · rfl

theorem ints_runs {r : Value → Value → Prop} (hundef : ∀ v, r .undef v) (hrefl : ∀ v, r v v)
    (hmeet : ∀ {u u' v v'}, r u u' → r v v' → r (u.meet v) (u'.meet v'))
    (hg : g.validate = .ok ()) (s t : Strategy)
    (htransfer : ∀ v ∈ (constProp c).history s g,
      Pointwise r (((constProp c).system g).incoming v.1 v.2).ints
        (((constProp c').system g).input ((constProp c').run t g).2 v.2).ints →
      Pointwise r (transfer (g.body.stmtOf? v.2) (((constProp c).system g).incoming v.1 v.2).ints)
        (transfer (g.body.stmtOf? v.2)
          (((constProp c').system g).input ((constProp c').run t g).2 v.2).ints)) :
    ((constProp c).system g).Throughout
      (fun n f => Pointwise r f.ints
        (((constProp c').system g).input ((constProp c').run t g).2 n).ints)
      (fun n f => Pointwise r f.ints
        (((constProp c').system g).result ((constProp c').run t g).2 n).ints)
      ((constProp c).run s g).2 := by
  refine throughout_runs (R := fun f f' => Pointwise r f.ints f'.ints) ?_ ?_ ?_ ?_ hg s t ?_
  · intro f x
    rw [Fact.get_ints, Fact.get_empty, ite_self]
    exact hundef _
  · intro x
    rw [(Fact.sameInts_iff _ _).1 (sameInts_boundary c.seeding c'.seeding g.body) x]
    exact hrefl _
  · intro f f' t t' hf ht x
    rw [Fact.get_ints_meetInto, Fact.get_ints_meetInto, Fact.get_meetInto, Fact.get_meetInto]
    exact hmeet (hf x) (ht x)
  · intro f f' h he hf x
    have hx := hf x
    rw [Fact.get_ints] at hx ⊢
    rw [Fact.get_ints] at hx ⊢
    rw [he x]
    exact hx
  · intro v hv hin x
    rw [Fact.get_ints_transfer, Fact.get_ints_transfer]
    exact htransfer v hv hin x

theorem firm_ints_runs (hg : g.validate = .ok ()) (c c' : Config) (s t : Strategy) (n : Node) :
    (((constProp c).system g).input ((constProp c).run s g).2 n).ints.Firm
        (((constProp c').system g).input ((constProp c').run t g).2 n).ints ∧
      (((constProp c).system g).result ((constProp c).run s g).2 n).ints.Firm
        (((constProp c').system g).result ((constProp c').run t g).2 n).ints :=
  ints_runs Value.firm_undef Value.Firm.refl Value.Firm.meet hg s t
    (fun _ _ hin => Fact.Firm.transfer hin _) n

theorem le_ints_runs (hg : g.validate = .ok ()) {c : Config} (c' : Config) {s : Strategy}
    (hs : Timely c s g) (t : Strategy) (n : Node) (x : Var) :
    (((constProp c).system g).input ((constProp c).run s g).2 n).ints.get x ≤
        (((constProp c').system g).input ((constProp c').run t g).2 n).ints.get x ∧
      (((constProp c).system g).result ((constProp c).run s g).2 n).ints.get x ≤
        (((constProp c').system g).result ((constProp c').run t g).2 n).ints.get x := by
  have hle : Pointwise (· ≤ ·) _ _ ∧ Pointwise (· ≤ ·) _ _ :=
    ints_runs Value.undef_le le_refl Value.meet_le_meet hg s t (fun v hv hin => transfer_le hin
      (firm_ints_runs hg c' c t s v.2).1 ((readsLate_ints _ _ _).trans (hs v hv))) n
  exact ⟨hle.1 x, hle.2 x⟩

theorem akinInts_of_firm {f f' : Fact} (h : f.ints.Firm f'.ints) (h' : f'.ints.Firm f.ints) :
    f.AkinInts f' := by
  intro x hx
  have hakin := Fact.akin_of_firm h h' x
  rwa [Fact.get_ints, Fact.get_ints, if_pos hx, if_pos hx] at hakin

end ConstProp

/-- What is known of parameters that are not for ints is for show only, as far as rounds are concerned:
whatever parameters are seeded, the solutions agree on every variable for ints and on the value of
every expression. With a worklist they may differ, where one says not a constant, unless under both
seedings all operands come in time. -/
theorem constProp_seeding (c c' : Config) {b : Body} {g : FlowGraph}
    (hb : FlowGraph.ofBody b = .ok g) :
    (∃ sol sol', (constProp c).solve .iterative g = .ok sol ∧
      (constProp c').solve .iterative g = .ok sol' ∧
      sol.Related (fun f f' => f.SameInts f' ∧ ∀ e, evaluate e f = evaluate e f') g sol') ∧
    ∃ sol sol', (constProp c).solve .worklist g = .ok sol ∧
      (constProp c').solve .worklist g = .ok sol' ∧ sol.Related Fact.AkinInts g sol' ∧
      (ConstProp.Timely c .worklist g → ConstProp.Timely c' .worklist g →
        sol.Related (fun f f' => f.SameInts f' ∧ ∀ e, evaluate e f = evaluate e f') g sol') := by
  have hg := FlowGraph.validate_ofBody hb
  have hd : (constProp c).direction = (constProp c').direction := rfl
  constructor
  · obtain ⟨sol, hsol, -⟩ := Analysis.solve_facts (a := constProp c) hg .iterative
    obtain ⟨sol', hsol', -⟩ := Analysis.solve_facts (a := constProp c') hg .iterative
    have h := ConstProp.inStep_rounds hg c c'
    exact ⟨sol, sol', hsol, hsol', Analysis.related_of_solves hd hg hsol hsol' (fun n _ =>
      ⟨⟨(h n).1, (h n).1.evaluate⟩, ⟨(h n).2, (h n).2.evaluate⟩⟩)⟩
  · obtain ⟨sol, hsol, -⟩ := Analysis.solve_facts (a := constProp c) hg .worklist
    obtain ⟨sol', hsol', -⟩ := Analysis.solve_facts (a := constProp c') hg .worklist
    refine ⟨sol, sol', hsol, hsol', ?_, fun hs hs' => ?_⟩
    · have h := ConstProp.firm_ints_runs hg c c' .worklist .worklist
      have h' := ConstProp.firm_ints_runs hg c' c .worklist .worklist
      exact Analysis.related_of_solves hd hg hsol hsol' (fun n _ =>
        ⟨ConstProp.akinInts_of_firm (h n).1 (h' n).1, ConstProp.akinInts_of_firm (h n).2 (h' n).2⟩)
    · have h := ConstProp.le_ints_runs hg c' hs .worklist
      have h' := ConstProp.le_ints_runs hg c hs' .worklist
      refine Analysis.related_of_solves hd hg hsol hsol' (fun n _ => ?_)
      have hin := (Fact.sameInts_iff _ _).2 (fun x => le_antisymm (h n x).1 (h' n x).1)
      have hout := (Fact.sameInts_iff _ _).2 (fun x => le_antisymm (h n x).2 (h' n x).2)
      exact ⟨⟨hin, hin.evaluate⟩, ⟨hout, hout.evaluate⟩⟩

def seedAll : Config := ⟨.constprop, .ofList [("param-seeding", "all")]⟩

open FlowGraph in
theorem constProp_seeding_countdown : ofBody countdown.body = .ok countdown ∧
    ConstProp.Timely (.default .constprop) .worklist countdown ∧
    ConstProp.Timely seedAll .worklist countdown ∧
    ∃ sol sol', (constProp (.default .constprop)).solve .worklist countdown = .ok sol ∧
      (constProp seedAll).solve .worklist countdown = .ok sol' ∧
      sol.Related (fun f f' => f.SameInts f' ∧ ∀ e, evaluate e f = evaluate e f') countdown sol' := by
  have hb : ofBody countdown.body = .ok countdown := rfl
  have hs : ConstProp.Timely (.default .constprop) .worklist countdown := by decide +kernel
  have ht : ConstProp.Timely seedAll .worklist countdown := by decide +kernel
  obtain ⟨-, sol, sol', hsol, hsol', -, h⟩ := constProp_seeding (.default .constprop) seedAll hb
  exact ⟨hb, hs, ht, sol, sol', hsol, hsol', h hs ht⟩

namespace Heralded

def r : Var := ⟨0, 0, "r", .cls "A", 0⟩

def a : Var := ⟨0, 1, "a", .primitive .int, 1⟩

def b : Var := ⟨0, 2, "b", .primitive .int, 2⟩

def x : Var := ⟨0, 3, "x", .primitive .int, 3⟩

def requests : List Builder.Request := [
  .newParam "r" (.cls "A"),
  .newVar "a" (.primitive .int),
  .newVar "b" (.primitive .int),
  .newVar "x" (.primitive .int),
  .label "begin",
  .branchOn "==" r r "begin",
  .label "sum",
  .assignBinary x "+" a b,
  .label "again",
  .branchOn "==" r r "sum",
  .append (.assign b (.int 2)),
  .label "back",
  .branchOn "==" r r "begin",
  .branchOn "==" r r "again",
  .append (.assign a (.int 1)),
  .branchOn "==" r r "back",
  .append (.ret (some x))]

def test : Exp := .binary (.cond .eq) r r

def body : Body where
  name := "main"
  params := [r]
  vars := [r, a, b, x]
  stmts := [
    .branch test (.stmt 0),
    .assign x (.binary (.arith .add) a b),
    .branch test (.stmt 1),
    .assign b (.int 2),
    .branch test (.stmt 0),
    .branch test (.stmt 2),
    .assign a (.int 1),
    .branch test (.stmt 4),
    .ret (some x)]

def flow : FlowGraph where
  body := body
  edges := [
    ⟨.entry, .stmt 0, .entry, none⟩,
    ⟨.stmt 0, .stmt 0, .ifTrue, none⟩,
    ⟨.stmt 0, .stmt 1, .ifFalse, none⟩,
    ⟨.stmt 1, .stmt 2, .fallThrough, none⟩,
    ⟨.stmt 2, .stmt 1, .ifTrue, none⟩,
    ⟨.stmt 2, .stmt 3, .ifFalse, none⟩,
    ⟨.stmt 3, .stmt 4, .fallThrough, none⟩,
    ⟨.stmt 4, .stmt 0, .ifTrue, none⟩,
    ⟨.stmt 4, .stmt 5, .ifFalse, none⟩,
    ⟨.stmt 5, .stmt 2, .ifTrue, none⟩,
    ⟨.stmt 5, .stmt 6, .ifFalse, none⟩,
    ⟨.stmt 6, .stmt 7, .fallThrough, none⟩,
    ⟨.stmt 7, .stmt 4, .ifTrue, none⟩,
    ⟨.stmt 7, .stmt 8, .ifFalse, none⟩,
    ⟨.stmt 8, .exit, .ret, none⟩]
  ends := by decide

theorem build_requests : (Builder.run { name := "main" } requests).2.build = .ok body := rfl

theorem ofBody_body : FlowGraph.ofBody body = .ok flow := rfl

theorem intOnly_input_return :
    (((constProp (.default .constprop)).system flow).input
      ((constProp (.default .constprop)).run .worklist flow).2 (.stmt 8)).get x = .const 3 := by
  decide +kernel

theorem all_input_return :
    (((constProp seedAll).system flow).input
      ((constProp seedAll).run .worklist flow).2 (.stmt 8)).get x = .nac := by
  decide +kernel

theorem seedings_disagree :
    (Builder.run { name := "main" } requests).2.build = .ok body ∧
      FlowGraph.ofBody body = .ok flow ∧
      (Config.default .constprop).seeding = .intOnly ∧ seedAll.seeding = .all ∧
      ∃ sol sol' f f', (constProp (.default .constprop)).solve .worklist flow = .ok sol ∧
        (constProp seedAll).solve .worklist flow = .ok sol' ∧
        sol.before.get? (.stmt 8) = some f ∧ sol'.before.get? (.stmt 8) = some f' ∧
        x.holdsInt = true ∧ f.get x = .const 3 ∧ f'.get x = .nac ∧
        evaluate (.var x) f ≠ evaluate (.var x) f' := by
  have hg := FlowGraph.validate_ofBody ofBody_body
  have hn : Node.stmt 8 ∈ flow.nodes := by decide
  obtain ⟨sol, hsol, -, -, -, hfacts⟩ :=
    Analysis.solve_facts (a := constProp (.default .constprop)) hg .worklist
  obtain ⟨sol', hsol', -, -, -, hfacts'⟩ :=
    Analysis.solve_facts (a := constProp seedAll) hg .worklist
  refine ⟨build_requests, ofBody_body, rfl, rfl, sol, sol', _, _, hsol, hsol', (hfacts _ hn).1,
    (hfacts' _ hn).1, rfl, intOnly_input_return, all_input_return, fun he => ?_⟩
  have hi : x.holdsInt = true := rfl
  rw [evaluate_var, evaluate_var, if_pos hi, if_pos hi, intOnly_input_return,
    all_input_return] at he
  cases he

end Heralded

end Dataflow
