import Dataflow.Proofs.Analysis.Closed
import Dataflow.Proofs.Run.Local

namespace Dataflow

/-- What is known of a variable allows it to hold a word. -/
def Value.Allows (v : Value) (w : Word) : Prop := v = .nac ∨ v = .const w.toInt

/-- What a fact says of the int variables of a store is true: it allows each of them the word it
holds. -/
def Fact.Covers (f : Fact) (σ : Store) : Prop :=
  ∀ x w, x.holdsInt = true → σ x = some w → (f.get x).Allows w

namespace Value

theorem Allows.mono {v v' : Value} {w : Word} (h : v.Allows w) (hle : v ≤ v') : v'.Allows w := by
  rcases h with rfl | rfl
  · exact .inl (nac_le_iff.1 hle)
  · exact (const_le_iff.1 hle).symm

theorem allows_nac (w : Word) : nac.Allows w := .inl rfl

theorem Allows.ne_undef {v : Value} {w : Word} (h : v.Allows w) : v ≠ .undef := by
  rcases h with rfl | rfl <;> exact fun he => nomatch he

theorem allows_evaluateOperands {op : BinaryOp} {u v : Value} {a b w : Word} (hu : u.Allows a)
    (hv : v.Allows b) (hw : op.onWords a b = some w) :
    (evaluateOperands op.apply u v).Allows w := by
  rcases hu with rfl | rfl
  · exact allows_nac w
  · rcases hv with rfl | rfl
    · exact allows_nac w
    · right
      change op.apply a.toInt b.toInt = .const w.toInt
      rw [BinaryOp.apply_toInt, hw]
      rfl

theorem evaluateOperands_unclassed {u v : Value} (hu : u ≠ .undef) (hv : v ≠ .undef) :
    evaluateOperands (fun _ _ => .nac) u v = .nac := by
  cases u with
  | undef => exact absurd rfl hu
  | const m => cases v with
    | undef => exact absurd rfl hv
    | const n => rfl
    | nac => rfl
  | nac => rfl

end Value

namespace Fact

open Value

variable {f : Fact} {σ : Store}

theorem Covers.mono {g : Fact} (h : f.Covers σ) (hle : ∀ x, f.get x ≤ g.get x) : g.Covers σ :=
  fun x w hx hw => (h x w hx hw).mono (hle x)

theorem Covers.ne_undef (h : f.Covers σ) {xs : List Var} (hσ : σ.Assigned xs) {x : Var}
    (hx : x ∈ xs) (hi : x.holdsInt = true) : f.get x ≠ .undef := by
  obtain ⟨w, hw⟩ := Option.isSome_iff_exists.1 (hσ x hx hi)
  exact (h x w hi hw).ne_undef

theorem Covers.update (h : f.Covers σ) {x : Var} {v : Value} {w : Word} (hv : v.Allows w) :
    (f.update x v).Covers (σ.set x w) := by
  intro y u hy hu
  rw [get_update]
  by_cases he : y = x
  · rw [he, Store.set_self] at hu
    rw [if_pos he]
    cases hu
    exact hv
  · rw [Store.set_of_ne σ he] at hu
    rw [if_neg he]
    exact h y u hy hu

theorem Covers.evaluate (h : f.Covers σ) {e : Exp} {w : Word} (hσ : σ.Assigned e.uses)
    (hw : e.Yields σ w) : (Dataflow.evaluate e f).Allows w := by
  cases e with
  | int n =>
      right
      rw [show w = BitVec.ofInt 32 n from hw]
      exact congrArg Value.const (Word.toInt_ofInt n).symm
  | var x =>
      rw [evaluate_var]
      split
      · exact h x w ‹_› (hw ‹_›)
      · exact allows_nac w
  | binary op l r =>
      rw [evaluate_binary]
      split
      · rename_i hlr
        obtain ⟨hl, hr⟩ := Bool.and_eq_true_iff.1 hlr
        obtain ⟨a, b, ha, hb, hab⟩ := hw hl hr
        exact allows_evaluateOperands (h l a hl ha) (h r b hr hb) hab
      · exact allows_nac w
  | unclassed op l r =>
      rw [evaluate_unclassed]
      split
      · rename_i hlr
        obtain ⟨hl, hr⟩ := Bool.and_eq_true_iff.1 hlr
        rw [evaluateOperands_unclassed]
        · exact allows_nac w
        · exact h.ne_undef hσ List.mem_cons_self hl
        · exact h.ne_undef hσ (List.mem_cons_of_mem _ List.mem_cons_self) hr
      · exact allows_nac w
  | long _ | double _ | str _ | null | neg _ | new _ _ | cast _ _ | instanceField _ _ _
  | staticField _ _ _ | element _ _ | call _ => exact allows_nac w

theorem Covers.assign (h : f.Covers σ) {x : Var} {v : Value} {w : Word} (hv : v.Allows w) :
    (if x.holdsInt then f.update x v else f).Covers (σ.assign x w) := by
  rw [Store.assign]
  split
  · exact h.update hv
  · exact h

theorem Covers.act (h : f.Covers σ) {s : Stmt Target} {τ : Store} (hσ : σ.Assigned s.uses)
    (ha : s.Acts σ τ) : (ConstProp.transfer (some s) f).Covers τ := by
  cases ha with
  | assign hw => exact h.assign (h.evaluate hσ hw)
  | result w => exact h.assign (allows_nac w)
  | nop | invoke | branch _ | goto | switch | ret => exact h

theorem Covers.acts (h : f.Covers σ) {b : Body} {n : Node} {τ : Store} (ha : b.Acts n σ τ) :
    (ConstProp.transfer (b.stmtOf? n) f).Covers τ := by
  cases ha with
  | pass hn =>
      rw [hn]
      exact h
  | act hs hσ hact =>
      rw [hs]
      exact h.act hσ hact

theorem Covers.of_same {g : Fact} (h : f.Covers σ) (hs : g.same f = true) : g.Covers σ :=
  h.mono (fun x => le_of_eq ((same_iff g f).1 hs x).symm)

end Fact

namespace ConstProp

theorem get_seed {seeding : Seeding} {f : Fact} {x y : Var} (hi : x.holdsInt = true)
    (h : f.get x = .nac ∨ x = y) :
    (if seeding = .all || y.holdsInt then f.update y .nac else f).get x = .nac := by
  by_cases he : x = y
  · subst he
    simp [hi]
  · have hf : f.get x = .nac := h.resolve_right he
    split
    · rw [Fact.get_update, if_neg he]
      exact hf
    · exact hf

theorem get_foldl_seed {seeding : Seeding} {x : Var} (hi : x.holdsInt = true) {l : List Var}
    {f : Fact} (h : f.get x = .nac ∨ x ∈ l) : (l.foldl
      (fun f y => if seeding = .all || y.holdsInt then f.update y .nac else f) f).get x = .nac := by
  induction l generalizing f with
  | nil => exact h.resolve_right List.not_mem_nil
  | cons y l ih =>
      rw [List.foldl_cons]
      apply ih
      rcases h with h | h
      · exact .inl (get_seed hi (.inl h))
      · rcases List.mem_cons.1 h with h | h
        · exact .inl (get_seed hi (.inr h))
        · exact .inr h

theorem get_boundary (seeding : Seeding) {b : Body} {x : Var} (hi : x.holdsInt = true)
    (hx : x ∈ b.params) : (boundary seeding b).get x = .nac :=
  get_foldl_seed hi (.inr hx)

theorem boundary_covers (seeding : Seeding) {b : Body} {σ : Store} (h : b.Starts σ) :
    (boundary seeding b).Covers σ := by
  intro x w hi hw
  have hx := (h x).1 (by rw [hw]; rfl)
  exact .inl (get_boundary seeding hi hx.1)

end ConstProp

/-- What a closed solution says of the nodes a run reaches is true of its stores. -/
theorem Solution.Closed.covers_run {c : Config} {g : FlowGraph} {sol : Solution Node Fact}
    (hg : g.validate = .ok ()) (h : sol.Closed (constProp c) g) {k : Nat} {n : Node} {σ : Store}
    (hr : g.Run k n σ) :
    (n = .entry → ∃ f, sol.after.get? n = some f ∧ f.Covers σ) ∧
      (n ≠ .entry → ∃ f, sol.before.get? n = some f ∧ f.Covers σ) := by
  induction hr with
  | start hσ =>
      exact ⟨fun _ => ⟨_, h.start_outward, ConstProp.boundary_covers c.seeding hσ⟩,
        fun hne => absurd rfl hne⟩
  | @step k n m σ τ _ ha hm ih =>
      have hne : m ≠ .entry := FlowGraph.ne_entry_of_mem_succs hg hm
      obtain ⟨hn, hmn⟩ := FlowGraph.hasNode_of_mem_succs hm
      obtain ⟨into, -, hinto, -, -, hmeet⟩ := h.settled m hmn hne
      obtain ⟨out, hout, hle⟩ := hmeet n ((g.mem_succs_iff_mem_preds n m).1 hm)
      have hout : sol.after.get? n = some out := hout
      have hcov : out.Covers τ := by
        by_cases hentry : n = .entry
        · obtain ⟨f, hf, hc⟩ := ih.1 hentry
          rw [hout] at hf
          cases hf
          have hact := hc.acts ha
          rw [hentry] at hact
          exact hact
        · obtain ⟨f, hf, hc⟩ := ih.2 hentry
          obtain ⟨f', out', hf', hout', hsame, -⟩ := h.settled n hn hentry
          have hf' : sol.before.get? n = some f' := hf'
          have hout' : sol.after.get? n = some out' := hout'
          rw [hf] at hf'
          rw [hout] at hout'
          cases hf'
          cases hout'
          exact (hc.acts ha).of_same hsame
      exact ⟨fun he => absurd he hne,
        fun _ => ⟨into, hinto, hcov.mono (Fact.le_of_meetInto_eq_self hle)⟩⟩

/-- Constant propagation is sound for every run along the edges of a valid graph. At each node a run
reaches, the fact before the node allows every int variable the word it holds; at the entry, where
nothing is met, the fact after it does. -/
theorem constProp_sound (c : Config) (s : Strategy) (g : FlowGraph) (hg : g.validate = .ok ()) :
    ∃ sol, (constProp c).solve s g = .ok sol ∧ ∀ k n σ, g.Run k n σ →
      (n = .entry → ∃ f, sol.after.get? n = some f ∧ f.Covers σ) ∧
        (n ≠ .entry → ∃ f, sol.before.get? n = some f ∧ f.Covers σ) := by
  obtain ⟨sol, hsol, hclosed⟩ := Analysis.exists_closed (constProp_accumulates c) hg
    (constProp_grows c g.body) s
  exact ⟨sol, hsol, fun k n σ hr => hclosed.covers_run hg hr⟩

namespace FlowGraph

def atFive : Store := fun x => if x = counter then some 5 else none

theorem starts_atFive : countdown.body.Starts atFive := by
  intro x
  by_cases hx : x = counter
  · subst hx
    exact ⟨fun _ => ⟨List.mem_cons_self, rfl⟩, fun _ => rfl⟩
  · refine ⟨fun h => ?_, fun h => absurd (List.mem_singleton.1 h.1) hx⟩
    rw [atFive, if_neg hx] at h
    cases h

theorem run_countdown : countdown.Run 2 (.stmt 1) (atFive.set one 1) := by
  have h₀ : countdown.Run 0 .entry atFive := .start starts_atFive
  have h₁ : countdown.Run 1 (.stmt 0) atFive := h₀.step (.pass rfl) (by decide)
  have hy : (Exp.int 1).Yields atFive 1 := rfl
  exact h₁.step (.act rfl (fun x hx => absurd hx List.not_mem_nil) (.assign hy)) (by decide)

end FlowGraph

open FlowGraph in
theorem constProp_sound_countdown : countdown.validate = .ok () ∧
    ∃ sol, (constProp (.default .constprop)).solve .iterative countdown = .ok sol ∧
      ∃ f, sol.before.get? (.stmt 1) = some f ∧
        (f.get counter).Allows 5 ∧ (f.get one).Allows 1 := by
  have hg : countdown.validate = .ok () := by decide
  obtain ⟨sol, hsol, h⟩ := constProp_sound (.default .constprop) .iterative countdown hg
  obtain ⟨f, hf, hc⟩ := (h 2 (.stmt 1) _ run_countdown).2 (fun he => nomatch he)
  exact ⟨hg, sol, hsol, f, hf, hc counter 5 rfl rfl, hc one 1 rfl rfl⟩

open FlowGraph in
/-- At the entry the fact before the node does not know of the parameters. -/
theorem constProp_silent_at_entry :
    ¬ ∀ (c : Config) (s : Strategy) (g : FlowGraph), g.validate = .ok () →
      ∃ sol, (constProp c).solve s g = .ok sol ∧ ∀ k n σ, g.Run k n σ →
        ∃ f, sol.before.get? n = some f ∧ f.Covers σ := by
  intro h
  have hg : countdown.validate = .ok () := by decide
  obtain ⟨sol, hsol, hcov⟩ := h (.default .constprop) .worklist countdown hg
  obtain ⟨sol', hsol', hclosed⟩ := Analysis.exists_closed
    (constProp_accumulates (.default .constprop)) hg (constProp_grows _ _) .worklist
  rw [hsol] at hsol'
  cases hsol'
  obtain ⟨f, hf, hc⟩ := hcov 0 .entry atFive (.start starts_atFive)
  have hempty : sol.before.get? .entry = some .empty := hclosed.start_inward
  rw [hempty] at hf
  cases hf
  exact (hc counter 5 rfl rfl).ne_undef rfl

end Dataflow
