import Dataflow.Proofs.FixedPoint.History

namespace Dataflow.System

variable {ν φ : Type} [DecidableEq ν] {S : System ν φ} {R : φ → φ → Prop} {st st' : State ν φ}

/-- A relation between facts that the equations carry over from what they mention. -/
structure Respects (S : System ν φ) (R : φ → φ → Prop) : Prop where
  collect : ∀ n {f f' : ν → φ} {before before' : φ}, (∀ m, R (f m) (f' m)) → R before before' →
    R (S.collect n f before) (S.collect n f' before')
  transfer : ∀ n {f f' : φ}, R f f' → R (S.transfer n f) (S.transfer n f')
  same : ∀ {f f' h h' : φ}, S.same f h = true → S.same f' h' = true → R h h' → R f f'

def InStep (S : System ν φ) (R : φ → φ → Prop) (st st' : State ν φ) : Prop :=
  ∀ n, R (S.input st n) (S.input st' n) ∧ R (S.result st n) (S.result st' n)

theorem inStep_visit (hS : S.Local) (hR : S.Respects R) (h : S.InStep R st st') (n : ν) :
    S.InStep R (S.visit st n).2 (S.visit st' n).2 := by
  have hin : R (S.incoming st n) (S.incoming st' n) :=
    hR.collect n (fun m => (h m).2) (h n).1
  intro m
  by_cases hm : m = n
  · subst hm
    rw [input_visit_self, input_visit_self]
    exact ⟨hin, hR.same (same_result_visit_self hS st m) (same_result_visit_self hS st' m)
      (hR.transfer m hin)⟩
  · rw [input_visit_of_ne S st hm, input_visit_of_ne S st' hm, result_visit_of_ne S st hm,
      result_visit_of_ne S st' hm]
    exact h m

theorem inStep_visitAll (hS : S.Local) (hR : S.Respects R) (h : S.InStep R st st')
    (ns : List ν) : S.InStep R (S.visitAll st ns) (S.visitAll st' ns) := by
  induction ns generalizing st st' with
  | nil => exact h
  | cons n ns ih => exact ih (inStep_visit hS hR h n)

theorem facts_visit_of_stable {n : ν} (h : S.Stable st n) :
    S.input (S.visit st n).2 = S.input st ∧ S.result (S.visit st n).2 = S.result st := by
  obtain ⟨hin, hsame⟩ := h
  have hquiet : (S.visit st n).1 = false := by
    rw [changed_visit, hin, hsame]
    rfl
  refine ⟨funext (fun m => ?_), funext (result_visit_of_quiet hquiet)⟩
  rw [input_visit]
  split
  · rename_i hm
    rw [hm, hin]
  · rfl

theorem Stable.congr {n : ν} (h : S.Stable st n) (hi : S.input st' = S.input st)
    (hr : S.result st' = S.result st) : S.Stable st' n := by
  rw [Stable, incoming, hi, hr]
  exact h

theorem facts_visitAll_of_stable {ns : List ν} (h : ∀ n ∈ ns, S.Stable st n) :
    S.input (S.visitAll st ns) = S.input st ∧ S.result (S.visitAll st ns) = S.result st := by
  induction ns generalizing st with
  | nil => exact ⟨rfl, rfl⟩
  | cons n ns ih =>
      obtain ⟨hi, hr⟩ := facts_visit_of_stable (h n List.mem_cons_self)
      have hrest : ∀ m ∈ ns, S.Stable (S.visit st n).2 m :=
        fun m hm => (h m (List.mem_cons_of_mem n hm)).congr hi hr
      obtain ⟨hi', hr'⟩ := ih hrest
      exact ⟨hi'.trans hi, hr'.trans hr⟩

/-- Sweeps that start in related states and go on until nothing changes end in related states, though
one may take more of them than the other: some more sweeps of the other one change nothing. -/
theorem inStep_sweeps (hS : S.Local) (hR : S.Respects R) (h : S.InStep R st st') {order : List ν}
    {k k' : Nat} (hk : ∀ n ∈ order, S.Stable (S.visitAll st (List.replicate k order).flatten) n)
    (hk' : ∀ n ∈ order, S.Stable (S.visitAll st' (List.replicate k' order).flatten) n) :
    S.InStep R (S.visitAll st (List.replicate k order).flatten)
      (S.visitAll st' (List.replicate k' order).flatten) := by
  have hmem : ∀ j, ∀ n ∈ (List.replicate j order).flatten, n ∈ order := by
    intro j n hn
    obtain ⟨l, hl, hn⟩ := List.mem_flatten.1 hn
    exact List.eq_of_mem_replicate hl ▸ hn
  have hall := inStep_visitAll hS hR h (List.replicate (k + k') order).flatten
  obtain ⟨hi, hr⟩ := facts_visitAll_of_stable (fun n hn => hk n (hmem k' n hn))
  obtain ⟨hi', hr'⟩ := facts_visitAll_of_stable (fun n hn => hk' n (hmem k n hn))
  rw [← visitAll_append, ← List.flatten_append, List.replicate_append_replicate] at hi hr hi' hr'
  rw [Nat.add_comm k' k] at hi' hr'
  intro n
  rw [← hi, ← hr, ← hi', ← hr']
  exact hall n

end Dataflow.System
