import Dataflow.Proofs.Fact.Firm
import Dataflow.Proofs.Supergraph.Equations

namespace Dataflow

namespace Supergraph

theorem firm_common {f g : Fact} (h : f.Firm g) (xs : List Var) :
    (common (xs.map f.get)).Firm (common (xs.map g.get)) := by
  cases xs with
  | nil => exact Value.Firm.refl _
  | cons x xs =>
      intro n hn
      simp only [List.map_cons, common] at hn ⊢
      split at hn
      · split
        · exact h x n hn
        · exact Value.le_nac _
      · cases hn

variable {f g : Fact}

theorem firm_pastCall (h : f.Firm g) (result : Option Var) (analysed : Bool) :
    (pastCall result analysed f).Firm (pastCall result analysed g) := by
  cases result with
  | none => exact h
  | some x =>
      simp only [pastCall]
      split
      · exact h.erase x
      · exact h.update x (Value.firm_nac _)

theorem firm_intoCall (h : f.Firm g) (params args : List Var) :
    (intoCall params args f).Firm (intoCall params args g) := by
  apply List.foldl_rel (r := Fact.Firm)
  · exact Fact.Firm.refl _
  · exact fun p _ t u ht => ht.update p.1 (h p.2)

theorem firm_outOfCall (h : f.Firm g) (result : Option Var) (returned : List Var) :
    (outOfCall result returned f).Firm (outOfCall result returned g) := by
  cases result with
  | none => exact Fact.Firm.refl _
  | some x =>
      simp only [outOfCall]
      split
      · exact Fact.Firm.refl _
      · exact (Fact.Firm.refl _).update x (firm_common h returned)

theorem firm_along (h : f.Firm g) (s : Supergraph) (e : SuperEdge) :
    (s.along e f).Firm (s.along e g) := by
  cases e with
  | normal _ _ _ => exact h
  | callToReturn site _ analysed => exact firm_pastCall h _ analysed
  | call site callee => exact firm_intoCall h _ _
  | ret callee site _ => exact firm_outOfCall h _ _

end Supergraph

namespace System

variable {ν : Type} [DecidableEq ν] {S : System ν Fact}

def Firm (S : System ν Fact) : Prop :=
  ∀ (n : ν) (r r' : ν → Fact) (before before' : Fact), (∀ m, (r m).Firm (r' m)) →
    (S.transfer n (S.collect n r before)).Firm (S.transfer n (S.collect n r' before'))

/-- A record of the constants that were ever known after a node. All that are known now are on it,
what is on it has at most given way to not a constant, and it was worked out from constants on it. -/
structure Kept (S : System ν Fact) (held : ν → Var → Int → Prop) (st : State ν Fact) : Prop where
  of_result : ∀ {n x k}, (S.result st n).get x = .const k → held n x k
  stays : ∀ {n x k}, held n x k → .const k ≤ (S.result st n).get x
  grounds : ∀ {n x k}, held n x k → ∃ (r : ν → Fact) (before : Fact),
    (∀ m y i, (r m).get y = .const i → held m y i) ∧
      (S.transfer n (S.collect n r before)).get x = .const k

def Steady (S : System ν Fact) (st : State ν Fact) : Prop := ∃ held, S.Kept held st

/-- What is on record keeps being worked out, whatever became of the facts it was worked out from. -/
theorem Kept.stays_visit (hS : S.Firm) {held : ν → Var → Int → Prop} {st : State ν Fact}
    (h : S.Kept held st) {n : ν} {x : Var} {k : Int} (hk : held n x k) :
    .const k ≤ (S.transfer n (S.incoming st n)).get x := by
  obtain ⟨r, before, hr, hx⟩ := h.grounds hk
  refine hS n r (S.result st) before _ (fun m y i hi => ?_) x k hx
  exact h.stays (hr m y i hi)

theorem steady_visit (hS : S.Firm) {st : State ν Fact} (h : S.Steady st) (n : ν) :
    S.Steady (S.visit st n).2 := by
  obtain ⟨held, h⟩ := h
  have hstays : ∀ {m x k}, held m x k → .const k ≤ (S.result (S.visit st n).2 m).get x := by
    intro m x k hk
    rw [result_visit]
    split
    · rename_i hm
      obtain ⟨rfl, -⟩ := hm
      exact h.stays_visit hS hk
    · exact h.stays hk
  by_cases hc : (S.visit st n).1 = true
  · have hnew : S.result (S.visit st n).2 n = S.transfer n (S.incoming st n) := by
      rw [result_visit, if_pos ⟨rfl, hc⟩]
    refine ⟨fun m x k => held m x k ∨ m = n ∧ (S.transfer n (S.incoming st n)).get x = .const k,
      fun {m x k} hx => ?_, ?_, ?_⟩
    · by_cases hm : m = n
      · subst hm
        rw [hnew] at hx
        exact .inr ⟨rfl, hx⟩
      · rw [result_visit_of_ne S st hm] at hx
        exact .inl (h.of_result hx)
    · rintro m x k (hk | ⟨rfl, hk⟩)
      · exact hstays hk
      · rw [hnew, hk]
    · rintro m x k (hk | ⟨rfl, hk⟩)
      · obtain ⟨r, before, hr, hx⟩ := h.grounds hk
        exact ⟨r, before, fun m y i hi => .inl (hr m y i hi), hx⟩
      · exact ⟨S.result st, S.input st m, fun m y i hi => .inl (h.of_result hi), hk⟩
  · have hsame : S.result (S.visit st n).2 = S.result st := by
      funext m
      exact result_visit_of_quiet (Bool.not_eq_true _ ▸ hc) m
    refine ⟨held, fun {m x k} hx => ?_, hstays, h.grounds⟩
    rw [hsame] at hx
    exact h.of_result hx

theorem firm_visit (hS : S.Firm) {st : State ν Fact} (h : S.Steady st) (n m : ν) :
    (S.result st m).Firm (S.result (S.visit st n).2 m) := by
  obtain ⟨held, h⟩ := h
  intro x k hk
  rw [result_visit]
  split
  · rename_i hm
    obtain ⟨rfl, -⟩ := hm
    exact h.stays_visit hS (h.of_result hk)
  · rw [hk]

theorem steady_of_empty {st : State ν Fact} (h : ∀ n, S.result st n = .empty) : S.Steady st :=
  ⟨fun _ _ _ => False, fun {n x k} hx => (by rw [h n] at hx; cases hx), fun h => h.elim,
    fun h => h.elim⟩

end System

theorem Supergraph.firm_system (g : Supergraph) : g.system.Firm := by
  intro p r r' before before' h
  have hin : (g.system.collect p r before).Firm (g.system.collect p r' before') := by
    apply List.foldl_rel (r := Fact.Firm)
    · exact Fact.Firm.refl _
    · exact fun e _ t u ht => (firm_along (h e.source) g e).meetInto ht
  change Fact.Firm (if g.isCallSite p then _ else _) (if g.isCallSite p then _ else _)
  split
  · exact hin
  · exact hin.transfer _

end Dataflow
