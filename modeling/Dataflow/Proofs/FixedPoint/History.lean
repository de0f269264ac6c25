import Dataflow.Proofs.FixedPoint.Settle

namespace Dataflow.System

variable {ν φ : Type} [DecidableEq ν] {S : System ν φ}

def visitAll (S : System ν φ) (st : State ν φ) (ns : List ν) : State ν φ :=
  ns.foldl (fun st n => (S.visit st n).2) st

def history (S : System ν φ) : State ν φ → List ν → List (State ν φ × ν)
  | _, [] => []
  | st, n :: ns => (st, n) :: S.history (S.visit st n).2 ns

def taken (S : System ν φ) : Nat → Progress ν φ → List ν
  | 0, _ => []
  | fuel + 1, p =>
    match S.step? p with
    | none => []
    | some q => p.queue.items.head?.toList ++ S.taken fuel q

theorem visitAll_append (S : System ν φ) (st : State ν φ) (ms ns : List ν) :
    S.visitAll st (ms ++ ns) = S.visitAll (S.visitAll st ms) ns :=
  List.foldl_append

theorem visits_visitAll (S : System ν φ) (st : State ν φ) (ns : List ν) :
    (S.visitAll st ns).visits = st.visits + ns.length := by
  induction ns generalizing st with
  | nil => rfl
  | cons n ns ih =>
      have h := ih (S.visit st n).2
      rw [visits_visit] at h
      rw [List.length_cons, Nat.add_comm ns.length, ← Nat.add_assoc]
      exact h

theorem mem_of_mem_history {st : State ν φ} {ns : List ν} {v : State ν φ × ν}
    (h : v ∈ S.history st ns) : v.2 ∈ ns := by
  induction ns generalizing st with
  | nil => cases h
  | cons n ns ih =>
      rcases List.mem_cons.1 h with rfl | h
      · exact List.mem_cons_self
      · exact List.mem_cons_of_mem n (ih h)

theorem visitAll_induction {P : State ν φ → Prop} {st : State ν φ} {ns : List ν} (h : P st)
    (step : ∀ v ∈ S.history st ns, P v.1 → P (S.visit v.1 v.2).2) : P (S.visitAll st ns) := by
  induction ns generalizing st with
  | nil => exact h
  | cons n ns ih =>
      apply ih (step (st, n) List.mem_cons_self h)
      exact fun v hv => step v (List.mem_cons_of_mem _ hv)

theorem taken_succ {p q : Progress ν φ} {n : ν} (h : S.step? p = some q)
    (hn : p.queue.items.head? = some n) (fuel : Nat) :
    S.taken (fuel + 1) p = n :: S.taken fuel q := by
  rw [taken, h, hn]
  rfl

theorem taken_of_step?_eq_none {p : Progress ν φ} (h : S.step? p = none) (fuel : Nat) :
    S.taken fuel p = [] := by
  cases fuel with
  | zero => rfl
  | succ fuel => rw [taken, h]

theorem state_settle (fuel : Nat) (p : Progress ν φ) :
    (S.settle fuel p).state = S.visitAll p.state (S.taken fuel p) := by
  induction fuel generalizing p with
  | zero => rfl
  | succ fuel ih =>
      cases h : S.step? p with
      | none => rw [settle_of_step?_eq_none h, taken_of_step?_eq_none h]; rfl
      | some q =>
          obtain ⟨n, hn, hst, -⟩ := mem_queue_step h
          rw [settle_succ h, taken_succ h hn, ih, hst]
          rfl

theorem length_taken_le (fuel : Nat) (p : Progress ν φ) : (S.taken fuel p).length ≤ fuel := by
  induction fuel generalizing p with
  | zero => exact Nat.le_refl 0
  | succ fuel ih =>
      cases h : S.step? p with
      | none => rw [taken_of_step?_eq_none h]; exact Nat.zero_le _
      | some q =>
          obtain ⟨n, hn, -⟩ := mem_queue_step h
          rw [taken_succ h hn, List.length_cons]
          exact Nat.succ_le_succ (ih q)

theorem mem_of_mem_taken {order : List ν} (hd : ∀ n ∈ order, ∀ m ∈ S.dependents n, m ∈ order)
    (fuel : Nat) {p : Progress ν φ} (hq : ∀ n ∈ p.queue.items, n ∈ order) {n : ν}
    (h : n ∈ S.taken fuel p) : n ∈ order := by
  induction fuel generalizing p with
  | zero => cases h
  | succ fuel ih =>
      cases hs : S.step? p with
      | none =>
          rw [taken_of_step?_eq_none hs] at h
          cases h
      | some q =>
          obtain ⟨m, hm, -, hmem⟩ := mem_queue_step hs
          have hmo : m ∈ order := hq m (List.mem_of_head? hm)
          rw [taken_succ hs hm] at h
          rcases List.mem_cons.1 h with rfl | h
          · exact hmo
          · refine ih (fun k hk => ?_) h
            rcases (hmem k).1 hk with hk | ⟨-, hk⟩
            · exact hq k (List.mem_of_mem_tail hk)
            · exact hd m hmo k hk

theorem sweep_eq_visitAll (S : System ν φ) (st : State ν φ) (order : List ν) :
    (S.sweep st order).2 = S.visitAll st order := by
  induction order generalizing st with
  | nil => rfl
  | cons n order ih =>
      rw [sweep_cons]
      exact ih _

theorem rounds_eq (S : System ν φ) (order : List ν) (fuel passes : Nat) (st : State ν φ) :
    ∃ k ≤ fuel, S.rounds order fuel passes st =
      (passes + k, S.visitAll st (List.replicate k order).flatten) := by
  induction fuel generalizing passes st with
  | zero => exact ⟨0, Nat.le_refl 0, rfl⟩
  | succ fuel ih =>
      have hs := sweep_eq_visitAll S st order
      rw [rounds]
      simp only [hs]
      split
      · obtain ⟨k, hk, h⟩ := ih (passes + 1) (S.visitAll st order)
        refine ⟨k + 1, Nat.succ_le_succ hk, ?_⟩
        rw [h, List.replicate_succ, List.flatten_cons, visitAll_append, Nat.add_assoc,
          Nat.add_comm 1]
      · refine ⟨1, Nat.succ_le_succ (Nat.zero_le _), ?_⟩
        simp

variable {fits : φ → Prop} {height : φ → Nat} {bound : Nat}

theorem changes_le_slack (hL : S.Local) (hS : S.Climbs fits height bound) {seen : List ν}
    {st : State ν φ} (hf : S.Fits fits st) (hc : S.Current seen st) (n : ν) (ns : List ν) :
    (S.history st ns).countP (fun v => v.2 = n && S.changes v.1 v.2) ≤
      S.slack height bound seen st n := by
  induction ns generalizing seen st with
  | nil => exact Nat.zero_le _
  | cons m ns ih =>
      have hrest := ih (fits_visit hS hf m) (current_visit hL hc m)
      rw [history, List.countP_cons]
      by_cases hm : m = n
      · subst hm
        have hhead : (if decide (m = m) && S.changes st m then 1 else 0) =
            (S.visit st m).1.toNat := by
          rw [changes]
          cases (S.visit st m).1 <;> simp
        exact Nat.le_trans (Nat.add_le_add hrest (Nat.le_of_eq hhead)) (slack_visit_self hS hf hc m)
      · rw [slack_visit_of_ne (Ne.symm hm)] at hrest
        simpa [hm] using hrest

/-- Rounds come to an end by themselves: with fuel for more rounds than results can change, they are
the same with any more. -/
theorem rounds_of_le (hL : S.Local) (hS : S.Climbs fits height bound) {order : List ν}
    {fuel fuel' : Nat} (hle : fuel ≤ fuel') (passes : Nat) {seen : List ν} {st : State ν φ}
    (hf : S.Fits fits st) (hc : S.Current seen st)
    (hfuel : S.potential height bound (fun _ => 1) order seen st < fuel) :
    S.rounds order fuel' passes st = S.rounds order fuel passes st := by
  induction fuel generalizing fuel' passes seen st with
  | zero => omega
  | succ fuel ih =>
      obtain ⟨fuel', rfl⟩ := Nat.exists_eq_add_of_le' (Nat.lt_of_lt_of_le (Nat.succ_pos fuel) hle)
      obtain ⟨seen', hf', hc', hp⟩ := potential_sweep hL hS (fun n (hn : n ∈ order) => hn) hf hc
      rw [rounds, rounds]
      simp only
      cases hq : (S.sweep st order).1 with
      | true =>
          rw [hq, Bool.toNat_true] at hp
          rw [if_pos rfl, if_pos rfl]
          exact ih (by omega) (passes + 1) hf' hc' (by omega)
      | false => rfl

end Dataflow.System
