import Dataflow.Proofs.FixedPoint.Climb

namespace Dataflow.System

variable {ν φ : Type} [DecidableEq ν] {S : System ν φ}

theorem settle_of_step?_eq_none {p : Progress ν φ} (h : S.step? p = none) (fuel : Nat) :
    S.settle fuel p = p := by
  cases fuel with
  | zero => rfl
  | succ fuel => rw [settle, h]

theorem settle_of_drained {p : Progress ν φ} (h : p.queue.items = []) (fuel : Nat) :
    S.settle fuel p = p :=
  settle_of_step?_eq_none ((step?_eq_none_iff S p).2 h) fuel

theorem settle_succ {p q : Progress ν φ} (h : S.step? p = some q) (fuel : Nat) :
    S.settle (fuel + 1) p = S.settle fuel q := by
  rw [settle, h]

theorem settle_add (S : System ν φ) (k l : Nat) (p : Progress ν φ) :
    S.settle (k + l) p = S.settle l (S.settle k p) := by
  induction k generalizing p with
  | zero => rw [Nat.zero_add]; rfl
  | succ k ih =>
      rw [Nat.add_right_comm]
      cases h : S.step? p with
      | none => rw [settle_of_step?_eq_none h, settle_of_step?_eq_none h, settle_of_step?_eq_none h]
      | some q => rw [settle_succ h, settle_succ h, ih]

theorem drained_mono {k l : Nat} (hkl : k ≤ l) {p : Progress ν φ}
    (h : (S.settle k p).queue.items = []) : (S.settle l p).queue.items = [] := by
  obtain ⟨d, rfl⟩ := Nat.le.dest hkl
  rw [settle_add, settle_of_drained h]
  exact h

/-- Nothing of what came in before is used when facts are collected. -/
def Afresh (S : System ν φ) : Prop :=
  ∀ n f before before', S.collect n f before = S.collect n f before'

structure Alike (p q : Progress ν φ) : Prop where
  results : p.state.results = q.state.results
  queue : p.queue = q.queue

theorem visit_alike (hS : S.Afresh) {st st' : State ν φ} (h : st.results = st'.results) (n : ν) :
    (S.visit st n).1 = (S.visit st' n).1 ∧
      (S.visit st n).2.results = (S.visit st' n).2.results := by
  have hr : S.result st = S.result st' := by
    funext m
    rw [result, result, h]
  have hi : S.incoming st n = S.incoming st' n := by
    rw [incoming, incoming, hr]
    exact hS n _ _ _
  simp only [visit, hr, hi, h]
  split
  · exact ⟨rfl, rfl⟩
  · exact ⟨rfl, rfl⟩

theorem alike_step (hS : S.Afresh) {p q : Progress ν φ} (h : Alike p q) :
    S.step? p = none ∧ S.step? q = none ∨
      ∃ p' q', S.step? p = some p' ∧ S.step? q = some q' ∧ Alike p' q' := by
  cases hq : q.queue.pop? with
  | none =>
      left
      rw [step?, step?, h.queue, hq]
      exact ⟨rfl, rfl⟩
  | some nr =>
      right
      obtain ⟨n, rest⟩ := nr
      obtain ⟨hc, hr⟩ := visit_alike hS h.results n
      have hp' : S.step? p = some ⟨(S.visit p.state n).2,
          if (S.visit p.state n).1 then rest.addAll (S.dependents n) else rest⟩ := by
        rw [step?, h.queue, hq]
      have hq' : S.step? q = some ⟨(S.visit q.state n).2,
          if (S.visit p.state n).1 then rest.addAll (S.dependents n) else rest⟩ := by
        rw [step?, hq, hc]
      exact ⟨_, _, hp', hq', hr, rfl⟩

theorem alike_settle (hS : S.Afresh) (k : Nat) {p q : Progress ν φ} (h : Alike p q) :
    Alike (S.settle k p) (S.settle k q) := by
  induction k generalizing p q with
  | zero => exact h
  | succ k ih =>
      rcases alike_step hS h with ⟨hp, hq⟩ | ⟨p', q', hp, hq, h'⟩
      · rw [settle_of_step?_eq_none hp, settle_of_step?_eq_none hq]
        exact h
      · rw [settle_succ hp, settle_succ hq]
        exact ih h'

theorem alike_cycles (hS : S.Afresh) {k : Nat} {p : Progress ν φ} (h : Alike (S.settle k p) p)
    (j : Nat) : Alike (S.settle (j * k) p) p := by
  induction j with
  | zero => rw [Nat.zero_mul]; exact ⟨rfl, rfl⟩
  | succ j ih =>
      have hj := alike_settle hS k ih
      rw [← settle_add, ← Nat.succ_mul] at hj
      exact ⟨hj.results.trans h.results, hj.queue.trans h.queue⟩

theorem settle_endless (hS : S.Afresh) {k : Nat} (hk : 0 < k) {p : Progress ν φ}
    (h : Alike (S.settle k p) p) (hp : p.queue.items ≠ []) (fuel : Nat) :
    (S.settle fuel p).queue.items ≠ [] := by
  intro he
  have hd := drained_mono (Nat.le_mul_of_pos_right fuel hk) he
  rw [(alike_cycles hS h fuel).queue] at hd
  exact hp hd

def tally (S : System ν φ) (event : State ν φ → ν → Bool) : Nat → Progress ν φ → Nat
  | 0, _ => 0
  | fuel + 1, p =>
    match S.step? p with
    | none => 0
    | some q => (p.queue.items.head?.any (event p.state)).toNat + S.tally event fuel q

variable {event : State ν φ → ν → Bool}

theorem tally_of_step?_eq_none {p : Progress ν φ} (h : S.step? p = none) (fuel : Nat) :
    S.tally event fuel p = 0 := by
  cases fuel with
  | zero => rfl
  | succ fuel => rw [tally, h]

theorem tally_succ {p q : Progress ν φ} {n : ν} (h : S.step? p = some q)
    (hn : p.queue.items.head? = some n) (fuel : Nat) :
    S.tally event (fuel + 1) p = (event p.state n).toNat + S.tally event fuel q := by
  rw [tally, h, hn]
  rfl

theorem tally_le (fuel : Nat) (p : Progress ν φ) : S.tally event fuel p ≤ fuel := by
  induction fuel generalizing p with
  | zero => exact Nat.le_refl _
  | succ fuel ih =>
      cases h : S.step? p with
      | none => rw [tally_of_step?_eq_none h]; exact Nat.zero_le _
      | some q =>
          obtain ⟨n, hn, -⟩ := mem_queue_step h
          have hb := Bool.toNat_le (event p.state n)
          have hq := ih q
          rw [tally_succ h hn]
          omega

theorem tally_add (event : State ν φ → ν → Bool) (k l : Nat) (p : Progress ν φ) :
    S.tally event (k + l) p = S.tally event k p + S.tally event l (S.settle k p) := by
  induction k generalizing p with
  | zero => rw [Nat.zero_add]; exact (Nat.zero_add _).symm
  | succ k ih =>
      rw [Nat.add_right_comm]
      cases h : S.step? p with
      | none =>
          rw [settle_of_step?_eq_none h, tally_of_step?_eq_none h, tally_of_step?_eq_none h,
            tally_of_step?_eq_none h]
      | some q =>
          obtain ⟨n, hn, -⟩ := mem_queue_step h
          rw [settle_succ h, tally_succ h hn, tally_succ h hn, ih, Nat.add_assoc]

theorem tally_le_of_drained {k : Nat} {p : Progress ν φ} (h : (S.settle k p).queue.items = [])
    (fuel : Nat) : S.tally event fuel p ≤ k := by
  rcases Nat.le_total fuel k with hle | hle
  · exact Nat.le_trans (tally_le fuel p) hle
  · obtain ⟨d, rfl⟩ := Nat.le.dest hle
    rw [tally_add, tally_of_step?_eq_none ((step?_eq_none_iff S _).2 h)]
    exact tally_le k p

def changes (S : System ν φ) (st : State ν φ) (n : ν) : Bool := (S.visit st n).1

/-- As long as nodes are pending, each visit takes one from the queue, and only changes bring in new
ones. -/
theorem settle_spends {bound : Nat} (hb : ∀ n, (S.dependents n).length ≤ bound) (fuel : Nat)
    (p : Progress ν φ) (h : (S.settle fuel p).queue.items ≠ []) :
    fuel + (S.settle fuel p).queue.size ≤ p.queue.size + S.tally S.changes fuel p * bound := by
  induction fuel generalizing p with
  | zero =>
      rw [Nat.zero_add]
      exact Nat.le_add_right _ _
  | succ fuel ih =>
      cases hs : S.step? p with
      | none =>
          rw [settle_of_step?_eq_none hs] at h
          exact absurd ((step?_eq_none_iff S p).1 hs) h
      | some q =>
          obtain ⟨n, hn, -, hsize⟩ := size_step hs
          rw [settle_succ hs] at h ⊢
          have hq := ih q h
          have hm := Nat.mul_le_mul_left ((S.visit p.state n).1.toNat) (hb n)
          have ht : S.tally S.changes (fuel + 1) p =
              (S.visit p.state n).1.toNat + S.tally S.changes fuel q := tally_succ hs hn fuel
          rw [ht, Nat.add_mul]
          omega

end Dataflow.System
