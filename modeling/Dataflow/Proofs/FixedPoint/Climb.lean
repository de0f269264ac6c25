import Dataflow.Proofs.FixedPoint.Stable
import Mathlib.Algebra.Order.BigOperators.Group.List
import Mathlib.Algebra.Order.Ring.Nat

namespace Dataflow

theorem size_addAll_le {α : Type} [DecidableEq α] (q : WorkQueue α) (l : List α) :
    (q.addAll l).size ≤ q.size + l.length := by
  induction l generalizing q with
  | nil => exact Nat.le_refl _
  | cons a l ih =>
      have h := ih (q.add a)
      have ha : (q.add a).size ≤ q.size + 1 := by
        rw [WorkQueue.size, WorkQueue.size, WorkQueue.items_add]
        split <;> simp
      change ((q.add a).addAll l).size ≤ _
      rw [List.length_cons]
      omega

theorem sum_map_add_le {α : Type} {f g : α → Nat} {l : List α} (hle : ∀ x ∈ l, f x ≤ g x)
    {a : α} (ha : a ∈ l) {d : Nat} (hd : f a + d ≤ g a) :
    (l.map f).sum + d ≤ (l.map g).sum := by
  induction l with
  | nil => cases ha
  | cons x l ih =>
      have hx := hle x List.mem_cons_self
      have hl : ∀ y ∈ l, f y ≤ g y := fun y hy => hle y (List.mem_cons_of_mem x hy)
      rw [List.map_cons, List.map_cons, List.sum_cons, List.sum_cons]
      rcases List.mem_cons.1 ha with rfl | ha
      · have hs : (l.map f).sum ≤ (l.map g).sum := List.sum_le_sum hl
        omega
      · have hs := ih hl ha
        omega

namespace System

variable {ν φ : Type} [DecidableEq ν] {S : System ν φ}

/-- What comes into a node can only climb, and by a bounded height. The facts in question are those
that fit, and equations keep to them. No order on results is assumed. -/
structure Climbs (S : System ν φ) (fits : φ → Prop) (height : φ → Nat) (bound : Nat) : Prop where
  collect_fits : ∀ {n f before}, (∀ m, fits (f m)) → fits before → fits (S.collect n f before)
  transfer_fits : ∀ {n f}, fits f → fits (S.transfer n f)
  collect_climbs : ∀ {n f before}, (∀ m, fits (f m)) → fits before →
    S.collect n f before = before ∨ height before < height (S.collect n f before)
  height_le : ∀ {f}, fits f → height f ≤ bound

def Fits (S : System ν φ) (fits : φ → Prop) (st : State ν φ) : Prop :=
  ∀ n, fits (S.input st n) ∧ fits (S.result st n)

def Current (S : System ν φ) (seen : List ν) (st : State ν φ) : Prop :=
  ∀ n ∈ seen, S.same (S.result st n) (S.transfer n (S.input st n)) = true

/-- How often the result of a node can still change. The first visit counts, and then every step that
what comes in can climb. -/
def slack (S : System ν φ) (height : φ → Nat) (bound : Nat) (seen : List ν) (st : State ν φ)
    (n : ν) : Nat :=
  if n ∈ seen then bound - height (S.input st n) else bound + 1

variable {fits : φ → Prop} {height : φ → Nat} {bound : Nat}

theorem fits_visit (hS : S.Climbs fits height bound) {st : State ν φ} (h : S.Fits fits st) (n : ν) :
    S.Fits fits (S.visit st n).2 := by
  have hi : fits (S.incoming st n) := hS.collect_fits (fun m => (h m).2) (h n).1
  exact throughout_visit (P := fun _ => fits) (Q := fun _ => fits) h hi (hS.transfer_fits hi)

theorem current_visit (hL : S.Local) {seen : List ν} {st : State ν φ} (h : S.Current seen st)
    (n : ν) : S.Current (n :: seen) (S.visit st n).2 := by
  intro m hm
  by_cases he : m = n
  · subst he
    rw [input_visit_self]
    exact same_result_visit_self hL st m
  · rw [input_visit_of_ne S st he, result_visit_of_ne S st he]
    rcases List.mem_cons.1 hm with hm | hm
    · exact absurd hm he
    · exact h m hm

theorem slack_visit_of_ne {seen : List ν} {st : State ν φ} {n m : ν} (h : m ≠ n) :
    S.slack height bound (n :: seen) (S.visit st n).2 m = S.slack height bound seen st m := by
  simp only [slack, List.mem_cons, h, false_or, input_visit_of_ne S st h]

/-- A visit that changes the result of a node uses up some of its slack. -/
theorem slack_visit_self (hS : S.Climbs fits height bound) {seen : List ν} {st : State ν φ}
    (hf : S.Fits fits st) (hc : S.Current seen st) (n : ν) :
    S.slack height bound (n :: seen) (S.visit st n).2 n + (S.visit st n).1.toNat ≤
      S.slack height bound seen st n := by
  have hi : fits (S.incoming st n) := hS.collect_fits (fun m => (hf m).2) (hf n).1
  have hb := hS.height_le hi
  have hnew : S.slack height bound (n :: seen) (S.visit st n).2 n =
      bound - height (S.incoming st n) := by
    rw [slack, if_pos List.mem_cons_self, input_visit_self]
  have hle : (S.visit st n).1.toNat ≤ 1 := Bool.toNat_le _
  rw [hnew, slack]
  by_cases hn : n ∈ seen
  · rw [if_pos hn]
    rcases hS.collect_climbs (n := n) (fun m => (hf m).2) (hf n).1 with he | hlt
    · -- nothing new came in, so the result is still the right one
      have he : S.incoming st n = S.input st n := he
      have hq : (S.visit st n).1 = false := by
        rw [changed_visit, he, hc n hn]
        rfl
      rw [he, hq]
      exact Nat.le_refl _
    · have hlt : height (S.input st n) < height (S.incoming st n) := hlt
      omega
  · rw [if_neg hn]
    omega

def potential (S : System ν φ) (height : φ → Nat) (bound : Nat) (weight : ν → Nat)
    (nodes seen : List ν) (st : State ν φ) : Nat :=
  (nodes.map (fun n => S.slack height bound seen st n * weight n)).sum

theorem potential_visit (hS : S.Climbs fits height bound) (weight : ν → Nat) {nodes seen : List ν}
    {st : State ν φ} (hf : S.Fits fits st) (hc : S.Current seen st) {n : ν} (hn : n ∈ nodes) :
    S.potential height bound weight nodes (n :: seen) (S.visit st n).2 +
        (S.visit st n).1.toNat * weight n ≤
      S.potential height bound weight nodes seen st := by
  have hself := slack_visit_self hS hf hc n
  have hmul := Nat.mul_le_mul_right (weight n) hself
  rw [Nat.add_mul] at hmul
  refine sum_map_add_le (fun m _ => ?_) hn hmul
  by_cases hm : m = n
  · subst hm
    exact Nat.mul_le_mul_right _ (Nat.le_trans (Nat.le_add_right _ _) hself)
  · rw [slack_visit_of_ne hm]

theorem size_step {p q : Progress ν φ} (h : S.step? p = some q) :
    ∃ n, p.queue.items.head? = some n ∧ q.state = (S.visit p.state n).2 ∧
      q.queue.size + 1 ≤
        p.queue.size + (S.visit p.state n).1.toNat * (S.dependents n).length := by
  obtain ⟨n, rest, hp, hst, hq⟩ := step?_eq_some h
  have hi := WorkQueue.items_of_pop? hp
  refine ⟨n, by rw [hi]; rfl, hst, ?_⟩
  have hs : p.queue.size = rest.size + 1 := by rw [WorkQueue.size, hi]; rfl
  have ha := size_addAll_le rest (S.dependents n)
  rw [hq, hs]
  cases (S.visit p.state n).1 with
  | true => rw [if_pos rfl, Bool.toNat_true, Nat.one_mul]; omega
  | false => rw [if_neg Bool.false_ne_true, Bool.toNat_false, Nat.zero_mul, Nat.add_zero]

theorem settle_drains (hL : S.Local) (hS : S.Climbs fits height bound) {nodes : List ν}
    (hd : ∀ n ∈ nodes, ∀ m ∈ S.dependents n, m ∈ nodes) (fuel : Nat) (p : Progress ν φ)
    (seen : List ν) (hq : ∀ n ∈ p.queue.items, n ∈ nodes) (hf : S.Fits fits p.state)
    (hc : S.Current seen p.state)
    (hfuel : p.queue.size +
      S.potential height bound (fun n => (S.dependents n).length) nodes seen p.state ≤ fuel) :
    (S.settle fuel p).queue.items = [] := by
  induction fuel generalizing p seen with
  | zero =>
      have hz : p.queue.size = 0 := by omega
      exact List.length_eq_zero_iff.1 hz
  | succ fuel ih =>
      rw [settle]
      split
      · exact (step?_eq_none_iff S p).1 ‹_›
      · rename_i q h
        obtain ⟨n, hn, hst, hsize⟩ := size_step h
        have hno : n ∈ nodes := hq n (List.mem_of_head? hn)
        have hpot := potential_visit hS (fun n => (S.dependents n).length) hf hc hno
        obtain ⟨k, hk, -, hm⟩ := mem_queue_step h
        rw [hn] at hk
        cases hk
        apply ih q (n :: seen)
        · intro m hmq
          rcases (hm m).1 hmq with he | ⟨-, he⟩
          · exact hq m (List.mem_of_mem_tail he)
          · exact hd n hno m he
        · rw [hst]
          exact fits_visit hS hf n
        · rw [hst]
          exact current_visit hL hc n
        · rw [hst]
          omega

theorem potential_sweep (hL : S.Local) (hS : S.Climbs fits height bound) {nodes order : List ν}
    (ho : ∀ n ∈ order, n ∈ nodes) {seen : List ν} {st : State ν φ} (hf : S.Fits fits st)
    (hc : S.Current seen st) :
    ∃ seen', S.Fits fits (S.sweep st order).2 ∧ S.Current seen' (S.sweep st order).2 ∧
      S.potential height bound (fun _ => 1) nodes seen' (S.sweep st order).2 +
          (S.sweep st order).1.toNat ≤
        S.potential height bound (fun _ => 1) nodes seen st := by
  induction order generalizing seen st with
  | nil => exact ⟨seen, hf, hc, Nat.le_refl _⟩
  | cons n rest ih =>
      have hpot := potential_visit hS (fun _ => 1) hf hc (ho n List.mem_cons_self)
      obtain ⟨seen', hf', hc', hp'⟩ := ih (fun m hm => ho m (List.mem_cons_of_mem n hm))
        (fits_visit hS hf n) (current_visit hL hc n)
      rw [sweep_cons]
      refine ⟨seen', hf', hc', ?_⟩
      have hor : ((S.visit st n).1 || (S.sweep (S.visit st n).2 rest).1).toNat ≤
          (S.visit st n).1.toNat + (S.sweep (S.visit st n).2 rest).1.toNat := by
        cases (S.visit st n).1 <;> simp
      change _ + ((S.visit st n).1 || (S.sweep (S.visit st n).2 rest).1).toNat ≤ _
      simp only
      omega

/-- The last of the rounds is a sweep without change, if there is fuel for more rounds than results
can change. -/
theorem rounds_quiet (hL : S.Local) (hS : S.Climbs fits height bound) {order : List ν}
    (fuel passes : Nat) {seen : List ν} {st : State ν φ} (hf : S.Fits fits st)
    (hc : S.Current seen st)
    (hfuel : S.potential height bound (fun _ => 1) order seen st < fuel) :
    ∃ st', (S.sweep st' order).1 = false ∧
      (S.rounds order fuel passes st).2 = (S.sweep st' order).2 := by
  induction fuel generalizing passes seen st with
  | zero => omega
  | succ fuel ih =>
      obtain ⟨seen', hf', hc', hp⟩ := potential_sweep hL hS (fun n (hn : n ∈ order) => hn) hf hc
      rw [rounds]
      simp only
      cases hq : (S.sweep st order).1 with
      | true =>
          rw [if_pos rfl]
          rw [hq, Bool.toNat_true] at hp
          exact ih (passes + 1) hf' hc' (by omega)
      | false => exact ⟨st, hq, rfl⟩

end System

end Dataflow
