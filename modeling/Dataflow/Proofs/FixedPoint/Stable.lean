import Dataflow.FixedPoint.RoundRobin
import Dataflow.FixedPoint.Worklist

namespace Dataflow.System

variable {ν φ : Type} [DecidableEq ν] {S : System ν φ}

/-- What is collected at a node comes from the results of those nodes that have it among their
dependents, and collecting the same results again adds nothing. No order on facts is assumed. -/
structure Local (S : System ν φ) : Prop where
  collect_congr : ∀ {n : ν} {f g : ν → φ} {before : φ},
    (∀ m, n ∈ S.dependents m → f m = g m) → S.collect n f before = S.collect n g before
  collect_collect : ∀ (n : ν) (f : ν → φ) (before : φ),
    S.collect n f (S.collect n f before) = S.collect n f before
  same_refl : ∀ f, S.same f f = true

def Stable (S : System ν φ) (st : State ν φ) (n : ν) : Prop :=
  S.incoming st n = S.input st n ∧
    S.same (S.result st n) (S.transfer n (S.input st n)) = true

/-- The states that visits of certain nodes can lead to, in whatever order. -/
inductive Reached (S : System ν φ) (order : List ν) (st₀ : State ν φ) : State ν φ → Prop
  | start : Reached S order st₀ st₀
  | visit {st n} : Reached S order st₀ st → n ∈ order → Reached S order st₀ (S.visit st n).2

def Throughout (S : System ν φ) (P Q : ν → φ → Prop) (st : State ν φ) : Prop :=
  ∀ n, P n (S.input st n) ∧ Q n (S.result st n)

theorem result_visit_of_quiet {st : State ν φ} {n : ν} (h : (S.visit st n).1 = false) (m : ν) :
    S.result (S.visit st n).2 m = S.result st m := by
  rw [result_visit, h]
  simp

theorem input_visit_self (S : System ν φ) (st : State ν φ) (n : ν) :
    S.input (S.visit st n).2 n = S.incoming st n := by
  rw [input_visit, if_pos rfl]

theorem input_visit_of_ne (S : System ν φ) (st : State ν φ) {n m : ν} (h : m ≠ n) :
    S.input (S.visit st n).2 m = S.input st m := by
  rw [input_visit, if_neg h]

theorem result_visit_of_ne (S : System ν φ) (st : State ν φ) {n m : ν} (h : m ≠ n) :
    S.result (S.visit st n).2 m = S.result st m := by
  rw [result_visit, if_neg (fun hm => h hm.1)]

theorem throughout_visit {P Q : ν → φ → Prop} {st : State ν φ} (h : S.Throughout P Q st) {n : ν}
    (hin : P n (S.incoming st n)) (hout : Q n (S.transfer n (S.incoming st n))) :
    S.Throughout P Q (S.visit st n).2 := by
  intro m
  constructor
  · rw [input_visit]
    split
    · rename_i he
      exact he ▸ hin
    · exact (h m).1
  · rw [result_visit]
    split
    · rename_i he
      exact he.1 ▸ hout
    · exact (h m).2

/-- A visit does not change the results a node collects from, unless the node is to be visited for
it. -/
theorem collect_visit (hS : S.Local) {st : State ν φ} {n m : ν}
    (h : (S.visit st n).1 = true → m ∉ S.dependents n) (before : φ) :
    S.collect m (S.result (S.visit st n).2) before = S.collect m (S.result st) before := by
  apply hS.collect_congr
  intro k hk
  rw [result_visit]
  apply if_neg
  rintro ⟨rfl, hc⟩
  exact h hc hk

theorem same_result_visit_self (hS : S.Local) (st : State ν φ) (n : ν) :
    S.same (S.result (S.visit st n).2 n) (S.transfer n (S.incoming st n)) = true := by
  rw [result_visit]
  cases hc : (S.visit st n).1 with
  | true =>
      rw [if_pos ⟨rfl, rfl⟩]
      exact hS.same_refl _
  | false =>
      rw [changed_visit, Bool.not_eq_false'] at hc
      simpa using hc

theorem stable_visit_self (hS : S.Local) {st : State ν φ} {n : ν}
    (h : (S.visit st n).1 = true → n ∉ S.dependents n) : S.Stable (S.visit st n).2 n := by
  have hi := input_visit_self S st n
  refine ⟨?_, ?_⟩
  · rw [incoming, hi, collect_visit hS h]
    exact hS.collect_collect n _ _
  · rw [hi]
    exact same_result_visit_self hS st n

theorem stable_visit_of_ne (hS : S.Local) {st : State ν φ} {n m : ν} (hm : m ≠ n)
    (h : (S.visit st n).1 = true → m ∉ S.dependents n) (hst : S.Stable st m) :
    S.Stable (S.visit st n).2 m := by
  have hi := input_visit_of_ne S st hm
  refine ⟨?_, ?_⟩
  · rw [incoming, hi, collect_visit hS h]
    exact hst.1
  · rw [hi, result_visit_of_ne S st hm]
    exact hst.2

theorem stable_visit (hS : S.Local) {st : State ν φ} {n m : ν}
    (h : (S.visit st n).1 = true → m ∉ S.dependents n) (hst : m ≠ n → S.Stable st m) :
    S.Stable (S.visit st n).2 m := by
  by_cases hm : m = n
  · subst hm
    exact stable_visit_self hS h
  · exact stable_visit_of_ne hS hm h (hst hm)

def Attended (S : System ν φ) (order : List ν) (p : Progress ν φ) : Prop :=
  ∀ n ∈ order, n ∉ p.queue.items → S.Stable p.state n

theorem step?_eq_some {p q : Progress ν φ} (h : S.step? p = some q) :
    ∃ n rest, p.queue.pop? = some (n, rest) ∧ q.state = (S.visit p.state n).2 ∧
      q.queue = if (S.visit p.state n).1 then rest.addAll (S.dependents n) else rest := by
  rw [step?] at h
  split at h
  · cases h
  · rename_i n rest hp
    cases h
    exact ⟨n, rest, hp, rfl, rfl⟩

theorem mem_queue_step {p q : Progress ν φ} (h : S.step? p = some q) :
    ∃ n, p.queue.items.head? = some n ∧ q.state = (S.visit p.state n).2 ∧
      (∀ m, m ∈ q.queue.items ↔
        m ∈ p.queue.items.tail ∨ ((S.visit p.state n).1 = true ∧ m ∈ S.dependents n)) := by
  obtain ⟨n, rest, hp, hst, hq⟩ := step?_eq_some h
  have hi := WorkQueue.items_of_pop? hp
  refine ⟨n, by rw [hi]; rfl, hst, fun m => ?_⟩
  rw [hq, hi, List.tail_cons]
  cases (S.visit p.state n).1 with
  | true => simp [WorkQueue.mem_items_addAll, or_comm]
  | false => simp

theorem attended_step (hS : S.Local) {order : List ν} {p q : Progress ν φ}
    (hp : S.Attended order p) (h : S.step? p = some q) : S.Attended order q := by
  obtain ⟨n, hn, hst, hq⟩ := mem_queue_step h
  intro m hm hmq
  rw [hq, not_or] at hmq
  rw [hst]
  apply stable_visit hS (fun hc hd => hmq.2 ⟨hc, hd⟩)
  intro hne
  apply hp m hm
  intro hmp
  cases hl : p.queue.items with
  | nil => rw [hl] at hmp; cases hmp
  | cons k rest =>
      rw [hl] at hn hmp hmq
      cases hn
      rcases List.mem_cons.1 hmp with he | he
      · exact hne he
      · exact hmq.1 he

theorem attended_settle (hS : S.Local) {order : List ν} (fuel : Nat) {p : Progress ν φ}
    (hp : S.Attended order p) : S.Attended order (S.settle fuel p) :=
  settle_induction S (fun _ _ hp h => attended_step hS hp h) fuel hp

theorem reached_settle {order : List ν} {st₀ : State ν φ} (fuel : Nat) {p : Progress ν φ}
    (hd : ∀ n ∈ order, ∀ m ∈ S.dependents n, m ∈ order)
    (hq : ∀ n ∈ p.queue.items, n ∈ order) (hp : S.Reached order st₀ p.state) :
    (∀ n ∈ (S.settle fuel p).queue.items, n ∈ order) ∧
      S.Reached order st₀ (S.settle fuel p).state := by
  refine settle_induction S
    (P := fun p => (∀ n ∈ p.queue.items, n ∈ order) ∧ S.Reached order st₀ p.state)
    (fun p q hp h => ?_) fuel ⟨hq, hp⟩
  obtain ⟨n, hn, hst, hm⟩ := mem_queue_step h
  have hno : n ∈ order := hp.1 n (List.mem_of_head? hn)
  refine ⟨fun m hmq => ?_, hst ▸ hp.2.visit hno⟩
  rcases (hm m).1 hmq with he | ⟨-, he⟩
  · exact hp.1 m (List.mem_of_mem_tail he)
  · exact hd n hno m he

theorem sweep_cons (S : System ν φ) (st : State ν φ) (n : ν) (rest : List ν) :
    S.sweep st (n :: rest) =
      ((S.visit st n).1 || (S.sweep (S.visit st n).2 rest).1, (S.sweep (S.visit st n).2 rest).2) :=
  rfl

theorem stable_sweep_of_quiet (hS : S.Local) {st : State ν φ} {order : List ν}
    (h : (S.sweep st order).1 = false) {m : ν} (hm : m ∈ order ∨ S.Stable st m) :
    S.Stable (S.sweep st order).2 m := by
  induction order generalizing st with
  | nil =>
      rcases hm with hm | hm
      · cases hm
      · exact hm
  | cons n rest ih =>
      rw [sweep_cons] at h ⊢
      obtain ⟨hv, hr⟩ := Bool.or_eq_false_iff.1 h
      have hkeep : (S.visit st n).1 = true → m ∉ S.dependents n := by
        intro hc
        rw [hv] at hc
        cases hc
      apply ih hr
      by_cases hr' : m ∈ rest
      · exact .inl hr'
      · right
        apply stable_visit hS hkeep
        intro hne
        rcases hm with hm | hm
        · rcases List.mem_cons.1 hm with he | he
          · exact absurd he hne
          · exact absurd he hr'
        · exact hm

theorem reached_sweep {order scope : List ν} {st₀ st : State ν φ} (hs : ∀ n ∈ order, n ∈ scope)
    (h : S.Reached scope st₀ st) : S.Reached scope st₀ (S.sweep st order).2 := by
  induction order generalizing st with
  | nil => exact h
  | cons n rest ih =>
      rw [sweep_cons]
      exact ih (fun m hm => hs m (List.mem_cons_of_mem n hm)) (h.visit (hs n List.mem_cons_self))

theorem reached_rounds {order : List ν} {st₀ : State ν φ} (fuel passes : Nat) {st : State ν φ}
    (h : S.Reached order st₀ st) : S.Reached order st₀ (S.rounds order fuel passes st).2 := by
  induction fuel generalizing passes st with
  | zero => exact h
  | succ fuel ih =>
      have hs := reached_sweep (fun _ hn => hn) h
      rw [rounds]
      simp only
      split
      · exact ih _ hs
      · exact hs

end Dataflow.System
