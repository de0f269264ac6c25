import Dataflow.FixedPoint.Closure
import Dataflow.Proofs.Lists
import Mathlib.Data.List.Perm.Subperm
import Mathlib.Logic.Relation

namespace Dataflow

variable {α : Type} {next : α → List α} {all done found : List α}

/-- Items done and items found within a finite list, none of them twice, such that all that the
items done lead to was found. -/
structure Exploring (next : α → List α) (all done found : List α) : Prop where
  nodup : (done ++ found).Nodup
  subset : done ++ found ⊆ all
  complete : ∀ a ∈ done, next a ⊆ done ++ found

theorem exploring_start {a : α} (ha : a ∈ all) : Exploring next all [] [a] where
  nodup := List.nodup_singleton a
  subset _ hb := List.mem_singleton.1 hb ▸ ha
  complete _ hb := absurd hb List.not_mem_nil

variable [DecidableEq α]

theorem Exploring.look {a : α} (hnext : ∀ a ∈ all, next a ⊆ all)
    (h : Exploring next all done (a :: found)) : Exploring next all (done ++ [a])
      (found ++ ((next a).eraseDups.filter (fun b => b ∉ done ++ a :: found))) := by
  have hlist : (done ++ [a]) ++ (found ++ ((next a).eraseDups.filter
      (fun b => b ∉ done ++ a :: found))) =
      (done ++ a :: found) ++ ((next a).eraseDups.filter (fun b => b ∉ done ++ a :: found)) := by
    simp
  have ha : a ∈ all := h.subset (List.mem_append_right _ List.mem_cons_self)
  constructor
  · rw [hlist]
    refine List.Nodup.append h.nodup ((nodup_eraseDups _).filter _) (fun b hb hnew => ?_)
    exact of_decide_eq_true (List.mem_filter.1 hnew).2 hb
  · rw [hlist]
    refine List.append_subset.2 ⟨h.subset, fun b hb => hnext a ha ?_⟩
    exact List.mem_eraseDups.1 (List.mem_filter.1 hb).1
  · rw [hlist]
    intro b hb
    rcases List.mem_append.1 hb with hb | hb
    · exact fun c hc => List.mem_append_left _ (h.complete b hb hc)
    · obtain rfl := List.mem_singleton.1 hb
      intro c hc
      by_cases hold : c ∈ done ++ b :: found
      · exact List.mem_append_left _ hold
      · exact List.mem_append_right _
          (List.mem_filter.2 ⟨List.mem_eraseDups.2 hc, decide_eq_true hold⟩)

theorem Exploring.closure_complete {fuel : Nat} (hnext : ∀ a ∈ all, next a ⊆ all)
    (h : Exploring next all done found) (hfuel : all.length ≤ done.length + fuel) :
    ∀ a ∈ closure next fuel done found, next a ⊆ closure next fuel done found := by
  induction fuel generalizing done found with
  | zero =>
      have hlen := (List.subperm_of_subset h.nodup h.subset).length_le
      rw [List.length_append] at hlen
      have hnil : found = [] := List.eq_nil_of_length_eq_zero (by omega)
      subst hnil
      rw [closure, List.append_nil]
      intro a ha
      simpa using h.complete a ha
  | succ fuel ih =>
      cases found with
      | nil =>
          rw [closure]
          intro a ha
          simpa using h.complete a ha
      | cons a found =>
          rw [closure]
          refine ih (h.look hnext) ?_
          rw [List.length_append, List.length_singleton]
          omega

theorem Exploring.nodup_closure (hnext : ∀ a ∈ all, next a ⊆ all)
    (h : Exploring next all done found) (fuel : Nat) : (closure next fuel done found).Nodup := by
  induction fuel generalizing done found with
  | zero => exact h.nodup
  | succ fuel ih =>
      cases found with
      | nil =>
          rw [closure, ← List.append_nil done]
          exact h.nodup
      | cons a found => exact ih (h.look hnext)

theorem closure_nil (next : α → List α) (fuel : Nat) (done : List α) :
    closure next fuel done [] = done := by
  cases fuel with
  | zero => exact List.append_nil done
  | succ fuel => rfl

theorem Exploring.closure_add {fuel : Nat} (hnext : ∀ a ∈ all, next a ⊆ all)
    (h : Exploring next all done found) (hfuel : all.length ≤ done.length + fuel) (more : Nat) :
    closure next (fuel + more) done found = closure next fuel done found := by
  induction fuel generalizing done found with
  | zero =>
      have hlen := (List.subperm_of_subset h.nodup h.subset).length_le
      rw [List.length_append] at hlen
      have hnil : found = [] := List.eq_nil_of_length_eq_zero (by omega)
      rw [hnil, closure_nil, closure_nil]
  | succ fuel ih =>
      cases found with
      | nil => rw [closure_nil, closure_nil]
      | cons a found =>
          rw [Nat.succ_add, closure, closure]
          refine ih (h.look hnext) ?_
          rw [List.length_append, List.length_singleton]
          omega

theorem prefix_closure (next : α → List α) (fuel : Nat) (done found : List α) :
    done <+: closure next fuel done found := by
  induction fuel generalizing done found with
  | zero => exact List.prefix_append done found
  | succ fuel ih =>
      cases found with
      | nil => exact List.prefix_rfl
      | cons a found => exact (List.prefix_append done [a]).trans (ih _ _)

theorem exists_reach_of_mem_closure {fuel : Nat} {b : α} (h : b ∈ closure next fuel done found) :
    ∃ a ∈ done ++ found, Relation.ReflTransGen (fun a b => b ∈ next a) a b := by
  induction fuel generalizing done found with
  | zero => exact ⟨b, h, .refl⟩
  | succ fuel ih =>
      cases found with
      | nil =>
          rw [closure] at h
          exact ⟨b, List.mem_append_left _ h, .refl⟩
      | cons a found =>
          rw [closure] at h
          obtain ⟨c, hc, hreach⟩ := ih h
          by_cases hold : c ∈ done ++ a :: found
          · exact ⟨c, hold, hreach⟩
          · refine ⟨a, List.mem_append_right _ List.mem_cons_self, .head ?_ hreach⟩
            simp only [List.mem_append, List.mem_cons, List.mem_filter, List.mem_eraseDups,
              List.not_mem_nil, or_false, not_or] at hc hold
            grind

/-- With fuel for all items there are, the closure of an item is what it leads to. -/
theorem mem_closure_iff {fuel : Nat} {a b : α} (hnext : ∀ a ∈ all, next a ⊆ all) (ha : a ∈ all)
    (hfuel : all.length ≤ fuel) : b ∈ closure next fuel [] [a] ↔
      Relation.ReflTransGen (fun a b => b ∈ next a) a b := by
  constructor
  · intro hb
    obtain ⟨c, hc, hreach⟩ := exists_reach_of_mem_closure hb
    exact List.mem_singleton.1 hc ▸ hreach
  · intro hreach
    have hcomplete := (exploring_start ha).closure_complete hnext (Nat.le_add_left_of_le hfuel)
    induction hreach with
    | refl => exact mem_closure_of_mem (List.mem_singleton_self a)
    | tail _ hstep ih => exact hcomplete _ ih hstep

end Dataflow
