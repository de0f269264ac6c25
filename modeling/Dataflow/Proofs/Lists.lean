import Mathlib.Data.List.Flatten
import Mathlib.Data.List.Induction
import Mathlib.Data.List.Nodup

namespace Dataflow

variable {α β : Type}

theorem nodup_eraseDups [DecidableEq α] (l : List α) : l.eraseDups.Nodup := by
  induction hn : l.length using Nat.strongRecOn generalizing l with
  | ind n ih =>
      cases l with
      | nil => exact List.nodup_nil
      | cons a l =>
          rw [List.eraseDups_cons, List.nodup_cons]
          refine ⟨fun ha => ?_, ih _ ?_ _ rfl⟩
          · have ha := (List.mem_filter.1 (List.mem_eraseDups.1 ha)).2
            simp at ha
          · rw [← hn, List.length_cons]
            exact Nat.lt_succ_of_le (List.length_filter_le _ l)

theorem eraseDups_concat [DecidableEq α] (l : List α) (a : α) :
    (l ++ [a]).eraseDups = if a ∈ l then l.eraseDups else l.eraseDups ++ [a] := by
  rw [List.eraseDups_append]
  by_cases ha : a ∈ l <;> simp [List.removeAll, ha, List.eraseDups_cons]

theorem concat_eq_append_cons_iff {l front back : List α} {r x : α} :
    l ++ [r] = front ++ x :: back ↔
      (l = front ∧ r = x ∧ back = []) ∨ ∃ rest, l = front ++ x :: rest ∧ back = rest ++ [r] := by
  cases back using List.reverseRecOn with
  | nil =>
      constructor
      · intro h
        obtain ⟨rfl, hr⟩ := List.append_inj' h rfl
        exact .inl ⟨rfl, List.singleton_inj.1 hr, rfl⟩
      · rintro (⟨rfl, rfl, -⟩ | ⟨rest, -, h⟩)
        · rfl
        · cases rest <;> cases h
  | append_singleton rest y =>
      rw [← List.cons_append, ← List.append_assoc]
      constructor
      · intro h
        obtain ⟨rfl, hr⟩ := List.append_inj' h rfl
        obtain rfl := List.singleton_inj.1 hr
        exact .inr ⟨rest, rfl, rfl⟩
      · rintro (⟨-, -, h⟩ | ⟨rest', rfl, h⟩)
        · cases rest <;> cases h
        · obtain ⟨rfl, hr⟩ := List.append_inj' h rfl
          rw [hr]

theorem pairwise_eraseDups [DecidableEq α] (l : List α) :
    l.eraseDups.Pairwise (fun x y => ∃ front back, l = front ++ x :: back ∧ y ∉ front) := by
  induction hn : l.length using Nat.strongRecOn generalizing l with
  | ind n ih =>
      cases l with
      | nil => exact List.Pairwise.nil
      | cons a l =>
          rw [List.eraseDups_cons, List.pairwise_cons]
          refine ⟨fun y _ => ⟨[], l, rfl, List.not_mem_nil⟩, ?_⟩
          have hlength : (l.filter (fun b => !b == a)).length < n := by
            rw [← hn, List.length_cons]
            exact Nat.lt_succ_of_le (List.length_filter_le _ l)
          refine (ih _ hlength _ rfl).imp_of_mem ?_
          rintro x y - hy ⟨front, back, heq, hfront⟩
          have hya : (!y == a) = true := (List.mem_filter.1 (List.mem_eraseDups.1 hy)).2
          obtain ⟨front, rest, rfl, rfl, hrest⟩ := List.filter_eq_append_iff.1 heq
          obtain ⟨between, back, rfl, hbetween, -, -⟩ := List.filter_eq_cons_iff.1 hrest
          refine ⟨a :: front ++ between, back, by simp, ?_⟩
          simp only [List.cons_append, List.mem_cons, List.mem_append, not_or]
          refine ⟨fun hy => ?_, fun hy => ?_, fun hy => hbetween y hy hya⟩
          · simp [hy] at hya
          · exact hfront (List.mem_filter.2 ⟨hy, hya⟩)

theorem filter_prefix_of_pairwise {p : α → Prop} [DecidablePred p] {l : List α}
    (h : l.Pairwise (fun x y => p y → p x)) : l.filter p <+: l := by
  induction l with
  | nil => exact List.prefix_rfl
  | cons a l ih =>
      obtain ⟨ha, hl⟩ := List.pairwise_cons.1 h
      by_cases hp : p a
      · rw [List.filter_cons_of_pos (by simpa using hp)]
        exact (List.prefix_cons_inj a).2 (ih hl)
      · have hnone : l.filter p = [] :=
          List.filter_eq_nil_iff.2 (fun y hy hpy => hp (ha y hy (of_decide_eq_true hpy)))
        rw [List.filter_cons_of_neg (by simpa using hp), hnone]
        exact List.nil_prefix

theorem filter_flatMap_of_nodup [DecidableEq α] {f : α → List β} {k : β → α}
    (hk : ∀ a, ∀ b ∈ f a, k b = a) {l : List α} (hl : l.Nodup) {a : α} (ha : a ∈ l) :
    (l.flatMap f).filter (fun b => k b = a) = f a := by
  induction l with
  | nil => cases ha
  | cons c l ih =>
      obtain ⟨hc, hl⟩ := List.nodup_cons.1 hl
      rw [List.flatMap_cons, List.filter_append]
      rcases List.mem_cons.1 ha with rfl | ha
      · have hf : (f a).filter (fun b => k b = a) = f a :=
          List.filter_eq_self.2 (fun b hb => decide_eq_true (hk a b hb))
        have hrest : (l.flatMap f).filter (fun b => k b = a) = [] := by
          refine List.filter_eq_nil_iff.2 (fun b hb hka => hc ?_)
          obtain ⟨c, hcl, hb⟩ := List.mem_flatMap.1 hb
          rwa [← of_decide_eq_true hka, hk c b hb]
        rw [hf, hrest, List.append_nil]
      · have hf : (f c).filter (fun b => k b = a) = [] := by
          refine List.filter_eq_nil_iff.2 (fun b hb hka => hc ?_)
          rwa [← hk c b hb, of_decide_eq_true hka]
        rw [hf, List.nil_append, ih hl ha]

theorem length_flatMap_filter_ne_add_le [DecidableEq α] (f : α → List β) {l : List α} {a : α}
    (ha : a ∈ l) :
    ((l.filter (fun b => b ≠ a)).flatMap f).length + (f a).length ≤ (l.flatMap f).length := by
  obtain ⟨front, back, rfl⟩ := List.append_of_mem ha
  have hle (l : List α) : ((l.filter (fun b => b ≠ a)).flatMap f).length ≤ (l.flatMap f).length :=
    (List.filter_sublist.flatMap f).length_le
  have hfront := hle front
  have hback := hle back
  rw [List.filter_append, List.filter_cons_of_neg (by simp), List.flatMap_append,
    List.flatMap_append, List.flatMap_cons, List.length_append, List.length_append,
    List.length_append]
  omega

theorem count_filter_prop [DecidableEq α] (p : α → Prop) [DecidablePred p] (l : List α) (a : α) :
    (l.filter p).count a = if p a then l.count a else 0 := by
  by_cases ha : p a
  · rw [if_pos ha, List.count_filter (by simpa using ha)]
  · rw [if_neg ha, List.count_eq_zero]
    exact fun hm => ha (of_decide_eq_true (List.mem_filter.1 hm).2)

theorem nodup_flatMap_of_nodup {f : α → List β} {k : β → α} (hk : ∀ a, ∀ b ∈ f a, k b = a)
    (hf : ∀ a, (f a).Nodup) {l : List α} (hl : l.Nodup) : (l.flatMap f).Nodup := by
  refine List.nodup_flatMap.2 ⟨fun a _ => hf a, hl.imp (fun {a c} hac b hba hbc => hac ?_)⟩
  rw [← hk a b hba, hk c b hbc]

end Dataflow
