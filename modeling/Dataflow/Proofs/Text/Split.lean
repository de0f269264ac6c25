import Dataflow.Text.Split

namespace Dataflow.Text

variable {mark : Char} {s s' t t' : List Char} {parts : List (List Char)}

theorem splitAll_eq_splitOn (mark : Char) (s : List Char) : splitAll mark s = s.splitOn mark := by
  induction s with
  | nil => rfl
  | cons c s ih =>
      obtain ⟨part, parts, h⟩ := List.exists_cons_of_ne_nil (splitAll_ne_nil mark s)
      rw [splitAll, List.splitOn_eq_splitOnP, List.splitOnP_cons_eq_if_modifyHead,
        ← List.splitOn_eq_splitOnP, ← ih, h]
      by_cases hc : c = mark
      · rw [if_pos hc, if_pos (beq_iff_eq.2 hc)]
      · rw [if_neg hc, if_neg (mt beq_iff_eq.1 hc)]
        rfl

theorem intercalate_splitAll (mark : Char) (s : List Char) :
    [mark].intercalate (splitAll mark s) = s := by
  rw [splitAll_eq_splitOn, List.intercalate_splitOn]

theorem splitAll_intercalate (h : ∀ part ∈ parts, mark ∉ part) (hne : parts ≠ []) :
    splitAll mark ([mark].intercalate parts) = parts := by
  rw [splitAll_eq_splitOn, List.splitOn_intercalate mark h hne]

theorem not_mem_of_mem_splitAll {part : List Char} (h : part ∈ splitAll mark s) : mark ∉ part := by
  induction s generalizing part with
  | nil =>
      rw [splitAll, List.mem_singleton] at h
      rw [h]
      exact List.not_mem_nil
  | cons c s ih =>
      rw [splitAll] at h
      split at h
      · rcases List.mem_cons.1 h with rfl | h
        · exact List.not_mem_nil
        · exact ih h
      · rename_i hc
        obtain ⟨first, parts, hs⟩ := List.exists_cons_of_ne_nil (splitAll_ne_nil mark s)
        rw [hs] at h ih
        rcases List.mem_cons.1 h with rfl | h
        · rw [List.mem_cons, not_or]
          exact ⟨Ne.symm hc, ih List.mem_cons_self⟩
        · exact ih (List.mem_cons_of_mem _ h)

theorem append_mark_inj (h : mark ∉ s) (h' : mark ∉ s') (heq : s ++ mark :: t = s' ++ mark :: t') :
    s = s' ∧ t = t' := by
  have hcut := congrArg (cut? mark) heq
  rw [cut?_append h, cut?_append h'] at hcut
  cases hcut
  exact ⟨rfl, rfl⟩

theorem takeWhile_append_mark (h : mark ∉ s) (t : List Char) :
    (s ++ mark :: t).takeWhile (fun c => c ≠ mark) = s := by
  have hs : ∀ c ∈ s, decide (c ≠ mark) = true := fun c hc =>
    decide_eq_true (fun heq => h (heq ▸ hc))
  rw [List.takeWhile_append_of_pos hs, List.takeWhile_cons, if_neg (by simp), List.append_nil]

/-- Parts that are joined can be told apart if none of them is empty, since no parts at all and one
empty part make the same text. -/
theorem intercalate_mark_inj {parts' : List (List Char)} (h : ∀ p ∈ parts, p ≠ [] ∧ mark ∉ p)
    (h' : ∀ p ∈ parts', p ≠ [] ∧ mark ∉ p)
    (heq : [mark].intercalate parts = [mark].intercalate parts') : parts = parts' := by
  have hsplit := congrArg (splitAll mark) heq
  by_cases hnil : parts = [] <;> by_cases hnil' : parts' = []
  · rw [hnil, hnil']
  · rw [splitAll_intercalate (fun p hp => (h' p hp).2) hnil', hnil] at hsplit
    exact absurd rfl (h' [] (hsplit ▸ List.mem_singleton_self [])).1
  · rw [splitAll_intercalate (fun p hp => (h p hp).2) hnil, hnil'] at hsplit
    exact absurd rfl (h [] (hsplit ▸ List.mem_singleton_self [])).1
  · rwa [splitAll_intercalate (fun p hp => (h p hp).2) hnil,
      splitAll_intercalate (fun p hp => (h' p hp).2) hnil'] at hsplit

end Dataflow.Text
