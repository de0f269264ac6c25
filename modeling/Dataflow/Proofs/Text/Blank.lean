import Dataflow.Text.Blank

namespace Dataflow.Text

variable {s t w : List Char} {c : Char}

def Blank (s : List Char) : Prop := ∀ c ∈ s, isBlank c = true

instance (s : List Char) : Decidable (Blank s) := decidable_of_iff (s.all isBlank) List.all_eq_true

structure Trimmed (s : List Char) : Prop where
  head : ∀ c, s.head? = some c → isBlank c = false
  last : ∀ c, s.getLast? = some c → isBlank c = false

theorem Blank.not_mem (h : Blank w) (hc : isBlank c = false) : c ∉ w := by
  intro hm
  rw [h c hm] at hc
  cases hc

theorem Blank.reverse (h : Blank w) : Blank w.reverse := fun c hc => h c (List.mem_reverse.1 hc)

theorem Blank.dropWhile (h : Blank w) : w.dropWhile isBlank = [] :=
  (dropWhile_isBlank_eq_nil_iff w).2 h

theorem dropWhile_of_head (h : ∀ c, s.head? = some c → isBlank c = false) :
    s.dropWhile isBlank = s := by
  cases s with
  | nil => rfl
  | cons c s => rw [List.dropWhile_cons, if_neg (by rw [h c rfl]; exact Bool.false_ne_true)]

theorem trim_of_trimmed (h : Trimmed s) : trim s = s := by
  rw [trim, dropWhile_of_head h.head, dropWhile_of_head, List.reverse_reverse]
  intro c hc
  rw [List.head?_reverse] at hc
  exact h.last c hc

theorem trim_blank_append (h : Blank w) (s : List Char) : trim (w ++ s) = trim s := by
  rw [trim, List.dropWhile_append_of_pos h, trim]

theorem trim_append_blank (h : Blank w) (s : List Char) : trim (s ++ w) = trim s := by
  rw [trim, List.dropWhile_append]
  split
  · rename_i hs
    rw [h.dropWhile, trim, List.isEmpty_iff.1 hs]
  · rw [List.reverse_append, List.dropWhile_append_of_pos h.reverse, trim]

theorem trim_append_mark (hc : isBlank c = false) (s t : List Char) : trim (s ++ c :: t) =
    s.dropWhile isBlank ++ c :: (t.reverse.dropWhile isBlank).reverse := by
  have hmark (s t : List Char) : (s ++ c :: t).dropWhile isBlank = s.dropWhile isBlank ++ c :: t := by
    have hself : (c :: t).dropWhile isBlank = c :: t := dropWhile_of_head (by simp [hc])
    rw [List.dropWhile_append, hself]
    split
    · rename_i hs
      rw [List.isEmpty_iff.1 hs, List.nil_append]
    · rfl
  rw [trim, hmark, List.reverse_append, List.reverse_cons, List.append_assoc, List.singleton_append,
    hmark, List.reverse_append, List.reverse_cons, List.reverse_reverse, List.append_assoc,
    List.singleton_append]

theorem blank_takeWhile (s : List Char) : Blank (s.takeWhile isBlank) :=
  List.all_eq_true.1 List.all_takeWhile

theorem trim_dropWhile (s : List Char) : trim (s.dropWhile isBlank) = trim s := by
  have h := trim_blank_append (blank_takeWhile s) (s.dropWhile isBlank)
  rw [List.takeWhile_append_dropWhile] at h
  exact h.symm

theorem trim_reverse_dropWhile (s : List Char) :
    trim (s.reverse.dropWhile isBlank).reverse = trim s := by
  have h := trim_append_blank (blank_takeWhile s.reverse).reverse (s.reverse.dropWhile isBlank).reverse
  rw [← List.reverse_append, List.takeWhile_append_dropWhile, List.reverse_reverse] at h
  exact h.symm

theorem trim_surrounded {w w' : List Char} (hw : Blank w) (hw' : Blank w') (h : Trimmed s) :
    trim (w ++ s ++ w') = s := by
  rw [trim_append_blank hw', trim_blank_append hw, trim_of_trimmed h]

theorem not_blank_of_head?_dropWhile (h : (s.dropWhile isBlank).head? = some c) :
    isBlank c = false := by
  have hnot := List.head?_dropWhile_not isBlank s
  rw [h] at hnot
  exact hnot

theorem dropWhile_eq_trim_append (s : List Char) :
    s.dropWhile isBlank = trim s ++ ((s.dropWhile isBlank).reverse.takeWhile isBlank).reverse := by
  rw [trim, ← List.reverse_append, List.takeWhile_append_dropWhile, List.reverse_reverse]

theorem exists_surrounded (s : List Char) : ∃ w w', Blank w ∧ Blank w' ∧ s = w ++ trim s ++ w' := by
  refine ⟨s.takeWhile isBlank, ((s.dropWhile isBlank).reverse.takeWhile isBlank).reverse,
    blank_takeWhile s, (blank_takeWhile _).reverse, ?_⟩
  rw [List.append_assoc, ← dropWhile_eq_trim_append, List.takeWhile_append_dropWhile]

theorem trimmed_trim (s : List Char) : Trimmed (trim s) where
  head c hc := by
    refine not_blank_of_head?_dropWhile (s := s) ?_
    rw [dropWhile_eq_trim_append, List.head?_append, hc, Option.some_or]
  last c hc := by
    rw [trim, List.getLast?_reverse] at hc
    exact not_blank_of_head?_dropWhile hc

theorem trim_eq_self_iff : trim s = s ↔ Trimmed s :=
  ⟨fun h => h ▸ trimmed_trim s, trim_of_trimmed⟩

instance (s : List Char) : Decidable (Trimmed s) := decidable_of_iff (trim s = s) trim_eq_self_iff

theorem mem_of_mem_trim (h : c ∈ trim s) : c ∈ s := by
  rw [trim, List.mem_reverse] at h
  have h := List.mem_reverse.1 ((List.dropWhile_sublist _).subset h)
  exact (List.dropWhile_sublist _).subset h

end Dataflow.Text
