namespace Dataflow.Text

def splitAll (mark : Char) : List Char → List (List Char)
  | [] => [[]]
  | c :: rest =>
    if c = mark then [] :: splitAll mark rest
    else match splitAll mark rest with
      | [] => [[c]]
      | part :: parts => (c :: part) :: parts

def cut? (mark : Char) : List Char → Option (List Char × List Char)
  | [] => none
  | c :: rest =>
    if c = mark then some ([], rest) else (cut? mark rest).map (fun p => (c :: p.1, p.2))

theorem splitAll_ne_nil (mark : Char) (s : List Char) : splitAll mark s ≠ [] := by
  cases s with
  | nil => simp [splitAll]
  | cons c rest =>
    rw [splitAll]
    split
    · simp
    · split <;> simp

theorem cut?_eq_none_iff {mark : Char} {s : List Char} : cut? mark s = none ↔ mark ∉ s := by
  induction s with
  | nil => simp [cut?]
  | cons c rest ih =>
    rw [cut?]
    split
    · simp_all
    · rw [Option.map_eq_none_iff, ih]
      grind

theorem cut?_append {mark : Char} {s : List Char} (h : mark ∉ s) (t : List Char) :
    cut? mark (s ++ mark :: t) = some (s, t) := by
  induction s with
  | nil => simp [cut?]
  | cons c rest ih =>
    simp only [List.mem_cons, not_or] at h
    rw [List.cons_append, cut?, if_neg (Ne.symm h.1), ih h.2]
    rfl

end Dataflow.Text
