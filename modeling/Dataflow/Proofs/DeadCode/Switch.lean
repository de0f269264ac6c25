import Dataflow.DeadCode
import Dataflow.Proofs.Run.Memory
import Mathlib.Data.List.TakeWhile

namespace Dataflow.DeadCode

variable {b : Body} {v : Int} {s : CaseScan} {e : Edge} {edges : List Edge}

def caseEdges (edges : List Edge) : List Edge := edges.filter (fun e => e.kind = .switchCase)

def fallingOn (b : Body) : List Edge → List Edge
  | [] => []
  | e :: rest => e :: if b.fallsThrough e.target then fallingOn b rest else []

/-- The case edges that control can take for a selector. -/
def takenCases (b : Body) (v : Int) (edges : List Edge) : List Edge :=
  fallingOn b ((caseEdges edges).dropWhile (fun e => e.caseValue ≠ some v))

theorem fallingOn_eq_nil_iff {l : List Edge} : fallingOn b l = [] ↔ l = [] := by
  cases l <;> simp [fallingOn]

theorem fallingOn_subset (b : Body) (l : List Edge) : fallingOn b l ⊆ l := by
  induction l with
  | nil => exact List.Subset.refl _
  | cons e l ih =>
      rw [fallingOn]
      split
      · exact List.cons_subset_cons e ih
      · exact List.cons_subset_cons e (List.nil_subset l)

theorem takenCases_subset (b : Body) (v : Int) (edges : List Edge) :
    takenCases b v edges ⊆ edges :=
  List.Subset.trans (fallingOn_subset b _)
    (List.Subset.trans (List.dropWhile_sublist _).subset (List.filter_subset_self _))

theorem takenCases_eq_nil_iff :
    takenCases b v edges = [] ↔ ∀ e ∈ caseEdges edges, e.caseValue ≠ some v := by
  rw [takenCases, fallingOn_eq_nil_iff, List.dropWhile_eq_nil_iff]
  exact forall₂_congr fun _ _ => decide_eq_true_iff

namespace CaseScan

/-- The cases that a scan has still to take: the next ones while control falls on, none once it has
stopped, and before the first one those from the selector's value on. -/
def ahead (b : Body) (v : Int) (s : CaseScan) (edges : List Edge) : List Edge :=
  if s.falling then fallingOn b (caseEdges edges)
  else if s.matched then [] else takenCases b v edges

theorem ahead_of_not_taken (b : Body) (edges : List Edge) (h : ¬ (e.kind = .switchCase ∧
    ((s.matched = false ∧ e.caseValue = some v) ∨ s.falling = true))) :
    (s.look b v e).targets = s.targets ∧ (s.look b v e).matched = s.matched ∧
      (s.look b v e).ahead b v edges = s.ahead b v (e :: edges) := by
  by_cases hcase : e.kind = .switchCase
  · have hpass : ((!s.matched && decide (e.caseValue = some v)) || s.falling) = false := by
      simpa [hcase] using h
    obtain ⟨hpass, hfall⟩ := Bool.or_eq_false_iff.1 hpass
    refine ⟨by simp [look, hcase, hpass, hfall], by simp [look, hcase, hpass, hfall], ?_⟩
    cases hm : s.matched with
    | true => simp [look, ahead, hcase, hfall, hm]
    | false =>
        have hne : e.caseValue ≠ some v := by simpa [hm] using hpass
        simp [look, ahead, takenCases, caseEdges, hcase, hfall, hm, hne]
  · have hlook : (s.look b v e).targets = s.targets ∧ (s.look b v e).matched = s.matched ∧
        (s.look b v e).falling = s.falling := by
      rw [look]
      split
      · exact ⟨rfl, rfl, rfl⟩
      · exact absurd ‹_› hcase
      · exact ⟨rfl, rfl, rfl⟩
    refine ⟨hlook.1, hlook.2.1, ?_⟩
    rw [ahead, hlook.2.1, hlook.2.2]
    simp [ahead, takenCases, caseEdges, hcase]

theorem ahead_of_taken (b : Body) (edges : List Edge) (hcase : e.kind = .switchCase)
    (h : (s.matched = false ∧ e.caseValue = some v) ∨ s.falling = true) :
    (s.look b v e).targets = s.targets ++ [e.target] ∧ (s.look b v e).matched = true ∧
      s.ahead b v (e :: edges) = e :: (s.look b v e).ahead b v edges := by
  have htake : ((!s.matched && decide (e.caseValue = some v)) || s.falling) = true := by
    simpa using h
  refine ⟨by simp [look, hcase, htake], by simp [look, hcase, htake], ?_⟩
  have hahead : s.ahead b v (e :: edges) = fallingOn b (e :: caseEdges edges) := by
    rcases h with ⟨hm, hv⟩ | hf
    · cases hf : s.falling <;> simp [ahead, takenCases, caseEdges, hcase, hm, hv, hf]
    · simp [ahead, caseEdges, hcase, hf]
  rw [hahead, fallingOn]
  simp [look, ahead, hcase, htake]

theorem foldl_look (s : CaseScan) (edges : List Edge) :
    (edges.foldl (look b v) s).targets = s.targets ++ (s.ahead b v edges).map Edge.target ∧
      ((edges.foldl (look b v) s).matched = true ↔ s.matched = true ∨ s.ahead b v edges ≠ []) := by
  induction edges generalizing s with
  | nil =>
      have hnil : s.ahead b v [] = [] := by simp [ahead, takenCases, caseEdges, fallingOn]
      simp [hnil]
  | cons e edges ih =>
      obtain ⟨htargets, hmatched⟩ := ih (s.look b v e)
      rw [List.foldl_cons, htargets, hmatched]
      by_cases h : e.kind = .switchCase ∧
          ((s.matched = false ∧ e.caseValue = some v) ∨ s.falling = true)
      · obtain ⟨ht, hm, ha⟩ := ahead_of_taken b edges h.1 h.2
        rw [ha, ht, hm]
        simp
      · obtain ⟨ht, hm, ha⟩ := ahead_of_not_taken b edges h
        rw [ha, ht, hm]
        exact ⟨rfl, Iff.rfl⟩

theorem default_foldl (s : CaseScan) (edges : List Edge) : (edges.foldl (look b v) s).default =
    ((edges.filter Edge.isDefault).getLast?.map Edge.target).or s.default := by
  induction edges generalizing s with
  | nil => rfl
  | cons e edges ih =>
      rw [List.foldl_cons, ih, look]
      cases hk : e.kind with
      | switchDefault =>
          rw [List.filter_cons_of_pos (by simp [Edge.isDefault, hk]), List.getLast?_cons]
          cases (edges.filter Edge.isDefault).getLast? <;> rfl
      | switchCase =>
          rw [List.filter_cons_of_neg (by simp [Edge.isDefault, hk])]
          exact congrArg _ (by simp only []; split <;> rfl)
      | entry | fallThrough | goto | ifTrue | ifFalse | ret | exception =>
          rw [List.filter_cons_of_neg (by simp [Edge.isDefault, hk])]

end CaseScan

/-- The targets of a switch whose selector is known are those of the cases taken, or else that of the
default. -/
theorem switchTargets_eq (b : Body) (v : Int) (edges : List Edge) : switchTargets b v edges =
    if takenCases b v edges = [] then
      ((edges.filter Edge.isDefault).getLast?.map Edge.target).toList
    else (takenCases b v edges).map Edge.target := by
  obtain ⟨htargets, hmatched⟩ := CaseScan.foldl_look (b := b) (v := v) {} edges
  have hahead : CaseScan.ahead b v {} edges = takenCases b v edges := rfl
  rw [hahead] at htargets hmatched
  rw [switchTargets, htargets, CaseScan.default_foldl, Option.or_none]
  by_cases h : takenCases b v edges = []
  · have hm : (edges.foldl (CaseScan.look b v) {}).matched = false := by simpa [h] using hmatched
    rw [hm, if_pos h, h]
    rfl
  · have hm : (edges.foldl (CaseScan.look b v) {}).matched = true := by simpa [h] using hmatched
    rw [hm, if_neg h]
    exact List.append_nil _

theorem switchTargets_subset (b : Body) (v : Int) (edges : List Edge) :
    switchTargets b v edges ⊆ edges.map Edge.target := by
  rw [switchTargets_eq]
  split
  · intro m hm
    obtain ⟨e, he, rfl⟩ := Option.map_eq_some_iff.1 (Option.mem_toList.1 hm)
    exact List.mem_map_of_mem (List.mem_of_mem_filter (List.mem_of_getLast? he))
  · exact List.map_subset _ (takenCases_subset b v edges)

theorem mem_switchTargets_iff {m : Node}
    (hone : ∀ d ∈ edges, ∀ d' ∈ edges, d.isDefault = true → d'.isDefault = true → d = d') :
    m ∈ switchTargets b v edges ↔ ∃ e ∈ edges, e.target = m ∧ (e ∈ takenCases b v edges ∨
      (∀ d ∈ caseEdges edges, d.caseValue ≠ some v) ∧ e.isDefault = true) := by
  rw [switchTargets_eq, ← takenCases_eq_nil_iff (b := b)]
  by_cases h : takenCases b v edges = []
  · rw [if_pos h, Option.mem_toList, Option.map_eq_some_iff]
    constructor
    · rintro ⟨e, he, rfl⟩
      obtain ⟨hmem, hd⟩ := List.mem_filter.1 (List.mem_of_getLast? he)
      exact ⟨e, hmem, rfl, .inr ⟨h, hd⟩⟩
    · rintro ⟨e, he, rfl, htaken | ⟨-, hd⟩⟩
      · rw [h] at htaken
        cases htaken
      · have hne : edges.filter Edge.isDefault ≠ [] :=
          List.ne_nil_of_mem (List.mem_filter.2 ⟨he, hd⟩)
        refine ⟨_, List.getLast?_eq_some_getLast hne, ?_⟩
        obtain ⟨hl, hld⟩ := List.mem_filter.1 (List.getLast_mem hne)
        rw [hone _ hl e he hld hd]
  · rw [if_neg h, List.mem_map]
    constructor
    · rintro ⟨e, he, rfl⟩
      exact ⟨e, takenCases_subset b v edges he, rfl, .inl he⟩
    · rintro ⟨e, -, rfl, htaken | ⟨hnil, -⟩⟩
      · exact ⟨e, htaken, rfl⟩
      · exact absurd hnil h

theorem mem_takenCases_of_find? (he : edges.find? (Edge.isCase v) = some e) :
    e ∈ takenCases b v edges := by
  obtain ⟨hcase, before, behind, rfl, hbefore⟩ := List.find?_eq_some_iff_append.1 he
  obtain ⟨hk, hv⟩ := Bool.and_eq_true_iff.1 hcase
  have hpassed : ∀ d ∈ caseEdges before, decide (d.caseValue ≠ some v) = true := by
    intro d hd
    obtain ⟨hd, hdk⟩ := List.mem_filter.1 hd
    have hno := hbefore d hd
    simpa [Edge.isCase, of_decide_eq_true hdk] using hno
  have hcases : caseEdges (before ++ e :: behind) =
      caseEdges before ++ e :: caseEdges behind := by
    simp [caseEdges, List.filter_append, of_decide_eq_true hk]
  rw [takenCases, hcases, List.dropWhile_append_of_pos hpassed,
    List.dropWhile_cons_of_neg (by simpa using hv), fallingOn]
  exact List.mem_cons_self

end Dataflow.DeadCode
