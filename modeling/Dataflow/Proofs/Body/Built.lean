import Dataflow.Body.Builder
import Dataflow.Proofs.FlowGraph.Control

namespace Dataflow

/-- Every jump of the body has one of its statements as its target. -/
def Body.Resolved (b : Body) : Prop := ∀ s ∈ b.stmts, ∀ t ∈ s.targets, ∃ i < b.size, t = .stmt i

/-- The bodies that a builder can be asked for. -/
def Body.Built (b : Body) : Prop :=
  ∃ name scope requests, (Builder.run { name, scope } requests).2.build = .ok b

namespace Builder

variable {b b' : Builder}

def Bound (b : Builder) : Prop := ∀ l i, b.labels.get? l = some i → i < b.stmts.length

theorem get?_foldl_insert (pending : List String) (labels : OrderedMap String Nat) (k : Nat)
    (l : String) : (pending.foldl (fun m l => m.insert l k) labels).get? l =
      if l ∈ pending then some k else labels.get? l := by
  induction pending generalizing labels with
  | nil => simp
  | cons m pending ih =>
      rw [List.foldl_cons, ih, OrderedMap.get?_insert]
      grind

theorem Bound.append {s : Draft} (h : b.Bound) (ha : b.append s = .ok b') : b'.Bound := by
  rw [Builder.append] at ha
  split at ha
  · cases ha
  · cases ha
    intro l i hl
    rw [get?_foldl_insert] at hl
    rw [List.length_append, List.length_singleton]
    split at hl
    · cases hl
      exact Nat.lt_succ_self _
    · exact Nat.lt_succ_of_lt (h l i hl)

theorem Bound.appendOrRefuse (h : b.Bound) (s : Draft) : (b.appendOrRefuse s).2.Bound := by
  rw [Builder.appendOrRefuse]
  split
  · exact h.append ‹_›
  · exact h

theorem Bound.answer (h : b.Bound) (r : Request) : (b.answer r).2.Bound := by
  cases r with
  | newVar name type | newParam name type | newThis type => exact h
  | label name =>
      simp only [Builder.answer, Builder.label]
      split
      · rename_i hl
        split at hl
        · cases hl
        · cases hl
          exact h
      · exact h
  | append s => exact h.appendOrRefuse s
  | assignBinary x symbol l r =>
      simp only [Builder.answer]
      split
      · exact h.appendOrRefuse _
      · exact h
  | branchOn symbol l r label =>
      simp only [Builder.answer]
      split
      · exact h.appendOrRefuse _
      · exact h
  | build =>
      simp only [Builder.answer]
      split <;> exact h

theorem Bound.run (h : b.Bound) (requests : List Request) : (b.run requests).2.Bound := by
  induction requests generalizing b with
  | nil => exact h
  | cons r requests ih => exact ih (h.answer r)

end Builder

theorem Stmt.exists_of_mem_targets {τ σ ε : Type} {f : τ → Except ε σ} {s : Stmt τ} {s' : Stmt σ}
    (h : s.mapTargets f = .ok s') {t : σ} (ht : t ∈ s'.targets) : ∃ l ∈ s.targets, f l = .ok t := by
  cases s with
  | nop | assign | invoke | ret =>
      cases h
      cases ht
  | branch e l | goto l =>
      obtain ⟨t', hl, h⟩ := bind_eq_ok_iff.1 h
      cases h
      obtain rfl := List.mem_singleton.1 ht
      exact ⟨l, List.mem_singleton_self l, hl⟩
  | switch x values ls d =>
      obtain ⟨ts, hts, h⟩ := bind_eq_ok_iff.1 h
      obtain ⟨t', hd, h⟩ := bind_eq_ok_iff.1 h
      cases h
      rcases List.mem_append.1 ht with ht | ht
      · obtain ⟨l, hl, hlt⟩ := exists_of_mem_mapM hts ht
        exact ⟨l, List.mem_append_left _ hl, hlt⟩
      · obtain rfl := List.mem_singleton.1 ht
        exact ⟨d, List.mem_append_right _ (List.mem_singleton_self d), hd⟩

theorem Builder.Bound.resolved {b : Builder} (h : b.Bound) {body : Body}
    (hb : b.build = .ok body) : body.Resolved := by
  rw [build] at hb
  split at hb
  · cases hb
  · split at hb
    · cases hb
    · obtain ⟨stmts, hstmts, hb⟩ := bind_eq_ok_iff.1 hb
      obtain ⟨_, -, hb⟩ := bind_eq_ok_iff.1 hb
      cases hb
      intro s hs t ht
      obtain ⟨draft, -, hdraft⟩ := exists_of_mem_mapM hstmts hs
      obtain ⟨l, -, hl⟩ := Stmt.exists_of_mem_targets hdraft ht
      rw [resolve] at hl
      split at hl
      · rename_i i hi
        cases hl
        have hlen : stmts.length = b.stmts.length := by
          have hmap := map_of_mapM (k := fun _ => ()) (l := fun _ => ()) (fun _ _ _ => rfl) hstmts
          simpa using congrArg List.length hmap
        refine ⟨i, ?_, rfl⟩
        change i < stmts.length
        rw [hlen]
        exact h l i hi
      · cases hl

theorem Body.Built.resolved {b : Body} (h : b.Built) : b.Resolved := by
  obtain ⟨name, scope, requests, h⟩ := h
  have hempty : Builder.Bound { name, scope } := fun _ _ h => nomatch h
  exact (hempty.run requests).resolved h

namespace Body

variable {b : Body}

theorem Built.numbered (h : b.Built) : b.numbered = true := by
  obtain ⟨name, scope, requests, h⟩ := h
  rw [Builder.build] at h
  split at h
  · cases h
  · split at h
    · cases h
    · obtain ⟨stmts, -, h⟩ := bind_eq_ok_iff.1 h
      obtain ⟨_, -, h⟩ := bind_eq_ok_iff.1 h
      cases h
      rfl

theorem Resolved.not_loses (h : b.Resolved) {s : Stmt Target} (hs : s ∈ b.stmts) :
    ¬ b.Loses s := by
  rintro ⟨t, ht, hlost⟩
  obtain ⟨k, hk, rfl⟩ := h s hs t (s.jumps_subset_targets ht)
  exact hlost hk

theorem Resolved.exists_graph (h : b.Resolved) : ∃ g, FlowGraph.ofBody b = .ok g :=
  FlowGraph.exists_ofBody fun _ hs => h.not_loses hs

end Body

end Dataflow
