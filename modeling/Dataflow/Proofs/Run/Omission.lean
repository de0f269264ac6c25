import Dataflow.Proofs.Run.Memory

namespace Dataflow

theorem Memory.Agree.symm {ρ : Type} {P : Var → Prop} {M M' : Memory ρ} (h : Memory.Agree P M M') :
    Memory.Agree P M' M := fun x hx => (h x hx).symm

namespace FlowGraph

variable {ρ : Type} {g : FlowGraph} {o : Oracle ρ} {omitted : List Nat} {k : Nat} {n m : Node}
variable {M M' N N' M₀ : Memory ρ} {w : Word} {a : ρ}

/-- An assignment that only fails for want of a variable it reads, and whose target is not read
behind it. -/
def Dispensable (g : FlowGraph) (n : Node) : Prop :=
  ∃ x e, g.body.stmtOf? n = some (.assign x e) ∧ e.isPure = true ∧ ¬ g.ReadBehind n x

theorem omits_iff (g : FlowGraph) (omitted : List Nat) (n : Node) : g.omits omitted n = true ↔
    ∃ i ∈ omitted, n = .stmt i ∧ ∃ x e, g.body.stmt? i = some (.assign x e) := by
  rw [omits]
  split
  · rename_i x e hs
    simp only [List.any_eq_true, decide_eq_true_eq]
    refine exists_congr (fun i => and_congr_right (fun _ => ⟨?_, fun h => h.1⟩))
    rintro rfl
    exact ⟨rfl, x, e, hs⟩
  · rename_i hs
    refine iff_of_false Bool.false_ne_true ?_
    rintro ⟨i, -, rfl, x, e, he⟩
    exact hs x e he

theorem effect_agree (h : Memory.Agree (g.LiveAt n) M M') (hN : g.effect n M w a = some N) :
    ∃ N', g.effect n M' w a = some N' ∧
      Memory.Agree (fun x => g.ReadBehind n x ∨ g.defAt? n = some x) N N' := by
  have hkeep : ∀ x, g.ReadBehind n x → g.defAt? n ≠ some x → M.read x = M'.read x :=
    fun x hx hd => h x (.inr ⟨hd, hx⟩)
  have huses : ∀ x ∈ g.usesAt n, M.read x = M'.read x := fun x hx => h x (.inl hx)
  have hsame : g.defAt? n = none →
      Memory.Agree (fun x => g.ReadBehind n x ∨ g.defAt? n = some x) M M' := by
    intro hnone x hx
    rw [hnone] at hx hkeep
    exact hkeep x (hx.resolve_right (fun hd => nomatch hd)) (fun hd => nomatch hd)
  have hassign : ∀ (x : Var) (v : Word), g.defAt? n = some x →
      Memory.Agree (fun y => g.ReadBehind n y ∨ g.defAt? n = some y) (M.assign x v a)
        (M'.assign x v a) := by
    intro x v hx y hy
    rw [hx] at hy hkeep
    rw [Memory.read_assign, Memory.read_assign]
    split
    · rfl
    · rename_i hne
      have hd : some x ≠ some y := fun he => hne (Option.some.inj he).symm
      exact hkeep y (hy.resolve_right hd) hd
  rw [effect] at hN ⊢
  rw [defAt?] at hsame hassign
  rw [usesAt] at huses
  rw [defAt?]
  cases hs : g.body.stmtOf? n with
  | none =>
      rw [hs] at hN hsame
      cases hN
      exact ⟨M', rfl, hsame rfl⟩
  | some s =>
      rw [hs] at hN hsame huses hassign
      cases s with
      | assign x e =>
          obtain ⟨v, hv, rfl⟩ := Option.map_eq_some_iff.1 hN
          have hints : ∀ y ∈ e.uses, M.ints y = M'.ints y := by
            intro y hy
            rw [Memory.ints_eq, Memory.ints_eq, huses y hy]
          rw [Exp.wordOf_congr hints] at hv
          exact ⟨_, Option.map_eq_some_iff.2 ⟨v, hv, rfl⟩, hassign x v rfl⟩
      | invoke result c =>
          cases result with
          | none =>
              cases hN
              exact ⟨M', rfl, hsame rfl⟩
          | some x =>
              cases hN
              exact ⟨_, rfl, hassign x w rfl⟩
      | nop _ | branch _ _ | goto _ | switch _ _ _ _ | ret _ =>
          cases hN
          exact ⟨M', rfl, hsame rfl⟩

theorem way_agree (h : ∀ x ∈ g.usesAt n, M.read x = M'.read x) (w : Word) :
    g.way n M.ints w = g.way n M'.ints w := by
  have hints : ∀ x ∈ g.usesAt n, M.ints x = M'.ints x := by
    intro x hx
    rw [Memory.ints_eq, Memory.ints_eq, h x hx]
  rw [way, way]
  rw [usesAt] at hints
  cases hs : g.body.stmtOf? n with
  | none => rfl
  | some s =>
      rw [hs] at hints
      cases s with
      | branch c t =>
          change (c.wordOf M.ints w).bind _ = (c.wordOf M'.ints w).bind _
          rw [Exp.wordOf_congr hints]
      | switch x values targets default =>
          have hx : ∀ y ∈ (Exp.var x).uses, M.ints y = M'.ints y := hints
          change ((Exp.var x).wordOf M.ints w).bind _ = ((Exp.var x).wordOf M'.ints w).bind _
          rw [Exp.wordOf_congr hx]
      | nop _ | assign _ _ | invoke _ _ | goto _ | ret _ => rfl

theorem agree_succ (h : Memory.Agree (g.ReadBehind n) M M') (hm : m ∈ g.succs n) :
    Memory.Agree (g.LiveAt m) M M' := fun x hx => h x (.of_liveAt hm hx)

/-- A step from memories that agree on what is live leads to the same node, and to memories that
agree on what is live there and on what was assigned. -/
theorem step_agree (h : Memory.Agree (g.LiveAt n) M M') (hstep : g.step o k n M = some (m, N)) :
    ∃ N', g.step o k n M' = some (m, N') ∧ Memory.Agree (g.LiveAt m) N N' ∧
      ∀ x, g.defAt? n = some x → N.read x = N'.read x := by
  have huses : ∀ x ∈ g.usesAt n, M.read x = M'.read x := fun x hx => h x (.inl hx)
  obtain ⟨reads, e, hreads, hN, he, rfl⟩ := step_eq_some_iff.1 hstep
  obtain ⟨N', hN', hagree⟩ := effect_agree h hN
  rw [Memory.mapM_read_congr huses] at hreads
  rw [way_agree huses] at he
  have hsucc := target_mem_succs (mem_outEdges_of_way he)
  exact ⟨N', step_eq_some_iff.2 ⟨reads, e, hreads, hN', he, rfl⟩,
    agree_succ (fun x hx => hagree x (.inl hx)) hsucc, fun x hx => hagree x (.inr hx)⟩

theorem step_omitted (hn : g.Dispensable n) (h : Memory.Agree (g.LiveAt n) M M')
    (hstep : g.step o k n M = some (m, N)) :
    (g.outEdges n).head?.map (fun e => (e.target, M')) = some (m, M') ∧
      Memory.Agree (g.LiveAt m) N M' := by
  obtain ⟨x, e, hs, -, hbehind⟩ := hn
  obtain ⟨reads, d, -, hN, hd, rfl⟩ := step_eq_some_iff.1 hstep
  have hout := mem_outEdges_of_way hd
  rw [effect, hs] at hN
  rw [way, hs] at hd
  obtain ⟨v, -, rfl⟩ := Option.map_eq_some_iff.1 hN
  have hd : (g.outEdges n).head? = some d := hd
  rw [hd]
  refine ⟨rfl, agree_succ (fun y hy => ?_) (target_mem_succs hout)⟩
  have hne : y ≠ x := fun he => hbehind (he ▸ hy)
  rw [Memory.read_assign, if_neg hne]
  refine h y (.inr ⟨fun hdef => hne ?_, hy⟩)
  rw [defAt?, hs] at hdef
  exact (Option.some.inj hdef).symm

theorem exists_step_of_dispensable (hn : g.Dispensable n) {e : Edge}
    (he : (g.outEdges n).head? = some e) (o : Oracle ρ) (k : Nat) (M : Memory ρ) :
    (∃ N, g.step o k n M = some (e.target, N)) ∨ ∃ x ∈ g.usesAt n, M.read x = none := by
  obtain ⟨x, r, hs, hpure, -⟩ := hn
  rcases M.mapM_read_cases (g.usesAt n) with ⟨reads, hreads, hread⟩ | ⟨-, hnone⟩
  · left
    rw [usesAt, hs] at hread
    obtain ⟨v, hv⟩ := Exp.exists_wordOf_of_isPure hpure (Memory.assigned_of_read hread)
      (o.word k n reads)
    have heffect : g.effect n M (o.word k n reads) (o.other k n reads) =
        some (M.assign x v (o.other k n reads)) := by
      rw [effect, hs]
      exact Option.map_eq_some_iff.2 ⟨v, hv, rfl⟩
    have hway : g.way n M.ints (o.word k n reads) = some e := by
      rw [way, hs]
      exact he
    exact ⟨_, step_eq_some_iff.2 ⟨reads, e, hreads, heffect, hway, rfl⟩⟩
  · exact .inr hnone

/-- All assignments to be left out at which a run comes by can be dispensed with. -/
def Spares (g : FlowGraph) (o : Oracle ρ) (omitted : List Nat) (M₀ : Memory ρ) : Prop :=
  ∀ k n M, g.run o M₀ k = some (n, M) → g.omits omitted n = true → g.Dispensable n

theorem Spares.runWithout (hspares : g.Spares o omitted M₀) (h : g.run o M₀ k = some (n, M)) :
    ∃ M', g.runWithout o omitted M₀ k = some (n, M') ∧ Memory.Agree (g.LiveAt n) M M' := by
  induction k generalizing n M with
  | zero =>
      cases h
      exact ⟨M₀, rfl, fun _ _ => rfl⟩
  | succ k ih =>
      obtain ⟨m, N, hk, hstep⟩ := run_succ_iff.1 h
      obtain ⟨N', hk', hagree⟩ := ih hk
      suffices hnext : ∃ M', g.stepWithout o omitted k m N' = some (n, M') ∧
          Memory.Agree (g.LiveAt n) M M' by
        obtain ⟨M', hM', hagree'⟩ := hnext
        exact ⟨M', runWithout_succ_iff.2 ⟨m, N', hk', hM'⟩, hagree'⟩
      rw [stepWithout]
      split
      · exact ⟨N', step_omitted (hspares k m N hk ‹_›) hagree hstep⟩
      · obtain ⟨M', hM', hagree', -⟩ := step_agree hagree hstep
        exact ⟨M', hM', hagree'⟩

theorem Spares.written (hspares : g.Spares o omitted M₀) (h : g.run o M₀ k = some (n, M))
    (hn : g.omits omitted n = false) (hnext : g.run o M₀ (k + 1) = some (m, N)) :
    ∃ N', g.runWithout o omitted M₀ (k + 1) = some (m, N') ∧
      ∀ x, g.defAt? n = some x → N.read x = N'.read x := by
  obtain ⟨n', L, hL, hstep⟩ := run_succ_iff.1 hnext
  rw [h] at hL
  cases hL
  obtain ⟨M', hM', hagree⟩ := hspares.runWithout h
  obtain ⟨N', hN', -, hdef⟩ := step_agree hagree hstep
  refine ⟨N', runWithout_succ_iff.2 ⟨n, M', hM', ?_⟩, hdef⟩
  rw [stepWithout, hn, if_neg Bool.false_ne_true]
  exact hN'

/-- The run without the assignments comes by no other nodes, unless the run with them has halted
before, at one of them for want of a variable it reads. -/
theorem Spares.run_or_halted (hspares : g.Spares o omitted M₀)
    (h : g.runWithout o omitted M₀ k = some (n, M')) : (∃ M, g.run o M₀ k = some (n, M)) ∨
      ∃ j < k, ∃ m N, g.run o M₀ j = some (m, N) ∧ g.omits omitted m = true ∧
        ∃ x ∈ g.usesAt m, N.read x = none := by
  induction k generalizing n M' with
  | zero =>
      cases h
      exact .inl ⟨M₀, rfl⟩
  | succ k ih =>
      obtain ⟨m, N', hk', hstep'⟩ := runWithout_succ_iff.1 h
      rcases ih hk' with ⟨N, hk⟩ | ⟨j, hj, hhalted⟩
      · obtain ⟨N'', hN'', hagree⟩ := hspares.runWithout hk
        rw [hk'] at hN''
        cases hN''
        rw [stepWithout] at hstep'
        split at hstep'
        · rename_i homits
          obtain ⟨e, he, hM'⟩ := Option.map_eq_some_iff.1 hstep'
          cases hM'
          -- what is left out here may have halted the run in which it stands
          rcases exists_step_of_dispensable (hspares k m N hk homits) he o k N with ⟨M, hM⟩ | hnone
          · exact .inl ⟨M, run_succ_iff.2 ⟨m, N, hk, hM⟩⟩
          · exact .inr ⟨k, Nat.lt_succ_self k, m, N, hk, homits, hnone⟩
        · obtain ⟨M, hM, -, -⟩ := step_agree hagree.symm hstep'
          exact .inl ⟨M, run_succ_iff.2 ⟨m, N, hk, hM⟩⟩
      · exact .inr ⟨j, Nat.lt_succ_of_lt hj, hhalted⟩

end FlowGraph

end Dataflow
