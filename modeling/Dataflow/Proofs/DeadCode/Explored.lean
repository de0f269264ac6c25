import Dataflow.Proofs.Analysis.Sound
import Dataflow.Proofs.DeadCode.Basis
import Dataflow.Proofs.DeadCode.Switch
import Dataflow.Proofs.FixedPoint.Closure
import Dataflow.Proofs.FlowGraph.OfBody

namespace Dataflow

/-- Conditions are comparisons. -/
def Body.Compares (b : Body) : Prop :=
  ∀ c t, .branch c t ∈ b.stmts → ∃ op l r, c = .binary (.cond op) l r

theorem BinaryOp.exists_onWords_cond (op : CondOp) (a b : Word) :
    ∃ c, (BinaryOp.cond op).onWords a b = some (.ofTruth c) := by
  cases op <;> exact ⟨_, rfl⟩

theorem Value.eq_of_const_allows {n : Int} {w : Word} (h : (const n).Allows w) : n = w.toInt :=
  h.elim (fun h => nomatch h) (fun h => const.inj h)

namespace DeadCode

variable {b : Body} {v : Int} {edges : List Edge} {e : Edge}

theorem mem_switchTargets (he : (edges.find? (Edge.isCase v)).or (edges.find? Edge.isDefault) =
    some e) (hone : ∀ d ∈ edges, ∀ d' ∈ edges, d.isDefault = true → d'.isDefault = true → d = d') :
    e.target ∈ switchTargets b v edges := by
  rw [mem_switchTargets_iff hone]
  rcases Option.or_eq_some_iff.1 he with he | ⟨hnone, he⟩
  · exact ⟨e, List.mem_of_find?_eq_some he, rfl, .inl (mem_takenCases_of_find? he)⟩
  · refine ⟨e, List.mem_of_find?_eq_some he, rfl, .inr ⟨fun d hd hv => ?_, List.find?_some he⟩⟩
    obtain ⟨hd, hk⟩ := List.mem_filter.1 hd
    exact List.find?_eq_none.1 hnone d hd (Bool.and_eq_true_iff.2 ⟨hk, decide_eq_true hv⟩)

theorem holds_ofTruth (t : BranchTruth) (c : Bool) : t.holds (Word.ofTruth c).toInt = c := by
  cases t <;> cases c <;> rfl

section

variable {t : BranchTruth} {g : FlowGraph} {f : Fact} {n m : Node} {σ : Store} {w : Word}

theorem jump_of_isDefault (hb : FlowGraph.ofBody b = .ok g) {i : Nat} {x : Var} {values : List Int}
    {targets : List Target} {default : Target}
    (hs : b.stmt? i = some (.switch x values targets default)) (he : e ∈ g.outEdges (.stmt i))
    (hd : e.isDefault = true) : b.jump i default .switchDefault = .ok e := by
  obtain ⟨he, hsource⟩ := List.mem_filter.1 he
  have hsource : e.source = .stmt i := of_decide_eq_true hsource
  rcases (FlowGraph.mem_edges_ofBody_iff hb e).1 he with rfl | ⟨j, s, es, hj, hes, he⟩
  · cases hsource
  · obtain rfl : j = i := Node.stmt.inj ((Body.ends_of_exits hes he).1.symm.trans hsource)
    rw [hs] at hj
    cases hj
    obtain ⟨cs, hcs, hes⟩ := bind_eq_ok_iff.1 hes
    obtain ⟨d, hjump, hes⟩ := bind_eq_ok_iff.1 hes
    cases hes
    rcases List.mem_append.1 he with he | he
    · obtain ⟨p, -, hp⟩ := exists_of_mem_mapM hcs he
      rw [Body.jump] at hp
      cases hl : b.landing j p.2 with
      | error d => simp [hl, Except.map] at hp
      | ok n =>
          rw [hl] at hp
          cases hp
          cases hd
    · exact List.mem_singleton.1 he ▸ hjump

theorem default_unique (hb : FlowGraph.ofBody b = .ok g) {x : Var} {values : List Int}
    {targets : List Target} {default : Target}
    (hs : g.body.stmtOf? n = some (.switch x values targets default)) :
    ∀ d ∈ g.outEdges n, ∀ d' ∈ g.outEdges n, d.isDefault = true → d'.isDefault = true → d = d' := by
  intro d hd d' hd' hk hk'
  rw [FlowGraph.body_ofBody hb] at hs
  cases n with
  | stmt i =>
      have hjump := jump_of_isDefault hb hs hd hk
      have hjump' := jump_of_isDefault hb hs hd' hk'
      exact Except.ok.inj (hjump.symm.trans hjump')
  | entry | exit | stray _ _ => cases hs

theorem known_branch (hf : f.Covers σ) {op : CondOp} {l r : Var} {v : Int} {u : Word}
    (hσ : σ.Assigned (Exp.binary (.cond op) l r).uses)
    (hv : evaluate (.binary (.cond op) l r) f = .const v)
    (hu : (Exp.binary (.cond op) l r).wordOf σ w = some u) :
    (if t.holds v then EdgeKind.ifTrue else .ifFalse) = if u = 0 then .ifFalse else .ifTrue := by
  have hyields := Exp.yields_of_wordOf hu
  have hallows := hf.evaluate hσ hyields
  rw [hv] at hallows
  rw [evaluate_binary] at hv
  split at hv
  · rename_i hlr
    obtain ⟨hl, hr⟩ := Bool.and_eq_true_iff.1 hlr
    obtain ⟨x, y, -, -, hxy⟩ := hyields hl hr
    obtain ⟨c, hc⟩ := BinaryOp.exists_onWords_cond op x y
    rw [hxy] at hc
    cases hc
    rw [Value.eq_of_const_allows hallows, holds_ofTruth]
    cases c <;> rfl
  · cases hv

theorem known_selector (hf : f.Covers σ) (hints : f.IntConsts) {x : Var} {v : Int} {u : Word}
    (hv : f.get x = .const v) (hu : (Exp.var x).wordOf σ w = some u) : v = u.toInt := by
  have hi := hints x v hv
  rw [Exp.wordOf, if_pos hi] at hu
  have hallows := hf x u hi hu
  rw [hv] at hallows
  exact Value.eq_of_const_allows hallows

theorem target_mem_liveTargets (hb : FlowGraph.ofBody b = .ok g) (hcompares : b.Compares)
    (hf : f.Covers σ) (hints : f.IntConsts) (hσ : σ.Assigned (g.usesAt n))
    (he : g.way n σ w = some e) : e.target ∈ liveTargets t g f n := by
  have hbody := FlowGraph.body_ofBody hb
  have hout := FlowGraph.mem_outEdges_of_way he
  have hall : e.target ∈ (g.outEdges n).map Edge.target := List.mem_map_of_mem hout
  rw [FlowGraph.way] at he
  rw [FlowGraph.usesAt] at hσ
  cases hs : g.body.stmtOf? n with
  | none => simpa only [liveTargets, hs] using hall
  | some s =>
      rw [hs] at he hσ
      cases s with
      | nop _ | assign _ _ | invoke _ _ | goto _ | ret _ =>
          simpa only [liveTargets, hs] using hall
      | branch c target =>
          obtain ⟨u, hu, hfind⟩ := Option.bind_eq_some_iff.1 he
          simp only [liveTargets, hs]
          split
          · rename_i v hv
            have hmem : Stmt.branch c target ∈ b.stmts := by
              cases n with
              | stmt i => exact hbody ▸ List.mem_of_getElem? hs
              | entry | exit | stray _ _ => cases hs
            obtain ⟨op, l, r, rfl⟩ := hcompares c target hmem
            refine List.mem_map_of_mem (List.mem_filter.2 ⟨hout, ?_⟩)
            rw [known_branch hf hσ hv hu]
            have hkind := List.find?_some hfind
            exact hkind
          · exact hall
      | switch x values targets default =>
          obtain ⟨u, hu, hfind⟩ := Option.bind_eq_some_iff.1 he
          simp only [liveTargets, hs]
          split
          · rename_i v hv
            rw [known_selector hf hints hv hu]
            exact mem_switchTargets hfind (default_unique hb hs)
          · exact hall

theorem liveTargets_subset (t : BranchTruth) (g : FlowGraph) (f : Fact) (n : Node) :
    liveTargets t g f n ⊆ (g.outEdges n).map Edge.target := by
  cases hs : g.body.stmtOf? n with
  | none => simp only [liveTargets, hs, List.Subset.refl]
  | some s =>
      cases s with
      | nop _ | assign _ _ | invoke _ _ | goto _ | ret _ =>
          simp only [liveTargets, hs, List.Subset.refl]
      | branch c target =>
          simp only [liveTargets, hs]
          split
          · exact List.map_subset _ (List.filter_subset_self _)
          · exact List.Subset.refl _
      | switch x values targets default =>
          simp only [liveTargets, hs]
          split
          · exact switchTargets_subset _ _ _
          · exact List.Subset.refl _

end

variable {t : BranchTruth} {g : FlowGraph} {constants : Solution Node Fact}

/-- The exploration comes to a node if and only if it can follow a path to it. -/
theorem mem_explored_iff {n : Node} : n ∈ explored t g constants ↔ Relation.ReflTransGen
    (fun n m => m ∈ liveTargets t g (constants.before.getD n .empty) n) .entry n := by
  have hnext : ∀ n ∈ g.nodes,
      liveTargets t g (constants.before.getD n .empty) n ⊆ g.nodes := by
    intro n _ m hm
    obtain ⟨e, he, rfl⟩ := List.mem_map.1 (liveTargets_subset t g _ n hm)
    exact (FlowGraph.hasNode_of_mem_succs (FlowGraph.target_mem_succs he)).2
  exact mem_closure_iff hnext ((g.body.mem_nodes_iff .entry).2 rfl) (Nat.le_refl _)

theorem liveTargets_subset_explored {n : Node} (hn : n ∈ explored t g constants) :
    liveTargets t g (constants.before.getD n .empty) n ⊆ explored t g constants :=
  fun _ hm => mem_explored_iff.2 ((mem_explored_iff.1 hn).tail hm)

theorem entry_mem_explored (t : BranchTruth) (g : FlowGraph) (constants : Solution Node Fact) :
    .entry ∈ explored t g constants := mem_explored_iff.2 .refl

theorem isDeadAssignment_iff {live : VarSet} {stmt : Option (Stmt Target)} :
    isDeadAssignment live stmt = true ↔
      ∃ x e, stmt = some (.assign x e) ∧ x ∉ live ∧ e.isPure = true := by
  cases stmt with
  | none => simp [isDeadAssignment]
  | some s => cases s <;> simp [isDeadAssignment, ← VarSet.contains_iff]

variable {ρ : Type} {s : Basis} {o : Oracle ρ} {M M₀ : Memory ρ} {k : Nat} {n : Node}

theorem Basis.Grounded.mem_dead_iff (hs : s.Grounded b) {i : Nat} : i ∈ s.dead t ↔ i < b.size ∧
    (.stmt i ∉ explored t s.graph s.constants ∨ ∃ x e live, b.stmt? i = some (.assign x e) ∧
      s.live.after.get? (.stmt i) = some live ∧ x ∉ live ∧ e.isPure = true) := by
  have hbody := FlowGraph.body_ofBody hs.graph
  rw [Basis.dead, analyze, List.mem_filter, List.mem_range, hbody]
  refine and_congr_right fun hi => ?_
  have hn : Node.stmt i ∈ s.graph.nodes :=
    (s.graph.body.mem_nodes_iff _).2 (decide_eq_true (hbody.symm ▸ hi))
  obtain ⟨_, live, -, hlive, -⟩ := hs.live (.stmt i) hn
  rw [OrderedMap.getD, hlive, Option.getD_some, Bool.or_eq_true, isDeadAssignment_iff]
  simp

/-- The exploration comes to every node that a run reaches. -/
theorem Basis.Grounded.reached (hs : s.Grounded b) (hcompares : b.Compares) (t : BranchTruth)
    (hM : b.Starts M₀.ints) (h : s.graph.run o M₀ k = some (n, M)) :
    s.graph.Run k n M.ints ∧ n ∈ explored t s.graph s.constants := by
  have hbody := FlowGraph.body_ofBody hs.graph
  have hg := FlowGraph.validate_ofBody hs.graph
  induction k generalizing n M with
  | zero =>
      cases h
      exact ⟨.start (hbody ▸ hM), entry_mem_explored t _ _⟩
  | succ k ih =>
      obtain ⟨m, N, hk, hstep⟩ := FlowGraph.run_succ_iff.1 h
      obtain ⟨hrun, hm⟩ := ih hk
      obtain ⟨hacts, hsucc⟩ := FlowGraph.acts_of_step hstep
      refine ⟨hrun.step hacts hsucc, liveTargets_subset_explored hm ?_⟩
      obtain ⟨reads, e, hreads, -, he, rfl⟩ := FlowGraph.step_eq_some_iff.1 hstep
      have hassigned := Memory.assigned_of_mapM hreads
      by_cases hentry : m = .entry
      · subst hentry
        exact List.mem_map_of_mem (FlowGraph.mem_outEdges_of_way he)
      · obtain ⟨f, hf, hcovers⟩ := (hs.constants.covers_run hg hrun).2 hentry
        have hget : s.constants.before.getD m .empty = f := by
          rw [OrderedMap.getD, hf]
          rfl
        rw [hget]
        exact target_mem_liveTargets hs.graph hcompares hcovers (hs.ints m f hf)
          hassigned he

end DeadCode

end Dataflow
