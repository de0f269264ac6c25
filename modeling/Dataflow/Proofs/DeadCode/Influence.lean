import Dataflow.Proofs.DeadCode.Explored
import Dataflow.Proofs.Run.Omission

namespace Dataflow.DeadCode

variable {ρ : Type} {b : Body} {s : Basis} {t : BranchTruth} {o : Oracle ρ} {M₀ : Memory ρ}

/-- What is reported dead has no influence on a run. Control comes by none of it but assignments
that the exploration has visited. Without these the run comes by the same nodes, where all that is
live is the same, and all that is assigned is the same. It comes by no others, unless the run with
them has halted at one of them before, for want of a variable it reads. -/
structure Basis.Uninfluenced (s : Basis) (t : BranchTruth) (o : Oracle ρ) (M₀ : Memory ρ) :
    Prop where
  reached : ∀ k i M, s.graph.run o M₀ k = some (.stmt i, M) → i ∈ s.dead t →
    .stmt i ∈ explored t s.graph s.constants ∧ ∃ x e, s.graph.body.stmt? i = some (.assign x e)
  kept : ∀ k n M, s.graph.run o M₀ k = some (n, M) →
    ∃ M', s.graph.runWithout o (s.dead t) M₀ k = some (n, M') ∧
      Memory.Agree (s.graph.LiveAt n) M M'
  written : ∀ k n M m N, s.graph.run o M₀ k = some (n, M) →
    s.graph.omits (s.dead t) n = false → s.graph.run o M₀ (k + 1) = some (m, N) →
    ∃ N', s.graph.runWithout o (s.dead t) M₀ (k + 1) = some (m, N') ∧
      ∀ x, s.graph.defAt? n = some x → N.read x = N'.read x
  halted : ∀ k n M', s.graph.runWithout o (s.dead t) M₀ k = some (n, M') →
    (∃ M, s.graph.run o M₀ k = some (n, M)) ∨ ∃ j < k, ∃ i ∈ s.dead t, ∃ M,
      s.graph.run o M₀ j = some (.stmt i, M) ∧ ∃ x ∈ s.graph.usesAt (.stmt i), M.read x = none

/-- A statement that is reported dead although the exploration visits it is an assignment that can
be dispensed with. -/
theorem Basis.Grounded.dispensable (hs : s.Grounded b) {i : Nat} (hi : i ∈ s.dead t)
    (hex : .stmt i ∈ explored t s.graph s.constants) : s.graph.Dispensable (.stmt i) := by
  have hbody := FlowGraph.body_ofBody hs.graph
  obtain ⟨hsize, hdead⟩ := hs.mem_dead_iff.1 hi
  obtain ⟨x, e, live, hstmt, hlive, hx, he⟩ := hdead.resolve_left (not_not_intro hex)
  have hn : Node.stmt i ∈ s.graph.nodes :=
    (s.graph.body.mem_nodes_iff _).2 (decide_eq_true (hbody.symm ▸ hsize))
  obtain ⟨_, after, -, hafter, hbehind⟩ := hs.live (.stmt i) hn
  rw [hlive] at hafter
  cases hafter
  exact ⟨x, e, hbody.symm ▸ hstmt, he, fun hread => hx ((hbehind x).1.2 hread)⟩

theorem Basis.Grounded.uninfluenced (hs : s.Grounded b) (hcompares : b.Compares) (t : BranchTruth)
    (hM : b.Starts M₀.ints) (o : Oracle ρ) : s.Uninfluenced t o M₀ := by
  have hspares : s.graph.Spares o (s.dead t) M₀ := by
    intro k n M hk homits
    obtain ⟨i, hi, rfl, -⟩ := (s.graph.omits_iff _ n).1 homits
    exact hs.dispensable hi (hs.reached hcompares t hM hk).2
  constructor
  · intro k i M hk hi
    have hex := (hs.reached hcompares t hM hk).2
    obtain ⟨x, e, hstmt, -⟩ := hs.dispensable hi hex
    exact ⟨hex, x, e, hstmt⟩
  · exact fun k n M hk => hspares.runWithout hk
  · exact fun k n M m N hk homits hnext => hspares.written hk homits hnext
  · intro k n M' hk
    refine (hspares.run_or_halted hk).imp_right ?_
    rintro ⟨j, hj, m, N, hrun, homits, hnone⟩
    obtain ⟨i, hi, rfl, -⟩ := (s.graph.omits_iff _ m).1 homits
    exact ⟨j, hj, i, hi, N, hrun, hnone⟩

/-- Dead code has no influence: for every body that a builder makes, whose conditions are
comparisons and whose receiver is no int, the detection finds its basis, and what it reports has no
influence on any run that starts with the parameters and the receiver. -/
theorem dead_uninfluential (t : BranchTruth) (hb : b.Built) (hcompares : b.Compares)
    (hthis : ∀ x, b.this = some x → x.holdsInt = false) : ∃ s, Basis.ofBody b = .ok s ∧
      ∀ (ρ : Type) (o : Oracle ρ) (M₀ : Memory ρ), b.Opens M₀ → s.Uninfluenced t o M₀ := by
  obtain ⟨s, hs, hgrounded⟩ := exists_basis_of_built hb
  exact ⟨s, hs, fun ρ o M₀ hM => hgrounded.uninfluenced hcompares t (hM.starts hthis) o⟩

def silent : Oracle Unit := ⟨fun _ _ _ => 0, fun _ _ _ => ()⟩

namespace Thrifty

def p : Var := ⟨0, 0, "p", .primitive .int, 0⟩

def one : Var := ⟨0, 1, "one", .primitive .int, 1⟩

def spare : Var := ⟨0, 2, "spare", .primitive .int, 2⟩

def requests : List Builder.Request := [
  .newParam "p" (.primitive .int),
  .newVar "one" (.primitive .int),
  .newVar "spare" (.primitive .int),
  .append (.assign one (.int 1)),
  .assignBinary spare "+" p one,
  .branchOn "==" one one "end",
  .append (.nop "nop"),
  .label "end",
  .append (.ret (some p))]

def body : Body where
  name := "main"
  params := [p]
  vars := [p, one, spare]
  stmts := [
    .assign one (.int 1),
    .assign spare (.binary (.arith .add) p one),
    .branch (.binary (.cond .eq) one one) (.stmt 4),
    .nop "nop",
    .ret (some p)]

theorem built_body : body.Built := ⟨"main", 0, requests, rfl⟩

theorem compares_body : body.Compares := by
  intro c t h
  simp only [body, List.mem_cons, List.not_mem_nil, reduceCtorEq, false_or, or_false,
    Stmt.branch.injEq] at h
  exact ⟨.eq, one, one, h.1⟩

def flow : FlowGraph where
  body := body
  edges := [
    ⟨.entry, .stmt 0, .entry, none⟩,
    ⟨.stmt 0, .stmt 1, .fallThrough, none⟩,
    ⟨.stmt 1, .stmt 2, .fallThrough, none⟩,
    ⟨.stmt 2, .stmt 4, .ifTrue, none⟩,
    ⟨.stmt 2, .stmt 3, .ifFalse, none⟩,
    ⟨.stmt 3, .stmt 4, .fallThrough, none⟩,
    ⟨.stmt 4, .exit, .ret, none⟩]
  ends := by decide

theorem ofBody_body : FlowGraph.ofBody body = .ok flow := rfl

def memory : Memory Unit where
  words x := if x = p then some 5 else none
  others _ := none

theorem opens_memory : body.Opens memory := by
  intro x
  by_cases hx : x = p
  · subst hx
    exact ⟨fun _ => .inl List.mem_cons_self, fun _ => rfl⟩
  · refine iff_of_false ?_ ?_
    · cases hi : x.holdsInt <;> simp [Memory.read, memory, hi, hx]
    · rintro (h | h)
      · exact hx (List.mem_singleton.1 h)
      · cases h

theorem dead_body : (Basis.ofBody body).toOption.map (fun s => s.dead .eqOne) = some [1, 3] := by
  decide +kernel

theorem run_body : ∃ M, flow.run silent memory 4 = some (.stmt 4, M) ∧ M.read p = some (.inl 5) :=
  ⟨_, rfl, rfl⟩

theorem dead_uninfluential_thrifty : body.Built ∧ body.Compares ∧
    (∀ x, body.this = some x → x.holdsInt = false) ∧ body.Opens memory ∧
    ∃ s M, Basis.ofBody body = .ok s ∧ s.dead .eqOne = [1, 3] ∧
      s.graph.runWithout silent [1, 3] memory 4 = some (.stmt 4, M) ∧ M.read p = some (.inl 5) := by
  have hthis : ∀ x, body.this = some x → x.holdsInt = false := fun _ h => nomatch h
  obtain ⟨s, hs, h⟩ := dead_uninfluential .eqOne built_body compares_body hthis
  have hdead : s.dead .eqOne = [1, 3] := by
    have hd := dead_body
    rw [hs] at hd
    exact Option.some.inj hd
  have hgraph : s.graph = flow := Except.ok.inj ((Basis.graph_of_ofBody hs).symm.trans ofBody_body)
  obtain ⟨M, hrun, hp⟩ := run_body
  have hinfluence := h Unit silent memory opens_memory
  obtain ⟨M', hrun', hagree⟩ := hinfluence.kept 4 (.stmt 4) M (hgraph ▸ hrun)
  have hlive : s.graph.LiveAt (.stmt 4) p := by
    rw [hgraph]
    exact .inl (by decide)
  exact ⟨built_body, compares_body, hthis, opens_memory, s, M', hs, hdead, hdead ▸ hrun',
    (hagree p hlive).symm.trans hp⟩

end Thrifty

namespace Receiver

def p : Var := ⟨0, 0, "p", .primitive .int, 0⟩

def this : Var := ⟨0, 1, "this", .primitive .int, 1⟩

def five : Var := ⟨0, 2, "five", .primitive .int, 2⟩

def x : Var := ⟨0, 3, "x", .primitive .int, 3⟩

def requests : List Builder.Request := [
  .newParam "p" (.primitive .int),
  .newThis (.primitive .int),
  .newVar "five" (.primitive .int),
  .newVar "x" (.primitive .int),
  .append (.assign five (.int 5)),
  .branchOn "==" p five "other",
  .append (.assign x (.int 5)),
  .append (.goto "join"),
  .label "other",
  .append (.assign x (.var this)),
  .label "join",
  .branchOn "==" x five "end",
  .append (.nop "nop"),
  .label "end",
  .append (.ret none)]

def body : Body where
  name := "main"
  params := [p]
  this := some this
  vars := [p, this, five, x]
  stmts := [
    .assign five (.int 5),
    .branch (.binary (.cond .eq) p five) (.stmt 4),
    .assign x (.int 5),
    .goto (.stmt 5),
    .assign x (.var this),
    .branch (.binary (.cond .eq) x five) (.stmt 7),
    .nop "nop",
    .ret none]

def flow : FlowGraph where
  body := body
  edges := [
    ⟨.entry, .stmt 0, .entry, none⟩,
    ⟨.stmt 0, .stmt 1, .fallThrough, none⟩,
    ⟨.stmt 1, .stmt 4, .ifTrue, none⟩,
    ⟨.stmt 1, .stmt 2, .ifFalse, none⟩,
    ⟨.stmt 2, .stmt 3, .fallThrough, none⟩,
    ⟨.stmt 3, .stmt 5, .goto, none⟩,
    ⟨.stmt 4, .stmt 5, .fallThrough, none⟩,
    ⟨.stmt 5, .stmt 7, .ifTrue, none⟩,
    ⟨.stmt 5, .stmt 6, .ifFalse, none⟩,
    ⟨.stmt 6, .stmt 7, .fallThrough, none⟩,
    ⟨.stmt 7, .exit, .ret, none⟩]
  ends := by decide

theorem ofBody_body : FlowGraph.ofBody body = .ok flow := rfl

def memory : Memory Unit where
  words y := if y = p then some 5 else if y = this then some 7 else none
  others _ := none

theorem opens_memory : body.Opens memory := by
  intro y
  by_cases hp : y = p
  · subst hp
    exact ⟨fun _ => .inl List.mem_cons_self, fun _ => rfl⟩
  · by_cases hthis : y = this
    · subst hthis
      exact ⟨fun _ => .inr rfl, fun _ => rfl⟩
    · refine iff_of_false ?_ ?_
      · cases hi : y.holdsInt <;> simp [Memory.read, memory, hi, hp, hthis]
      · rintro (h | h)
        · exact hp (List.mem_singleton.1 h)
        · exact hthis (Option.some.inj h).symm

theorem compares_body : body.Compares := by
  intro c t h
  simp only [body, List.mem_cons, List.not_mem_nil, reduceCtorEq, false_or, or_false,
    Stmt.branch.injEq] at h
  rcases h with ⟨rfl, -⟩ | ⟨rfl, -⟩
  · exact ⟨.eq, p, five, rfl⟩
  · exact ⟨.eq, x, five, rfl⟩

theorem dead_body : (Basis.ofBody body).toOption.map (fun s => (s.dead .eqOne, s.dead .positive)) =
    some ([6], [6]) := by
  decide +kernel

theorem run_body : ∃ M, flow.run silent memory 5 = some (.stmt 6, M) := ⟨_, rfl⟩

/-- Control comes by a statement that is reported dead, is no assignment and was not explored. -/
theorem dead_reached : (Builder.run { name := "main" } requests).2.build = .ok body ∧
    body.Compares ∧ ∃ s, Basis.ofBody body = .ok s ∧ s.dead .eqOne = [6] ∧
      s.dead .positive = [6] ∧ body.stmt? 6 = some (.nop "nop") ∧ body.Opens memory ∧
      ∃ M, s.graph.run silent memory 5 = some (.stmt 6, M) ∧
        ¬ s.Uninfluenced .eqOne silent memory ∧ ¬ s.Uninfluenced .positive silent memory := by
  obtain ⟨s, hs, hgrounded⟩ := exists_basis ofBody_body
  have hd := dead_body
  rw [hs] at hd
  obtain ⟨hone, hpositive⟩ := Prod.mk.inj (Option.some.inj hd)
  have hgraph : s.graph = flow := Except.ok.inj (hgrounded.graph.symm.trans ofBody_body)
  obtain ⟨M, hrun⟩ := run_body
  have hrun : s.graph.run silent memory 5 = some (.stmt 6, M) := hgraph ▸ hrun
  have hbody : s.graph.body.stmt? 6 = some (.nop "nop") := by
    rw [hgraph]
    rfl
  have hnot : ∀ t, s.dead t = [6] → ¬ s.Uninfluenced t silent memory := by
    intro t ht h
    obtain ⟨-, y, e, hassign⟩ := h.reached 5 6 M hrun (ht ▸ List.mem_singleton_self 6)
    rw [hbody] at hassign
    cases hassign
  exact ⟨rfl, compares_body, s, hs, hone, hpositive, rfl, opens_memory, M, hrun, hnot _ hone,
    hnot _ hpositive⟩

end Receiver

end Dataflow.DeadCode
