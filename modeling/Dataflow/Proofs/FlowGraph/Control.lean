import Dataflow.Proofs.FlowGraph.OfBody
import Dataflow.Proofs.Lists

namespace Dataflow

/-- The targets that control can take from a statement. The targets of a switch without a value, and
the values without a target, have no part in it. -/
def Stmt.jumps {τ : Type} : Stmt τ → List τ
  | branch _ t => [t]
  | goto t => [t]
  | switch _ values targets default => (values.zip targets).map Prod.snd ++ [default]
  | nop _ | assign _ _ | invoke _ _ | ret _ => []

theorem Stmt.jumps_subset_targets {τ : Type} (s : Stmt τ) : s.jumps ⊆ s.targets := by
  cases s with
  | switch x values targets default =>
      intro t ht
      obtain ht | ht := List.mem_append.1 ht
      · obtain ⟨p, hp, rfl⟩ := List.mem_map.1 ht
        exact List.mem_append_left _ (List.of_mem_zip hp).2
      · exact List.mem_append_right _ ht
  | branch | goto | nop | assign | invoke | ret => exact List.Subset.refl _

def EdgeKind.falls : EdgeKind → Bool
  | fallThrough | ifFalse => true
  | entry | goto | ifTrue | switchCase | switchDefault | ret | exception => false

namespace Body

def Has (b : Body) : Target → Prop
  | .stmt k => k < b.size
  | .unset | .outside => False

/-- Whether control can take a statement to a target that is no statement of the body. -/
def Loses (b : Body) (s : Stmt Target) : Prop := ∃ t ∈ s.jumps, ¬ b.Has t

/-- The edges that control takes from the statement at a position, in order. -/
inductive Leaves (b : Body) (i : Nat) : Stmt Target → List Edge → Prop
  | branch {e k} : k < b.size → Leaves b i (.branch e (.stmt k))
      [⟨.stmt i, .stmt k, .ifTrue, none⟩, ⟨.stmt i, b.following i, .ifFalse, none⟩]
  | goto {k} : k < b.size → Leaves b i (.goto (.stmt k)) [⟨.stmt i, .stmt k, .goto, none⟩]
  | switch {x values targets k} (cases : List (Int × Nat)) :
      values.zip targets = cases.map (fun c => (c.1, .stmt c.2)) → (∀ c ∈ cases, c.2 < b.size) →
      k < b.size → Leaves b i (.switch x values targets (.stmt k))
        (cases.map (fun c => ⟨.stmt i, .stmt c.2, .switchCase, some c.1⟩) ++
          [⟨.stmt i, .stmt k, .switchDefault, none⟩])
  | ret {value} : Leaves b i (.ret value) [⟨.stmt i, .exit, .ret, none⟩]
  | nop {tag} : Leaves b i (.nop tag) [⟨.stmt i, b.following i, .fallThrough, none⟩]
  | assign {x e} : Leaves b i (.assign x e) [⟨.stmt i, b.following i, .fallThrough, none⟩]
  | invoke {x c} : Leaves b i (.invoke x c) [⟨.stmt i, b.following i, .fallThrough, none⟩]

variable {b : Body} {i : Nat} {s : Stmt Target} {t : Target}

theorem jump_stmt {k : Nat} (hk : k < b.size) (kind : EdgeKind) (v : Option Int) :
    b.jump i (.stmt k) kind v = .ok ⟨.stmt i, .stmt k, kind, v⟩ := by
  rw [jump, landing, if_pos hk]
  rfl

theorem jump_of_has (h : b.Has t) (kind : EdgeKind) (v : Option Int) :
    ∃ k < b.size, t = .stmt k ∧ b.jump i t kind v = .ok ⟨.stmt i, .stmt k, kind, v⟩ := by
  cases t with
  | stmt k => exact ⟨k, h, rfl, jump_stmt h kind v⟩
  | unset | outside => exact h.elim

theorem jump_of_not_has (h : ¬ b.Has t) (kind : EdgeKind) (v : Option Int) :
    b.jump i t kind v = .error (.lostJump (b.textAt i) b.name) := by
  cases t with
  | stmt k => rw [jump, landing, if_neg (show ¬ k < b.size from h)]; rfl
  | unset | outside => rfl

theorem eq_lostJump_of_jump {kind : EdgeKind} {v : Option Int} {e : GraphError}
    (h : b.jump i t kind v = .error e) : e = .lostJump (b.textAt i) b.name := by
  by_cases ht : b.Has t
  · obtain ⟨k, -, -, hk⟩ := jump_of_has (i := i) ht kind v
    rw [hk] at h
    cases h
  · rw [jump_of_not_has ht] at h
    exact (Except.error.inj h).symm

theorem cases_of_has {l : List (Int × Target)} (h : ∀ p ∈ l, b.Has p.2) :
    ∃ cases : List (Int × Nat), l = cases.map (fun c => (c.1, .stmt c.2)) ∧
      (∀ c ∈ cases, c.2 < b.size) ∧
      l.mapM (fun p => b.jump i p.2 .switchCase (some p.1)) =
        .ok (cases.map (fun c => ⟨.stmt i, .stmt c.2, .switchCase, some c.1⟩)) := by
  induction l with
  | nil => exact ⟨[], rfl, fun _ hc => (nomatch hc), rfl⟩
  | cons p l ih =>
      obtain ⟨hp, hl⟩ := List.forall_mem_cons.1 h
      obtain ⟨k, hk, ht, hj⟩ := jump_of_has (i := i) hp .switchCase (some p.1)
      obtain ⟨cases, rfl, hcases, hm⟩ := ih hl
      refine ⟨(p.1, k) :: cases, ?_, List.forall_mem_cons.2 ⟨hk, hcases⟩, ?_⟩
      · rw [List.map_cons, ← ht]
      · rw [List.mapM_cons, hj, hm]
        rfl

theorem cases_of_not_has {l : List (Int × Target)} (h : ∃ p ∈ l, ¬ b.Has p.2) :
    l.mapM (fun p => b.jump i p.2 .switchCase (some p.1)) =
      .error (.lostJump (b.textAt i) b.name) := by
  cases hm : l.mapM (fun p => b.jump i p.2 .switchCase (some p.1)) with
  | ok es =>
      obtain ⟨p, hp, hlost⟩ := h
      obtain ⟨e, -, he⟩ := exists_mem_of_mapM hm hp
      rw [jump_of_not_has hlost] at he
      cases he
  | error e =>
      obtain ⟨-, p, -, -, -, hp⟩ := mapM_eq_error hm
      rw [eq_lostJump_of_jump hp]

theorem exits_of_loses (h : b.Loses s) :
    b.exits i s = .error (.lostJump (b.textAt i) b.name) := by
  obtain ⟨t, ht, hlost⟩ := h
  cases s with
  | branch e t' | goto t' =>
      obtain rfl := List.mem_singleton.1 ht
      rw [exits, jump_of_not_has hlost]
      rfl
  | switch x values targets default =>
      rw [exits]
      by_cases hcases : ∃ p ∈ values.zip targets, ¬ b.Has p.2
      · rw [cases_of_not_has hcases]
        rfl
      · obtain ht | ht := List.mem_append.1 ht
        · obtain ⟨p, hp, rfl⟩ := List.mem_map.1 ht
          exact absurd ⟨p, hp, hlost⟩ hcases
        · obtain rfl := List.mem_singleton.1 ht
          obtain ⟨cases, -, -, hm⟩ := cases_of_has (i := i) (b := b) (l := values.zip targets)
            (fun p hp => by_contra fun hl => hcases ⟨p, hp, hl⟩)
          rw [hm, jump_of_not_has hlost]
          rfl
  | nop | assign | invoke | ret => cases ht

theorem not_loses_of_exits {es : List Edge} (h : b.exits i s = .ok es) : ¬ b.Loses s := by
  intro hl
  rw [exits_of_loses hl] at h
  cases h

theorem exits_of_not_loses (h : ¬ b.Loses s) : ∃ es, b.exits i s = .ok es ∧ b.Leaves i s es := by
  have h : ∀ t ∈ s.jumps, b.Has t := fun t ht => by_contra fun hl => h ⟨t, ht, hl⟩
  cases s with
  | branch e t =>
      obtain ⟨k, hk, rfl, hj⟩ := jump_of_has (i := i) (h t List.mem_cons_self) .ifTrue none
      exact ⟨_, by rw [exits, hj]; rfl, .branch hk⟩
  | goto t =>
      obtain ⟨k, hk, rfl, hj⟩ := jump_of_has (i := i) (h t List.mem_cons_self) .goto none
      exact ⟨_, by rw [exits, hj]; rfl, .goto hk⟩
  | switch x values targets default =>
      obtain ⟨hcases, hdefault⟩ := List.forall_mem_append.1 h
      obtain ⟨cases, hzip, hlt, hm⟩ := cases_of_has (i := i) (List.forall_mem_map.1 hcases)
      obtain ⟨k, hk, rfl, hj⟩ :=
        jump_of_has (i := i) (hdefault _ List.mem_cons_self) .switchDefault none
      exact ⟨_, by rw [exits, hm, hj]; rfl, .switch cases hzip hlt hk⟩
  | ret value => exact ⟨_, rfl, .ret⟩
  | nop tag => exact ⟨_, rfl, .nop⟩
  | assign x e => exact ⟨_, rfl, .assign⟩
  | invoke x c => exact ⟨_, rfl, .invoke⟩

theorem Leaves.falls {es : List Edge} (h : b.Leaves i s es) :
    (s.fallsThrough = true ↔ ∃ e ∈ es, e.kind.falls = true) ∧
    ∀ e ∈ es, e.kind.falls = true → e.target = b.following i := by
  cases h with
  | switch cases =>
      refine ⟨by simp [Stmt.fallsThrough, EdgeKind.falls], fun e he hf => ?_⟩
      obtain he | he := List.mem_append.1 he
      · obtain ⟨c, -, rfl⟩ := List.mem_map.1 he
        cases hf
      · obtain rfl := List.mem_singleton.1 he
        cases hf
  | branch | goto | ret | nop | assign | invoke => simp [Stmt.fallsThrough, EdgeKind.falls]

def edgesFrom (b : Body) : Node → List Edge
  | .entry => [⟨.entry, b.first, .entry, none⟩]
  | .stmt i => (b.stmt? i).elim [] (fun s => ((b.exits i s).toOption).getD [])
  | .exit | .stray _ _ => []

theorem edgesFrom_stmt {es : List Edge} (hs : b.stmt? i = some s) (he : b.exits i s = .ok es) :
    b.edgesFrom (.stmt i) = es := by
  rw [edgesFrom, hs, Option.elim_some, he]
  rfl

theorem source_of_mem_edgesFrom (b : Body) (n : Node) (e : Edge) (he : e ∈ b.edgesFrom n) :
    e.source = n := by
  cases n with
  | entry => rw [List.mem_singleton.1 he]
  | stmt i =>
      rw [edgesFrom] at he
      cases hs : b.stmt? i with
      | none => rw [hs] at he; cases he
      | some s =>
          rw [hs, Option.elim_some] at he
          cases hes : b.exits i s with
          | error d => rw [hes] at he; cases he
          | ok es =>
              rw [hes] at he
              exact (ends_of_exits hes he).1
  | exit | stray => cases he

end Body

namespace FlowGraph

variable {b : Body} {g : FlowGraph}

theorem edges_ofBody (h : ofBody b = .ok g) : g.edges = b.nodes.flatMap b.edgesFrom := by
  rw [ofBody] at h
  split at h
  · cases h
  · rename_i exits hexits
    cases h
    have hmap := map_of_mapM (l := id) (k := fun p => ((b.exits p.2 p.1).toOption).getD [])
      (fun p es hes => by rw [hes]; rfl) hexits
    have hstmts : b.stmts.zipIdx.map (fun p => ((b.exits p.2 p.1).toOption).getD []) =
        (List.range b.size).map (fun i => b.edgesFrom (.stmt i)) := by
      refine List.ext_getElem (by simp [Body.size]) fun i h₁ h₂ => ?_
      have hi : i < b.stmts.length := by simpa using h₁
      simp [Body.edgesFrom, Body.stmt?, List.getElem?_eq_getElem hi]
    rw [List.map_id, hstmts] at hmap
    show _ :: exits.flatten = _
    rw [hmap, Body.nodes, List.cons_append, List.flatMap_cons, List.flatMap_append,
      List.flatMap_map, List.flatMap_def, List.flatMap_singleton]
    exact congrArg _ (List.append_nil _).symm

theorem outEdges_ofBody (h : ofBody b = .ok g) {n : Node} (hn : n ∈ b.nodes) :
    g.outEdges n = b.edgesFrom n := by
  rw [outEdges, edges_ofBody h, filter_flatMap_of_nodup b.source_of_mem_edgesFrom b.nodup_nodes hn]

/-- A graph whose edges are those that control takes in its body, and no others. -/
structure Follows (g : FlowGraph) (b : Body) : Prop where
  body_eq : g.body = b
  entry_eq : g.outEdges .entry = [⟨.entry, if b.stmts = [] then .exit else .stmt 0, .entry, none⟩]
  leaves : ∀ i s, b.stmt? i = some s → b.Leaves i s (g.outEdges (.stmt i))
  exit_eq : g.outEdges .exit = []
  edges_eq : g.edges = b.nodes.flatMap g.outEdges
  valid : g.validate = .ok ()
  falls_iff : ∀ i s, b.stmt? i = some s →
    (s.fallsThrough = true ↔ ∃ e ∈ g.outEdges (.stmt i), e.kind.falls = true)
  falls_to : ∀ i s, b.stmt? i = some s → ∀ e ∈ g.outEdges (.stmt i), e.kind.falls = true →
    e.target = b.following i

theorem follows_ofBody (h : ofBody b = .ok g) : g.Follows b := by
  have hleaves i s (hs : b.stmt? i = some s) : b.Leaves i s (g.outEdges (.stmt i)) := by
    obtain ⟨es, hes⟩ := exists_exits h hs
    obtain ⟨es', hes', hleaves⟩ :=
      Body.exits_of_not_loses (i := i) (Body.not_loses_of_exits hes)
    have hn : Node.stmt i ∈ b.nodes := by
      refine (b.mem_nodes_iff _).2 (decide_eq_true ?_)
      exact (List.getElem?_eq_some_iff.1 hs).1
    rwa [outEdges_ofBody h hn, Body.edgesFrom_stmt hs hes']
  have hentry : g.outEdges .entry = b.edgesFrom .entry :=
    outEdges_ofBody h ((b.mem_nodes_iff _).2 rfl)
  exact
    { body_eq := body_ofBody h
      entry_eq := by
        rw [hentry, Body.edgesFrom, Body.first, Body.size]
        simp only [List.length_eq_zero_iff]
      leaves := hleaves
      exit_eq := outEdges_ofBody h ((b.mem_nodes_iff _).2 rfl)
      edges_eq := by
        rw [edges_ofBody h]
        exact List.flatMap_congr fun n hn => (outEdges_ofBody h hn).symm
      valid := validate_ofBody h
      falls_iff := fun i s hs => (hleaves i s hs).falls.1
      falls_to := fun i s hs => (hleaves i s hs).falls.2 }

theorem error_of_ofBody {e : GraphError} (h : ofBody b = .error e) :
    ∃ i s, b.stmt? i = some s ∧ b.Loses s ∧ (∀ k < i, ∀ t, b.stmt? k = some t → ¬ b.Loses t) ∧
      e = .lostJump (b.textAt i) b.name := by
  rw [ofBody] at h
  split at h
  · rename_i d hexits
    cases h
    obtain ⟨ys, ⟨s, i⟩, zs, hsplit, hys, hs⟩ := mapM_eq_error hexits
    have hat : ∀ k, b.stmts.zipIdx[k]? = (b.stmt? k).map (fun t => (t, k)) := fun k => by
      rw [List.getElem?_zipIdx, Nat.zero_add, Body.stmt?]
    obtain ⟨t, hi, ht⟩ : ∃ t, b.stmt? ys.length = some t ∧ (t, ys.length) = (s, i) := by
      refine Option.map_eq_some_iff.1 ?_
      rw [← hat, hsplit, List.getElem?_append_right (Nat.le_refl _), Nat.sub_self]
      rfl
    cases ht
    have hlost : b.Loses s := by_contra fun hl => by
      obtain ⟨es, hes, -⟩ := Body.exits_of_not_loses (i := ys.length) hl
      rw [hs] at hes
      cases hes
    rw [Body.exits_of_loses hlost] at hs
    refine ⟨ys.length, s, hi, hlost, fun k hk t ht hl => ?_, (Except.error.inj hs).symm⟩
    have hmem : (t, k) ∈ ys := by
      refine List.mem_of_getElem? (i := k) ?_
      rw [← List.getElem?_append_left hk, ← hsplit, hat, ht]
      rfl
    obtain ⟨es, hes⟩ := hys (t, k) hmem
    exact Body.not_loses_of_exits hes hl
  · cases h

theorem exists_ofBody (h : ∀ s ∈ b.stmts, ¬ b.Loses s) : ∃ g, ofBody b = .ok g := by
  cases hb : ofBody b with
  | error e =>
      obtain ⟨i, s, hs, hl, -⟩ := error_of_ofBody hb
      exact absurd hl (h s (List.mem_of_getElem? hs))
  | ok g => exact ⟨g, rfl⟩

/-- The graph of a body can be built if and only if no statement loses control, and is then the graph
of control in it. Else the first statement that loses it is to blame. -/
theorem ofBody_exact (b : Body) :
    ((∃ e, ofBody b = .error e) ↔ ∃ s ∈ b.stmts, b.Loses s) ∧
    (∀ e, ofBody b = .error e → ∃ i s, b.stmt? i = some s ∧ b.Loses s ∧
      (∀ k < i, ∀ t, b.stmt? k = some t → ¬ b.Loses t) ∧
      e = .lostJump (b.textAt i) b.name) ∧
    ((∀ s ∈ b.stmts, ¬ b.Loses s) → ∃ g, ofBody b = .ok g ∧ g.Follows b) := by
  have herror : (∃ e, ofBody b = .error e) ↔ ∃ s ∈ b.stmts, b.Loses s := by
    constructor
    · rintro ⟨e, he⟩
      obtain ⟨i, s, hs, hl, -⟩ := error_of_ofBody he
      exact ⟨s, List.mem_of_getElem? hs, hl⟩
    · rintro ⟨s, hs, hl⟩
      obtain ⟨i, hi⟩ := List.mem_iff_getElem?.1 hs
      cases h : ofBody b with
      | error e => exact ⟨e, rfl⟩
      | ok g =>
          obtain ⟨es, hes⟩ := exists_exits h hi
          exact absurd hl (Body.not_loses_of_exits hes)
  refine ⟨herror, fun e => error_of_ofBody, fun hkeep => ?_⟩
  obtain ⟨g, hg⟩ := exists_ofBody hkeep
  exact ⟨g, hg, follows_ofBody hg⟩

end FlowGraph

end Dataflow
