import Dataflow.FlowGraph.Basic
import Dataflow.Traversal

namespace Dataflow

namespace Body

def following (b : Body) (i : Nat) : Node := if i + 1 < b.size then .stmt (i + 1) else .exit

def landing (b : Body) (i : Nat) : Target → Except GraphError Node
  | .stmt k => if k < b.size then .ok (.stmt k) else .error (.lostJump (b.textAt i) b.name)
  | .unset | .outside => .error (.lostJump (b.textAt i) b.name)

def jump (b : Body) (i : Nat) (t : Target) (kind : EdgeKind) (caseValue : Option Int := none) :
    Except GraphError Edge :=
  (b.landing i t).map (fun n => ⟨.stmt i, n, kind, caseValue⟩)

def advance (b : Body) (i : Nat) (kind : EdgeKind) : Edge := ⟨.stmt i, b.following i, kind, none⟩

def exits (b : Body) (i : Nat) : Stmt Target → Except GraphError (List Edge)
  | .branch _ t => do return [← b.jump i t .ifTrue, b.advance i .ifFalse]
  | .goto t => do return [← b.jump i t .goto]
  | .switch _ values targets default => do
    let cases ← (values.zip targets).mapM (fun p => b.jump i p.2 .switchCase (some p.1))
    return cases ++ [← b.jump i default .switchDefault]
  | .ret _ => .ok [⟨.stmt i, .exit, .ret, none⟩]
  | .nop _ | .assign _ _ | .invoke _ _ => .ok [b.advance i .fallThrough]

theorem hasNode_following (b : Body) (i : Nat) : b.hasNode (b.following i) = true := by
  rw [following]
  split <;> simp_all [hasNode]

theorem hasNode_of_landing {b : Body} {i : Nat} {t : Target} {n : Node}
    (h : b.landing i t = .ok n) : b.hasNode n = true := by
  simp only [landing] at h
  split at h
  · split at h
    · cases h
      simpa [hasNode]
    · cases h
  · cases h
  · cases h

theorem ends_of_jump {b : Body} {i : Nat} {t : Target} {kind : EdgeKind} {v : Option Int} {e : Edge}
    (h : b.jump i t kind v = .ok e) : e.source = .stmt i ∧ b.hasNode e.target = true := by
  rw [jump] at h
  cases ht : b.landing i t with
  | error d => simp [ht, Except.map] at h
  | ok n =>
    simp only [ht, Except.map, Except.ok.injEq] at h
    subst h
    exact ⟨rfl, hasNode_of_landing ht⟩

theorem ends_of_advance (b : Body) (i : Nat) (kind : EdgeKind) :
    (b.advance i kind).source = .stmt i ∧ b.hasNode (b.advance i kind).target = true :=
  ⟨rfl, b.hasNode_following i⟩

theorem ends_of_exits {b : Body} {i : Nat} {s : Stmt Target} {es : List Edge}
    (h : b.exits i s = .ok es) {e : Edge} (he : e ∈ es) :
    e.source = .stmt i ∧ b.hasNode e.target = true := by
  cases s with
  | branch c t =>
    obtain ⟨d, hd, h⟩ := bind_eq_ok_iff.1 h
    cases h
    rcases List.mem_cons.1 he with rfl | he
    · exact ends_of_jump hd
    · obtain rfl := List.mem_singleton.1 he
      exact b.ends_of_advance i .ifFalse
  | goto t =>
    obtain ⟨d, hd, h⟩ := bind_eq_ok_iff.1 h
    cases h
    obtain rfl := List.mem_singleton.1 he
    exact ends_of_jump hd
  | switch v values targets default =>
    obtain ⟨cs, hcs, h⟩ := bind_eq_ok_iff.1 h
    obtain ⟨d, hd, h⟩ := bind_eq_ok_iff.1 h
    cases h
    rcases List.mem_append.1 he with he | he
    · obtain ⟨p, -, hp⟩ := exists_of_mem_mapM hcs he
      exact ends_of_jump hp
    · obtain rfl := List.mem_singleton.1 he
      exact ends_of_jump hd
  | ret v =>
    cases h
    obtain rfl := List.mem_singleton.1 he
    exact ⟨rfl, rfl⟩
  | nop | assign | invoke =>
    cases h
    obtain rfl := List.mem_singleton.1 he
    exact b.ends_of_advance i .fallThrough

def first (b : Body) : Node := if b.size = 0 then .exit else .stmt 0

theorem hasNode_first (b : Body) : b.hasNode b.first = true := by
  rw [first]
  split
  · rfl
  · simpa [hasNode] using Nat.pos_of_ne_zero ‹_›

end Body

namespace FlowGraph

def bare (b : Body) : FlowGraph where
  body := b
  ends := by simp

/-- The graph of a body: an edge from the entry to the first statement, or to the exit if there is
none, and the edges that control takes from each statement. -/
def ofBody (b : Body) : Except GraphError FlowGraph :=
  match h : b.stmts.zipIdx.mapM (fun p => b.exits p.2 p.1) with
  | .error e => .error e
  | .ok exits => .ok
    { body := b
      edges := ⟨.entry, b.first, .entry, none⟩ :: exits.flatten
      ends := by
        intro e he
        rcases List.mem_cons.1 he with rfl | he
        · exact ⟨rfl, b.hasNode_first⟩
        · obtain ⟨es, hes, he⟩ := List.mem_flatten.1 he
          obtain ⟨p, hp, hps⟩ := exists_of_mem_mapM h hes
          obtain ⟨hs, ht⟩ := Body.ends_of_exits hps he
          have hi : p.2 < b.stmts.length := by
            have := List.mem_zipIdx_iff_getElem?.1 hp
            exact (List.getElem?_eq_some_iff.1 this).1
          exact ⟨hs ▸ decide_eq_true hi, ht⟩ }

end FlowGraph

end Dataflow
