import Dataflow.Proofs.Analysis.Live
import Dataflow.Proofs.Run.Local

namespace Dataflow

variable {ρ : Type}

/-- What all variables of a method hold while it runs: those for ints hold words, all others values
of another kind. A variable not assigned yet holds nothing. -/
structure Memory (ρ : Type) where
  words : Store
  others : Var → Option ρ

namespace Memory

def read (M : Memory ρ) (x : Var) : Option (Word ⊕ ρ) :=
  if x.holdsInt then (M.words x).map .inl else (M.others x).map .inr

def assign (M : Memory ρ) (x : Var) (w : Word) (a : ρ) : Memory ρ :=
  if x.holdsInt then { M with words := M.words.set x w }
  else { M with others := fun y => if y = x then some a else M.others y }

def ints (M : Memory ρ) : Store := fun x => if x.holdsInt then M.words x else none

variable {M M' : Memory ρ}

theorem read_assign (M : Memory ρ) (x : Var) (w : Word) (a : ρ) (y : Var) :
    (M.assign x w a).read y =
      if y = x then some (if x.holdsInt then .inl w else .inr a) else M.read y := by
  by_cases hy : y = x
  · subst hy
    cases hi : y.holdsInt <;> simp [read, assign, hi]
  · cases hi : x.holdsInt <;> simp [read, assign, hi, hy, Store.set]

theorem ints_assign (M : Memory ρ) (x : Var) (w : Word) (a : ρ) :
    (M.assign x w a).ints = M.ints.assign x w := by
  funext y
  by_cases hy : y = x
  · subst hy
    cases hi : y.holdsInt <;> simp [ints, assign, Store.assign, hi]
  · cases hi : x.holdsInt <;> simp [ints, assign, Store.assign, hi, hy, Store.set]

theorem ints_eq (M : Memory ρ) (x : Var) : M.ints x = (M.read x).bind Sum.getLeft? := by
  cases hi : x.holdsInt with
  | false => cases hx : M.others x <;> simp [ints, read, hi, hx]
  | true => cases hx : M.words x <;> simp [ints, read, hi, hx]

theorem isSome_ints {x : Var} :
    (M.ints x).isSome = true ↔ x.holdsInt = true ∧ (M.read x).isSome = true := by
  cases hi : x.holdsInt <;> simp [ints, read, hi]

def Agree (P : Var → Prop) (M M' : Memory ρ) : Prop := ∀ x, P x → M.read x = M'.read x

end Memory

/-- The word an expression yields, where `free` stands for what is not computed on words. A variable
not assigned yet and a division by 0 yield none. -/
def Exp.wordOf (σ : Store) (free : Word) : Exp → Option Word
  | .int n => some (BitVec.ofInt 32 n)
  | .var x => if x.holdsInt then σ x else some free
  | .binary op l r =>
    if l.holdsInt && r.holdsInt then (σ l).bind (fun a => (σ r).bind (op.onWords a)) else some free
  | _ => some free

/-- What comes into a run from outside: the words and the other values that statements do not
compute on words. They may depend on the number of the step, on the node, and on what is read there.
-/
structure Oracle (ρ : Type) where
  word : Nat → Node → List (Word ⊕ ρ) → Word
  other : Nat → Node → List (Word ⊕ ρ) → ρ

def Stmt.effect (M : Memory ρ) (w : Word) (a : ρ) : Stmt Target → Option (Memory ρ)
  | .assign x e => (e.wordOf M.ints w).map (fun v => M.assign x v a)
  | .invoke (some x) _ => some (M.assign x w a)
  | _ => some M

def Edge.isCase (v : Int) (e : Edge) : Bool := e.kind = .switchCase && e.caseValue = some v

def Edge.isDefault (e : Edge) : Bool := e.kind = .switchDefault

/-- The edge that control takes from a statement. A branch goes where its condition says, a switch
to the first case that is equal to the selector, or else to the default. -/
def Stmt.way (σ : Store) (w : Word) (edges : List Edge) : Stmt Target → Option Edge
  | .branch c _ => (c.wordOf σ w).bind (fun v =>
      edges.find? (fun e => e.kind = if v = 0 then .ifFalse else .ifTrue))
  | .switch x _ _ _ => ((Exp.var x).wordOf σ w).bind (fun v =>
      (edges.find? (Edge.isCase v.toInt)).or (edges.find? Edge.isDefault))
  | _ => edges.head?

namespace FlowGraph

variable {g : FlowGraph} {o : Oracle ρ} {k : Nat} {n m : Node} {M N : Memory ρ}

def effect (g : FlowGraph) (n : Node) (M : Memory ρ) (w : Word) (a : ρ) : Option (Memory ρ) :=
  (g.body.stmtOf? n).elim (some M) (Stmt.effect M w a)

def way (g : FlowGraph) (n : Node) (σ : Store) (w : Word) : Option Edge :=
  (g.body.stmtOf? n).elim (g.outEdges n).head? (Stmt.way σ w (g.outEdges n))

/-- A step of a run. There is none from a node that reads a variable not assigned yet. -/
def step (g : FlowGraph) (o : Oracle ρ) (k : Nat) (n : Node) (M : Memory ρ) :
    Option (Node × Memory ρ) := do
  let reads ← (g.usesAt n).mapM M.read
  let N ← g.effect n M (o.word k n reads) (o.other k n reads)
  let e ← g.way n M.ints (o.word k n reads)
  return (e.target, N)

def omits (g : FlowGraph) (omitted : List Nat) (n : Node) : Bool :=
  match g.body.stmtOf? n with
  | some (.assign _ _) => omitted.any (fun i => n = .stmt i)
  | _ => false

/-- A step where some assignments are left out: all that remains of them is that control goes on. -/
def stepWithout (g : FlowGraph) (o : Oracle ρ) (omitted : List Nat) (k : Nat) (n : Node)
    (M : Memory ρ) : Option (Node × Memory ρ) :=
  if g.omits omitted n then (g.outEdges n).head?.map (fun e => (e.target, M)) else g.step o k n M

def runBy (f : Nat → Node → Memory ρ → Option (Node × Memory ρ)) (M : Memory ρ) :
    Nat → Option (Node × Memory ρ)
  | 0 => some (.entry, M)
  | k + 1 => (runBy f M k).bind (fun c => f k c.1 c.2)

def run (g : FlowGraph) (o : Oracle ρ) : Memory ρ → Nat → Option (Node × Memory ρ) :=
  runBy (g.step o)

def runWithout (g : FlowGraph) (o : Oracle ρ) (omitted : List Nat) :
    Memory ρ → Nat → Option (Node × Memory ρ) :=
  runBy (g.stepWithout o omitted)

end FlowGraph

def Body.Opens (b : Body) (M : Memory ρ) : Prop :=
  ∀ x, (M.read x).isSome = true ↔ x ∈ b.params ∨ b.this = some x

theorem Body.Opens.starts {b : Body} {M : Memory ρ} (h : b.Opens M)
    (hthis : ∀ x, b.this = some x → x.holdsInt = false) : b.Starts M.ints := by
  intro x
  rw [Memory.isSome_ints, h x]
  constructor
  · rintro ⟨hi, hx | hx⟩
    · exact ⟨hx, hi⟩
    · rw [hthis x hx] at hi
      cases hi
  · rintro ⟨hx, hi⟩
    exact ⟨hi, .inl hx⟩

namespace Exp

variable {σ τ : Store} {e : Exp} {v w : Word}

theorem yields_of_wordOf (h : e.wordOf σ w = some v) : e.Yields σ v := by
  cases e with
  | int n =>
      cases h
      rfl
  | var x =>
      intro hx
      rwa [wordOf, if_pos hx] at h
  | binary op l r =>
      intro hl hr
      rw [wordOf, if_pos (Bool.and_eq_true_iff.2 ⟨hl, hr⟩)] at h
      obtain ⟨a, ha, h⟩ := Option.bind_eq_some_iff.1 h
      obtain ⟨b, hb, h⟩ := Option.bind_eq_some_iff.1 h
      exact ⟨a, b, ha, hb, h⟩
  | long _ | double _ | str _ | null | unclassed _ _ _ | neg _ | new _ _ | cast _ _
  | instanceField _ _ _ | staticField _ _ _ | element _ _ | call _ => trivial

theorem wordOf_congr (h : ∀ x ∈ e.uses, σ x = τ x) (w : Word) : e.wordOf σ w = e.wordOf τ w := by
  cases e with
  | var x => rw [wordOf, wordOf, h x (List.mem_singleton_self x)]
  | binary op l r =>
      have hl := h l List.mem_cons_self
      have hr := h r (List.mem_cons_of_mem l List.mem_cons_self)
      rw [wordOf, wordOf, hl, hr]
  | int _ | long _ | double _ | str _ | null | unclassed _ _ _ | neg _ | new _ _ | cast _ _
  | instanceField _ _ _ | staticField _ _ _ | element _ _ | call _ => rfl

theorem exists_wordOf_of_isPure (h : e.isPure = true) (hσ : σ.Assigned e.uses) (w : Word) :
    ∃ v, e.wordOf σ w = some v := by
  cases e with
  | var x =>
      rw [wordOf]
      split
      · exact Option.isSome_iff_exists.1 (hσ x (List.mem_singleton_self x) ‹_›)
      · exact ⟨w, rfl⟩
  | binary op l r =>
      rw [wordOf]
      split
      · rename_i hlr
        obtain ⟨hl, hr⟩ := Bool.and_eq_true_iff.1 hlr
        obtain ⟨a, ha⟩ := Option.isSome_iff_exists.1 (hσ l List.mem_cons_self hl)
        obtain ⟨b, hb⟩ := Option.isSome_iff_exists.1
          (hσ r (List.mem_cons_of_mem l List.mem_cons_self) hr)
        rw [ha, hb, Option.bind_some, Option.bind_some]
        cases op with
        | arith op => cases op with
          | add | sub | mul => exact ⟨_, rfl⟩
          | div | rem => cases h
        | bit op | cond op | shift op => cases op <;> exact ⟨_, rfl⟩
      · exact ⟨w, rfl⟩
  | int _ | long _ | double _ | str _ | null | unclassed _ _ _ | neg _ | new _ _ | cast _ _
  | instanceField _ _ _ | staticField _ _ _ | element _ _ | call _ => exact ⟨_, rfl⟩

end Exp

namespace Memory

variable {M M' : Memory ρ} {xs : List Var}

theorem mapM_read_congr (h : ∀ x ∈ xs, M.read x = M'.read x) :
    xs.mapM M.read = xs.mapM M'.read := by
  induction xs with
  | nil => rfl
  | cons x xs ih =>
      obtain ⟨hx, hxs⟩ := List.forall_mem_cons.1 h
      rw [List.mapM_cons, List.mapM_cons, hx, ih hxs]

theorem mapM_read_cases (M : Memory ρ) (xs : List Var) :
    (∃ reads, xs.mapM M.read = some reads ∧ ∀ x ∈ xs, (M.read x).isSome = true) ∨
      xs.mapM M.read = none ∧ ∃ x ∈ xs, M.read x = none := by
  induction xs with
  | nil => exact .inl ⟨[], rfl, fun x hx => absurd hx List.not_mem_nil⟩
  | cons x xs ih =>
      rw [List.mapM_cons]
      cases hx : M.read x with
      | none => exact .inr ⟨rfl, x, List.mem_cons_self, hx⟩
      | some a =>
          rcases ih with ⟨reads, hreads, hxs⟩ | ⟨hnone, y, hy, hread⟩
          · rw [hreads]
            refine .inl ⟨a :: reads, rfl, List.forall_mem_cons.2 ⟨?_, hxs⟩⟩
            rw [hx]
            rfl
          · rw [hnone]
            exact .inr ⟨rfl, y, List.mem_cons_of_mem x hy, hread⟩

theorem assigned_of_read (h : ∀ x ∈ xs, (M.read x).isSome = true) : M.ints.Assigned xs :=
  fun x hx hi => isSome_ints.2 ⟨hi, h x hx⟩

theorem assigned_of_mapM {reads : List (Word ⊕ ρ)} (h : xs.mapM M.read = some reads) :
    M.ints.Assigned xs := by
  rcases M.mapM_read_cases xs with ⟨_, -, hread⟩ | ⟨hnone, -⟩
  · exact assigned_of_read hread
  · rw [hnone] at h
    cases h

end Memory

namespace FlowGraph

variable {g : FlowGraph} {o : Oracle ρ} {k : Nat} {n m : Node} {M N : Memory ρ}

theorem runBy_succ_iff {f : Nat → Node → Memory ρ → Option (Node × Memory ρ)}
    {c : Node × Memory ρ} : runBy f M (k + 1) = some c ↔
      ∃ n N, runBy f M k = some (n, N) ∧ f k n N = some c := by
  rw [runBy, Option.bind_eq_some_iff, Prod.exists]

theorem run_succ_iff {c : Node × Memory ρ} : g.run o M (k + 1) = some c ↔
    ∃ n N, g.run o M k = some (n, N) ∧ g.step o k n N = some c := runBy_succ_iff

theorem runWithout_succ_iff {omitted : List Nat} {c : Node × Memory ρ} :
    g.runWithout o omitted M (k + 1) = some c ↔ ∃ n N, g.runWithout o omitted M k = some (n, N) ∧
      g.stepWithout o omitted k n N = some c := runBy_succ_iff

theorem step_eq_some_iff : g.step o k n M = some (m, N) ↔ ∃ reads e,
    (g.usesAt n).mapM M.read = some reads ∧
      g.effect n M (o.word k n reads) (o.other k n reads) = some N ∧
      g.way n M.ints (o.word k n reads) = some e ∧ e.target = m := by
  simp only [step, Option.bind_eq_bind, Option.bind_eq_some_iff, Option.pure_def,
    Option.some.injEq, Prod.mk.injEq]
  constructor
  · rintro ⟨reads, hreads, N, hN, e, he, hm, rfl⟩
    exact ⟨reads, e, hreads, hN, he, hm⟩
  · rintro ⟨reads, e, hreads, hN, he, hm⟩
    exact ⟨reads, hreads, N, hN, e, he, hm, rfl⟩

theorem mem_outEdges_of_way {σ : Store} {w : Word} {e : Edge} (h : g.way n σ w = some e) :
    e ∈ g.outEdges n := by
  rw [way] at h
  cases hs : g.body.stmtOf? n with
  | none =>
      rw [hs] at h
      exact List.mem_of_head? h
  | some s =>
      rw [hs] at h
      cases s with
      | branch c t =>
          obtain ⟨v, -, h⟩ := Option.bind_eq_some_iff.1 h
          exact List.mem_of_find?_eq_some h
      | switch x values targets default =>
          obtain ⟨v, -, h⟩ := Option.bind_eq_some_iff.1 h
          rcases Option.or_eq_some_iff.1 h with h | ⟨-, h⟩
          · exact List.mem_of_find?_eq_some h
          · exact List.mem_of_find?_eq_some h
      | nop _ | assign _ _ | invoke _ _ | goto _ | ret _ => exact List.mem_of_head? h

theorem target_mem_succs {e : Edge} (h : e ∈ g.outEdges n) : e.target ∈ g.succs n :=
  List.mem_eraseDups.2 (List.mem_map_of_mem h)

theorem acts_of_effect {s : Stmt Target} {w : Word} {a : ρ} {edges : List Edge} {e : Edge}
    (hN : s.effect M w a = some N) (he : s.way M.ints w edges = some e) :
    s.Acts M.ints N.ints := by
  cases s with
  | assign x r =>
      obtain ⟨v, hv, rfl⟩ := Option.map_eq_some_iff.1 hN
      rw [Memory.ints_assign]
      exact .assign (Exp.yields_of_wordOf hv)
  | invoke result c =>
      cases result with
      | none =>
          cases hN
          exact .invoke
      | some x =>
          cases hN
          rw [Memory.ints_assign]
          exact .result w
  | branch c t =>
      cases hN
      obtain ⟨v, hv, -⟩ := Option.bind_eq_some_iff.1 he
      exact .branch (Exp.yields_of_wordOf hv)
  | nop tag =>
      cases hN
      exact .nop
  | goto t =>
      cases hN
      exact .goto
  | switch x values targets default =>
      cases hN
      exact .switch
  | ret value =>
      cases hN
      exact .ret

/-- A step acts on the words as runs of words do. -/
theorem acts_of_step (h : g.step o k n M = some (m, N)) :
    g.body.Acts n M.ints N.ints ∧ m ∈ g.succs n := by
  obtain ⟨reads, e, hreads, hN, he, rfl⟩ := step_eq_some_iff.1 h
  refine ⟨?_, target_mem_succs (mem_outEdges_of_way he)⟩
  rw [effect] at hN
  rw [way] at he
  cases hs : g.body.stmtOf? n with
  | none =>
      rw [hs] at hN
      cases hN
      exact .pass hs
  | some s =>
      rw [hs] at hN he
      have hassigned := Memory.assigned_of_mapM hreads
      rw [usesAt, hs] at hassigned
      exact .act hs hassigned (acts_of_effect hN he)

end FlowGraph

end Dataflow
