import Dataflow.Proofs.Body.Assembly
import Dataflow.Proofs.Body.Built
import Dataflow.Proofs.FlowGraph.OfBody
import Dataflow.Proofs.Lists

namespace Dataflow

theorem exists_error_iff {α ε : Type} {x : Except ε α} :
    (∃ e, x = .error e) ↔ ¬ ∃ a, x = .ok a := by
  cases x <;> simp

namespace Builder

variable {b b' : Builder} {requests : List Request} {r : Request} {l : String} {k : Nat}

def Request.draft? : Request → Option Draft
  | .append s => some s
  | .assignBinary x symbol left right =>
    (Exp.ofSymbol symbol left right).toOption.map (Stmt.assign x)
  | .branchOn symbol left right name =>
    (Exp.ofCondition symbol left right).toOption.map (Stmt.branch · name)
  | .newVar _ _ | .newParam _ _ | .newThis _ | .label _ | .build => none

def drafts (requests : List Request) : List Draft := requests.filterMap Request.draft?

/-- A label stands for the statement that is appended next after it. -/
def Binds (requests : List Request) (l : String) (k : Nat) : Prop :=
  ∃ front back, requests = front ++ .label l :: back ∧ drafts back ≠ [] ∧ k = (drafts front).length

def Waits (requests : List Request) (l : String) : Prop :=
  ∃ front back, requests = front ++ .label l :: back ∧ drafts back = []

theorem drafts_concat (requests : List Request) (r : Request) :
    drafts (requests ++ [r]) = drafts requests ++ r.draft?.toList := by
  rw [drafts, List.filterMap_append]
  cases hr : r.draft? <;> simp [drafts, hr]

theorem drafts_append_label (front back : List Request) (l : String) :
    drafts (front ++ .label l :: back) = drafts front ++ drafts back :=
  List.filterMap_append

theorem binds_concat_iff : Binds (requests ++ [r]) l k ↔
    Binds requests l k ∨ (r.draft? ≠ none ∧ Waits requests l ∧ k = (drafts requests).length) := by
  constructor
  · rintro ⟨front, back, heq, hback, rfl⟩
    rcases concat_eq_append_cons_iff.1 heq with ⟨-, -, rfl⟩ | ⟨rest, rfl, rfl⟩
    · exact absurd rfl hback
    · by_cases hrest : drafts rest = []
      · rw [drafts_concat, hrest, List.nil_append] at hback
        refine .inr ⟨fun hnone => hback (by rw [hnone]; rfl), ⟨front, rest, rfl, hrest⟩, ?_⟩
        rw [drafts_append_label, hrest, List.append_nil]
      · exact .inl ⟨front, rest, rfl, hrest, rfl⟩
  · rintro (⟨front, rest, rfl, hrest, rfl⟩ | ⟨hr, ⟨front, rest, rfl, hrest⟩, rfl⟩)
    · refine ⟨front, rest ++ [r], by rw [List.append_assoc, List.cons_append], ?_, rfl⟩
      rw [drafts_concat]
      exact List.append_ne_nil_of_left_ne_nil hrest _
    · refine ⟨front, rest ++ [r], by rw [List.append_assoc, List.cons_append], ?_, ?_⟩
      · obtain ⟨s, hs⟩ := Option.ne_none_iff_exists'.1 hr
        rw [drafts_concat, hs]
        exact List.append_ne_nil_of_right_ne_nil _ (List.cons_ne_nil s [])
      · rw [drafts_append_label, hrest, List.append_nil]

theorem waits_concat_iff : Waits (requests ++ [r]) l ↔
    r = .label l ∨ (r.draft? = none ∧ Waits requests l) := by
  constructor
  · rintro ⟨front, back, heq, hback⟩
    rcases concat_eq_append_cons_iff.1 heq with ⟨-, rfl, -⟩ | ⟨rest, rfl, rfl⟩
    · exact .inl rfl
    · rw [drafts_concat, List.append_eq_nil_iff, Option.toList_eq_nil_iff] at hback
      exact .inr ⟨hback.2, front, rest, rfl, hback.1⟩
  · rintro (rfl | ⟨hr, front, rest, rfl, hrest⟩)
    · exact ⟨requests, [], rfl, rfl⟩
    · refine ⟨front, rest ++ [r], by rw [List.append_assoc, List.cons_append], ?_⟩
      rw [drafts_concat, hrest, hr]
      rfl

/-- What a builder knows of its labels after requests that it granted. -/
structure Tracks (requests : List Request) (b : Builder) : Prop where
  stmts : b.stmts = drafts requests
  labels : ∀ l k, b.labels.get? l = some k ↔ Binds requests l k
  pending : ∀ l, l ∈ b.pending ↔ Waits requests l
  apart : ∀ l ∈ b.pending, b.labels.get? l = none
  refused : b.refused = []
  built : b.built = false

theorem tracks_start (name : String) (scope : Nat) : Tracks [] { name, scope } where
  stmts := rfl
  labels l k := by
    refine ⟨fun h => (nomatch h), ?_⟩
    rintro ⟨front, back, h, -⟩
    cases front <;> cases h
  pending l := by
    refine ⟨fun h => (nomatch h), ?_⟩
    rintro ⟨front, back, h, -⟩
    cases front <;> cases h
  apart _ h := nomatch h
  refused := rfl
  built := rfl

theorem Tracks.idle (h : Tracks requests b) (hr : r.draft? = none) (hl : ∀ l, r ≠ .label l) :
    Tracks (requests ++ [r]) b where
  stmts := by rw [h.stmts, drafts_concat, hr, Option.toList_none, List.append_nil]
  labels l k := by simp [h.labels, binds_concat_iff, hr]
  pending l := by simp [h.pending, waits_concat_iff, hr, hl]
  apart := h.apart
  refused := h.refused
  built := h.built

theorem Tracks.label (h : Tracks requests b) (hl : b.label l = .ok b') :
    Tracks (requests ++ [.label l]) b' := by
  rw [Builder.label] at hl
  split at hl
  · cases hl
  · rename_i hfresh
    cases hl
    rw [Bool.or_eq_true, not_or] at hfresh
    have hnone : b.labels.get? l = none := by
      rw [← Option.not_isSome_iff_eq_none]
      exact hfresh.1
    exact
      { stmts := by rw [drafts_concat, h.stmts]; exact (List.append_nil _).symm
        labels := fun m k => by rw [h.labels, binds_concat_iff]; simp [Request.draft?]
        pending := fun m => by
          rw [waits_concat_iff, List.mem_append, h.pending, List.mem_singleton]
          simp only [Request.draft?, Request.label.injEq, true_and]
          exact or_comm.trans (or_congr_left eq_comm)
        apart := fun m hm => by
          rcases List.mem_append.1 hm with hm | hm
          · exact h.apart m hm
          · rw [List.mem_singleton.1 hm, hnone]
        refused := h.refused
        built := h.built }

theorem Tracks.append (h : Tracks requests b) {s : Draft} (hr : r.draft? = some s) :
    Tracks (requests ++ [r]) (b.appendOrRefuse s).2 := by
  have hl : ∀ l, r ≠ .label l := by
    rintro l rfl
    cases hr
  rw [appendOrRefuse, append_of_unbuilt h.built]
  exact
    { stmts := by rw [drafts_concat, hr, ← h.stmts]; rfl
      labels := fun l k => by
        rw [get?_foldl_insert, binds_concat_iff, ← h.pending, ← h.stmts, ← h.labels]
        by_cases hp : l ∈ b.pending
        · simp [hp, hr, h.apart l hp, eq_comm]
        · simp [hp]
      pending := fun l => by simp [waits_concat_iff, hr, hl]
      apart := fun l hl => absurd hl List.not_mem_nil
      refused := h.refused
      built := h.built }

def Request.isBuild : Request → Bool
  | .build => true
  | _ => false

theorem Request.isBuild_iff {r : Request} : r.isBuild = true ↔ r = .build := by
  cases r <;> simp [isBuild]

/-- Requests of which those to finish the body are refused, and no others. -/
def Unhindered (b : Builder) (requests : List Request) : Prop :=
  (b.run requests).1.map Except.isOk = requests.map (fun r => !r.isBuild)

theorem unhindered_cons_iff {rest : List Request} : b.Unhindered (r :: rest) ↔
    (b.answer r).1.isOk = !r.isBuild ∧ (b.answer r).2.Unhindered rest :=
  Iff.of_eq (List.cons.injEq _ _ _ _)

theorem run_cons (b : Builder) (r : Request) (rest : List Request) :
    (b.run (r :: rest)).2 = ((b.answer r).2.run rest).2 := rfl

/-- A body that could not be finished is left as it was. -/
theorem answer_build_eq (hr : (b.answer .build).1.isOk = false) : (b.answer .build).2 = b := by
  simp only [answer] at hr ⊢
  cases hb : b.build with
  | ok body => rw [hb] at hr; cases hr
  | error e => rfl

theorem Tracks.answer (h : Tracks requests b) (hr : (b.answer r).1.isOk = !r.isBuild) :
    Tracks (requests ++ [r]) (b.answer r).2 := by
  cases r with
  | newVar name type => exact { h.idle (r := .newVar name type) rfl (by simp) with }
  | newParam name type => exact { h.idle (r := .newParam name type) rfl (by simp) with }
  | newThis type => exact { h.idle (r := .newThis type) rfl (by simp) with }
  | label name =>
      simp only [Builder.answer] at hr ⊢
      cases hl : b.label name with
      | ok b' => exact h.label hl
      | error e => rw [hl] at hr; cases hr
  | append s => exact h.append rfl
  | assignBinary x symbol left right =>
      simp only [Builder.answer] at hr ⊢
      cases he : Exp.ofSymbol symbol left right with
      | ok e => exact h.append (s := .assign x e) (by rw [Request.draft?, he]; rfl)
      | error e => rw [he] at hr; cases hr
  | branchOn symbol left right name =>
      simp only [Builder.answer] at hr ⊢
      cases he : Exp.ofCondition symbol left right with
      | ok e => exact h.append (s := .branch e name) (by rw [Request.draft?, he]; rfl)
      | error e => rw [he] at hr; cases hr
  | build =>
      rw [answer_build_eq hr]
      exact h.idle rfl (by simp)

theorem Tracks.run (h : Tracks requests b) {more : List Request} (hu : b.Unhindered more) :
    Tracks (requests ++ more) (b.run more).2 := by
  induction more generalizing requests b with
  | nil => rwa [List.append_nil]
  | cons r more ih =>
      obtain ⟨hr, hu⟩ := unhindered_cons_iff.1 hu
      have hrun := ih (h.answer hr) hu
      rwa [List.append_assoc] at hrun

end Builder

/-- A statement of a draft in which each label has given way to the position that it stands for. -/
inductive Stmt.Placed (P : String → Nat → Prop) : Draft → Stmt Target → Prop
  | nop (tag) : Placed P (.nop tag) (.nop tag)
  | assign (x) (e) : Placed P (.assign x e) (.assign x e)
  | invoke (result) (c) : Placed P (.invoke result c) (.invoke result c)
  | branch (e) (l) (k) (h : P l k) : Placed P (.branch e l) (.branch e (.stmt k))
  | goto (l) (k) (h : P l k) : Placed P (.goto l) (.goto (.stmt k))
  | switch (x) (values) (ls) (ks : List Nat) (l) (k) (hs : List.Forall₂ P ls ks) (h : P l k) :
      Placed P (.switch x values ls l) (.switch x values (ks.map .stmt) (.stmt k))
  | ret (value) : Placed P (.ret value) (.ret value)

def Stmt.returned? {τ : Type} : Stmt τ → Option Var
  | .ret value => value
  | _ => none

theorem Stmt.returned?_eq_some_iff {τ : Type} {s : Stmt τ} {x : Var} :
    s.returned? = some x ↔ s = .ret (some x) := by
  cases s <;> simp [Stmt.returned?]

theorem Stmt.Alike.returned?_eq {τ σ : Type} {s : Stmt τ} {s' : Stmt σ} (h : s.Alike s') :
    s.returned? = s'.returned? := by
  cases h <;> rfl

theorem Body.returnVars_eq_returned (b : Body) :
    b.returnVars = (b.stmts.filterMap Stmt.returned?).eraseDups := by
  refine congrArg List.eraseDups (List.filterMap_congr fun s _ => ?_)
  cases s <;> rfl

theorem exists_mapTargets_iff {τ σ ε : Type} {f : τ → Except ε σ} {s : Stmt τ} :
    (∃ s', s.mapTargets f = .ok s') ↔ ∀ l ∈ s.targets, ∃ t, f l = .ok t := by
  cases s with
  | nop | assign | invoke | ret => exact ⟨fun _ l hl => (nomatch hl), fun _ => ⟨_, rfl⟩⟩
  | branch e l | goto l =>
      change _ ↔ ∀ m ∈ [l], _
      rw [List.forall_mem_singleton, Stmt.mapTargets]
      constructor
      · rintro ⟨s', h⟩
        obtain ⟨t, ht, -⟩ := bind_eq_ok_iff.1 h
        exact ⟨t, ht⟩
      · rintro ⟨t, ht⟩
        exact ⟨_, bind_eq_ok_iff.2 ⟨t, ht, rfl⟩⟩
  | switch x values ls l =>
      change _ ↔ ∀ m ∈ ls ++ [l], _
      rw [List.forall_mem_append, List.forall_mem_singleton, Stmt.mapTargets]
      constructor
      · rintro ⟨s', h⟩
        obtain ⟨ts, hts, h⟩ := bind_eq_ok_iff.1 h
        obtain ⟨t, ht, -⟩ := bind_eq_ok_iff.1 h
        refine ⟨fun m hm => ?_, t, ht⟩
        obtain ⟨u, -, hu⟩ := exists_mem_of_mapM hts hm
        exact ⟨u, hu⟩
      · rintro ⟨hls, t, ht⟩
        obtain ⟨ts, hts⟩ := exists_mapM_eq_ok hls
        exact ⟨_, bind_eq_ok_iff.2 ⟨ts, hts, bind_eq_ok_iff.2 ⟨t, ht, rfl⟩⟩⟩

theorem forall₂_of_mapM {α β ε : Type} {f : α → Except ε β} {xs : List α} {ys : List β}
    (h : xs.mapM f = .ok ys) : List.Forall₂ (fun x y => f x = .ok y) xs ys := by
  induction xs generalizing ys with
  | nil => cases h; exact .nil
  | cons x xs ih =>
      rw [List.mapM_cons] at h
      obtain ⟨y, hy, h⟩ := bind_eq_ok_iff.1 h
      obtain ⟨ys, hys, h⟩ := bind_eq_ok_iff.1 h
      cases h
      exact .cons hy (ih hys)

namespace Builder

variable {b : Builder} {requests : List Request} {body : Body} {l : String}

theorem resolve_eq_ok_iff {t : Target} :
    b.resolve l = .ok t ↔ ∃ k, b.labels.get? l = some k ∧ t = .stmt k := by
  rw [resolve]
  cases b.labels.get? l with
  | none => simp
  | some k => simp [eq_comm]

theorem exists_of_mapM_resolve {ls : List String} {ts : List Target}
    (h : ls.mapM b.resolve = .ok ts) : ∃ ks : List Nat,
      List.Forall₂ (fun l k => b.labels.get? l = some k) ls ks ∧ ts = ks.map .stmt := by
  have hall := forall₂_of_mapM h
  clear h
  induction hall with
  | nil => exact ⟨[], .nil, rfl⟩
  | cons ht _ ih =>
      obtain ⟨k, hk, rfl⟩ := resolve_eq_ok_iff.1 ht
      obtain ⟨ks, hks, rfl⟩ := ih
      exact ⟨k :: ks, .cons hk hks, rfl⟩

theorem placed_of_mapTargets {d : Draft} {s : Stmt Target} (h : d.mapTargets b.resolve = .ok s) :
    Stmt.Placed (fun l k => b.labels.get? l = some k) d s := by
  cases d with
  | nop tag => cases h; exact .nop tag
  | assign x e => cases h; exact .assign x e
  | invoke result c => cases h; exact .invoke result c
  | branch e l =>
      obtain ⟨t, ht, h⟩ := bind_eq_ok_iff.1 h
      obtain ⟨k, hk, rfl⟩ := resolve_eq_ok_iff.1 ht
      cases h
      exact .branch e l k hk
  | goto l =>
      obtain ⟨t, ht, h⟩ := bind_eq_ok_iff.1 h
      obtain ⟨k, hk, rfl⟩ := resolve_eq_ok_iff.1 ht
      cases h
      exact .goto l k hk
  | switch x values ls l =>
      obtain ⟨ts, hts, h⟩ := bind_eq_ok_iff.1 h
      obtain ⟨t, ht, h⟩ := bind_eq_ok_iff.1 h
      obtain ⟨ks, hks, rfl⟩ := exists_of_mapM_resolve hts
      obtain ⟨k, hk, rfl⟩ := resolve_eq_ok_iff.1 ht
      cases h
      exact .switch x values ls ks l k hks hk
  | ret value => cases h; exact .ret value

theorem build_eq_ok (h : b.build = .ok body) : b.pending = [] ∧ b.stmts ≠ [] ∧
    b.stmts.mapM (Stmt.mapTargets b.resolve) = .ok body.stmts ∧ body.numbered = true := by
  rw [build] at h
  split at h
  · cases h
  · split at h
    · cases h
    · obtain ⟨stmts, hstmts, h⟩ := bind_eq_ok_iff.1 h
      obtain ⟨u, -, h⟩ := bind_eq_ok_iff.1 h
      cases h
      exact ⟨Decidable.not_not.1 ‹_›, ‹_›, hstmts, rfl⟩

theorem Tracks.build_ok_iff (h : Tracks requests b) : (∃ body, b.build = .ok body) ↔
    drafts requests ≠ [] ∧ (∀ l, ¬ Waits requests l) ∧
      ∀ s ∈ drafts requests, ∀ l ∈ s.targets, ∃ k, Binds requests l k := by
  have hpending : b.pending = [] ↔ ∀ l, ¬ Waits requests l := by
    simp only [List.eq_nil_iff_forall_not_mem, h.pending]
  have hresolve : ∀ l, (∃ t, b.resolve l = .ok t) ↔ ∃ k, Binds requests l k := by
    intro l
    simp only [resolve_eq_ok_iff, ← h.labels]
    rw [exists_comm]
    simp only [exists_and_left, exists_eq, and_true]
  simp only [← hpending, ← h.stmts, ← hresolve, ← exists_mapTargets_iff]
  constructor
  · rintro ⟨body, hb⟩
    obtain ⟨hp, hs, hstmts, -⟩ := build_eq_ok hb
    refine ⟨hs, hp, fun s hs => ?_⟩
    obtain ⟨s', -, hs'⟩ := exists_mem_of_mapM hstmts hs
    exact ⟨s', hs'⟩
  · rintro ⟨hs, hp, hall⟩
    obtain ⟨stmts, hstmts⟩ := exists_mapM_eq_ok hall
    refine ⟨{ name := b.name, params := b.params, this := b.this, vars := b.vars, stmts }, ?_⟩
    rw [build, if_neg (not_not_intro hp), if_neg hs, hstmts, h.refused]
    rfl

theorem Tracks.placed (h : Tracks requests b) (hb : b.build = .ok body) :
    List.Forall₂ (Stmt.Placed (Binds requests)) (drafts requests) body.stmts := by
  have hbinds : (fun l k => b.labels.get? l = some k) = Binds requests :=
    funext₂ fun l k => propext (h.labels l k)
  rw [← hbinds, ← h.stmts]
  exact (forall₂_of_mapM (build_eq_ok hb).2.2.1).imp fun _ _ => placed_of_mapTargets

theorem Tracks.binds_unique (h : Tracks requests b) {j k : Nat} (hj : Binds requests l j)
    (hk : Binds requests l k) : j = k :=
  Option.some.inj (((h.labels l j).2 hj).symm.trans ((h.labels l k).2 hk))

theorem Tracks.returnVars_eq (h : Tracks requests b) (hb : b.build = .ok body) :
    body.returnVars = ((drafts requests).filterMap Stmt.returned?).eraseDups := by
  have hmap := map_of_mapM (k := Stmt.returned?) (l := Stmt.returned?)
    (fun _ _ hs => (Stmt.alike_of_mapTargets hs).returned?_eq) (build_eq_ok hb).2.2.1
  have hvalues := congrArg (List.filterMap id) hmap
  rw [List.filterMap_map, List.filterMap_map, h.stmts] at hvalues
  rw [body.returnVars_eq_returned]
  exact congrArg List.eraseDups hvalues

/-- A body that has the statements asked for, with every label where it was put. -/
structure Finishes (requests : List Request) (body : Body) : Prop where
  size : body.size = (drafts requests).length
  numberOf : ∀ i, body.numberOf i = i
  placed : List.Forall₂ (Stmt.Placed (Binds requests)) (drafts requests) body.stmts
  nodup_returnVars : body.returnVars.Nodup
  mem_returnVars_iff : ∀ x, x ∈ body.returnVars ↔ .ret (some x) ∈ drafts requests
  pairwise_returnVars : body.returnVars.Pairwise (fun x y => ∃ front back,
    drafts requests = front ++ .ret (some x) :: back ∧ .ret (some y) ∉ front)
  graph : ∃ g, FlowGraph.ofBody body = .ok g ∧ g.validate = .ok ()

theorem Tracks.finishes (h : Tracks requests b) (hb : b.build = .ok body) (hbuilt : body.Built) :
    Finishes requests body where
  size := (h.placed hb).length_eq.symm
  numberOf i := by rw [Body.numberOf, (build_eq_ok hb).2.2.2, if_pos rfl]
  placed := h.placed hb
  nodup_returnVars := nodup_eraseDups _
  mem_returnVars_iff x := by
    rw [h.returnVars_eq hb, List.mem_eraseDups, List.mem_filterMap]
    simp only [Stmt.returned?_eq_some_iff, exists_eq_right]
  pairwise_returnVars := by
    rw [h.returnVars_eq hb]
    refine (pairwise_eraseDups _).imp ?_
    rintro x y ⟨front, back, heq, hy⟩
    obtain ⟨front, rest, heq, rfl, hrest⟩ := List.filterMap_eq_append_iff.1 heq
    obtain ⟨between, s, back, rfl, hnone, hs, -⟩ := List.filterMap_eq_cons_iff.1 hrest
    obtain rfl := Stmt.returned?_eq_some_iff.1 hs
    refine ⟨front ++ between, back, by rw [heq, List.append_assoc], fun hm => ?_⟩
    rcases List.mem_append.1 hm with hm | hm
    · exact hy (List.mem_filterMap.2 ⟨_, hm, rfl⟩)
    · exact nomatch hnone _ hm
  graph := by
    obtain ⟨g, hg⟩ := hbuilt.resolved.exists_graph
    exact ⟨g, hg, FlowGraph.validate_ofBody hg⟩

theorem run_filter (hu : b.Unhindered requests) :
    (b.run (requests.filter (fun r => !r.isBuild))).2 = (b.run requests).2 := by
  induction requests generalizing b with
  | nil => rfl
  | cons r rest ih =>
      obtain ⟨hr, hu⟩ := unhindered_cons_iff.1 hu
      cases hb : r.isBuild with
      | false =>
          rw [List.filter_cons_of_pos (by rw [hb]; rfl), run_cons, run_cons]
          exact ih hu
      | true =>
          obtain rfl := Request.isBuild_iff.1 hb
          have hstays := answer_build_eq hr
          rw [hstays] at hu
          rw [List.filter_cons_of_neg (by rw [hb]; decide), run_cons, hstays]
          exact ih hu

/-- What the next request to finish the body comes to, after requests of which only such ones were
refused. -/
structure Resolves (name : String) (scope : Nat) (requests : List Request) : Prop where
  refused_iff : (∃ e, (run { name, scope } requests).2.build = .error e) ↔
    drafts requests = [] ∨ (∃ l, Waits requests l) ∨
      ∃ s ∈ drafts requests, ∃ l ∈ s.targets, ∀ k, ¬ Binds requests l k
  binds_unique : ∀ l j k, Binds requests l j → Binds requests l k → j = k
  finishes : ∀ body, (run { name, scope } requests).2.build = .ok body → Finishes requests body
  retried : (run { name, scope } (requests.filter (fun r => !r.isBuild))).2.build =
    (run { name, scope } requests).2.build
  replies_in_place :
    ((Assembly.start name scope).run requests).1 = (run { name, scope } requests).1
  in_place : ((Assembly.start name scope).run requests).2.build.1 =
    (run { name, scope } requests).2.build
  retried_in_place :
    ((Assembly.start name scope).run (requests.filter (fun r => !r.isBuild))).2.build.1 =
      ((Assembly.start name scope).run requests).2.build.1

/-- Every jump goes to the statement after its label, however often finishing the body was tried. -/
theorem labels_exact (name : String) (scope : Nat) (requests : List Request)
    (hu : Unhindered { name, scope } requests) : Resolves name scope requests := by
  have htracks : Tracks requests (run { name, scope } requests).2 :=
    (tracks_start name scope).run hu
  have hretried := congrArg build (run_filter hu)
  exact
    { refused_iff := by
        rw [exists_error_iff, htracks.build_ok_iff]
        simp only [ne_eq, not_and_or, not_not, not_forall, not_exists, exists_prop]
      binds_unique := fun _ _ _ => htracks.binds_unique
      finishes := fun body hb => htracks.finishes hb ⟨name, scope, requests, hb⟩
      retried := hretried
      replies_in_place := Assembly.run_eq name scope requests
      in_place := Assembly.build_run_eq name scope requests
      retried_in_place := by
        rw [Assembly.build_run_eq, Assembly.build_run_eq, hretried] }

end Builder

namespace Retried

def x : Var := ⟨0, 0, "x", .primitive .int, 0⟩

def y : Var := ⟨0, 1, "y", .primitive .int, 1⟩

def early : List Builder.Request := [
  .newVar "x" (.primitive .int),
  .newVar "y" (.primitive .int),
  .label "start",
  .label "again",
  .append (.switch x [1, 2] ["again", "start"] "end"),
  .build]

def late : List Builder.Request := [
  .append (.ret (some y)),
  .label "back",
  .build,
  .branchOn "<" x y "start",
  .build,
  .append (.ret (some x)),
  .append (.goto "back"),
  .label "end",
  .append (.ret (some y))]

def body : Body where
  name := "main"
  vars := [x, y]
  stmts := [
    .switch x [1, 2] [.stmt 0, .stmt 0] (.stmt 5),
    .ret (some y),
    .branch (.binary (.cond .lt) x y) (.stmt 0),
    .ret (some x),
    .goto (.stmt 2),
    .ret (some y)]

theorem unhindered_requests : Builder.Unhindered { name := "main" } (early ++ late) := rfl

theorem build_requests : (Builder.run { name := "main" } (early ++ late)).2.build = .ok body := rfl

theorem patched_early : ((Assembly.start "main" 0).run early).2.body.stmts =
    [.switch x [1, 2] [.stmt 0, .stmt 0] .unset] := rfl

theorem labels_exact_retried : Builder.Unhindered { name := "main" } (early ++ late) ∧
    Builder.Resolves "main" 0 (early ++ late) ∧
    ((Assembly.start "main" 0).run early).2.body.stmts =
      [.switch x [1, 2] [.stmt 0, .stmt 0] .unset] ∧
    ((Assembly.start "main" 0).run (early ++ late)).2.build.1 = .ok body ∧
    Builder.Finishes (early ++ late) body ∧ body.returnVars = [y, x] := by
  have hresolves := Builder.labels_exact "main" 0 (early ++ late) unhindered_requests
  exact ⟨unhindered_requests, hresolves, patched_early, hresolves.in_place.trans build_requests,
    hresolves.finishes body build_requests, rfl⟩

end Retried

end Dataflow
