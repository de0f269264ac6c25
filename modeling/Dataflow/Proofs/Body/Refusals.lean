import Dataflow.Proofs.Body.Labels

namespace Dataflow

namespace Builder

variable {b : Builder} {r : Request} {requests later : List Request} {ls ms : List String} {l : String}
  {e : BuildError}

def Request.labels (r : Request) : List String := r.draft?.toList.flatMap Stmt.targets

theorem Request.labels_of_some {s : Draft} (h : r.draft? = some s) : r.labels = s.targets := by
  rw [Request.labels, h]
  exact List.append_nil _

theorem Request.labels_of_none (h : r.draft? = none) : r.labels = [] := by
  rw [Request.labels, h]
  rfl

/-- The builder of the same body with other labels to be looked up at the end. -/
def withRefused (b : Builder) (ls : List String) : Builder := { b with refused := ls }

theorem withRefused_refused (b : Builder) : b.withRefused b.refused = b := rfl

theorem label_withRefused (b : Builder) (ls : List String) (name : String) :
    (b.withRefused ls).label name = (b.label name).map (·.withRefused ls) := by
  rw [label, label]
  change (if b.labels.contains name || b.pending.contains name then _ else _) = _
  split <;> rfl

theorem eq_of_label {b' : Builder} {name : String} (h : b.label name = .ok b') :
    b' = { b with pending := b.pending ++ [name] } := by
  rw [label] at h
  split at h <;> cases h
  rfl

theorem appendOrRefuse_of_built (hb : b.built = true) (s : Draft) :
    b.appendOrRefuse s = (.error (.alreadyBuilt b.name), b.withRefused (b.refused ++ s.targets)) := by
  rw [appendOrRefuse, append, if_pos hb]
  rfl

theorem built_of_appendOrRefuse {s : Draft} (h : (b.appendOrRefuse s).1 = .error e) :
    b.built = true := by
  rw [← Bool.not_eq_false]
  intro hb
  rw [appendOrRefuse, append_of_unbuilt hb] at h
  cases h

/-- Besides the labels of a jump that came too late nothing is kept of a request that was refused. -/
theorem state_of_refused (hr : r ≠ .build) (h : (b.answer r).1 = .error e) :
    (b.answer r).2 = b.withRefused (b.refused ++ r.labels) ∧ (r.labels ≠ [] → b.built = true) := by
  have hquiet (hd : r.draft? = none) (hs : (b.answer r).2 = b) :
      (b.answer r).2 = b.withRefused (b.refused ++ r.labels) ∧ (r.labels ≠ [] → b.built = true) := by
    rw [Request.labels_of_none hd, List.append_nil]
    exact ⟨hs, fun hne => absurd rfl hne⟩
  have hlate {s : Draft} (hd : r.draft? = some s) (hs : b.answer r = b.appendOrRefuse s) :
      (b.answer r).2 = b.withRefused (b.refused ++ r.labels) ∧ (r.labels ≠ [] → b.built = true) := by
    rw [hs] at h ⊢
    have hb := built_of_appendOrRefuse h
    rw [appendOrRefuse_of_built hb, Request.labels_of_some hd]
    exact ⟨rfl, fun _ => hb⟩
  cases r with
  | newVar name type | newParam name type | newThis type => cases h
  | label name =>
      refine hquiet rfl ?_
      simp only [answer] at h ⊢
      cases hl : b.label name with
      | ok b' => rw [hl] at h; cases h
      | error e => rfl
  | append s => exact hlate rfl rfl
  | assignBinary x symbol left right =>
      cases he : Exp.ofSymbol symbol left right with
      | ok v => exact hlate (by rw [Request.draft?, he]; rfl) (by simp only [answer, he])
      | error e => exact hquiet (by rw [Request.draft?, he]; rfl) (by simp only [answer, he])
  | branchOn symbol left right name =>
      cases he : Exp.ofCondition symbol left right with
      | ok v => exact hlate (by rw [Request.draft?, he]; rfl) (by simp only [answer, he])
      | error e => exact hquiet (by rw [Request.draft?, he]; rfl) (by simp only [answer, he])
  | build => exact absurd rfl hr

structure Idle (b : Builder) (r : Request) : Prop where
  built : (b.answer r).2.built = true
  name : (b.answer r).2.name = b.name
  stmts : (b.answer r).2.stmts = b.stmts
  labels : (b.answer r).2.labels = b.labels
  refused : (b.answer r).2.refused = b.refused ++ r.labels
  pending : b.pending ≠ [] → (b.answer r).2.pending ≠ []
  reply : ∀ ls, r ≠ .build → ((b.withRefused ls).answer r).1 = (b.answer r).1
  state : ∀ ls, ((b.withRefused ls).answer r).2 = (b.answer r).2.withRefused (ls ++ r.labels)

theorem idle_of_append (hb : b.built = true) {s : Draft} (hd : r.draft? = some s)
    (hs : ∀ b : Builder, b.answer r = b.appendOrRefuse s) : Idle b r := by
  have hanswer (ls : List String) : (b.withRefused ls).answer r =
      (.error (.alreadyBuilt b.name), b.withRefused (ls ++ s.targets)) :=
    (hs _).trans (appendOrRefuse_of_built (b := b.withRefused ls) hb s)
  have hself := hanswer b.refused
  rw [withRefused_refused] at hself
  constructor
  case built => rw [hself]; exact hb
  case refused => rw [hself, Request.labels_of_some hd]; rfl
  case pending => rw [hself]; exact id
  case reply => intro ls _; rw [hself, hanswer]
  case state => intro ls; rw [hself, hanswer, Request.labels_of_some hd]; rfl
  all_goals rw [hself]; rfl

theorem idle_of_state (hb : b.built = true) (hd : r.draft? = none)
    (hstate : ∀ ls, ((b.withRefused ls).answer r).2 = b.withRefused ls)
    (hreply : ∀ ls, r ≠ .build → ((b.withRefused ls).answer r).1 = (b.answer r).1) : Idle b r := by
  have hself : (b.answer r).2 = b := hstate b.refused
  constructor
  case built => rw [hself]; exact hb
  case refused => rw [hself, Request.labels_of_none hd, List.append_nil]
  case pending => rw [hself]; exact id
  case reply => exact hreply
  case state => intro ls; rw [hstate, hself, Request.labels_of_none hd, List.append_nil]
  all_goals rw [hself]

theorem idle_label (hb : b.built = true) (name : String) : Idle b (.label name) := by
  cases hl : b.label name with
  | error e =>
      have hanswer (ls : List String) :
          (b.withRefused ls).answer (.label name) = (.error e, b.withRefused ls) := by
        rw [answer, label_withRefused, hl]
        rfl
      have hself := hanswer b.refused
      rw [withRefused_refused] at hself
      exact idle_of_state hb rfl (fun ls => by rw [hanswer]) (fun ls _ => by rw [hanswer, hself])
  | ok b' =>
      have hanswer (ls : List String) :
          (b.withRefused ls).answer (.label name) = (.ok .done, b'.withRefused ls) := by
        rw [answer, label_withRefused, hl]
        rfl
      have hself := hanswer b.refused
      obtain rfl := eq_of_label hl
      rw [withRefused_refused] at hself
      constructor
      case built => rw [hself]; exact hb
      case refused => rw [hself]; exact (List.append_nil _).symm
      case pending =>
        rw [hself]
        exact fun _ => List.append_ne_nil_of_right_ne_nil _ (List.cons_ne_nil name [])
      case reply => intro ls _; rw [hself, hanswer]
      case state => intro ls; rw [hself, hanswer, Request.labels_of_none rfl, List.append_nil]; rfl
      all_goals rw [hself]; rfl

theorem answer_build_of_built (hb : b.built = true) : (b.answer .build).2 = b := by
  simp only [answer]
  cases b.build with
  | error e => rfl
  | ok body =>
      cases b
      cases hb
      rfl

theorem idle (hb : b.built = true) (r : Request) : Idle b r := by
  cases r with
  | newVar name type | newParam name type | newThis type =>
      exact ⟨hb, rfl, rfl, rfl, (List.append_nil _).symm, id, fun _ _ => rfl,
        fun ls => by rw [Request.labels_of_none rfl, List.append_nil]; rfl⟩
  | label name => exact idle_label hb name
  | append s => exact idle_of_append hb rfl fun _ => rfl
  | assignBinary x symbol left right =>
      cases he : Exp.ofSymbol symbol left right with
      | ok v =>
          exact idle_of_append hb (by rw [Request.draft?, he]; rfl) fun b => by rw [answer, he]
      | error e =>
          refine idle_of_state hb (by rw [Request.draft?, he]; rfl) (fun ls => ?_) (fun ls _ => ?_)
          · rw [answer, he]
          · rw [answer, he, answer, he]
  | branchOn symbol left right name =>
      cases he : Exp.ofCondition symbol left right with
      | ok v =>
          exact idle_of_append hb (by rw [Request.draft?, he]; rfl) fun b => by rw [answer, he]
      | error e =>
          refine idle_of_state hb (by rw [Request.draft?, he]; rfl) (fun ls => ?_) (fun ls _ => ?_)
          · rw [answer, he]
          · rw [answer, he, answer, he]
  | build =>
      refine idle_of_state hb rfl (fun ls => ?_) (fun ls hne => absurd rfl hne)
      exact answer_build_of_built (b := b.withRefused ls) hb

def unbound? (b : Builder) (ls : List String) : Option String :=
  ls.find? (fun l => !b.labels.contains l)

theorem ask_resolve (b : Builder) (ls : List String) : Fixup.ask b.resolve ls =
    match b.unbound? ls with
    | none => .ok ()
    | some l => .error (.undefinedLabel l b.name) := by
  induction ls with
  | nil => rfl
  | cons m ls ih =>
      rw [Fixup.ask_cons, ih, unbound?, unbound?, List.find?_cons, OrderedMap.contains, resolve]
      cases b.labels.get? m <;> rfl

def lookUp (b : Builder) (ls : List String) : Except BuildError (List (Stmt Target)) := do
  let stmts ← b.stmts.mapM (Stmt.mapTargets b.resolve)
  Fixup.ask b.resolve ls
  return stmts

theorem lookUp_of_resolved {stmts : List (Stmt Target)}
    (h : b.stmts.mapM (Stmt.mapTargets b.resolve) = .ok stmts) (ls : List String) : b.lookUp ls =
      match b.unbound? ls with
      | none => .ok stmts
      | some l => .error (.undefinedLabel l b.name) := by
  rw [lookUp, h, ask_resolve]
  cases b.unbound? ls <;> rfl

theorem lookUp_append (b : Builder) (ls ms : List String) : b.lookUp (ls ++ ms) =
    match b.lookUp ls with
    | .ok stmts => (Fixup.ask b.resolve ms).map (fun _ => stmts)
    | .error e => .error e := by
  simp only [lookUp]
  cases b.stmts.mapM (Stmt.mapTargets b.resolve) with
  | error e => rfl
  | ok stmts =>
      change (Fixup.ask b.resolve (ls ++ ms) >>= fun _ => pure stmts) =
        match (Fixup.ask b.resolve ls >>= fun _ => pure stmts) with | .ok _ => _ | .error e => _
      rw [Fixup.ask_append]
      cases Fixup.ask b.resolve ls with
      | error e => rfl
      | ok u => cases Fixup.ask b.resolve ms <;> rfl

theorem Idle.resolve_eq (h : Idle b r) : (b.answer r).2.resolve = b.resolve := by
  funext l
  rw [resolve, resolve, h.labels, h.name]

theorem Idle.lookUp_eq (h : Idle b r) (ls : List String) : (b.answer r).2.lookUp ls = b.lookUp ls := by
  rw [lookUp, lookUp, h.stmts, h.resolve_eq]

theorem build_withRefused (b : Builder) (ls : List String) : (b.withRefused ls).build =
    if b.pending ≠ [] then .error (.danglingLabels b.pending b.name)
    else if b.stmts = [] then .error (.emptyBody b.name)
    else (b.lookUp ls).map (fun stmts =>
      { name := b.name, params := b.params, this := b.this, vars := b.vars, stmts }) := by
  rw [build, lookUp]
  change (if b.pending ≠ [] then _ else if b.stmts = [] then _ else
    b.stmts.mapM (Stmt.mapTargets b.resolve) >>= fun _ => Fixup.ask b.resolve ls >>= fun _ => _) = _
  split
  · rfl
  · split
    · rfl
    · cases b.stmts.mapM (Stmt.mapTargets b.resolve) with
      | error e => rfl
      | ok stmts => cases Fixup.ask b.resolve ls <;> rfl

theorem build_eq_lookUp (b : Builder) : b.build =
    if b.pending ≠ [] then .error (.danglingLabels b.pending b.name)
    else if b.stmts = [] then .error (.emptyBody b.name)
    else (b.lookUp b.refused).map (fun stmts =>
      { name := b.name, params := b.params, this := b.this, vars := b.vars, stmts }) :=
  b.build_withRefused b.refused

/-- Looking up other labels changes nothing about what finishing the body comes to. -/
def Indifferent (b : Builder) (ls : List String) : Prop :=
  b.pending ≠ [] ∨ b.stmts = [] ∨ b.lookUp ls = b.lookUp b.refused

theorem Indifferent.build_eq (h : b.Indifferent ls) : (b.withRefused ls).build = b.build := by
  rw [build_eq_lookUp b, build_withRefused]
  rcases h with hp | hs | hl
  · rw [if_pos hp, if_pos hp]
  · rw [if_pos hs, if_pos hs]
  · rw [hl]

theorem Indifferent.answer (h : b.Indifferent ls) (hi : Idle b r) :
    (b.answer r).2.Indifferent (ls ++ r.labels) := by
  rcases h with hp | hs | hl
  · exact .inl (hi.pending hp)
  · exact .inr (.inl (hi.stmts.trans hs))
  · refine .inr (.inr ?_)
    rw [hi.refused, hi.lookUp_eq, hi.lookUp_eq, lookUp_append, lookUp_append, hl]

theorem Indifferent.run (hb : b.built = true) (h : b.Indifferent ls) (later : List Request) :
    ((b.withRefused ls).run later).1 = (b.run later).1 := by
  induction later generalizing b ls with
  | nil => rfl
  | cons r later ih =>
      have hi := idle hb r
      have hreply : ((b.withRefused ls).answer r).1 = (b.answer r).1 := by
        by_cases hr : r = .build
        · subst hr
          simp only [Builder.answer, h.build_eq]
          cases b.build <;> rfl
        · exact hi.reply ls hr
      have hrest := ih hi.built (h.answer hi)
      rw [← hi.state] at hrest
      exact congrArg₂ List.cons hreply hrest

def overdue (e : BuildError) : Request → Except BuildError Reply → Except BuildError Reply
  | .build, .error (.danglingLabels waiting name) => .error (.danglingLabels waiting name)
  | .build, _ => .error e
  | _, reply => reply

theorem overdue_of_ne (hr : r ≠ .build) (reply : Except BuildError Reply) :
    overdue e r reply = reply := by
  cases r with
  | build => exact absurd rfl hr
  | _ => rfl

/-- The jumps of the body have their labels, but one that is looked up besides stands for nothing. -/
structure Owes (b : Builder) (ls : List String) (l : String) : Prop where
  stmts : b.stmts ≠ []
  resolved : ∃ stmts, b.stmts.mapM (Stmt.mapTargets b.resolve) = .ok stmts
  unbound : b.unbound? ls = some l

theorem Owes.answer (h : b.Owes ls l) (hi : Idle b r) : (b.answer r).2.Owes (ls ++ r.labels) l where
  stmts := by rw [hi.stmts]; exact h.stmts
  resolved := by rw [hi.stmts, hi.resolve_eq]; exact h.resolved
  unbound := by
    have hl := h.unbound
    rw [unbound?] at hl
    rw [unbound?, hi.labels, List.find?_append, hl]
    rfl

theorem Owes.answer_build (h : b.Owes ls l) : ((b.withRefused ls).answer .build).1 =
    overdue (.undefinedLabel l b.name) .build (b.answer .build).1 := by
  obtain ⟨stmts, hstmts⟩ := h.resolved
  simp only [Builder.answer, build_withRefused, build_eq_lookUp b, if_neg h.stmts,
    lookUp_of_resolved hstmts, h.unbound]
  by_cases hp : b.pending ≠ []
  · rw [if_pos hp, if_pos hp]
    rfl
  · rw [if_neg hp, if_neg hp]
    cases b.unbound? b.refused <;> rfl

theorem Owes.run (hb : b.built = true) (h : b.Owes ls l) (later : List Request) :
    ((b.withRefused ls).run later).1 =
      List.zipWith (overdue (.undefinedLabel l b.name)) later (b.run later).1 := by
  induction later generalizing b ls with
  | nil => rfl
  | cons r later ih =>
      have hi := idle hb r
      have hreply : ((b.withRefused ls).answer r).1 =
          overdue (.undefinedLabel l b.name) r (b.answer r).1 := by
        by_cases hr : r = .build
        · subst hr
          exact h.answer_build
        · rw [hi.reply ls hr, overdue_of_ne hr]
      have hrest := ih hi.built (h.answer hi)
      rw [← hi.state, hi.name] at hrest
      exact congrArg₂ List.cons hreply hrest

/-- The label by which a jump that came too late is remembered: the first that stands for nothing, if
the body could be finished once more but for it. -/
def leftover? (b : Builder) (r : Request) : Option String :=
  match b.build with
  | .ok _ => b.unbound? r.labels
  | .error _ => none

theorem leftover?_eq_some_iff : b.leftover? r = some l ↔
    (∃ body, b.build = .ok body) ∧ b.unbound? r.labels = some l := by
  rw [leftover?]
  cases b.build with
  | ok body => exact ⟨fun h => ⟨⟨body, rfl⟩, h⟩, fun h => h.2⟩
  | error e => exact ⟨fun h => (nomatch h), fun ⟨⟨_, h⟩, _⟩ => (nomatch h)⟩

theorem unbound?_eq_some (h : b.unbound? ls = some l) : l ∈ ls ∧ b.labels.get? l = none := by
  refine ⟨List.mem_of_find?_eq_some h, ?_⟩
  have hl := List.find?_some h
  rwa [OrderedMap.contains, Bool.not_eq_true', Option.isSome_eq_false_iff,
    Option.isNone_iff_eq_none] at hl

theorem exists_draft_of_mem_labels (h : l ∈ r.labels) : ∃ s, r.draft? = some s ∧ l ∈ s.targets := by
  cases hd : r.draft? with
  | none => rw [Request.labels_of_none hd] at h; cases h
  | some s => exact ⟨s, rfl, Request.labels_of_some hd ▸ h⟩

theorem indifferent_of_leftover? (hl : b.leftover? r = none) :
    b.Indifferent (b.refused ++ r.labels) := by
  rw [leftover?, build_eq_lookUp] at hl
  by_cases hp : b.pending ≠ []
  · exact .inl hp
  by_cases hs : b.stmts = []
  · exact .inr (.inl hs)
  refine .inr (.inr ?_)
  rw [if_neg hp, if_neg hs] at hl
  rw [lookUp_append]
  cases hlook : b.lookUp b.refused with
  | error e => rfl
  | ok stmts =>
      rw [hlook] at hl
      have hnone : b.unbound? r.labels = none := hl
      rw [ask_resolve, hnone]
      rfl

theorem owes_of_leftover? (hl : b.leftover? r = some l) : b.Owes (b.refused ++ r.labels) l := by
  obtain ⟨⟨body, hbody⟩, hl⟩ := leftover?_eq_some_iff.1 hl
  obtain ⟨hp, hs, hstmts, -⟩ := build_eq_ok hbody
  rw [build_eq_lookUp, if_neg (not_not_intro hp), if_neg hs, lookUp_of_resolved hstmts] at hbody
  refine ⟨hs, ⟨_, hstmts⟩, ?_⟩
  cases hnone : b.unbound? b.refused with
  | some m => rw [hnone] at hbody; cases hbody
  | none =>
      rw [unbound?] at hl hnone
      rw [unbound?, List.find?_append, hnone, hl]
      rfl

theorem run_refused (hr : r ≠ .build) (he : (b.answer r).1 = .error e) (later : List Request) :
    ((b.answer r).2.run later).1 =
      match b.leftover? r with
      | none => (b.run later).1
      | some l => List.zipWith (overdue (.undefinedLabel l b.name)) later (b.run later).1 := by
  obtain ⟨hstate, hbuilt⟩ := state_of_refused hr he
  rw [hstate]
  by_cases hlabels : r.labels = []
  · have hnone : b.leftover? r = none := by
      rw [leftover?, hlabels]
      cases b.build <;> rfl
    rw [hnone, hlabels, List.append_nil, withRefused_refused]
  · cases hl : b.leftover? r with
    | none => exact (indifferent_of_leftover? hl).run (hbuilt hlabels) later
    | some l => exact (owes_of_leftover? hl).run (hbuilt hlabels) later

theorem appendOrRefuse_keeps (b : Builder) (s : Draft) :
    (b.appendOrRefuse s).2.built = b.built ∧ (b.appendOrRefuse s).2.name = b.name := by
  cases hb : b.built with
  | false => rw [appendOrRefuse, append_of_unbuilt hb]; exact ⟨hb, rfl⟩
  | true => rw [appendOrRefuse_of_built hb]; exact ⟨hb, rfl⟩

theorem answer_keeps (hr : r ≠ .build) :
    (b.answer r).2.built = b.built ∧ (b.answer r).2.name = b.name := by
  cases r with
  | newVar name type | newParam name type | newThis type => exact ⟨rfl, rfl⟩
  | label name =>
      simp only [answer]
      cases hl : b.label name with
      | error e => exact ⟨rfl, rfl⟩
      | ok b' => rw [eq_of_label hl]; exact ⟨rfl, rfl⟩
  | append s => exact b.appendOrRefuse_keeps s
  | assignBinary x symbol left right =>
      simp only [answer]
      cases Exp.ofSymbol symbol left right with
      | error e => exact ⟨rfl, rfl⟩
      | ok v => exact b.appendOrRefuse_keeps _
  | branchOn symbol left right name =>
      simp only [answer]
      cases Exp.ofCondition symbol left right with
      | error e => exact ⟨rfl, rfl⟩
      | ok v => exact b.appendOrRefuse_keeps _
  | build => exact absurd rfl hr

theorem name_answer (b : Builder) (r : Request) : (b.answer r).2.name = b.name := by
  by_cases hr : r = .build
  · subst hr
    simp only [answer]
    cases b.build <;> rfl
  · exact (answer_keeps hr).2

theorem name_run (b : Builder) (requests : List Request) : (b.run requests).2.name = b.name := by
  induction requests generalizing b with
  | nil => rfl
  | cons r requests ih => exact (ih _).trans (b.name_answer r)

theorem exists_body_of_built (hb : b.built = false) (h : (b.run requests).2.built = true) :
    ∃ body, .ok (.body body) ∈ (b.run requests).1 := by
  induction requests generalizing b with
  | nil => exact absurd (hb.symm.trans h) Bool.noConfusion
  | cons r requests ih =>
      cases hnext : (b.answer r).2.built with
      | false =>
          obtain ⟨body, hbody⟩ := ih hnext h
          exact ⟨body, List.mem_cons_of_mem _ hbody⟩
      | true =>
          have hr : r = .build := by
            by_contra hr
            rw [(answer_keeps hr).1, hb] at hnext
            cases hnext
          subst hr
          cases hbuild : b.build with
          | ok body =>
              refine ⟨body, List.mem_cons.2 (.inl ?_)⟩
              simp only [hbuild]
          | error e =>
              simp only [answer, hbuild, hb] at hnext
              cases hnext

theorem run_concat (b : Builder) (requests : List Request) (r : Request) :
    (b.run (requests ++ [r])).2 = ((b.run requests).2.answer r).2 := by
  induction requests generalizing b with
  | nil => rfl
  | cons s requests ih => exact ih _

def repliesAfter (name : String) (scope : Nat) (requests later : List Request) :
    List (Except BuildError Reply) :=
  ((run { name, scope } requests).2.run later).1

/-- What comes of a request that was refused. -/
structure Refusal (name : String) (scope : Nat) (requests : List Request) (r : Request) : Prop where
  traceless_iff : (∀ later, repliesAfter name scope (requests ++ [r]) later =
    repliesAfter name scope requests later) ↔ (run { name, scope } requests).2.leftover? r = none
  overdue : ∀ l, (run { name, scope } requests).2.leftover? r = some l → ∀ later,
    repliesAfter name scope (requests ++ [r]) later =
      List.zipWith (overdue (.undefinedLabel l name)) later (repliesAfter name scope requests later)
  late : ∀ l, (run { name, scope } requests).2.leftover? r = some l →
    (∃ body, .ok (.body body) ∈ (run { name, scope } requests).1) ∧
      ∃ s, r.draft? = some s ∧ l ∈ s.targets ∧ (run { name, scope } requests).2.labels.get? l = none
  in_place : ∀ later, (((Assembly.start name scope).run requests).2.run later).1 =
      repliesAfter name scope requests later ∧
    (((Assembly.start name scope).run (requests ++ [r])).2.run later).1 =
      repliesAfter name scope (requests ++ [r]) later

/-- A refused request leaves no trace, but for a jump that comes too late. -/
theorem refusal_exact (name : String) (scope : Nat) (requests : List Request) (r : Request)
    (e : BuildError) (hr : r ≠ .build) (he : ((run { name, scope } requests).2.answer r).1 = .error e) :
    Refusal name scope requests r := by
  have hrun (later : List Request) := run_refused hr he later
  rw [← run_concat, name_run] at hrun
  have hoverdue (l : String) (hl : (run { name, scope } requests).2.leftover? r = some l)
      (later : List Request) : repliesAfter name scope (requests ++ [r]) later =
        List.zipWith (Builder.overdue (.undefinedLabel l name)) later
          (repliesAfter name scope requests later) := by
    have hlater := hrun later
    rwa [hl] at hlater
  constructor
  case overdue => exact hoverdue
  case in_place =>
    have hplace (requests later : List Request) :
        (((Assembly.start name scope).run requests).2.run later).1 =
          repliesAfter name scope requests later :=
      (((Assembly.matches_start name scope).run requests).2.run later).1
    exact fun later => ⟨hplace requests later, hplace (requests ++ [r]) later⟩
  case traceless_iff =>
    constructor
    · intro htraceless
      cases hl : (run { name, scope } requests).2.leftover? r with
      | none => rfl
      | some l =>
          obtain ⟨⟨body, hbody⟩, -⟩ := leftover?_eq_some_iff.1 hl
          have hbuild : repliesAfter name scope requests [.build] = [.ok (.body body)] := by
            simp only [repliesAfter, run, answer, hbody]
          have hboth := (hoverdue l hl [.build]).symm.trans (htraceless [.build])
          rw [hbuild] at hboth
          cases hboth
    · intro hnone later
      have hlater := hrun later
      rwa [hnone] at hlater
  case late =>
    intro l hl
    obtain ⟨hmem, hunbound⟩ := unbound?_eq_some (leftover?_eq_some_iff.1 hl).2
    obtain ⟨s, hs, hls⟩ := exists_draft_of_mem_labels hmem
    have hbuilt := (state_of_refused hr he).2 (List.ne_nil_of_mem hmem)
    exact ⟨exists_body_of_built rfl hbuilt, s, hs, hls, hunbound⟩

end Builder

namespace Belated

def requests : List Builder.Request := [.append (.ret none), .build]

def jump : Builder.Request := .append (.goto "nowhere")

def body : Body where
  name := "main"
  stmts := [.ret none]

theorem refused_jump : ((Builder.run { name := "main" } requests).2.answer jump).1 =
    .error (.alreadyBuilt "main") := rfl

theorem leftover?_jump : (Builder.run { name := "main" } requests).2.leftover? jump =
    some "nowhere" := rfl

theorem refusal_exact_belated :
    ((Builder.run { name := "main" } requests).2.answer jump).1 = .error (.alreadyBuilt "main") ∧
      Builder.Refusal "main" 0 requests jump ∧
      (∀ later, Builder.repliesAfter "main" 0 (requests ++ [jump]) later =
        List.zipWith (Builder.overdue (.undefinedLabel "nowhere" "main")) later
          (Builder.repliesAfter "main" 0 requests later)) ∧
      ∀ later, Builder.repliesAfter "main" 0 (requests ++ [.append (.nop "nop")]) later =
        Builder.repliesAfter "main" 0 requests later := by
  have hjump := Builder.refusal_exact "main" 0 requests jump _ (by simp [jump]) refused_jump
  have hnop := Builder.refusal_exact "main" 0 requests (.append (.nop "nop"))
    (.alreadyBuilt "main") (by simp) rfl
  exact ⟨refused_jump, hjump, hjump.overdue "nowhere" leftover?_jump, hnop.traceless_iff.2 rfl⟩

/-- The jump is not in the body, and yet its label is missed from then on. -/
theorem jump_remembered :
    ((Builder.run { name := "main" } requests).2.answer jump).1 = .error (.alreadyBuilt "main") ∧
      Builder.repliesAfter "main" 0 requests [.build] = [.ok (.body body)] ∧
      Builder.repliesAfter "main" 0 (requests ++ [jump]) [.build] =
        [.error (.undefinedLabel "nowhere" "main")] ∧
      (((Assembly.start "main" 0).run (requests ++ [jump])).2.run [.build]).1 =
        [.error (.undefinedLabel "nowhere" "main")] ∧
      ¬ ∀ name scope requests r e later, r ≠ .build →
        ((Builder.run { name, scope } requests).2.answer r).1 = .error e →
        Builder.repliesAfter name scope (requests ++ [r]) later =
          Builder.repliesAfter name scope requests later := by
  refine ⟨refused_jump, rfl, rfl, rfl, fun htraceless => ?_⟩
  have hboth := htraceless "main" 0 requests jump _ [.build] (by simp [jump]) refused_jump
  cases hboth

end Belated

end Dataflow
