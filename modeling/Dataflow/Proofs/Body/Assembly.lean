import Dataflow.Body.Assembly
import Dataflow.Traversal
import Mathlib.Data.List.Forall2

namespace Dataflow

inductive Stmt.Alike {τ σ : Type} : Stmt τ → Stmt σ → Prop
  | nop (tag) : Alike (.nop tag) (.nop tag)
  | assign (x) (e) : Alike (.assign x e) (.assign x e)
  | invoke (result) (c) : Alike (.invoke result c) (.invoke result c)
  | branch (e) (t) (u) : Alike (.branch e t) (.branch e u)
  | goto (t) (u) : Alike (.goto t) (.goto u)
  | switch (x) (values) (ts) (us) (t) (u) : Alike (.switch x values ts t) (.switch x values us u)
  | ret (value) : Alike (.ret value) (.ret value)

theorem Stmt.alike_retarget {τ σ : Type} (f : τ → σ) (s : Stmt τ) : Alike (s.retarget f) s := by
  cases s with
  | nop tag => exact .nop tag
  | assign x e => exact .assign x e
  | invoke result c => exact .invoke result c
  | branch e t => exact .branch e (f t) t
  | goto t => exact .goto (f t) t
  | switch x values ts d => exact .switch x values (ts.map f) ts (f d) d
  | ret value => exact .ret value

theorem Stmt.alike_of_mapTargets {τ σ ε : Type} {f : τ → Except ε σ} {s : Stmt τ} {s' : Stmt σ}
    (h : s.mapTargets f = .ok s') : Alike s' s := by
  cases s with
  | nop tag => cases h; exact .nop tag
  | assign x e => cases h; exact .assign x e
  | invoke result c => cases h; exact .invoke result c
  | branch e t =>
      obtain ⟨u, -, h⟩ := bind_eq_ok_iff.1 h
      cases h
      exact .branch e u t
  | goto t =>
      obtain ⟨u, -, h⟩ := bind_eq_ok_iff.1 h
      cases h
      exact .goto u t
  | switch x values ts d =>
      obtain ⟨us, -, h⟩ := bind_eq_ok_iff.1 h
      obtain ⟨u, -, h⟩ := bind_eq_ok_iff.1 h
      cases h
      exact .switch x values us ts u d
  | ret value => cases h; exact .ret value

namespace Fixup

variable {f : String → Except BuildError Target} {s : Stmt Target} {d : Draft}
  {ss : List (Stmt Target)} {ds : List Draft}

def noted : Nat → List Draft → List Fixup
  | _, [] => []
  | n, d :: ds => (d.jumpLabels?.map (Fixup.mk n)).toList ++ noted (n + 1) ds

theorem noted_append (n : Nat) (ds es : List Draft) :
    noted n (ds ++ es) = noted n ds ++ noted (n + ds.length) es := by
  induction ds generalizing n with
  | nil => rfl
  | cons d ds ih =>
      rw [List.cons_append, noted, noted, ih, List.append_assoc, List.length_cons,
        Nat.add_right_comm, Nat.add_assoc]

theorem modify_behind (done rest : List (Stmt Target)) (s : Stmt Target)
    (g : Stmt Target → Stmt Target) :
    (done ++ s :: rest).modify done.length g = done ++ g s :: rest :=
  List.modifyTailIdx_add _ 0 done (s :: rest)

inductive Patched {β : Type} (wanted : Except BuildError β) (Like : β → Prop) :
    Except BuildError Unit → β → Prop
  | done (y) (h : wanted = .ok y) (hy : Like y) : Patched wanted Like (.ok ()) y
  | failed (e) (y) (h : wanted = .error e) (hy : Like y) : Patched wanted Like (.error e) y

theorem patch_eq (hs : s.Alike d) {l : JumpLabels} (hl : d.jumpLabels? = some l)
    (done rest : List (Stmt Target)) : ∃ a s', Patched (d.mapTargets f) (Stmt.Alike · d) a s' ∧
      patch f (done ++ s :: rest) ⟨done.length, l⟩ = (a, done ++ s' :: rest) := by
  cases hs with
  | nop | assign | invoke | ret => cases hl
  | branch e t m =>
      cases hl
      cases hm : f m with
      | ok u =>
          refine ⟨.ok (), .branch e u, .done _ ?_ (.branch e u m), ?_⟩
          · rw [Stmt.mapTargets, hm]; rfl
          · simp only [patch, hm, modify_behind, Stmt.setTarget]
      | error c =>
          refine ⟨.error c, .branch e t, .failed c _ ?_ (.branch e t m), ?_⟩
          · rw [Stmt.mapTargets, hm]; rfl
          · simp only [patch, hm]
  | goto t m =>
      cases hl
      cases hm : f m with
      | ok u =>
          refine ⟨.ok (), .goto u, .done _ ?_ (.goto u m), ?_⟩
          · rw [Stmt.mapTargets, hm]; rfl
          · simp only [patch, hm, modify_behind, Stmt.setTarget]
      | error c =>
          refine ⟨.error c, .goto t, .failed c _ ?_ (.goto t m), ?_⟩
          · rw [Stmt.mapTargets, hm]; rfl
          · simp only [patch, hm]
  | switch x values ts ms t m =>
      cases hl
      cases hms : ms.mapM f with
      | error c =>
          refine ⟨.error c, .switch x values ts t, .failed c _ ?_ (.switch x values ts ms t m), ?_⟩
          · rw [Stmt.mapTargets, hms]; rfl
          · simp only [patch, hms]
      | ok us =>
          cases hm : f m with
          | ok u =>
              refine ⟨.ok (), .switch x values us u, .done _ ?_ (.switch x values us ms u m), ?_⟩
              · rw [Stmt.mapTargets, hms, hm]; rfl
              · simp only [patch, hms, hm, modify_behind, Stmt.setCases, Stmt.setDefault]
          | error c =>
              refine ⟨.error c, .switch x values us t, .failed c _ ?_ (.switch x values us ms t m), ?_⟩
              · rw [Stmt.mapTargets, hms, hm]; rfl
              · simp only [patch, hms, hm, modify_behind, Stmt.setCases]

theorem mapTargets_eq (hs : s.Alike d) (hl : d.jumpLabels? = none) : d.mapTargets f = .ok s := by
  cases hs with
  | nop | assign | invoke | ret => rfl
  | branch | goto | switch => cases hl

theorem patchAll_append (stmts : List (Stmt Target)) (l l' : List Fixup) :
    patchAll f stmts (l ++ l') =
      match patchAll f stmts l with
      | (.ok _, stmts) => patchAll f stmts l'
      | (.error e, stmts) => (.error e, stmts) := by
  induction l generalizing stmts with
  | nil => rfl
  | cons x l ih =>
      rw [List.cons_append, patchAll, patchAll]
      rcases x.patch f stmts with ⟨_ | _, stmts⟩
      · rfl
      · exact ih stmts

theorem patchAll_head (hs : s.Alike d) (done rest : List (Stmt Target)) :
    ∃ a s', Patched (d.mapTargets f) (Stmt.Alike · d) a s' ∧
      patchAll f (done ++ s :: rest) (d.jumpLabels?.map (Fixup.mk done.length)).toList =
        (a, done ++ s' :: rest) := by
  cases hl : d.jumpLabels? with
  | none => exact ⟨.ok (), s, .done s (mapTargets_eq hs hl) hs, rfl⟩
  | some l =>
      obtain ⟨a, s', hp, heq⟩ := patch_eq (f := f) hs hl done rest
      refine ⟨a, s', hp, ?_⟩
      rw [Option.map_some, Option.toList_some, patchAll, heq]
      cases a <;> rfl

/-- Whatever targets the jumps had, patching them all finishes the drafts. -/
theorem patchAll_noted (hs : List.Forall₂ Stmt.Alike ss ds) (done : List (Stmt Target)) :
    ∃ a ss', Patched (ds.mapM (Stmt.mapTargets f)) (List.Forall₂ Stmt.Alike · ds) a ss' ∧
      patchAll f (done ++ ss) (noted done.length ds) = (a, done ++ ss') := by
  induction hs generalizing done with
  | nil => exact ⟨.ok (), [], .done [] rfl .nil, rfl⟩
  | @cons s d ss ds hsd hrest ih =>
      obtain ⟨a, s', hp, heq⟩ := patchAll_head (f := f) hsd done ss
      rw [noted, patchAll_append, heq]
      cases hp with
      | failed e _ h hy =>
          refine ⟨.error e, s' :: ss, .failed e _ ?_ (.cons hy hrest), rfl⟩
          rw [List.mapM_cons, h]
          rfl
      | done _ h hy =>
          obtain ⟨a, ss', hps, heqs⟩ := ih (done ++ [s'])
          rw [List.length_append, List.length_singleton, List.append_assoc, List.append_assoc] at heqs
          refine ⟨a, s' :: ss', ?_, heqs⟩
          cases hps with
          | done _ hs hys =>
              refine .done _ ?_ (.cons hy hys)
              rw [List.mapM_cons, h, hs]
              rfl
          | failed e _ hs hys =>
              refine .failed e _ ?_ (.cons hy hys)
              rw [List.mapM_cons, h, hs]
              rfl

def ask (f : String → Except BuildError Target) (ms : List String) : Except BuildError Unit :=
  ms.forM (fun m => do let _ ← f m)

theorem ask_cons (m : String) (ms : List String) :
    ask f (m :: ms) = match f m with | .ok _ => ask f ms | .error e => .error e := by
  change ((f m >>= fun _ => pure ()) >>= fun _ => ask f ms) = _
  cases f m <;> rfl

theorem ask_append (ms ns : List String) :
    ask f (ms ++ ns) = match ask f ms with | .ok _ => ask f ns | .error e => .error e := by
  induction ms with
  | nil => rfl
  | cons m ms ih =>
      rw [List.cons_append, ask_cons, ask_cons, ih]
      cases f m <;> rfl

theorem ask_eq (ms : List String) :
    ask f ms = match ms.mapM f with | .ok _ => .ok () | .error e => .error e := by
  induction ms with
  | nil => rfl
  | cons m ms ih =>
      rw [ask_cons, ih, List.mapM_cons]
      cases f m with
      | error e => rfl
      | ok t => cases ms.mapM f <;> rfl

theorem patch_of_le {x : Fixup} (hx : ss.length ≤ x.position) :
    x.patch f ss = (ask f x.labels.toList, ss) := by
  obtain ⟨i, l⟩ := x
  cases l with
  | one m =>
      rw [JumpLabels.toList, ask_cons]
      cases hm : f m with
      | ok t => simp only [patch, hm, List.modify_eq_self hx]; rfl
      | error e => simp only [patch, hm]
  | cases ms m =>
      rw [JumpLabels.toList, ask_append, ask_eq, ask_cons]
      cases hms : ms.mapM f with
      | error e => simp only [patch, hms]
      | ok ts =>
          cases hm : f m with
          | ok t => simp only [patch, hms, hm, List.modify_eq_self hx]; rfl
          | error e => simp only [patch, hms, hm, List.modify_eq_self hx]

theorem patchAll_of_le {lost : List Fixup} (hl : ∀ x ∈ lost, ss.length ≤ x.position) :
    patchAll f ss lost = (ask f (lost.flatMap (fun x => x.labels.toList)), ss) := by
  induction lost with
  | nil => rfl
  | cons x lost ih =>
      rw [patchAll, patch_of_le (hl x List.mem_cons_self), List.flatMap_cons, ask_append]
      cases ask f x.labels.toList with
      | error e => rfl
      | ok u => exact ih fun y hy => hl y (List.mem_cons_of_mem x hy)

end Fixup

theorem Builder.append_of_unbuilt {b : Builder} (hb : b.built = false) (s : Draft) :
    b.append s = .ok
      { b with
        labels := b.pending.foldl (fun m l => m.insert l b.stmts.length) b.labels
        pending := []
        stmts := b.stmts ++ [s] } := by
  rw [append, hb, if_neg Bool.false_ne_true]

namespace Assembly

variable {a : Assembly} {b : Builder} {ss : List (Stmt Target)} {lost : List Fixup}

/-- The body of a plan as it is put together in place. -/
def inPlace (b : Builder) (ss : List (Stmt Target)) (lost : List Fixup) : Assembly where
  body := { b with stmts := ss, numbered := b.built }
  scope := b.scope
  labels := b.labels
  pending := b.pending
  fixups := Fixup.noted 0 b.stmts ++ lost
  built := b.built

structure Suits (b : Builder) (ss : List (Stmt Target)) (lost : List Fixup) : Prop where
  alike : List.Forall₂ Stmt.Alike ss b.stmts
  behind : ∀ x ∈ lost, b.stmts.length ≤ x.position
  refused : lost.flatMap (fun x => x.labels.toList) = b.refused
  unbuilt : b.built = false → lost = []

def Matches (a : Assembly) (b : Builder) : Prop := ∃ ss lost, a = inPlace b ss lost ∧ Suits b ss lost

theorem matches_start (name : String) (scope : Nat) : (start name scope).Matches { name, scope } :=
  ⟨[], [], rfl, .nil, fun _ hx => (nomatch hx), rfl, fun _ => rfl⟩

theorem flatMap_jumpLabels? (s : Draft) (i : Nat) :
    (s.jumpLabels?.map (Fixup.mk i)).toList.flatMap (fun x => x.labels.toList) = s.targets := by
  cases s with
  | nop | assign | invoke | ret | branch | goto => rfl
  | switch x values ls d =>
      simp [Draft.jumpLabels?, JumpLabels.toList, Stmt.targets, Stmt.targets?]

theorem Suits.append (h : Suits b ss lost) (s : Draft) :
    ((inPlace b ss lost).append s).1 = (b.appendOrRefuse s).1 ∧
      ((inPlace b ss lost).append s).2.Matches (b.appendOrRefuse s).2 := by
  have hsize : (inPlace b ss lost).body.size = b.stmts.length := h.alike.length_eq
  cases hb : b.built with
  | true =>
      have hrefuse : b.append s = .error (.alreadyBuilt b.name) := by rw [Builder.append, if_pos hb]
      have hplace : (inPlace b ss lost).append s = (.error (.alreadyBuilt b.name),
          inPlace { b with refused := b.refused ++ s.targets } ss
            (lost ++ (s.jumpLabels?.map (Fixup.mk b.stmts.length)).toList)) := by
        simp only [Assembly.append, note, hsize]
        simp only [inPlace, hb, if_true, List.append_assoc]
      rw [hplace, Builder.appendOrRefuse, hrefuse]
      refine ⟨rfl, ss, _, rfl, h.alike, ?_, ?_, ?_⟩
      · intro x hx
        rcases List.mem_append.1 hx with hx | hx
        · exact h.behind x hx
        · obtain ⟨l, -, rfl⟩ := Option.map_eq_some_iff.1 (Option.mem_toList.1 hx)
          exact Nat.le_refl _
      · rw [List.flatMap_append, h.refused, flatMap_jumpLabels?]
      · exact fun hfalse => absurd (hb.symm.trans hfalse) Bool.noConfusion
  | false =>
      obtain rfl := h.unbuilt hb
      have htake := Builder.append_of_unbuilt hb s
      have hplace : (inPlace b ss []).append s = (.ok (.stmt s), inPlace
          { b with
            labels := b.pending.foldl (fun m l => m.insert l b.stmts.length) b.labels
            pending := []
            stmts := b.stmts ++ [s] } (ss ++ [s.retarget (fun _ => .unset)]) []) := by
        simp only [Assembly.append, note, hsize]
        simp [inPlace, hb, Fixup.noted_append, Fixup.noted]
      rw [hplace, Builder.appendOrRefuse, htake]
      refine ⟨rfl, _, [], rfl, ?_, fun _ hx => (nomatch hx), h.refused, fun _ => rfl⟩
      exact List.rel_append h.alike (.cons (s.alike_retarget _) .nil)

theorem build_of_failed {e : BuildError} {ss' : List (Stmt Target)} (hp : ¬ a.pending ≠ [])
    (hs : a.body.stmts ≠ []) (h : Fixup.patchAll a.resolve a.body.stmts a.fixups = (.error e, ss')) :
    a.build = (.error e, { a with body := { a.body with stmts := ss' } }) := by
  rw [Assembly.build, if_neg hp, if_neg hs, h]

theorem build_of_patched {u : Unit} {ss' : List (Stmt Target)} (hp : ¬ a.pending ≠ [])
    (hs : a.body.stmts ≠ []) (h : Fixup.patchAll a.resolve a.body.stmts a.fixups = (.ok u, ss')) :
    a.build = (.ok { a.body with stmts := ss', numbered := true },
      { a with body := { a.body with stmts := ss', numbered := true }, built := true }) := by
  rw [Assembly.build, if_neg hp, if_neg hs, h]

theorem Suits.build (h : Suits b ss lost) : (inPlace b ss lost).build.1 = b.build ∧
    (inPlace b ss lost).build.2.Matches { b with built := b.build.isOk || b.built } := by
  have hempty : ss = [] ↔ b.stmts = [] := by
    rw [← List.length_eq_zero_iff, h.alike.length_eq, List.length_eq_zero_iff]
  by_cases hpending : b.pending ≠ []
  · have hplace : (inPlace b ss lost).build =
        (.error (.danglingLabels b.pending b.name), inPlace b ss lost) := if_pos hpending
    rw [hplace, Builder.build, if_pos hpending]
    exact ⟨rfl, ss, lost, rfl, h⟩
  by_cases hstmts : b.stmts = []
  · have hplace : (inPlace b ss lost).build = (.error (.emptyBody b.name), inPlace b ss lost) :=
      (if_neg hpending).trans (if_pos (hempty.2 hstmts))
    rw [hplace, Builder.build, if_neg hpending, if_pos hstmts]
    exact ⟨rfl, ss, lost, rfl, h⟩
  have hbuild : b.build = (do
      let stmts ← b.stmts.mapM (Stmt.mapTargets b.resolve)
      Fixup.ask b.resolve b.refused
      return { name := b.name, params := b.params, this := b.this, vars := b.vars, stmts }) :=
    (if_neg hpending).trans (if_neg hstmts)
  have hempty : (inPlace b ss lost).body.stmts ≠ [] := mt hempty.1 hstmts
  obtain ⟨r, ss', hpatched, hr⟩ := Fixup.patchAll_noted (f := b.resolve) h.alike []
  have hr : Fixup.patchAll b.resolve ss (Fixup.noted 0 b.stmts) = (r, ss') := hr
  rw [hbuild]
  cases hpatched with
  | failed e _ hwanted hlike =>
      have hall : Fixup.patchAll b.resolve ss (Fixup.noted 0 b.stmts ++ lost) = (.error e, ss') := by
        rw [Fixup.patchAll_append, hr]
      rw [build_of_failed hpending hempty hall, hwanted]
      exact ⟨rfl, ss', lost, rfl, hlike, h.behind, h.refused, h.unbuilt⟩
  | done _ hwanted hlike =>
      have hbehind : ∀ x ∈ lost, ss'.length ≤ x.position :=
        fun x hx => hlike.length_eq ▸ h.behind x hx
      have hall : Fixup.patchAll b.resolve ss (Fixup.noted 0 b.stmts ++ lost) =
          (Fixup.ask b.resolve b.refused, ss') := by
        rw [Fixup.patchAll_append, hr, ← h.refused]
        exact Fixup.patchAll_of_le hbehind
      rw [hwanted]
      cases hask : Fixup.ask b.resolve b.refused with
      | error e =>
          rw [hask] at hall
          rw [build_of_failed hpending hempty hall]
          exact ⟨rfl, ss', lost, rfl, hlike, h.behind, h.refused, h.unbuilt⟩
      | ok u =>
          rw [hask] at hall
          rw [build_of_patched hpending hempty hall]
          exact ⟨rfl, ss', lost, rfl, hlike, h.behind, h.refused, Bool.noConfusion⟩

theorem Matches.answer (h : a.Matches b) (r : Builder.Request) :
    (a.answer r).1 = (b.answer r).1 ∧ (a.answer r).2.Matches (b.answer r).2 := by
  obtain ⟨ss, lost, rfl, h⟩ := h
  cases r with
  | newVar name type => exact ⟨rfl, ss, lost, rfl, h.alike, h.behind, h.refused, h.unbuilt⟩
  | newParam name type => exact ⟨rfl, ss, lost, rfl, h.alike, h.behind, h.refused, h.unbuilt⟩
  | newThis type => exact ⟨rfl, ss, lost, rfl, h.alike, h.behind, h.refused, h.unbuilt⟩
  | label name =>
      have hplace : (inPlace b ss lost).label name =
          if b.labels.contains name || b.pending.contains name then
            (.error (.duplicateLabel name b.name), inPlace b ss lost)
          else (.ok .done, inPlace { b with pending := b.pending ++ [name] } ss lost) := rfl
      simp only [Assembly.answer, hplace, Builder.answer, Builder.label]
      by_cases hc : (b.labels.contains name || b.pending.contains name) = true
      · rw [if_pos hc, if_pos hc]
        exact ⟨rfl, ss, lost, rfl, h⟩
      · rw [if_neg hc, if_neg hc]
        exact ⟨rfl, ss, lost, rfl, h.alike, h.behind, h.refused, h.unbuilt⟩
  | append s => exact h.append s
  | assignBinary x symbol l r =>
      simp only [Assembly.answer, Builder.answer]
      cases Exp.ofSymbol symbol l r with
      | error e => exact ⟨rfl, ss, lost, rfl, h⟩
      | ok e => exact h.append _
  | branchOn symbol l r label =>
      simp only [Assembly.answer, Builder.answer]
      cases Exp.ofCondition symbol l r with
      | error e => exact ⟨rfl, ss, lost, rfl, h⟩
      | ok e => exact h.append _
  | build =>
      obtain ⟨hreply, hstate⟩ := h.build
      simp only [Assembly.answer, Builder.answer, hreply]
      cases hb : b.build <;> rw [hb] at hstate <;> exact ⟨rfl, hstate⟩

theorem Matches.run (h : a.Matches b) (requests : List Builder.Request) :
    (a.run requests).1 = (b.run requests).1 ∧ (a.run requests).2.Matches (b.run requests).2 := by
  induction requests generalizing a b with
  | nil => exact ⟨rfl, h⟩
  | cons r rest ih =>
      obtain ⟨hr, h⟩ := h.answer r
      obtain ⟨hrest, h⟩ := ih h
      exact ⟨congrArg₂ List.cons hr hrest, h⟩

/-- Putting a body together in place and finishing it at once from its plan are answered alike. -/
theorem run_eq (name : String) (scope : Nat) (requests : List Builder.Request) :
    ((start name scope).run requests).1 = (Builder.run { name, scope } requests).1 :=
  ((matches_start name scope).run requests).1

theorem build_run_eq (name : String) (scope : Nat) (requests : List Builder.Request) :
    ((start name scope).run requests).2.build.1 =
      (Builder.run { name, scope } requests).2.build := by
  obtain ⟨ss, lost, hplace, hsuits⟩ := ((matches_start name scope).run requests).2
  rw [hplace]
  exact hsuits.build.1

end Assembly

end Dataflow
