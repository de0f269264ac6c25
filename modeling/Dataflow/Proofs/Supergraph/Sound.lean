import Dataflow.Proofs.Analysis.Sound
import Dataflow.Proofs.Run.Calls
import Dataflow.Proofs.Supergraph.Edges

namespace Dataflow

namespace Fact

open Value Supergraph

variable {f into : Fact} {σ τ : Store}

theorem Covers.intoCall (h : f.Covers σ) (params args : List Var) :
    (intoCall params args f).Covers (σ.enter params args) := by
  apply List.foldl_rel (r := Covers)
  · exact fun _ _ _ hw => nomatch hw
  · intro p _ t ρ ht y w hy hw
    rw [get_update]
    simp only [Store.pass] at hw
    by_cases he : y = p.1
    · rw [if_pos he] at hw ⊢
      split at hw
      · exact h p.2 w ‹_› hw
      · cases hw
    · rw [if_neg he] at hw ⊢
      exact ht y w hy hw

theorem allows_common {ys : List Var} {y : Var} (hy : y ∈ ys) {w : Word}
    (hw : (f.get y).Allows w) : (common (ys.map f.get)).Allows w := by
  cases ys with
  | nil => cases hy
  | cons z ys =>
      simp only [List.map_cons, common]
      split
      · rename_i hall
        rcases List.mem_cons.1 hy with rfl | hy
        · exact hw
        · have he := List.all_eq_true.1 hall (f.get y) (List.mem_map.2 ⟨y, hy, rfl⟩)
          exact of_decide_eq_true he ▸ hw
      · exact allows_nac w

theorem Covers.outOfCall (h : f.Covers τ) {ys : List Var} {x y : Var} {w : Word} (hy : y ∈ ys)
    (hi : y.holdsInt = true) (hw : τ y = some w) (hx : x.holdsInt = true) :
    ((outOfCall (some x) ys f).get x).Allows w := by
  have hne : ys.isEmpty = false := by
    cases ys with
    | nil => cases hy
    | cons _ _ => rfl
  simp only [Supergraph.outOfCall, hne, hx, Bool.not_true, Bool.or_self, Bool.false_eq_true,
    if_false, get_update, if_pos]
  exact allows_common hy (h y w hi hw)

theorem get_pastCall_of_ne {x y : Var} (h : y ≠ x) (analysed : Bool) (f : Fact) :
    (pastCall (some x) analysed f).get y = f.get y := by
  rw [pastCall]
  split
  · rw [get_erase, if_neg h]
  · rw [get_update, if_neg h]

/-- Behind a call the fact covers the caller's store again: what flows past the call tells of all
variables but the result, and the result is allowed for. -/
theorem Covers.receives (h : f.Covers σ) {analysed : Bool} {returned : Option Word}
    {result : Option Var} (hpast : ∀ x, ((pastCall result analysed f).get x) ≤ into.get x)
    (hr : σ.Receives returned result τ)
    (hx : ∀ x w, result = some x → x.holdsInt = true → returned = some w →
      (into.get x).Allows w) : into.Covers τ := by
  cases hr with
  | drop => exact h.mono hpast
  | @bind x w hw =>
      intro y v hy hv
      by_cases he : y = x
      · subst he
        rw [Store.assign_self σ hy] at hv
        cases hv
        exact hx y w rfl hy (hw hy)
      · rw [Store.assign_of_ne σ he] at hv
        have hkeep : ((pastCall (some x) analysed f).get y).Allows v := by
          rw [get_pastCall_of_ne he]
          exact h y v hy hv
        exact hkeep.mono (hpast y)

end Fact

def Linked (calls : CallGraph) : List Frame → Prop
  | f :: d :: rest =>
    (∃ i, d.node = .stmt i ∧ f.method ∈ calls.callees ⟨d.method, i⟩) ∧ Linked calls (d :: rest)
  | _ => True

theorem linked_replace {calls : CallGraph} {f f' : Frame} {rest : List Frame}
    (h : Linked calls (f :: rest)) (hm : f'.method = f.method) : Linked calls (f' :: rest) := by
  cases rest with
  | nil => trivial
  | cons d rest => exact ⟨hm ▸ h.1, h.2⟩

namespace Supergraph

open Dataflow.Fact

variable {p : Program} {calls : CallGraph} {g : Supergraph} {s : Solution Point Fact}

/-- A frame is at a point of the graph, the fact before that point covers its store, and what it is
about to return is held by a variable that its method returns. -/
structure Sound (g : Supergraph) (s : Solution Point Fact) (f : Frame) : Prop where
  inside : f.point ∈ g.points
  covered : ∃ fact, s.before.get? f.point = some fact ∧ fact.Covers f.store
  returned : ∀ w, f.returned = some w → ∃ b y, g.body? f.method = some b ∧ y ∈ b.returnVars ∧
    y.holdsInt = true ∧ f.store y = some w

theorem sound_of_entered {f : Frame} (hr : f.returned = none) (hp : f.point ∈ g.points)
    (hc : ∃ fact, s.before.get? f.point = some fact ∧ fact.Covers f.store) : g.Sound s f :=
  ⟨hp, hc, fun w hw => by rw [hr] at hw; cases hw⟩

theorem graph_of_inside (hg : ofCalls p.hierarchy calls .empty = .ok g) {m : MethodRef} {n : Node}
    (hp : ⟨m, n⟩ ∈ g.points) {b : Body} (hb : p.hierarchy.body? m = some b) :
    ∃ f, g.graph? m = some f ∧ f.body = b ∧ FlowGraph.ofBody b = .ok f := by
  obtain ⟨f, hf, -⟩ := (mem_points_iff g _).1 hp
  obtain ⟨-, b', hb', hf'⟩ := (graph?_eq_some_iff hg m f).1 hf
  rw [hb] at hb'
  cases hb'
  exact ⟨f, hf, FlowGraph.body_ofBody hf', hf'⟩

theorem graph?_of_inside (hg : ofCalls p.hierarchy calls .empty = .ok g) {m : MethodRef} {n : Node}
    (hp : ⟨m, n⟩ ∈ g.points) {b : Body} (hb : p.hierarchy.body? m = some b) {f : FlowGraph}
    (hof : FlowGraph.ofBody b = .ok f) : g.graph? m = some f ∧ f.body = b := by
  obtain ⟨f', hf, hfb, hof'⟩ := graph_of_inside hg hp hb
  rw [hof] at hof'
  cases hof'
  exact ⟨hf, hfb⟩

theorem stmtOf?_eq {m : MethodRef} {f : FlowGraph} (hf : g.graph? m = some f) (n : Node) :
    g.stmtOf? ⟨m, n⟩ = f.body.stmtOf? n := by
  simp only [stmtOf?, body?, hf, Option.map_some, Option.bind_some]

theorem callAt?_eq {m : MethodRef} {f : FlowGraph} (hf : g.graph? m = some f) {i : Nat}
    {result : Option Var} {call : Call} (hs : f.body.stmt? i = some (.invoke result call)) :
    g.callAt? ⟨m, i⟩ = some (result, call) := by
  have h : g.stmtOf? (Site.point ⟨m, i⟩) = some (.invoke result call) :=
    (stmtOf?_eq hf (.stmt i)).trans hs
  simp only [callAt?, h]

theorem covers_after (hb : g.Balanced s) {q : Point} (hq : q ∈ g.points) {fact : Fact} {τ : Store}
    (hfact : s.before.get? q = some fact) (hc : (g.system.transfer q fact).Covers τ) :
    ∃ out, s.after.get? q = some out ∧ out.Covers τ := by
  obtain ⟨into, out, hinto, hout, -, -, hsame⟩ := hb q hq
  rw [hfact] at hinto
  cases hinto
  exact ⟨out, hout, hc.of_same hsame⟩

theorem covers_after_acts (hb : g.Balanced s) {m : MethodRef} {f : FlowGraph}
    (hf : g.graph? m = some f) {n : Node} (hq : ⟨m, n⟩ ∈ g.points)
    (hcall : ∀ result call, f.body.stmtOf? n ≠ some (.invoke result call)) {σ τ : Store}
    {fact : Fact} (hfact : s.before.get? ⟨m, n⟩ = some fact) (hc : fact.Covers σ)
    (ha : f.body.Acts n σ τ) : ∃ out, s.after.get? ⟨m, n⟩ = some out ∧ out.Covers τ := by
  apply covers_after hb hq hfact
  have hsite : g.isCallSite ⟨m, n⟩ = false := by
    rw [isCallSite, stmtOf?_eq hf]
    cases hs : f.body.stmtOf? n with
    | none => rfl
    | some t =>
        cases t with
        | invoke result call => exact absurd hs (hcall result call)
        | nop _ | assign _ _ | branch _ _ | goto _ | switch _ _ _ _ | ret _ => rfl
  change (if g.isCallSite ⟨m, n⟩ then fact else ConstProp.transfer (g.stmtOf? ⟨m, n⟩) fact).Covers τ
  rw [hsite, stmtOf?_eq hf]
  exact hc.acts ha

theorem covers_after_site (hb : g.Balanced s) {m : MethodRef} {f : FlowGraph}
    (hf : g.graph? m = some f) {i : Nat} (hq : ⟨m, .stmt i⟩ ∈ g.points) {result : Option Var}
    {call : Call} (hs : f.body.stmt? i = some (.invoke result call)) {σ : Store} {fact : Fact}
    (hfact : s.before.get? ⟨m, .stmt i⟩ = some fact) (hc : fact.Covers σ) :
    ∃ out, s.after.get? ⟨m, .stmt i⟩ = some out ∧ out.Covers σ := by
  apply covers_after hb hq hfact
  have hstmt : g.stmtOf? ⟨m, .stmt i⟩ = some (.invoke result call) :=
    (stmtOf?_eq hf (.stmt i)).trans hs
  change (if g.isCallSite ⟨m, .stmt i⟩ then fact else _).Covers σ
  rw [if_pos (by rw [isCallSite, hstmt]; rfl)]
  exact hc

theorem covers_along (hb : g.Balanced s) {e : SuperEdge} (he : e ∈ g.edges)
    (hp : e.target ∈ g.points) {out : Fact} (hout : s.after.get? e.source = some out) :
    ∃ into, s.before.get? e.target = some into ∧ ∀ x, (g.along e out).get x ≤ into.get x := by
  obtain ⟨into, -, hinto, -, -, hedge, -⟩ := hb e.target hp
  exact ⟨into, hinto, hedge e he rfl out hout⟩

theorem along_le_before (hb : g.Balanced s) {e : SuperEdge} (he : e ∈ g.edges)
    (hp : e.target ∈ g.points) {out into : Fact} (hout : s.after.get? e.source = some out)
    (hinto : s.before.get? e.target = some into) (x : Var) :
    (g.along e out).get x ≤ into.get x := by
  obtain ⟨into', hinto', hle⟩ := covers_along hb he hp hout
  rw [hinto] at hinto'
  cases hinto'
  exact hle x

theorem returned?_eq_some {b : Body} {n : Node} {σ : Store} {w : Word}
    (h : b.returned? n σ = some w) :
    ∃ y, b.stmtOf? n = some (.ret (some y)) ∧ y.holdsInt = true ∧ σ y = some w := by
  rw [Body.returned?] at h
  split at h
  · rename_i y hs
    split at h
    · exact ⟨y, hs, ‹_›, h⟩
    · cases h
  · cases h

theorem mem_returnVars {b : Body} {n : Node} {y : Var} (h : b.stmtOf? n = some (.ret (some y))) :
    y ∈ b.returnVars :=
  List.mem_eraseDups.2 (List.mem_filterMap.2 ⟨_, Analysis.mem_stmts_of_stmtOf? h, rfl⟩)

theorem sound_inside (hg : ofCalls p.hierarchy calls .empty = .ok g) (hb : g.Balanced s)
    {m : MethodRef} {b : Body} {f : FlowGraph} {n k : Node} {σ τ : Store} {r : Option Word}
    (hbody : p.hierarchy.body? m = some b) (hof : FlowGraph.ofBody b = .ok f)
    (hcall : ∀ result call, b.stmtOf? n ≠ some (.invoke result call)) (ha : b.Acts n σ τ)
    (hk : k ∈ f.succs n) (hs : g.Sound s ⟨m, n, σ, r⟩) :
    g.Sound s ⟨m, k, τ, b.returned? n σ⟩ := by
  obtain ⟨hf, rfl⟩ := graph?_of_inside hg hs.inside hbody hof
  obtain ⟨fact, hfact, hc⟩ := hs.covered
  obtain ⟨out, hout, hcov⟩ := covers_after_acts hb hf hs.inside hcall hfact hc ha
  obtain ⟨kind, he⟩ := exists_normal hg hf hcall hk
  have hp := target_mem_points hg he
  obtain ⟨into, hinto, hle⟩ := covers_along hb he hp hout
  refine ⟨hp, ⟨into, hinto, hcov.mono hle⟩, fun w hw => ?_⟩
  obtain ⟨y, hy, hi, hσ⟩ := returned?_eq_some hw
  refine ⟨f.body, y, by rw [body?, hf]; rfl, mem_returnVars hy, hi, ?_⟩
  cases ha with
  | pass hn => rw [hy] at hn; cases hn
  | act ht _ hact =>
      rw [hy] at ht
      cases ht
      cases hact
      exact hσ

theorem sound_call (hcalls : CallGraph.ofProgram p = .ok calls)
    (hg : ofCalls p.hierarchy calls .empty = .ok g) (hb : g.Balanced s) {m c : MethodRef}
    {b d : Body} {i : Nat} {result : Option Var} {call : Call} {σ : Store} {r : Option Word}
    (hbody : p.hierarchy.body? m = some b) (hstmt : b.stmt? i = some (.invoke result call))
    (hc : c ∈ calls.callees ⟨m, i⟩) (hd : p.hierarchy.body? c = some d)
    (hs : g.Sound s ⟨m, .stmt i, σ, r⟩) :
    g.Sound s ⟨c, .entry, σ.enter d.params call.args, none⟩ := by
  obtain ⟨f, hf, rfl, -⟩ := graph_of_inside hg hs.inside hbody
  obtain ⟨e, he, rfl⟩ := List.mem_map.1 hc
  have hreach := (CallGraph.closed_of_ofProgram hcalls).2.2 e (List.mem_filter.1 he).1
  have hm : g.hasMethod e.callee = true := (hasMethod_iff hg _).2 ⟨hreach, by rw [hd]; rfl⟩
  have hedge := call_mem_edges hg hf hstmt hc hm
  have hp := target_mem_points hg hedge
  obtain ⟨fc, hfc, hbc, -⟩ := graph_of_inside hg hp hd
  obtain ⟨fact, hfact, hcov⟩ := hs.covered
  obtain ⟨out, hout, hcov⟩ := covers_after_site hb hf hs.inside hstmt hfact hcov
  obtain ⟨into, hinto, hle⟩ := covers_along hb hedge hp hout
  have halong : g.along (.call ⟨m, i⟩ e.callee) out = intoCall d.params call.args out := by
    simp only [along, body?, hfc, callAt?_eq hf hstmt, Option.map_some, Option.elim_some, hbc]
  rw [halong] at hle
  exact sound_of_entered rfl hp ⟨into, hinto, (hcov.intoCall _ _).mono hle⟩

theorem sound_behind (hg : ofCalls p.hierarchy calls .empty = .ok g) (hb : g.Balanced s)
    {m : MethodRef} {b : Body} {f : FlowGraph} {i : Nat} {k : Node} {result : Option Var}
    {call : Call} {σ σ' : Store} {r returned : Option Word}
    (hbody : p.hierarchy.body? m = some b) (hof : FlowGraph.ofBody b = .ok f)
    (hstmt : b.stmt? i = some (.invoke result call)) (hr : σ.Receives returned result σ')
    (hk : k ∈ f.succs (.stmt i)) (hs : g.Sound s ⟨m, .stmt i, σ, r⟩)
    (hx : ∀ into x w, s.before.get? ⟨m, k⟩ = some into → result = some x → x.holdsInt = true →
      returned = some w → (into.get x).Allows w) :
    g.Sound s ⟨m, k, σ', none⟩ := by
  obtain ⟨hf, rfl⟩ := graph?_of_inside hg hs.inside hbody hof
  obtain ⟨fact, hfact, hcov⟩ := hs.covered
  obtain ⟨out, hout, hcov⟩ := covers_after_site hb hf hs.inside hstmt hfact hcov
  obtain ⟨analysed, hedge, -⟩ := exists_callToReturn hg hf hstmt hk
  have hp := target_mem_points hg hedge
  obtain ⟨into, hinto, hle⟩ := covers_along hb hedge hp hout
  have halong : g.along (.callToReturn ⟨m, i⟩ ⟨m, k⟩ analysed) out =
      pastCall result analysed out := by
    simp only [along, callAt?_eq hf hstmt, Option.bind_some]
  rw [halong] at hle
  exact sound_of_entered rfl hp
    ⟨into, hinto, hcov.receives hle hr (fun x w => hx into x w hinto)⟩

theorem sound_back (hg : ofCalls p.hierarchy calls .empty = .ok g) (hb : g.Balanced s)
    {m c : MethodRef} {b : Body} {f : FlowGraph} {i : Nat} {k : Node} {result : Option Var}
    {call : Call} {σ σ' τ : Store} {r r' : Option Word}
    (hbody : p.hierarchy.body? m = some b) (hof : FlowGraph.ofBody b = .ok f)
    (hstmt : b.stmt? i = some (.invoke result call)) (hr : σ.Receives r result σ')
    (hk : k ∈ f.succs (.stmt i)) (hc : c ∈ calls.callees ⟨m, i⟩)
    (hs : g.Sound s ⟨m, .stmt i, σ, r'⟩) (hexit : g.Sound s ⟨c, .exit, τ, r⟩) :
    g.Sound s ⟨m, k, σ', none⟩ := by
  apply sound_behind hg hb hbody hof hstmt hr hk hs
  rintro into x w hinto rfl hi rfl
  obtain ⟨d, y, hd, hy, hyi, hyw⟩ := hexit.returned w rfl
  obtain ⟨fc, hfc, rfl⟩ := Option.map_eq_some_iff.1 hd
  obtain ⟨hf, rfl⟩ := graph?_of_inside hg hs.inside hbody hof
  obtain ⟨fact, hfact, hcov⟩ := hexit.covered
  obtain ⟨out, hout, hcov⟩ := covers_after_acts hb hfc hexit.inside
    (fun _ _ he => nomatch he) hfact hcov (.pass rfl)
  have hm : g.hasMethod c = true := by
    change (g.graph? c).isSome = true
    rw [hfc]
    rfl
  have hedge := ret_mem_edges hg hf hstmt hc hm hk
  have hle := along_le_before hb hedge (target_mem_points hg hedge) hout hinto x
  have halong : g.along (.ret c ⟨m, i⟩ ⟨m, k⟩) out = outOfCall (some x) fc.body.returnVars out := by
    simp only [along, body?, hfc, callAt?_eq hf hstmt, Option.bind_some, Option.map_some,
      Option.elim_some]
  rw [halong] at hle
  exact (hcov.outOfCall hy hyi hyw hi).mono hle

theorem sound_skip (hg : ofCalls p.hierarchy calls .empty = .ok g) (hb : g.Balanced s)
    {m : MethodRef} {b : Body} {f : FlowGraph} {i : Nat} {k : Node} {result : Option Var}
    {call : Call} {σ σ' : Store} {r : Option Word} {w : Word}
    (hbody : p.hierarchy.body? m = some b) (hof : FlowGraph.ofBody b = .ok f)
    (hstmt : b.stmt? i = some (.invoke result call))
    (hlib : calls.callees ⟨m, i⟩ = [] ∨ ∃ c ∈ calls.callees ⟨m, i⟩, p.hierarchy.body? c = none)
    (hr : σ.Receives (some w) result σ') (hk : k ∈ f.succs (.stmt i))
    (hs : g.Sound s ⟨m, .stmt i, σ, r⟩) : g.Sound s ⟨m, k, σ', none⟩ := by
  apply sound_behind hg hb hbody hof hstmt hr hk hs
  rintro into x v hinto rfl hi -
  obtain ⟨hf, rfl⟩ := graph?_of_inside hg hs.inside hbody hof
  obtain ⟨analysed, hedge, hall⟩ := exists_callToReturn hg hf hstmt hk
  have hnot : analysed = false := by
    cases analysed with
    | false => rfl
    | true =>
        obtain ⟨hne, hin⟩ := hall rfl
        rcases hlib with hnone | ⟨c, hc, hbc⟩
        · exact absurd hnone hne
        · have hsome := ((hasMethod_iff hg c).1 (hin c hc)).2
          rw [hbc] at hsome
          cases hsome
  subst hnot
  obtain ⟨fact, hfact, hcov⟩ := hs.covered
  obtain ⟨out, hout, -⟩ := covers_after_site hb hf hs.inside hstmt hfact hcov
  have hx := along_le_before hb hedge (target_mem_points hg hedge) hout hinto x
  have halong : g.along (.callToReturn ⟨m, i⟩ ⟨m, k⟩ false) out = out.update x .nac := by
    simp only [along, callAt?_eq hf hstmt, Option.bind_some, pastCall, hi, Bool.not_true,
      Bool.or_self, Bool.false_eq_true, if_false]
  rw [halong, get_update, if_pos rfl] at hx
  exact .inl (Value.nac_le_iff.1 hx)

theorem sound_start (hcalls : CallGraph.ofProgram p = .ok calls)
    (hg : ofCalls p.hierarchy calls .empty = .ok g) (hb : g.Balanced s) {b : Body} {σ : Store}
    (hbody : p.hierarchy.body? p.main = some b) (hσ : b.Starts σ) :
    g.Sound s ⟨p.main, .entry, σ, none⟩ := by
  have hmain := (CallGraph.closed_of_ofProgram hcalls).2.1
  have hm : g.hasMethod p.main = true := (hasMethod_iff hg _).2 ⟨hmain, by rw [hbody]; rfl⟩
  obtain ⟨f, hf⟩ := Option.isSome_iff_exists.1 hm
  have hp : (⟨p.main, .entry⟩ : Point) ∈ g.points := mem_points hf (entry_mem_nodes f)
  obtain ⟨into, -, hinto, -, hle, -, -⟩ := hb _ hp
  obtain ⟨f', hf', hfb, -⟩ := graph_of_inside hg hp hbody
  have hentry : p.main ∈ g.entryMethods := by
    rw [entryMethods_ofCalls hcalls hg, hbody]
    exact List.mem_cons_self
  have hbound : g.boundary ⟨p.main, .entry⟩ = ConstProp.boundary .intOnly b := by
    simp only [boundary, hentry, and_self, if_true, body?, hf', Option.map_some, Option.elim_some,
      hfb]
  rw [hbound] at hle
  exact sound_of_entered rfl hp ⟨into, hinto, (ConstProp.boundary_covers .intOnly hσ).mono hle⟩

theorem sound_step (hcalls : CallGraph.ofProgram p = .ok calls)
    (hg : ofCalls p.hierarchy calls .empty = .ok g) (hb : g.Balanced s) {frames frames' : List Frame}
    (h : p.Step calls frames frames') (hl : Linked calls frames)
    (hs : ∀ f ∈ frames, g.Sound s f) :
    Linked calls frames' ∧ ∀ f ∈ frames', g.Sound s f := by
  cases h with
  | inside hbody hof hcall ha hk =>
      obtain ⟨htop, hrest⟩ := List.forall_mem_cons.1 hs
      have hnext := sound_inside hg hb hbody hof hcall ha hk htop
      exact ⟨linked_replace hl rfl, List.forall_mem_cons.2 ⟨hnext, hrest⟩⟩
  | call hbody hstmt _ hc hd =>
      have htop := (List.forall_mem_cons.1 hs).1
      have hnext := sound_call hcalls hg hb hbody hstmt hc hd htop
      exact ⟨⟨⟨_, rfl, hc⟩, hl⟩, List.forall_mem_cons.2 ⟨hnext, hs⟩⟩
  | back hbody hof hstmt hr hk =>
      obtain ⟨hexit, hs⟩ := List.forall_mem_cons.1 hs
      obtain ⟨hsite, hrest⟩ := List.forall_mem_cons.1 hs
      obtain ⟨⟨j, hj, hc⟩, hl⟩ := hl
      cases hj
      have hnext := sound_back hg hb hbody hof hstmt hr hk hc hsite hexit
      exact ⟨linked_replace hl rfl, List.forall_mem_cons.2 ⟨hnext, hrest⟩⟩
  | skip hbody hof hstmt _ hlib hr hk =>
      obtain ⟨htop, hrest⟩ := List.forall_mem_cons.1 hs
      have hnext := sound_skip hg hb hbody hof hstmt hlib hr hk htop
      exact ⟨linked_replace hl rfl, List.forall_mem_cons.2 ⟨hnext, hrest⟩⟩

theorem sound_run (hcalls : CallGraph.ofProgram p = .ok calls)
    (hg : ofCalls p.hierarchy calls .empty = .ok g) (hb : g.Balanced s) {k : Nat}
    {frames : List Frame} (hr : p.Run calls k frames) :
    Linked calls frames ∧ ∀ f ∈ frames, g.Sound s f := by
  induction hr with
  | start hbody hσ =>
      have hstart := sound_start hcalls hg hb hbody hσ
      exact ⟨trivial, List.forall_mem_cons.2 ⟨hstart, fun f hf => absurd hf List.not_mem_nil⟩⟩
  | step _ h ih => exact sound_step hcalls hg hb h ih.1 ih.2

/-- Constant propagation across calls is sound for every run of the program. Of each frame, running or
suspended, the fact before its point allows every int variable the word it holds. -/
theorem interConstProp_sound (hcalls : CallGraph.ofProgram p = .ok calls)
    (hg : ofCalls p.hierarchy calls .empty = .ok g) {fuel : Nat}
    (hs : g.solve? fuel = .ok (some s)) {k : Nat} {frames : List Frame}
    (hr : p.Run calls k frames) {f : Frame} (hf : f ∈ frames) :
    ∃ fact, s.before.get? f.point = some fact ∧ fact.Covers f.store :=
  ((sound_run hcalls hg (balanced_of_solve? hs) hr).2 f hf).covered

end Supergraph

namespace Successor

open Supergraph

def n : Var := ⟨0, 0, "n", .primitive .int, 0⟩

def one : Var := ⟨0, 1, "one", .primitive .int, 1⟩

def r : Var := ⟨0, 2, "r", .primitive .int, 2⟩

def a : Var := ⟨1, 0, "a", .primitive .int, 0⟩

def b : Var := ⟨1, 1, "b", .primitive .int, 1⟩

def main : MethodRef := ⟨"Main", "void main()"⟩

def succ : MethodRef := ⟨"Main", "int succ(int)"⟩

def succBody : Body where
  name := "succ"
  params := [n]
  vars := [n, one, r]
  stmts := [.assign one (.int 1), .assign r (.binary (.arith .add) n one), .ret (some r)]

def mainBody : Body where
  name := "main"
  vars := [a, b]
  stmts := [.assign a (.int 4), .invoke (some b) ⟨.static, succ, [a], none⟩, .ret none]

def program : Program where
  hierarchy := ⟨.ofList [("Main",
    { serial := 0
      name := "Main"
      methods := .ofList [
        ("void main()", { ref := main, isStatic := true, body := some mainBody }),
        ("int succ(int)", { ref := succ, isStatic := true, body := some succBody })] })]⟩
  main := main

def calls : CallGraph where
  entries := [main]
  reachable := [main, succ]
  edges := [⟨.static, ⟨main, 1⟩, succ⟩]
  nodup_entries := List.nodup_singleton main
  nodup_reachable := by decide
  nodup_edges := List.nodup_singleton _

def mainFlow : FlowGraph where
  body := mainBody
  edges := [
    ⟨.entry, .stmt 0, .entry, none⟩,
    ⟨.stmt 0, .stmt 1, .fallThrough, none⟩,
    ⟨.stmt 1, .stmt 2, .fallThrough, none⟩,
    ⟨.stmt 2, .exit, .ret, none⟩]
  ends := by decide

def succFlow : FlowGraph where
  body := succBody
  edges := [
    ⟨.entry, .stmt 0, .entry, none⟩,
    ⟨.stmt 0, .stmt 1, .fallThrough, none⟩,
    ⟨.stmt 1, .stmt 2, .fallThrough, none⟩,
    ⟨.stmt 2, .exit, .ret, none⟩]
  ends := by decide

def graph : Supergraph := join calls (.ofList [(main, mainFlow), (succ, succFlow)])

theorem ofProgram_program : CallGraph.ofProgram program = .ok calls := rfl

theorem ofCalls_calls : ofCalls program.hierarchy calls .empty = .ok graph := rfl

theorem queue_settled : (graph.system.settle 30 graph.begin).queue.items = [] := by
  decide +kernel

theorem solved : ∃ s, graph.solve? 30 = .ok (some s) := by
  have hv : graph.validate = .ok () := (validate_ofCalls_iff ofProgram_program ofCalls_calls).2 rfl
  exact ⟨_, (solve?_eq_ok_iff graph 30 _).2 ⟨hv, queue_settled, rfl⟩⟩

def caller : Store := Store.set (fun _ => none) a 4

def callee : Store := ((caller.enter [n] [a]).set one 1).set r 5

theorem run_call : program.Run calls 3
    [⟨succ, .entry, caller.enter [n] [a], none⟩, ⟨main, .stmt 1, caller, none⟩] := by
  have h₀ : program.Run calls 0 [⟨main, .entry, fun _ => none, none⟩] :=
    .start (b := mainBody) rfl (fun x => ⟨fun h => (nomatch h), fun h => (nomatch h.1)⟩)
  have h₁ : program.Run calls 1 [⟨main, .stmt 0, fun _ => none, none⟩] :=
    h₀.step (.inside (b := mainBody) (g := mainFlow) rfl rfl (fun _ _ he => nomatch he) (.pass rfl)
      (by decide))
  have hy : (Exp.int 4).Yields (fun _ => none) 4 := rfl
  have h₂ : program.Run calls 2 [⟨main, .stmt 1, caller, none⟩] :=
    h₁.step (.inside (b := mainBody) (g := mainFlow) rfl rfl (fun _ _ he => nomatch he)
      (.act rfl (fun x hx => absurd hx List.not_mem_nil) (.assign hy)) (by decide))
  have huses : caller.Assigned [a] := by
    intro x hx _
    rw [List.mem_singleton.1 hx]
    rfl
  have hc : succ ∈ calls.callees ⟨main, 1⟩ := by decide
  exact h₂.step (.call (b := mainBody) (d := succBody) rfl rfl huses hc rfl)

theorem run_back : program.Run calls 8 [⟨main, .stmt 2, caller.set b 5, none⟩] := by
  have h₄ : program.Run calls 4
      [⟨succ, .stmt 0, caller.enter [n] [a], none⟩, ⟨main, .stmt 1, caller, none⟩] :=
    run_call.step (.inside (b := succBody) (g := succFlow) rfl rfl (fun _ _ he => nomatch he)
      (.pass rfl) (by decide))
  have hone : (Exp.int 1).Yields (caller.enter [n] [a]) 1 := rfl
  have h₅ : program.Run calls 5
      [⟨succ, .stmt 1, (caller.enter [n] [a]).set one 1, none⟩, ⟨main, .stmt 1, caller, none⟩] :=
    h₄.step (.inside (b := succBody) (g := succFlow) rfl rfl (fun _ _ he => nomatch he)
      (.act rfl (fun x hx => absurd hx List.not_mem_nil) (.assign hone)) (by decide))
  have hsum : (Exp.binary (.arith .add) n one).Yields ((caller.enter [n] [a]).set one 1) 5 :=
    fun _ _ => ⟨4, 1, rfl, rfl, rfl⟩
  have huses : ((caller.enter [n] [a]).set one 1).Assigned [n, one] := by
    intro x hx _
    rcases List.mem_cons.1 hx with rfl | hx
    · rfl
    · rw [List.mem_singleton.1 hx]
      rfl
  have h₆ : program.Run calls 6
      [⟨succ, .stmt 2, callee, none⟩, ⟨main, .stmt 1, caller, none⟩] :=
    h₅.step (.inside (b := succBody) (g := succFlow) rfl rfl (fun _ _ he => nomatch he)
      (.act rfl huses (.assign hsum)) (by decide))
  have hret : callee.Assigned [r] := by
    intro x hx _
    rw [List.mem_singleton.1 hx]
    rfl
  have h₇ : program.Run calls 7
      [⟨succ, .exit, callee, some 5⟩, ⟨main, .stmt 1, caller, none⟩] :=
    h₆.step (.inside (b := succBody) (g := succFlow) rfl rfl (fun _ _ he => nomatch he)
      (.act rfl hret .ret) (by decide))
  exact h₇.step (.back (b := mainBody) (g := mainFlow) rfl rfl rfl (.bind (fun _ => rfl))
    (by decide))

theorem interConstProp_sound_successor : CallGraph.ofProgram program = .ok calls ∧
    ofCalls program.hierarchy calls .empty = .ok graph ∧
    ∃ s, graph.solve? 30 = .ok (some s) ∧
      (∃ f, s.before.get? ⟨main, .stmt 1⟩ = some f ∧ f.Covers caller) ∧
      ∃ f, s.before.get? ⟨main, .stmt 2⟩ = some f ∧ f.Covers (caller.set b 5) := by
  obtain ⟨s, hs⟩ := solved
  refine ⟨ofProgram_program, ofCalls_calls, s, hs, ?_, ?_⟩
  · exact interConstProp_sound ofProgram_program ofCalls_calls hs run_call
      (List.mem_cons_of_mem _ List.mem_cons_self)
  · exact interConstProp_sound ofProgram_program ofCalls_calls hs run_back List.mem_cons_self

end Successor

end Dataflow
