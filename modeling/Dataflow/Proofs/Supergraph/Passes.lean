import Dataflow.Proofs.Analysis.Passes
import Dataflow.Proofs.Supergraph.Equations

namespace Dataflow.Supergraph

variable {g : Supergraph} {r : Var → Value → Prop} {f : Fact}

theorem exists_body_of_param {m : MethodRef} {x : Var}
    (h : x ∈ (g.body? m).elim [] Body.params) : ∃ b, g.body? m = some b ∧ x ∈ b.params := by
  cases hb : g.body? m with
  | none =>
      rw [hb] at h
      cases h
  | some b =>
      rw [hb] at h
      exact ⟨b, rfl, h⟩

theorem exists_stmt_of_result {s : Site} {x : Var} (h : (g.callAt? s).bind Prod.fst = some x) :
    ∃ t, g.stmtOf? s.point = some t ∧ t.def? = some x := by
  rw [callAt?] at h
  cases hs : g.stmtOf? s.point with
  | none =>
      rw [hs] at h
      cases h
  | some t =>
      rw [hs] at h
      cases t with
      | invoke result c => exact ⟨_, rfl, h⟩
      | nop _ | assign _ _ | branch _ _ | goto _ | switch _ _ _ _ | ret _ => cases h

theorem each_pastCall (hf : f.Each r) {result : Option Var}
    (h : ∀ x, result = some x → x.holdsInt = true → r x .nac) (analysed : Bool) :
    (pastCall result analysed f).Each r := by
  cases result with
  | none => exact hf
  | some x =>
      rw [pastCall]
      split
      · exact hf.erase x
      · rename_i hx
        rw [Bool.or_eq_true, Bool.not_eq_true', not_or, Bool.not_eq_false] at hx
        exact hf.update fun _ => h x rfl hx.2

theorem each_intoCall {params args : List Var}
    (h : ∀ p ∈ params.zip args, f.get p.2 ≠ .undef → r p.1 (f.get p.2)) :
    (intoCall params args f).Each r := by
  apply List.foldlRecOn (motive := Fact.Each r)
  · exact Fact.each_empty r
  · exact fun t ht p hp => ht.update (h p hp)

theorem each_outOfCall {result : Option Var} {returned : List Var}
    (h : ∀ x, result = some x → x.holdsInt = true → r x (common (returned.map f.get))) :
    (outOfCall result returned f).Each r := by
  cases result with
  | none => exact Fact.each_empty r
  | some x =>
      rw [outOfCall]
      split
      · exact Fact.each_empty r
      · rename_i hx
        rw [Bool.or_eq_true, Bool.not_eq_true', not_or, Bool.not_eq_false] at hx
        exact (Fact.each_empty r).update fun _ => h x rfl hx.2

theorem each_boundary {p : Point}
    (h : ∀ x ∈ (g.body? p.method).elim [] Body.params, x.holdsInt = true → r x .nac) :
    (g.boundary p).Each r := by
  rw [boundary]
  split
  · cases hb : g.body? p.method with
    | none => exact Fact.each_empty r
    | some b =>
        rw [hb] at h
        exact ConstProp.each_boundary fun x hx hi => h x hx (hi.resolve_left (by decide))
  · exact Fact.each_empty r

/-- What holds of the bindings of all facts, by the point that a fact belongs to, as long as solving
proceeds. -/
structure Keeps (g : Supergraph) (r : Point → Var → Value → Prop) : Prop where
  meet : ∀ p x v w, r p x v → r p x w → r p x (v.meet w)
  boundary : ∀ p, (g.boundary p).Each (r p)
  along : ∀ e ∈ g.edges, ∀ f : Fact, f.Each (r e.source) → (g.along e f).Each (r e.target)
  transfer : ∀ p, ∀ f : Fact, f.Each (r p) → (ConstProp.transfer (g.stmtOf? p) f).Each (r p)

/-- The states that solving passes through, whether or not it ever ends. Within a visit all that flows
into the point has been taken in. -/
inductive Passes (g : Supergraph) : System.State Point Fact → Prop
  | between (k : Nat) : Passes g (g.system.settle k g.begin).state
  | within {k p rest st} : (g.system.settle k g.begin).queue.pop? = some (p, rest) →
      st = (g.system.settle k g.begin).state → Passes g (st.receive p (g.system.incoming st p))

theorem passes_of_solve? {fuel : Nat} {s : Solution Point Fact}
    (h : g.solve? fuel = .ok (some s)) : ∃ st, g.Passes st ∧ s = solutionOf st :=
  ⟨_, .between fuel, ((solve?_eq_ok_iff g fuel s).1 h).2.2⟩

theorem input_begin (g : Supergraph) (p : Point) :
    g.system.input g.begin.state p = if p ∈ g.points then g.boundary p else .empty :=
  OrderedMap.getD_tabulate g.nodup_points g.boundary p Fact.empty

variable {r : Point → Var → Value → Prop}

theorem Keeps.system (h : g.Keeps r) :
    g.system.Keeps (fun p f => f.Each (r p)) (fun p f => f.Each (r p)) where
  collect p out before hout _ := by
    apply List.foldlRecOn (motive := Fact.Each (r p))
    · exact h.boundary p
    · intro t ht e he
      obtain ⟨he, hp⟩ := List.mem_filter.1 he
      have halong := h.along e he _ (hout e.source)
      rw [of_decide_eq_true hp] at halong
      exact halong.meetInto (h.meet p) ht
  transfer p f hf := by
    change (if g.isCallSite p then f else _).Each _
    split
    · exact hf
    · exact h.transfer p f hf

theorem Keeps.each_of_passes (h : g.Keeps r) {st : System.State Point Fact} (hst : g.Passes st)
    (p : Point) : (g.system.input st p).Each (r p) ∧ (g.system.result st p).Each (r p) := by
  have hbegin : g.system.Throughout (fun p f => f.Each (r p)) (fun p f => f.Each (r p))
      g.begin.state := by
    intro p
    rw [input_begin, result_begin]
    refine ⟨?_, Fact.each_empty _⟩
    split
    · exact h.boundary p
    · exact Fact.each_empty _
  suffices hst : g.system.Throughout (fun p f => f.Each (r p)) (fun p f => f.Each (r p)) st
    from hst p
  cases hst with
  | between k => exact h.system.settle hbegin k
  | within _ hst =>
      have hst := hst ▸ h.system.settle hbegin _
      exact System.throughout_receive hst (h.system.incoming hst _)

end Dataflow.Supergraph
