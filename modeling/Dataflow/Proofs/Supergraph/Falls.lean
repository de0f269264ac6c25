import Dataflow.Proofs.FixedPoint.Settle
import Dataflow.Proofs.Supergraph.Firm
import Dataflow.Proofs.Supergraph.Passes

namespace Dataflow

theorem sum_map_add_le_add {α : Type} [DecidableEq α] {f g : α → Nat} {l : List α}
    (hl : l.Nodup) {a : α} (ha : a ∈ l) (hle : ∀ x ∈ l, x ≠ a → f x ≤ g x) {c d : Nat}
    (h : f a + c ≤ g a + d) : (l.map f).sum + c ≤ (l.map g).sum + d := by
  induction l with
  | nil => cases ha
  | cons x l ih =>
      obtain ⟨hx, hl⟩ := List.nodup_cons.1 hl
      rw [List.map_cons, List.map_cons, List.sum_cons, List.sum_cons]
      by_cases he : x = a
      · subst he
        have hrest : (l.map f).sum ≤ (l.map g).sum := by
          apply List.sum_le_sum
          intro y hy
          exact hle y (List.mem_cons_of_mem x hy) (fun he => hx (he ▸ hy))
        omega
      · have ha : a ∈ l := (List.mem_cons.1 ha).resolve_left (Ne.symm he)
        have hfx := hle x List.mem_cons_self he
        have hrest := ih hl ha (fun y hy hne => hle y (List.mem_cons_of_mem x hy) hne)
        omega

theorem length_eraseDups_le {α : Type} [DecidableEq α] (l : List α) :
    l.eraseDups.length ≤ l.length := by
  induction hn : l.length using Nat.strong_induction_on generalizing l with
  | _ n ih =>
      cases l with
      | nil => exact Nat.zero_le _
      | cons a l =>
          have hf := List.length_filter_le (fun b => !b == a) l
          rw [List.length_cons] at hn
          have h := ih _ (by omega) (l.filter (fun b => !b == a)) rfl
          rw [List.eraseDups_cons, List.length_cons]
          omega

namespace Fact

def fallsTo (f g : Fact) : Bool := f.entries.any (fun e => e.2 = .nac && g.get e.1 ≠ .nac)

theorem fallsTo_iff (f g : Fact) :
    f.fallsTo g = true ↔ ∃ x, f.get x = .nac ∧ g.get x ≠ .nac := by
  simp only [fallsTo, List.any_eq_true, Bool.and_eq_true, decide_eq_true_eq]
  constructor
  · rintro ⟨⟨x, v⟩, he, rfl, hg⟩
    exact ⟨x, ((mem_entries_iff f x _).1 he).2, hg⟩
  · rintro ⟨x, hf, hg⟩
    exact ⟨(x, .nac), (mem_entries_iff f x _).2 ⟨fun h => (nomatch h), hf⟩, rfl, hg⟩

theorem Firm.le {f g : Fact} (h : f.Firm g) (hf : f.fallsTo g = false) (x : Var) :
    f.get x ≤ g.get x := by
  cases hx : f.get x with
  | undef => exact Value.undef_le _
  | const n => exact h x n hx
  | nac =>
      by_cases hg : g.get x = .nac
      · rw [hg]
      · have ht := (fallsTo_iff f g).2 ⟨x, hx, hg⟩
        rw [hf] at ht
        cases ht

theorem Firm.height_lt {f g : Fact} {xs : List Var} (h : f.Firm g) (hf : f.fallsTo g = false)
    (hxs : BindsOnly xs f) (hxs' : BindsOnly xs g) (hne : f.same g = false) :
    f.height xs < g.height xs := by
  have hle := h.le hf
  have hex : ∃ x, f.get x ≠ g.get x := by
    by_contra hall
    have hs := (same_iff f g).2 (fun x => by_contra fun hx => hall ⟨x, hx⟩)
    rw [hne] at hs
    cases hs
  obtain ⟨x, hx⟩ := hex
  refine height_lt_height hle ?_ hx
  by_cases hfx : f.get x = .undef
  · exact hxs' x (fun hgx => hx (hfx.trans hgx.symm))
  · exact hxs x hfx

end Fact

namespace System

variable {ν : Type} [DecidableEq ν] {S : System ν Fact} {xs : List Var} {nodes : List ν}

/-- Whether a visit turns some variable from not a constant into something else. -/
def falls (S : System ν Fact) (st : State ν Fact) (n : ν) : Bool :=
  (S.result st n).fallsTo (S.result (S.visit st n).2 n)

def altitude (S : System ν Fact) (xs : List Var) (nodes : List ν) (st : State ν Fact) : Nat :=
  (nodes.map (fun n => (S.result st n).height xs)).sum

theorem altitude_le (S : System ν Fact) (xs : List Var) (nodes : List ν) (st : State ν Fact) :
    S.altitude xs nodes st ≤ nodes.length * (2 * xs.length) := by
  have h := List.sum_le_card_nsmul (nodes.map (fun n => (S.result st n).height xs))
    (2 * xs.length) (by
      intro k hk
      obtain ⟨n, -, rfl⟩ := List.mem_map.1 hk
      exact Fact.height_le xs _)
  rw [List.length_map] at h
  exact h

/-- Equations over facts about certain variables. They are firm, and results count as the same when
they say the same. -/
structure Tame (S : System ν Fact) (xs : List Var) : Prop where
  firm : S.Firm
  binds : ∀ (n : ν) (r : ν → Fact) (before : Fact), (∀ m, (r m).BindsOnly xs) →
    (S.transfer n (S.collect n r before)).BindsOnly xs
  same_eq : S.same = Fact.same

structure Settling (S : System ν Fact) (xs : List Var) (st : State ν Fact) : Prop where
  steady : S.Steady st
  binds : ∀ m, (S.result st m).BindsOnly xs

theorem settling_visit (hS : S.Tame xs) {st : State ν Fact} (h : S.Settling xs st) (n : ν) :
    S.Settling xs (S.visit st n).2 where
  steady := steady_visit hS.firm h.steady n
  binds m := by
    rw [result_visit]
    split
    · rename_i hm
      obtain ⟨rfl, -⟩ := hm
      exact hS.binds m _ _ h.binds
    · exact h.binds m

theorem height_visit (hS : S.Tame xs) {st : State ν Fact} (h : S.Settling xs st) {n : ν}
    (hc : S.changes st n = true) (hf : S.falls st n = false) :
    (S.result st n).height xs < (S.result (S.visit st n).2 n).height xs := by
  have hnew : S.result (S.visit st n).2 n = S.transfer n (S.incoming st n) := by
    rw [result_visit, if_pos ⟨rfl, hc⟩]
  have hdiff : (S.result st n).same (S.result (S.visit st n).2 n) = false := by
    have hd := changed_visit S st n
    rw [show (S.visit st n).1 = true from hc, hS.same_eq, ← hnew] at hd
    exact Bool.not_eq_true' _ ▸ hd.symm
  exact (firm_visit hS.firm h.steady n n).height_lt hf (h.binds n)
    ((settling_visit hS h n).binds n) hdiff

/-- A visit that changes a result makes the results climb, unless something falls; and then they do
not lose more than one result can hold. -/
theorem altitude_visit (hS : S.Tame xs) (hn : nodes.Nodup) {st : State ν Fact}
    (h : S.Settling xs st) {n : ν} (hmem : n ∈ nodes) :
    S.altitude xs nodes st + (S.changes st n).toNat ≤
      S.altitude xs nodes (S.visit st n).2 + (S.falls st n).toNat * (2 * xs.length + 1) := by
  apply sum_map_add_le_add hn hmem
  · intro m _ hm
    rw [result_visit_of_ne S st hm]
  · have hc := Bool.toNat_le (S.changes st n)
    cases hf : S.falls st n with
    | true =>
        have hle := Fact.height_le xs (S.result st n)
        rw [Bool.toNat_true]
        omega
    | false =>
        rw [Bool.toNat_false, Nat.zero_mul, Nat.add_zero]
        cases hc : S.changes st n with
        | false =>
            rw [result_visit_of_quiet hc]
            exact Nat.le_refl _
        | true => exact height_visit hS h hc hf

theorem altitude_settle (hS : S.Tame xs) (hn : nodes.Nodup)
    (hd : ∀ n ∈ nodes, ∀ m ∈ S.dependents n, m ∈ nodes) (fuel : Nat) {p : Progress ν Fact}
    (hq : ∀ n ∈ p.queue.items, n ∈ nodes) (h : S.Settling xs p.state) :
    S.altitude xs nodes p.state + S.tally S.changes fuel p ≤
      S.altitude xs nodes (S.settle fuel p).state +
        S.tally S.falls fuel p * (2 * xs.length + 1) := by
  induction fuel generalizing p with
  | zero => exact Nat.le_add_right _ _
  | succ fuel ih =>
      cases hs : S.step? p with
      | none =>
          rw [settle_of_step?_eq_none hs, tally_of_step?_eq_none hs]
          exact Nat.le_add_right _ _
      | some q =>
          obtain ⟨n, hhead, hst, hm⟩ := mem_queue_step hs
          have hno : n ∈ nodes := hq n (List.mem_of_head? hhead)
          have hvisit := altitude_visit hS hn h hno
          have hrest := ih (p := q) (fun m hmq => by
            rcases (hm m).1 hmq with he | ⟨-, he⟩
            · exact hq m (List.mem_of_mem_tail he)
            · exact hd n hno m he) (hst ▸ settling_visit hS h n)
          rw [settle_succ hs, tally_succ hs hhead, tally_succ hs hhead, Nat.add_mul]
          rw [hst] at hrest
          omega

def fallLimit (size edges vars falls : Nat) : Nat :=
  size + (size * (2 * vars) + falls * (2 * vars + 1)) * edges + 1

theorem drained_of_falls_le (hS : S.Tame xs) (hn : nodes.Nodup) {bound k : Nat}
    (hd : ∀ n ∈ nodes, ∀ m ∈ S.dependents n, m ∈ nodes)
    (hb : ∀ n, (S.dependents n).length ≤ bound) {p : Progress ν Fact}
    (hq : ∀ n ∈ p.queue.items, n ∈ nodes) (h : S.Settling xs p.state)
    (hk : ∀ fuel, S.tally S.falls fuel p ≤ k) :
    (S.settle (fallLimit nodes.length bound xs.length k) p).queue.items = [] := by
  by_contra hne
  have hspent := settle_spends hb _ p hne
  have hclimb := altitude_settle hS hn hd (fallLimit nodes.length bound xs.length k) hq h
  have hle := altitude_le S xs nodes (S.settle (fallLimit nodes.length bound xs.length k) p).state
  have hfalls := Nat.mul_le_mul_right (2 * xs.length + 1)
    (hk (fallLimit nodes.length bound xs.length k))
  have hchanges : S.tally S.changes (fallLimit nodes.length bound xs.length k) p ≤
      nodes.length * (2 * xs.length) + k * (2 * xs.length + 1) := by omega
  have hmul := Nat.mul_le_mul_right bound hchanges
  have hsize : p.queue.size ≤ nodes.length :=
    (List.subperm_of_subset p.queue.nodup hq).length_le
  rw [fallLimit] at hspent hmul
  omega

end System

namespace Supergraph

open Dataflow.Fact

variable {g : Supergraph}

def mentioned (g : Supergraph) : List Var := g.graphs.values.flatMap (fun f => f.body.mentioned)

theorem mem_mentioned {m : MethodRef} {b : Body} {x : Var} (hb : g.body? m = some b)
    (hx : x ∈ b.mentioned) : x ∈ g.mentioned := by
  obtain ⟨f, hf, rfl⟩ := Option.map_eq_some_iff.1 hb
  refine List.mem_flatMap.2 ⟨f, ?_, hx⟩
  exact List.mem_map.2 ⟨(m, f), (OrderedMap.get?_eq_some_iff _ _ _).1 hf, rfl⟩

theorem mem_mentioned_of_def {p : Point} {s : Stmt Target} {x : Var} (hs : g.stmtOf? p = some s)
    (hx : s.def? = some x) : x ∈ g.mentioned := by
  obtain ⟨b, hb, hs⟩ := Option.bind_eq_some_iff.1 hs
  exact mem_mentioned hb (Dataflow.mem_mentioned_of_def (Analysis.mem_stmts_of_stmtOf? hs) hx)

theorem mem_mentioned_of_result {s : Site} {x : Var}
    (h : (g.callAt? s).bind Prod.fst = some x) : x ∈ g.mentioned := by
  obtain ⟨t, hs, hx⟩ := exists_stmt_of_result h
  exact mem_mentioned_of_def hs hx

theorem mem_mentioned_of_param {m : MethodRef} {x : Var}
    (h : x ∈ (g.body? m).elim [] Body.params) : x ∈ g.mentioned := by
  obtain ⟨b, hb, hx⟩ := exists_body_of_param h
  exact mem_mentioned hb (Dataflow.mem_mentioned_of_param hx)

theorem keeps_mentioned (g : Supergraph) : g.Keeps (fun _ x _ => x ∈ g.mentioned) where
  meet _ _ _ _ hv _ := hv
  boundary _ := each_boundary fun _ hx _ => mem_mentioned_of_param hx
  along e _ f hf := by
    cases e with
    | normal _ _ _ => exact hf
    | callToReturn _ _ analysed =>
        exact each_pastCall hf (fun _ hx _ => mem_mentioned_of_result hx) analysed
    | call _ _ => exact each_intoCall fun p hp _ => mem_mentioned_of_param (List.of_mem_zip hp).1
    | ret _ _ _ => exact each_outOfCall fun _ hx _ => mem_mentioned_of_result hx
  transfer _ _ hf := ConstProp.each_transfer hf fun _ _ ht hx _ =>
    ⟨mem_mentioned_of_def ht hx, fun _ _ _ => mem_mentioned_of_def ht hx⟩

theorem tame_system (g : Supergraph) : g.system.Tame g.mentioned where
  firm := g.firm_system
  same_eq := rfl
  binds p r _ h := by
    have hkeeps := g.keeps_mentioned.system
    exact bindsOnly_iff.2 (hkeeps.transfer p _
      (hkeeps.collect p r .empty (fun m => bindsOnly_iff.1 (h m)) (each_empty _)))

theorem length_succs_le (g : Supergraph) (p : Point) : (g.succs p).length ≤ g.edges.length := by
  have h := length_eraseDups_le ((g.outEdges p).map SuperEdge.target)
  rw [List.length_map] at h
  exact Nat.le_trans h (List.length_filter_le _ _)

theorem drained_of_falls_le (hg : g.validate = .ok ()) {k : Nat}
    (hk : ∀ fuel, g.system.tally g.system.falls fuel g.begin ≤ k) :
    (g.system.settle (System.fallLimit g.points.length g.edges.length g.mentioned.length k)
      g.begin).queue.items = [] := by
  have hb : g.system.Settling g.mentioned g.begin.state :=
    ⟨System.steady_of_empty (result_begin g), fun p => (result_begin g p).symm ▸ bindsOnly_empty _⟩
  exact System.drained_of_falls_le (tame_system g) g.nodup_points
    (fun _ _ _ hq => mem_points_of_mem_succs hg hq) (length_succs_le g)
    (fun p hp => (queue_begin g p).1 hp) hb hk

theorem drained_iff (hg : g.validate = .ok ()) :
    (∃ fuel, (g.system.settle fuel g.begin).queue.items = []) ↔
      ∃ k, ∀ fuel, g.system.tally g.system.falls fuel g.begin ≤ k := by
  constructor
  · rintro ⟨k, hk⟩
    exact ⟨k, fun fuel => System.tally_le_of_drained hk fuel⟩
  · rintro ⟨k, hk⟩
    exact ⟨_, drained_of_falls_le hg hk⟩

end Supergraph

end Dataflow
