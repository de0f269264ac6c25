import Dataflow.Proofs.CallGraph.Reach
import Mathlib.Data.Fintype.Pigeonhole

namespace Dataflow

def ClassDecl.Declares (c : ClassDecl) (subsig : String) (m : Method) : Prop :=
  c.method? subsig = some m ∧ m.isAbstract = false

def ClassDecl.Lacks (c : ClassDecl) (subsig : String) : Prop := ∀ m, ¬ c.Declares subsig m

theorem ClassDecl.concrete?_eq_some_iff {c : ClassDecl} {subsig : String} {m : Method} :
    c.concrete? subsig = some m ↔ c.Declares subsig m := by
  rw [concrete?, Option.filter_eq_some_iff, Declares, Bool.not_eq_true']

theorem ClassDecl.Lacks.concrete?_eq {c : ClassDecl} {subsig : String} (h : c.Lacks subsig) :
    c.concrete? subsig = none :=
  Option.eq_none_iff_forall_ne_some.2 fun m hm => h m (concrete?_eq_some_iff.1 hm)

namespace Hierarchy

variable {h : Hierarchy} {c d e : ClassDecl} {subsig : String} {j k : Nat}
  {a : Except HierarchyError (Option Method)}

/-- The class that a number of steps along the names of superclasses leads to. -/
def ancestor? (h : Hierarchy) (c : ClassDecl) : Nat → Option ClassDecl
  | 0 => some c
  | k + 1 => (h.ancestor? c k).bind (fun d => d.superclass.bind h.classNamed?)

theorem ancestor?_add (h : Hierarchy) (c : ClassDecl) (j k : Nat) :
    h.ancestor? c (j + k) = (h.ancestor? c j).bind (fun d => h.ancestor? d k) := by
  induction k with
  | zero => exact (Option.bind_fun_some _).symm
  | succ k ih => rw [← Nat.add_assoc, ancestor?, ih, Option.bind_assoc]; rfl

theorem exists_ancestor?_of_le (hd : h.ancestor? c k = some d) (hj : j ≤ k) :
    ∃ e, h.ancestor? c j = some e := by
  obtain ⟨n, rfl⟩ := Nat.exists_eq_add_of_le hj
  rw [ancestor?_add] at hd
  obtain ⟨e, he, -⟩ := Option.bind_eq_some_iff.1 hd
  exact ⟨e, he⟩

theorem mem_decls_of_ancestor? (hd : h.ancestor? c (k + 1) = some d) : d ∈ h.decls := by
  obtain ⟨e, -, he⟩ := Option.bind_eq_some_iff.1 hd
  obtain ⟨name, -, hname⟩ := Option.bind_eq_some_iff.1 he
  exact mem_decls_of_classNamed? hname

def Circles (h : Hierarchy) (c : ClassDecl) : Prop :=
  ∃ j k, j < k ∧ ∃ d, h.ancestor? c j = some d ∧ h.ancestor? c k = some d

theorem circles_of_long (hd : h.ancestor? c (h.size + 1) = some d) :
    ∃ j k, j < k ∧ k ≤ h.size + 1 ∧ ∃ e, h.ancestor? c j = some e ∧ h.ancestor? c k = some e := by
  have hplace : ∀ i : Fin (h.size + 1), ∃ p : Fin h.decls.length,
      h.ancestor? c (i + 1) = some h.decls[p] := by
    intro i
    obtain ⟨e, he⟩ := exists_ancestor?_of_le hd (Nat.succ_le_succ (Nat.le_of_lt_succ i.2))
    obtain ⟨p, hp, rfl⟩ := List.mem_iff_getElem.1 (mem_decls_of_ancestor? he)
    exact ⟨⟨p, hp⟩, he⟩
  choose p hp using hplace
  have hcard : Fintype.card (Fin h.decls.length) < Fintype.card (Fin (h.size + 1)) := by
    rw [Fintype.card_fin, Fintype.card_fin, decls, OrderedMap.values, List.length_map]
    exact Nat.lt_succ_self _
  obtain ⟨x, y, hxy, heq⟩ := Fintype.exists_ne_map_eq_of_card_lt p hcard
  rcases Nat.lt_or_gt_of_ne (Fin.val_ne_of_ne hxy) with hlt | hlt
  · exact ⟨x + 1, y + 1, Nat.succ_lt_succ hlt, y.2, _, hp x, heq ▸ hp y⟩
  · exact ⟨y + 1, x + 1, Nat.succ_lt_succ hlt, x.2, _, hp y, heq ▸ hp x⟩

theorem exists_lt_of_circle (hjk : j < k) (hd : h.ancestor? c j = h.ancestor? c k) (n : Nat) :
    ∃ i < k, h.ancestor? c n = h.ancestor? c i := by
  induction n using Nat.strongRecOn with
  | ind n ih =>
      rcases Nat.lt_or_ge n k with hn | hn
      · exact ⟨n, hn, rfl⟩
      · obtain ⟨r, rfl⟩ := Nat.exists_eq_add_of_le hn
        obtain ⟨i, hi, heq⟩ := ih (j + r) (Nat.add_lt_add_right hjk r)
        refine ⟨i, hi, ?_⟩
        rw [← heq, ancestor?_add, ancestor?_add, hd]

theorem Circles.exists_ancestor? (hc : h.Circles c) (n : Nat) : ∃ d, h.ancestor? c n = some d := by
  obtain ⟨j, k, hjk, e, hj, hk⟩ := hc
  obtain ⟨i, hi, heq⟩ := exists_lt_of_circle hjk (hj.trans hk.symm) n
  obtain ⟨d, hd⟩ := exists_ancestor?_of_le hk hi.le
  exact ⟨d, heq.trans hd⟩

/-- A walk along the chain that has met no concrete method before the class it is at. -/
def Passes (h : Hierarchy) (subsig : String) (c : ClassDecl) (k : Nat) (d : ClassDecl) : Prop :=
  h.ancestor? c k = some d ∧ ∀ j < k, ∀ e, h.ancestor? c j = some e → e.Lacks subsig

inductive Stops (h : Hierarchy) (subsig : String) (d : ClassDecl) :
    Except HierarchyError (Option Method) → Prop
  | found {m} : d.Declares subsig m → Stops h subsig d (.ok (some m))
  | absent : d.Lacks subsig → d.superclass = none → Stops h subsig d (.ok none)
  | unknown {name} : d.Lacks subsig → d.superclass = some name → h.classNamed? name = none →
      Stops h subsig d (.error (.unknownClass name d.name))

theorem stops_or_goes_on (h : Hierarchy) (subsig : String) (d : ClassDecl) :
    (∃ a, h.Stops subsig d a) ∨
      d.Lacks subsig ∧ ∃ e, d.superclass.bind h.classNamed? = some e := by
  by_cases hm : ∃ m, d.Declares subsig m
  · obtain ⟨m, hm⟩ := hm
    exact .inl ⟨_, .found hm⟩
  · have hl : d.Lacks subsig := not_exists.1 hm
    cases hs : d.superclass with
    | none => exact .inl ⟨_, .absent hl hs⟩
    | some name =>
        cases hn : h.classNamed? name with
        | none => exact .inl ⟨_, .unknown hl hs hn⟩
        | some e => exact .inr ⟨hl, e, hn⟩

theorem dispatchFrom_of_stops (ha : h.Stops subsig d a) (fuel : Nat) :
    h.dispatchFrom subsig (fuel + 1) d = a := by
  rw [dispatchFrom]
  cases ha with
  | found hm => rw [ClassDecl.concrete?_eq_some_iff.2 hm]
  | absent hl hs =>
      rw [hl.concrete?_eq, superclass?, hs]
      rfl
  | unknown hl hs hn =>
      rw [hl.concrete?_eq, superclass?, hs]
      simp only [required, hn]
      rfl

theorem dispatchFrom_of_goes_on (hl : d.Lacks subsig)
    (he : d.superclass.bind h.classNamed? = some e) (fuel : Nat) :
    h.dispatchFrom subsig (fuel + 1) d = h.dispatchFrom subsig fuel e := by
  obtain ⟨name, hs, hn⟩ := Option.bind_eq_some_iff.1 he
  rw [dispatchFrom, hl.concrete?_eq, superclass?, hs]
  simp only [required, hn]
  rfl

theorem Passes.le (hd : h.Passes subsig c k d) (hj : j ≤ k) : ∃ e, h.Passes subsig c j e := by
  obtain ⟨e, he⟩ := exists_ancestor?_of_le hd.1 hj
  exact ⟨e, he, fun i hi => hd.2 i (Nat.lt_of_lt_of_le hi hj)⟩

theorem Passes.succ (hd : h.Passes subsig c k d) (hl : d.Lacks subsig)
    (he : d.superclass.bind h.classNamed? = some e) : h.Passes subsig c (k + 1) e := by
  refine ⟨by rw [ancestor?, hd.1]; exact he, fun j hj f hf => ?_⟩
  rcases Nat.lt_succ_iff_lt_or_eq.1 hj with hj | rfl
  · exact hd.2 j hj f hf
  · obtain rfl := Option.some.inj (hd.1.symm.trans hf)
    exact hl

theorem Passes.of_succ (he : h.Passes subsig c (k + 1) e) : ∃ d, h.Passes subsig c k d ∧
    d.Lacks subsig ∧ d.superclass.bind h.classNamed? = some e := by
  obtain ⟨d, hd, hde⟩ := Option.bind_eq_some_iff.1 he.1
  exact ⟨d, ⟨hd, fun j hj => he.2 j (Nat.lt_succ_of_lt hj)⟩, he.2 k (Nat.lt_succ_self k) d hd, hde⟩

theorem Passes.dispatchFrom_add (hd : h.Passes subsig c k d) (fuel : Nat) :
    h.dispatchFrom subsig (k + fuel) c = h.dispatchFrom subsig fuel d := by
  induction k generalizing d fuel with
  | zero =>
      obtain rfl := Option.some.inj hd.1
      rw [Nat.zero_add]
  | succ k ih =>
      obtain ⟨e, he, hl, hed⟩ := hd.of_succ
      rw [Nat.succ_add, ← Nat.add_succ, ih he, dispatchFrom_of_goes_on hl hed]

theorem Passes.dispatchFrom_of_stops (hd : h.Passes subsig c k d) (ha : h.Stops subsig d a)
    {fuel : Nat} (hk : k < fuel) : h.dispatchFrom subsig fuel c = a := by
  obtain ⟨n, rfl⟩ := Nat.exists_eq_add_of_lt hk
  rw [Nat.add_assoc, hd.dispatchFrom_add, Hierarchy.dispatchFrom_of_stops ha]

theorem Passes.not_stops (hd : h.Passes subsig c k d) (he : ∃ e, h.Passes subsig c (k + 1) e) :
    ¬ h.Stops subsig d a := by
  obtain ⟨e, he⟩ := he
  obtain ⟨d', hd', hl, hde⟩ := he.of_succ
  obtain rfl := Option.some.inj (hd.1.symm.trans hd'.1)
  intro ha
  cases ha with
  | found hm => exact hl _ hm
  | absent _ hs => rw [hs] at hde; cases hde
  | unknown _ hs hn => rw [hs, Option.bind_some, hn] at hde; cases hde

/-- A walk stops within so many steps, or it goes on that far. -/
theorem passes_or_stops (h : Hierarchy) (subsig : String) (c : ClassDecl) (n : Nat) :
    (∃ d, h.Passes subsig c n d) ∨
      ∃ k < n, ∃ d a, h.Passes subsig c k d ∧ h.Stops subsig d a := by
  induction n with
  | zero => exact .inl ⟨c, rfl, fun j hj => absurd hj (Nat.not_lt_zero j)⟩
  | succ n ih =>
      rcases ih with ⟨d, hd⟩ | ⟨k, hk, hstop⟩
      · rcases h.stops_or_goes_on subsig d with ⟨a, ha⟩ | ⟨hl, e, he⟩
        · exact .inr ⟨n, Nat.lt_succ_self n, d, a, hd, ha⟩
        · exact .inl ⟨e, hd.succ hl he⟩
      · exact .inr ⟨k, Nat.lt_succ_of_lt hk, hstop⟩

/-- Looking for a method never ends: no amount of fuel is enough. -/
def Endless (h : Hierarchy) (subsig : String) (c : ClassDecl) : Prop :=
  ∀ fuel, ∃ name, h.dispatchFrom subsig fuel c = .error (.endlessChain name)

theorem Stops.ne_endlessChain (ha : h.Stops subsig d a) (name : String) :
    a ≠ .error (.endlessChain name) := by
  rintro rfl
  cases ha

theorem exhausts_iff (h : Hierarchy) (subsig : String) (c : ClassDecl) (fuel : Nat) :
    (∃ name, h.dispatchFrom subsig fuel c = .error (.endlessChain name)) ↔
      ∃ d, h.Passes subsig c fuel d := by
  constructor
  · rintro ⟨name, hname⟩
    rcases h.passes_or_stops subsig c fuel with hd | ⟨k, hk, d, a, hd, ha⟩
    · exact hd
    · exact absurd ((hd.dispatchFrom_of_stops ha hk).symm.trans hname) (ha.ne_endlessChain name)
  · rintro ⟨d, hd⟩
    exact ⟨d.name, hd.dispatchFrom_add 0⟩

theorem endless_iff_passes : h.Endless subsig c ↔ ∀ n, ∃ d, h.Passes subsig c n d :=
  forall_congr' (h.exhausts_iff subsig c)

def LacksThroughout (h : Hierarchy) (subsig : String) (c : ClassDecl) : Prop :=
  ∀ k d, h.ancestor? c k = some d → d.Lacks subsig

theorem endless_iff_circles :
    h.Endless subsig c ↔ h.LacksThroughout subsig c ∧ h.Circles c := by
  rw [endless_iff_passes]
  constructor
  · intro hpass
    refine ⟨fun k d hd => ?_, ?_⟩
    · obtain ⟨e, he⟩ := hpass (k + 1)
      exact he.2 k (Nat.lt_succ_self k) d hd
    · obtain ⟨d, hd⟩ := hpass (h.size + 1)
      obtain ⟨j, k, hjk, -, hcircle⟩ := circles_of_long hd.1
      exact ⟨j, k, hjk, hcircle⟩
  · rintro ⟨hl, hc⟩ n
    obtain ⟨d, hd⟩ := hc.exists_ancestor? n
    exact ⟨d, hd, fun j _ e he => hl j e he⟩

/-- Fuel for one class more than there are is as good as any amount. -/
theorem endless_of_passes (hd : h.Passes subsig c (h.size + 1) d) : h.Endless subsig c := by
  obtain ⟨j, k, hjk, hk, hcircle⟩ := circles_of_long hd.1
  refine endless_iff_circles.2 ⟨fun n e he => ?_, j, k, hjk, hcircle⟩
  obtain ⟨f, hj, hkf⟩ := hcircle
  obtain ⟨i, hi, heq⟩ := exists_lt_of_circle hjk (hj.trans hkf.symm) n
  exact hd.2 i (Nat.lt_of_lt_of_le hi hk) e (heq.symm.trans he)

theorem exhausts_dispatch_iff :
    (∃ name, h.dispatch c subsig = .error (.endlessChain name)) ↔ h.Endless subsig c := by
  refine ⟨fun hd => ?_, fun he => he (h.size + 1)⟩
  obtain ⟨d, hd⟩ := (h.exhausts_iff subsig c (h.size + 1)).1 hd
  exact endless_of_passes hd

theorem Passes.lt_of_stops (hd : h.Passes subsig c k d) (ha : h.Stops subsig d a) :
    k < h.size + 1 := by
  refine Nat.lt_of_not_le fun hk => ?_
  obtain ⟨e, he⟩ := hd.le hk
  exact hd.not_stops (endless_iff_passes.1 (endless_of_passes he) (k + 1)) ha

theorem exists_stops (hend : ¬ h.Endless subsig c) :
    ∃ k d, h.Passes subsig c k d ∧ h.Stops subsig d (h.dispatch c subsig) := by
  rcases h.passes_or_stops subsig c (h.size + 1) with ⟨d, hd⟩ | ⟨k, hk, d, a, hd, hstop⟩
  · exact absurd (endless_of_passes hd) hend
  · refine ⟨k, d, hd, ?_⟩
    rwa [dispatch, hd.dispatchFrom_of_stops hstop hk]

theorem dispatch_eq_iff (ha : ∀ name, a ≠ .error (.endlessChain name)) :
    h.dispatch c subsig = a ↔ ∃ k d, h.Passes subsig c k d ∧ h.Stops subsig d a := by
  constructor
  · rintro rfl
    refine exists_stops fun hend => ?_
    obtain ⟨name, hname⟩ := exhausts_dispatch_iff.2 hend
    exact ha name hname
  · rintro ⟨k, d, hd, hstop⟩
    exact hd.dispatchFrom_of_stops hstop (hd.lt_of_stops hstop)

theorem Passes.lacksThroughout (hd : h.Passes subsig c k d) (hl : d.Lacks subsig)
    (hend : d.superclass.bind h.classNamed? = none) : h.LacksThroughout subsig c := by
  intro j e he
  rcases Nat.lt_trichotomy j k with hj | rfl | hj
  · exact hd.2 j hj e he
  · obtain rfl := Option.some.inj (hd.1.symm.trans he)
    exact hl
  · obtain ⟨f, hf⟩ := exists_ancestor?_of_le he hj
    rw [ancestor?, hd.1, Option.bind_some, hend] at hf
    cases hf

def Nearest (h : Hierarchy) (subsig : String) (c : ClassDecl) (m : Method) : Prop :=
  ∃ k d, h.ancestor? c k = some d ∧ d.Declares subsig m ∧
    ∀ j < k, ∀ e, h.ancestor? c j = some e → e.Lacks subsig

/-- What dispatch answers, as the chain of superclasses has it. -/
structure Dispatches (h : Hierarchy) (c : ClassDecl) (subsig : String) : Prop where
  found_iff : ∀ m, h.dispatch c subsig = .ok (some m) ↔ h.Nearest subsig c m
  found : ∀ k d m, h.ancestor? c k = some d → d.Declares subsig m →
    ∃ m', h.dispatch c subsig = .ok (some m')
  absent_iff : h.dispatch c subsig = .ok none ↔
    h.LacksThroughout subsig c ∧ ∃ k d, h.ancestor? c k = some d ∧ d.superclass = none
  unknown_iff : ∀ name referrer, h.dispatch c subsig = .error (.unknownClass name referrer) ↔
    h.LacksThroughout subsig c ∧ ∃ k d, h.ancestor? c k = some d ∧ d.name = referrer ∧
      d.superclass = some name ∧ h.classNamed? name = none
  endless_iff : h.Endless subsig c ↔ h.LacksThroughout subsig c ∧ h.Circles c
  exhausts_iff : (∃ name, h.dispatch c subsig = .error (.endlessChain name)) ↔ h.Endless subsig c
  settled : ¬ h.Endless subsig c →
    ∀ fuel, h.size < fuel → h.dispatchFrom subsig fuel c = h.dispatch c subsig

theorem nearest_iff {m : Method} : h.dispatch c subsig = .ok (some m) ↔ h.Nearest subsig c m := by
  rw [dispatch_eq_iff (a := .ok (some m)) (fun _ h => nomatch h)]
  constructor
  · rintro ⟨k, d, hd, hstop⟩
    cases hstop with
    | found hm => exact ⟨k, d, hd.1, hm, hd.2⟩
  · rintro ⟨k, d, hd, hm, hl⟩
    exact ⟨k, d, ⟨hd, hl⟩, .found hm⟩

theorem exists_nearest {m : Method} (hd : h.ancestor? c k = some d) (hm : d.Declares subsig m) :
    ∃ m', h.Nearest subsig c m' := by
  classical
  have hex : ∃ k d m, h.ancestor? c k = some d ∧ d.Declares subsig m := ⟨k, d, m, hd, hm⟩
  obtain ⟨e, m', he, hm'⟩ := Nat.find_spec hex
  exact ⟨m', Nat.find hex, e, he, hm', fun j hj f hf m hm =>
    Nat.find_min hex hj ⟨f, m, hf, hm⟩⟩

/-- Dispatch finds the nearest concrete method, and it looks without end only if the superclasses run
in a circle that offers none. -/
theorem dispatch_exact (h : Hierarchy) (c : ClassDecl) (subsig : String) :
    h.Dispatches c subsig where
  found_iff _ := nearest_iff
  found k d m hd hm := by
    obtain ⟨m', hm'⟩ := exists_nearest hd hm
    exact ⟨m', nearest_iff.2 hm'⟩
  absent_iff := by
    rw [dispatch_eq_iff (a := .ok none) (fun _ h => nomatch h)]
    constructor
    · rintro ⟨k, d, hd, hstop⟩
      cases hstop with
      | absent hl hs => exact ⟨hd.lacksThroughout hl (by rw [hs]; rfl), k, d, hd.1, hs⟩
    · rintro ⟨hl, k, d, hd, hs⟩
      exact ⟨k, d, ⟨hd, fun j _ e he => hl j e he⟩, .absent (hl k d hd) hs⟩
  unknown_iff name referrer := by
    rw [dispatch_eq_iff (a := .error (.unknownClass name referrer)) (fun _ h => nomatch h)]
    constructor
    · rintro ⟨k, d, hd, hstop⟩
      cases hstop with
      | unknown hl hs hn =>
          exact ⟨hd.lacksThroughout hl (by rw [hs]; exact hn), k, d, hd.1, rfl, hs, hn⟩
    · rintro ⟨hl, k, d, hd, rfl, hs, hn⟩
      exact ⟨k, d, ⟨hd, fun j _ e he => hl j e he⟩, .unknown (hl k d hd) hs hn⟩
  endless_iff := endless_iff_circles
  exhausts_iff := exhausts_dispatch_iff
  settled hend fuel hfuel := by
    obtain ⟨k, d, hd, hstop⟩ := exists_stops hend
    exact hd.dispatchFrom_of_stops hstop (Nat.lt_of_lt_of_le (hd.lt_of_stops hstop) hfuel)

end Hierarchy

end Dataflow
