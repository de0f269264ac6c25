import Dataflow.Proofs.CallGraph.Resolves
import Dataflow.Proofs.FixedPoint.Closure
import Dataflow.Proofs.Program.Dispatch
import Dataflow.Proofs.Program.Relations

namespace Dataflow

namespace Hierarchy

variable {h : Hierarchy} {c d : ClassDecl} {site : Site} {call : Call} {l : List MethodRef}

def Names (h : Hierarchy) (d c : ClassDecl) : Prop :=
  d ∈ h.decls ∧ (d.superclass = some c.name ∨ c.name ∈ d.interfaces)

def SubtypeOf (h : Hierarchy) : ClassDecl → ClassDecl → Prop := Relation.ReflTransGen h.Names

theorem SubtypeOf.mem_decls (hd : h.SubtypeOf d c) (hc : c ∈ h.decls) : d ∈ h.decls := by
  rcases Relation.ReflTransGen.cases_head hd with rfl | ⟨e, he, -⟩
  · exact hc
  · exact he.1

theorem mem_directSubtypes_iff {sub name : String} : sub ∈ h.directSubtypes name ↔
    ∃ d ∈ h.decls, d.name = sub ∧ (d.superclass = some name ∨ name ∈ d.interfaces) := by
  have hmentions : ∀ d : ClassDecl, (Relations.mentions d .subclasses name ≠ 0 ∨
      Relations.mentions d .implementors name ≠ 0) ∨ Relations.mentions d .subinterfaces name ≠ 0 ↔
        d.superclass = some name ∨ name ∈ d.interfaces := by
    intro d
    cases hi : d.isInterface <;> simp [Relations.mentions, hi, List.count_eq_zero]
  simp only [Relations.directSubtypes_eq_scan, List.mem_append, Relations.mem_scan_iff, ← hmentions]
  grind

theorem reaches_iff (h : Hierarchy) (c : ClassDecl) (name : String) :
    Relation.ReflTransGen (fun a b => b ∈ h.directSubtypes a) c.name name ↔
      ∃ d, h.SubtypeOf d c ∧ d.name = name := by
  constructor
  · intro hreach
    induction hreach with
    | refl => exact ⟨c, .refl, rfl⟩
    | tail _ hstep ih =>
        obtain ⟨e, he, rfl⟩ := ih
        obtain ⟨d, hd, rfl, hnames⟩ := mem_directSubtypes_iff.1 hstep
        exact ⟨d, .head ⟨hd, hnames⟩ he, rfl⟩
  · rintro ⟨d, hd, rfl⟩
    induction hd using Relation.ReflTransGen.head_induction_on with
    | refl => exact .refl
    | head hnames _ ih =>
        exact ih.tail (mem_directSubtypes_iff.2 ⟨_, hnames.1, rfl, hnames.2⟩)

def pool (h : Hierarchy) (name : String) : List String := name :: h.decls.map ClassDecl.name

theorem directSubtypes_subset_pool (h : Hierarchy) (name a : String) :
    h.directSubtypes a ⊆ h.pool name := by
  intro sub hsub
  obtain ⟨d, hd, rfl, -⟩ := mem_directSubtypes_iff.1 hsub
  exact List.mem_cons_of_mem name (List.mem_map_of_mem hd)

theorem length_pool (h : Hierarchy) (name : String) : (h.pool name).length = h.size + 1 := by
  rw [pool, List.length_cons, List.length_map, decls, OrderedMap.values, List.length_map]
  rfl

theorem closure_eq_cons (h : Hierarchy) (name : String) (fuel : Nat) :
    closure h.directSubtypes (fuel + 1) [] [name] =
      name :: (closure h.directSubtypes (fuel + 1) [] [name]).tail := by
  obtain ⟨rest, hrest⟩ := prefix_closure h.directSubtypes fuel [name] _
  rw [closure, List.nil_append, ← hrest]
  rfl

theorem nodup_cons_subtypes (h : Hierarchy) (name : String) : (name :: h.subtypes name).Nodup := by
  rw [subtypes, ← closure_eq_cons]
  exact (exploring_start (List.mem_cons_self (l := h.decls.map _))).nodup_closure
    (fun a _ => h.directSubtypes_subset_pool name a) _

theorem mem_cons_subtypes_iff (h : Hierarchy) (c : ClassDecl) (name : String) :
    name ∈ c.name :: h.subtypes c.name ↔ ∃ d, h.SubtypeOf d c ∧ d.name = name := by
  rw [subtypes, ← closure_eq_cons, ← h.reaches_iff c name]
  exact mem_closure_iff (fun a _ => h.directSubtypes_subset_pool c.name a) List.mem_cons_self
    (h.length_pool c.name).le

/-- The search for subtypes ends: nothing is left to be looked at. -/
theorem subtypes_exhausted (h : Hierarchy) (name : String) (more : Nat) :
    (closure h.directSubtypes (h.size + 1 + more) [] [name]).tail = h.subtypes name := by
  have hadd := (exploring_start (List.mem_cons_self (l := h.decls.map _))).closure_add
    (fun a _ => h.directSubtypes_subset_pool name a) (Nat.le_add_left_of_le (h.length_pool name).le) more
  rw [hadd, subtypes]

/-- A call that runs what some subtype of a class would run. -/
def Receives (h : Hierarchy) (call : Call) (c : ClassDecl) : Prop :=
  (call.kind = .virtual ∨ call.kind = .interface) ∧ h.classNamed? call.method.className = some c

theorem Receives.resolve_eq (hr : h.Receives call c) (site : Site) :
    h.resolve site call = h.dispatchAll c.name call.method.subsig := by
  have hclass : h.receiverClass site call = .ok c := by rw [receiverClass, hr.2]
  rw [resolve, hclass]
  rcases hr.1 with hk | hk <;> rw [hk] <;> rfl

theorem dispatchNamed_eq (hn : h.Named) (hd : d ∈ h.decls) (subsig : String) :
    h.dispatchNamed subsig d.name = (h.dispatch d subsig).map (Option.map Method.ref) := by
  rw [dispatchNamed]
  simp only [hn.classNamed?_eq_some_iff.2 ⟨hd, rfl⟩]
  cases h.dispatch d subsig <;> rfl

theorem dispatch_ok_of_not_endless (hn : h.Named) (hw : ∀ c ∈ h.decls, c.WellNamed h.decls)
    (hd : d ∈ h.decls) {subsig : String} (hend : ¬ h.Endless subsig d) :
    ∃ o, h.dispatch d subsig = .ok o := by
  obtain ⟨k, e, he, hstop⟩ := exists_stops hend
  have hmem : e ∈ h.decls := by
    cases k with
    | zero =>
        obtain rfl := Option.some.inj he.1
        exact hd
    | succ k => exact mem_decls_of_ancestor? he.1
  generalize h.dispatch d subsig = a at hstop
  cases hstop with
  | found => exact ⟨_, rfl⟩
  | absent => exact ⟨_, rfl⟩
  | unknown _ hs hname =>
      obtain ⟨f, hf, hfname⟩ := (hw e hmem).superclass _ hs
      rw [hn.classNamed?_eq_some_iff.2 ⟨hf, hfname⟩] at hname
      cases hname

theorem Receives.resolve_ok (hr : h.Receives call c) (hn : h.Named)
    (hw : ∀ c ∈ h.decls, c.WellNamed h.decls)
    (hend : ∀ d, h.SubtypeOf d c → ¬ h.Endless call.method.subsig d) (site : Site) :
    ∃ l, h.resolve site call = .ok l := by
  have hall : ∀ name ∈ c.name :: h.subtypes c.name,
      ∃ o, h.dispatchNamed call.method.subsig name = .ok o := by
    intro name hname
    obtain ⟨d, hd, rfl⟩ := (h.mem_cons_subtypes_iff c name).1 hname
    have hmem := hd.mem_decls (mem_decls_of_classNamed? hr.2)
    obtain ⟨o, ho⟩ := dispatch_ok_of_not_endless hn hw hmem (hend d hd)
    exact ⟨_, by rw [dispatchNamed_eq hn hmem, ho]; rfl⟩
  obtain ⟨found, hfound⟩ := exists_mapM_eq_ok hall
  rw [hr.resolve_eq]
  exact ⟨_, bind_eq_ok_iff.2 ⟨(), hn.check_eq_ok_iff.2 hw, bind_eq_ok_iff.2 ⟨found, hfound, rfl⟩⟩⟩

theorem Receives.mem_resolve_iff (hr : h.Receives call c) (hn : h.Named)
    (hl : h.resolve site call = .ok l) (m : MethodRef) : m ∈ l ↔ ∃ d e, h.SubtypeOf d c ∧
      h.dispatch d call.method.subsig = .ok (some e) ∧ e.ref = m := by
  rw [hr.resolve_eq] at hl
  obtain ⟨-, -, hl⟩ := bind_eq_ok_iff.1 hl
  obtain ⟨found, hfound, hl⟩ := bind_eq_ok_iff.1 hl
  cases hl
  have hc := mem_decls_of_classNamed? hr.2
  have hnamed : ∀ d, h.SubtypeOf d c → ∀ o, h.dispatchNamed call.method.subsig d.name = .ok o ↔
      ∃ e, h.dispatch d call.method.subsig = .ok e ∧ e.map Method.ref = o := by
    intro d hd o
    rw [dispatchNamed_eq hn (hd.mem_decls hc)]
    cases h.dispatch d call.method.subsig <;> simp [Except.map]
  rw [List.mem_eraseDups, List.mem_filterMap]
  constructor
  · rintro ⟨o, ho, rfl⟩
    obtain ⟨name, hname, ho⟩ := exists_of_mem_mapM hfound ho
    obtain ⟨d, hd, rfl⟩ := (h.mem_cons_subtypes_iff c name).1 hname
    obtain ⟨o, he, hom⟩ := (hnamed d hd _).1 ho
    obtain ⟨e, rfl, hem⟩ := Option.map_eq_some_iff.1 (hom : o.map Method.ref = some m)
    exact ⟨d, e, hd, he, hem⟩
  · rintro ⟨d, e, hd, he, rfl⟩
    have hname := (h.mem_cons_subtypes_iff c d.name).2 ⟨d, hd, rfl⟩
    obtain ⟨o, ho, hdo⟩ := exists_mem_of_mapM hfound hname
    have heo := (hnamed d hd _).2 ⟨some e, he, rfl⟩
    rw [hdo] at heo
    cases heo
    exact ⟨_, ho, rfl⟩

theorem Kept.method?_ref (hk : h.Kept) (hd : d ∈ h.decls) {subsig : String} {e : Method}
    (he : h.dispatch d subsig = .ok (some e)) : h.method? e.ref = some e := by
  obtain ⟨k, f, hf, hm, -⟩ := nearest_iff.1 he
  have hmem : f ∈ h.decls := by
    cases k with
    | zero =>
        obtain rfl := Option.some.inj hf
        exact hd
    | succ k => exact mem_decls_of_ancestor? hf
  rw [(hk.owned f hmem).ref_eq hm.1, method?, hk.named.classNamed?_eq_some_iff.2 ⟨hmem, rfl⟩]
  exact hm.1

/-- The subtypes of a class, and the calls that can be received by any of them. -/
structure CoversSubtypes (h : Hierarchy) (c : ClassDecl) : Prop where
  nodup : (h.subtypes c.name).Nodup
  mem_iff : ∀ name, name ∈ h.subtypes c.name ↔ name ≠ c.name ∧ ∃ d, h.SubtypeOf d c ∧ d.name = name
  exhausted : ∀ more,
    (closure h.directSubtypes (h.size + 1 + more) [] [c.name]).tail = h.subtypes c.name
  resolved : ∀ site call, h.Receives call c →
    (∀ d, h.SubtypeOf d c → ¬ h.Endless call.method.subsig d) → ∃ l, h.resolve site call = .ok l
  nodup_targets : ∀ site call l, h.Receives call c → h.resolve site call = .ok l → l.Nodup
  mem_targets_iff : ∀ site call l, h.Receives call c → h.resolve site call = .ok l →
    ∀ m, m ∈ l ↔ ∃ d e, h.SubtypeOf d c ∧ h.dispatch d call.method.subsig = .ok (some e) ∧ e.ref = m
  method_of_ref : ∀ d subsig e, h.SubtypeOf d c → h.dispatch d subsig = .ok (some e) →
    h.method? e.ref = some e
  targets_subset : ∀ site call l, h.Receives call c → h.resolve site call = .ok l →
    ∀ d site' call' l', h.SubtypeOf d c → h.Receives call' d →
      call'.method.subsig = call.method.subsig → h.resolve site' call' = .ok l' → l' ⊆ l

/-- A call on a class reaches what any subtype would run, however the types are tangled. -/
theorem subtypes_exact (h : Hierarchy) (hk : h.Kept) (hw : ∀ c ∈ h.decls, c.WellNamed h.decls)
    (c : ClassDecl) (hc : c ∈ h.decls) : h.CoversSubtypes c where
  nodup := (List.nodup_cons.1 (h.nodup_cons_subtypes c.name)).2
  mem_iff name := by
    rw [← h.mem_cons_subtypes_iff c name, List.mem_cons, and_or_left]
    have hself := (List.nodup_cons.1 (h.nodup_cons_subtypes c.name)).1
    constructor
    · exact fun hname => .inr ⟨fun heq => hself (heq ▸ hname), hname⟩
    · rintro (⟨hne, heq⟩ | ⟨-, hname⟩)
      · exact absurd heq hne
      · exact hname
  exhausted := h.subtypes_exhausted c.name
  resolved site _ hr hend := hr.resolve_ok hk.named hw hend site
  nodup_targets _ _ _ _ hl := nodup_of_resolve hl
  mem_targets_iff _ _ _ hr hl := hr.mem_resolve_iff hk.named hl
  method_of_ref _ _ _ hd he := hk.method?_ref (hd.mem_decls hc) he
  targets_subset site call l hr hl d site' call' l' hd hr' hsubsig hl' m hm := by
    obtain ⟨e, f, he, hf, rfl⟩ := (hr'.mem_resolve_iff hk.named hl' m).1 hm
    rw [hsubsig] at hf
    exact (hr.mem_resolve_iff hk.named hl _).2 ⟨e, f, Relation.ReflTransGen.trans he hd, hf, rfl⟩

end Hierarchy

namespace Tangle

def area : String := "int area()"

def method (name : String) (isAbstract : Bool) : OrderedMap String Method :=
  .ofList [(area, { ref := ⟨name, area⟩, isAbstract })]

def shape : ClassDecl :=
  { serial := 0, name := "Shape", isInterface := true, methods := method "Shape" true }

def classes : List ClassDecl := [
  shape,
  { serial := 1, name := "Solid", isInterface := true, interfaces := ["Hollow"] },
  { serial := 2, name := "Hollow", isInterface := true, interfaces := ["Solid", "Shape"] },
  { serial := 3, name := "Box", interfaces := ["Shape", "Solid"], methods := method "Box" false },
  { serial := 4
    name := "Cube"
    superclass := some "Box"
    interfaces := ["Hollow"]
    methods := method "Cube" false },
  { serial := 5, name := "Crate", superclass := some "Box", methods := method "Crate" true }]

def hierarchy : Hierarchy := ⟨.ofList (classes.map (fun c => (c.name, c)))⟩

def site : Site := ⟨⟨"Main", "void main()"⟩, 0⟩

def call : Call := ⟨.interface, ⟨"Shape", area⟩, [], none⟩

theorem kept_hierarchy : hierarchy.Kept where
  named := by
    unfold Hierarchy.Named
    decide
  owned := by
    unfold ClassDecl.Owns
    decide

theorem wellNamed_hierarchy : ∀ c ∈ hierarchy.decls, c.WellNamed hierarchy.decls :=
  kept_hierarchy.named.check_eq_ok_iff.1 rfl

theorem subtypes_hierarchy :
    hierarchy.subtypes "Shape" = ["Box", "Hollow", "Cube", "Crate", "Solid"] := rfl

theorem resolve_hierarchy :
    hierarchy.resolve site call = .ok [⟨"Box", area⟩, ⟨"Cube", area⟩] := rfl

theorem not_endless_hierarchy (d : ClassDecl) (hd : hierarchy.SubtypeOf d shape) :
    ¬ hierarchy.Endless area d := by
  have hall : ∀ d ∈ hierarchy.decls, (hierarchy.dispatch d area).isOk = true := by decide
  have hok := hall d (hd.mem_decls List.mem_cons_self)
  intro hend
  obtain ⟨name, hname⟩ := Hierarchy.exhausts_dispatch_iff.2 hend
  rw [hname] at hok
  cases hok

theorem subtypes_exact_tangle : hierarchy.Kept ∧
    (∀ c ∈ hierarchy.decls, c.WellNamed hierarchy.decls) ∧ shape ∈ hierarchy.decls ∧
    hierarchy.Receives call shape ∧ hierarchy.CoversSubtypes shape ∧
    hierarchy.subtypes "Shape" = ["Box", "Hollow", "Cube", "Crate", "Solid"] ∧
    (∃ l, hierarchy.resolve site call = .ok l) ∧
    hierarchy.resolve site call = .ok [⟨"Box", area⟩, ⟨"Cube", area⟩] := by
  have hmem : shape ∈ hierarchy.decls := List.mem_cons_self
  have hreceives : hierarchy.Receives call shape := ⟨.inr rfl, rfl⟩
  have hcovers := hierarchy.subtypes_exact kept_hierarchy wellNamed_hierarchy shape hmem
  exact ⟨kept_hierarchy, wellNamed_hierarchy, hmem, hreceives, hcovers, subtypes_hierarchy,
    hcovers.resolved site call hreceives not_endless_hierarchy, resolve_hierarchy⟩

end Tangle

end Dataflow
