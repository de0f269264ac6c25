import Dataflow.Proofs.CallGraph.Reach
import Dataflow.Proofs.OrderedMap

namespace Dataflow

namespace ClassDecl

variable {c c' : ClassDecl}

def Owns (c : ClassDecl) : Prop := ∀ e ∈ c.methods.entries, e.2.ref = ⟨c.name, e.1⟩

theorem Owns.ref_eq (ho : c.Owns) {subsig : String} {m : Method} (hm : c.method? subsig = some m) :
    m.ref = ⟨c.name, subsig⟩ :=
  ho (subsig, m) ((OrderedMap.get?_eq_some_iff _ _ _).1 hm)

theorem owns_insert (ho : c.Owns) {m : Method} (hm : m.ref.className = c.name) :
    Owns { c with methods := c.methods.insert m.ref.subsig m } := by
  rintro ⟨subsig, m'⟩ he
  have hget := (OrderedMap.get?_eq_some_iff _ _ _).2 he
  rw [OrderedMap.get?_insert] at hget
  split at hget
  · cases hget
    rw [‹subsig = m.ref.subsig›, ← hm]
  · exact ho.ref_eq hget

theorem ref_of_withBody {m m' : Method} {b : Body} (hm : m.withBody b = .ok m') : m'.ref = m.ref := by
  rw [Method.withBody] at hm
  split at hm
  · cases hm
  · cases hm
    rfl

theorem Owns.addMethod (ho : c.Owns) {s : MethodSpec} (hc : c.addMethod s = .ok c') : c'.Owns := by
  obtain ⟨m, hm, hc⟩ := bind_eq_ok_iff.1 hc
  have href : m.ref = ⟨c.name, s.subsig⟩ := by
    rw [makeMethod] at hm
    split at hm
    · cases hm
      rfl
    · exact ref_of_withBody hm
  split at hc
  · cases hc
  · cases hc
    have hown := owns_insert ho (m := m) (by rw [href])
    rwa [href] at hown

theorem Owns.setBody (ho : c.Owns) {m : Method} {b : Body} (hm : m.ref.className = c.name)
    (hc : c.setBody m b = .ok c') : c'.Owns := by
  obtain ⟨m', hm', hc⟩ := bind_eq_ok_iff.1 hc
  cases hc
  exact owns_insert ho (by rw [ref_of_withBody hm', hm])

/-- The declarations that come of a class without methods as methods are declared in it and given
their bodies. -/
inductive Declared : ClassDecl → Prop
  | bare {d} (h : d.methods = .empty) : Declared d
  | addMethod {d e} {s : MethodSpec} (h : Declared d) (he : d.addMethod s = .ok e) : Declared e
  | setBody {d e} {m : Method} {b : Body} (h : Declared d) (hm : m.ref.className = d.name)
      (he : d.setBody m b = .ok e) : Declared e

theorem Declared.owns (h : c.Declared) : c.Owns := by
  induction h with
  | bare h =>
      rw [Owns, h]
      exact fun _ he => absurd he List.not_mem_nil
  | addMethod _ he ih => exact ih.addMethod he
  | setBody _ hm he ih => exact ih.setBody hm he

/-- Among the classes of a list, what a class names is there, and what it lists as an interface is
one. -/
structure WellNamed (l : List ClassDecl) (c : ClassDecl) : Prop where
  superclass : ∀ name, c.superclass = some name → ∃ d ∈ l, d.name = name
  interface : ∀ name ∈ c.interfaces, ∃ d ∈ l, d.name = name ∧ d.isInterface = true

end ClassDecl

namespace Hierarchy

variable {h h' : Hierarchy} {c : ClassDecl} {name : String}

def Named (h : Hierarchy) : Prop := ∀ e ∈ h.classes.entries, e.2.name = e.1

theorem named_empty : Named {} := fun _ he => nomatch he

theorem Named.classNamed?_eq_some_iff (hn : h.Named) :
    h.classNamed? name = some c ↔ c ∈ h.decls ∧ c.name = name := by
  constructor
  · intro hc
    exact ⟨mem_decls_of_classNamed? hc, hn (name, c) ((OrderedMap.get?_eq_some_iff _ _ _).1 hc)⟩
  · rintro ⟨hc, rfl⟩
    obtain ⟨e, he, rfl⟩ := List.mem_map.1 hc
    rw [hn e he]
    exact (OrderedMap.get?_eq_some_iff _ _ _).2 he

theorem Named.insert (hn : h.Named) (c : ClassDecl) : Named ⟨h.classes.insert c.name c⟩ := by
  rintro ⟨key, d⟩ he
  have hget := (OrderedMap.get?_eq_some_iff _ _ _).2 he
  rw [OrderedMap.get?_insert] at hget
  split at hget
  · cases hget
    exact Eq.symm ‹_›
  · exact (hn.classNamed?_eq_some_iff.1 hget).2

theorem Named.add (hn : h.Named) (ha : h.add c = .ok h') : h'.Named := by
  rw [Hierarchy.add] at ha
  split at ha
  · cases ha
  · cases ha
    exact hn.insert c

theorem Named.refresh (hn : h.Named) (c : ClassDecl) : (h.refresh c).Named := by
  rw [Hierarchy.refresh]
  split
  · exact hn.insert c
  · exact hn

theorem Named.contains_iff (hn : h.Named) :
    h.contains name = true ↔ name ∈ h.decls.map ClassDecl.name := by
  rw [Hierarchy.contains, OrderedMap.contains, Option.isSome_iff_exists, List.mem_map]
  exact exists_congr fun c => hn.classNamed?_eq_some_iff

theorem add_of_contains (hc : h.contains c.name = true) :
    h.add c = .error (.duplicateClass c.name) := by
  rw [add, if_pos hc]

theorem exists_add (hc : h.contains c.name ≠ true) :
    ∃ h', h.add c = .ok h' ∧ h'.decls = h.decls ++ [c] := by
  have hkey : c.name ∉ h.classes.entries.map Prod.fst :=
    fun hm => hc ((OrderedMap.mem_keys_iff _ _).1 hm)
  have hentries : (h.classes.insert c.name c).entries = h.classes.entries ++ [(c.name, c)] :=
    OrderedMap.bind_of_not_mem hkey c
  refine ⟨_, by rw [add, if_neg hc], ?_⟩
  rw [decls, OrderedMap.values, hentries, List.map_append]
  rfl

/-- A store of classes in order: each under its name, with the methods that are its own. -/
structure Kept (h : Hierarchy) : Prop where
  named : h.Named
  owned : ∀ c ∈ h.decls, c.Owns

theorem kept_empty : Kept {} := ⟨named_empty, fun _ hc => nomatch hc⟩

theorem Kept.add (hk : h.Kept) (ho : c.Owns) (ha : h.add c = .ok h') : h'.Kept := by
  refine ⟨hk.named.add ha, fun d hd => ?_⟩
  by_cases hc : h.contains c.name = true
  · rw [add_of_contains hc] at ha
    cases ha
  · obtain ⟨g, hg, hdecls⟩ := exists_add hc
    rw [hg] at ha
    cases ha
    rw [hdecls] at hd
    rcases List.mem_append.1 hd with hd | hd
    · exact hk.owned d hd
    · obtain rfl := List.mem_singleton.1 hd
      exact ho

theorem Kept.refresh (hk : h.Kept) (ho : c.Owns) : (h.refresh c).Kept := by
  refine ⟨hk.named.refresh c, fun d hd => ?_⟩
  have hget := (hk.named.refresh c).classNamed?_eq_some_iff.2 ⟨hd, rfl⟩
  rw [Hierarchy.refresh] at hget
  split at hget
  · rw [classNamed?, OrderedMap.get?_insert] at hget
    split at hget
    · cases hget
      exact ho
    · exact hk.owned d (mem_decls_of_classNamed? hget)
  · exact hk.owned d (mem_decls_of_classNamed? hget)

/-- The stores that come of the empty one as classes are added to it and changed later. -/
inductive Stored : Hierarchy → Prop
  | empty : Stored {}
  | add {g g'} {d : ClassDecl} (hs : Stored g) (hd : d.Declared) (ha : g.add d = .ok g') : Stored g'
  | refresh {g} {d : ClassDecl} (hs : Stored g) (hd : d.Declared) : Stored (g.refresh d)

/-- Whatever store comes of additions and later changes, it is in order. -/
theorem Stored.kept (hs : h.Stored) : h.Kept := by
  induction hs with
  | empty => exact kept_empty
  | add _ hd ha ih => exact ih.add hd.owns ha
  | refresh _ hd ih => exact ih.refresh hd.owns

theorem Named.superclass?_eq_ok_iff (hn : h.Named) :
    (∃ o, h.superclass? c = .ok o) ↔
      ∀ name, c.superclass = some name → ∃ d ∈ h.decls, d.name = name := by
  rw [superclass?]
  cases c.superclass with
  | none => simp
  | some name =>
      have hiff : (∃ d, h.classNamed? name = some d) ↔ ∃ d ∈ h.decls, d.name = name :=
        exists_congr fun d => hn.classNamed?_eq_some_iff
      simp only [Option.some.injEq, forall_eq', ← hiff, required]
      cases h.classNamed? name <;> simp [Except.map]

theorem Named.checkInterface_eq_ok_iff (hn : h.Named) :
    h.checkInterface c name = .ok () ↔ ∃ d ∈ h.decls, d.name = name ∧ d.isInterface = true := by
  have hiff : (∃ d, h.classNamed? name = some d ∧ d.isInterface = true) ↔
      ∃ d ∈ h.decls, d.name = name ∧ d.isInterface = true :=
    exists_congr fun d => by rw [hn.classNamed?_eq_some_iff, and_assoc]
  rw [← hiff, checkInterface, required]
  cases h.classNamed? name with
  | none => simp [bind, Except.bind]
  | some d => by_cases hd : d.isInterface = true <;> simp [bind, Except.bind, hd]

theorem Named.checkClass_eq_ok_iff (hn : h.Named) :
    h.checkClass c = .ok () ↔ c.WellNamed h.decls := by
  have hforM : c.interfaces.forM (h.checkInterface c) = .ok () ↔
      ∀ name ∈ c.interfaces, ∃ d ∈ h.decls, d.name = name ∧ d.isInterface = true := by
    rw [forM_eq_ok_iff]
    exact forall₂_congr fun name _ => hn.checkInterface_eq_ok_iff
  rw [checkClass, bind_eq_ok_iff, exists_and_right, hn.superclass?_eq_ok_iff, hforM]
  exact ⟨fun hc => ⟨hc.1, hc.2⟩, fun hc => ⟨hc.superclass, hc.interface⟩⟩

theorem Named.check_eq_ok_iff (hn : h.Named) :
    h.check = .ok () ↔ ∀ c ∈ h.decls, c.WellNamed h.decls := by
  rw [check, forM_eq_ok_iff]
  exact forall₂_congr fun c _ => hn.checkClass_eq_ok_iff

end Hierarchy

end Dataflow
