import Dataflow.Proofs.Body.Subsignature
import Dataflow.Proofs.OrderedMap
import Dataflow.Proofs.Program.Dispatch

namespace Dataflow

variable {s s' : MethodSpec} {specs : List MethodSpec} {c c' : ClassDecl} {m : Method}

namespace MethodSpec

def Plain (s : MethodSpec) : Prop := PlainSignature s.name s.params s.returns

structure SameSignature (s s' : MethodSpec) : Prop where
  name : s.name = s'.name
  params : s.params = s'.params
  returns : s.returns = s'.returns

theorem Plain.subsig_eq_iff (h : s.Plain) (h' : s'.Plain) :
    s.subsig = s'.subsig ↔ s.SameSignature s' := by
  constructor
  · intro heq
    obtain ⟨hname, hparams, hreturns⟩ := subsignature_inj h h' heq
    exact ⟨hname, hparams, hreturns⟩
  · intro hsame
    rw [subsig, subsig, hsame.name, hsame.params, hsame.returns]

end MethodSpec

namespace ClassDecl

structure Matches (className : String) (s : MethodSpec) (m : Method) : Prop where
  ref : m.ref = ⟨className, s.subsig⟩
  isStatic : m.isStatic = s.isStatic
  isAbstract : m.isAbstract = s.isAbstract

/-- Classes with the methods that were declared in them, one after the other, and given bodies. -/
inductive Made : ClassDecl → List MethodSpec → Prop
  | bare {c : ClassDecl} (h : c.methods = .empty) : Made c []
  | declared {c c' : ClassDecl} {specs : List MethodSpec} {s : MethodSpec} (h : Made c specs)
      (hs : s.Plain) (hc : c.addMethod s = .ok c') : Made c' (specs ++ [s])
  | embodied {c c' : ClassDecl} {specs : List MethodSpec} {m : Method} {b : Body} (h : Made c specs)
      (hm : c.method? m.ref.subsig = some m) (hc : c.setBody m b = .ok c') : Made c' specs

theorem withBody_eq_ok {m' : Method} {b : Body} (h : m.withBody b = .ok m') :
    m' = { m with body := some b } := by
  rw [Method.withBody] at h
  split at h
  · cases h
  · exact (Except.ok.inj h).symm

theorem Matches.withBody {className : String} {m' : Method} {b : Body} (h : Matches className s m)
    (hm : m.withBody b = .ok m') : Matches className s m' := by
  rw [withBody_eq_ok hm]
  exact ⟨h.ref, h.isStatic, h.isAbstract⟩

theorem matches_of_makeMethod (h : c.makeMethod s = .ok m) : Matches c.name s m := by
  rw [makeMethod] at h
  split at h
  · rw [← Except.ok.inj h]
    exact ⟨rfl, rfl, rfl⟩
  · exact Matches.withBody ⟨rfl, rfl, rfl⟩ h

theorem exists_makeMethod_iff :
    (∃ m, c.makeMethod s = .ok m) ↔ ¬ (s.isAbstract = true ∧ s.body.isSome = true) := by
  rw [makeMethod]
  cases s.body with
  | none => simp
  | some b => by_cases ha : s.isAbstract = true <;> simp [Method.withBody, ha]

theorem makeMethod_ne_duplicate {subsig className : String} :
    c.makeMethod s ≠ .error (.duplicateMethod subsig className) := by
  rw [makeMethod]
  split
  · simp
  · rw [Method.withBody]
    split <;> simp

theorem addMethod_eq_ok_iff : c.addMethod s = .ok c' ↔ ∃ m, c.makeMethod s = .ok m ∧
    s.subsig ∉ c.methods.keys ∧ { c with methods := c.methods.insert s.subsig m } = c' := by
  rw [addMethod, bind_eq_ok_iff]
  refine exists_congr fun m => and_congr_right fun _ => ?_
  rw [OrderedMap.mem_keys_iff]
  by_cases hk : c.methods.contains s.subsig = true <;> simp [hk]

theorem exists_addMethod_iff : (∃ c', c.addMethod s = .ok c') ↔
    (∃ m, c.makeMethod s = .ok m) ∧ s.subsig ∉ c.methods.keys := by
  constructor
  · rintro ⟨c', hc⟩
    obtain ⟨m, hm, hk, -⟩ := addMethod_eq_ok_iff.1 hc
    exact ⟨⟨m, hm⟩, hk⟩
  · rintro ⟨⟨m, hm⟩, hk⟩
    exact ⟨_, addMethod_eq_ok_iff.2 ⟨m, hm, hk, rfl⟩⟩

theorem addMethod_eq_duplicate_iff : c.addMethod s = .error (.duplicateMethod s.subsig c.name) ↔
    (∃ m, c.makeMethod s = .ok m) ∧ s.subsig ∈ c.methods.keys := by
  rw [OrderedMap.mem_keys_iff, ← exists_and_right, addMethod, bind_eq_error_iff]
  constructor
  · rintro (hmake | ⟨m, hm, hdup⟩)
    · exact absurd hmake makeMethod_ne_duplicate
    · refine ⟨m, hm, ?_⟩
      by_contra hk
      rw [if_neg hk] at hdup
      cases hdup
  · rintro ⟨m, hm, hk⟩
    exact .inr ⟨m, hm, if_pos hk⟩

structure Holds (c : ClassDecl) (specs : List MethodSpec) : Prop where
  plain : ∀ s ∈ specs, s.Plain
  keys : c.methods.keys = specs.map MethodSpec.subsig
  found : ∀ s ∈ specs, ∀ m, c.method? s.subsig = some m → Matches c.name s m

theorem Holds.addMethod (h : c.Holds specs) (hs : s.Plain) (hc : c.addMethod s = .ok c') :
    c'.Holds (specs ++ [s]) := by
  obtain ⟨m, hm, hk, rfl⟩ := addMethod_eq_ok_iff.1 hc
  refine ⟨?_, ?_, ?_⟩
  · exact List.forall_mem_append.2 ⟨h.plain, List.forall_mem_singleton.2 hs⟩
  · rw [List.map_append, ← h.keys]
    exact OrderedMap.keys_insert_of_not_mem hk m
  · refine List.forall_mem_append.2 ⟨fun s' hs' m' hm' => ?_,
      List.forall_mem_singleton.2 fun m' hm' => ?_⟩
    · have hne : s'.subsig ≠ s.subsig := by
        intro heq
        rw [h.keys, ← heq] at hk
        exact hk (List.mem_map_of_mem hs')
      rw [method?, OrderedMap.get?_insert, if_neg hne] at hm'
      exact h.found s' hs' m' hm'
    · rw [method?, OrderedMap.get?_insert, if_pos rfl] at hm'
      cases hm'
      exact matches_of_makeMethod hm

theorem Holds.setBody {b : Body} (h : c.Holds specs) (hm : c.method? m.ref.subsig = some m)
    (hc : c.setBody m b = .ok c') : c'.Holds specs := by
  obtain ⟨m', hm', hc⟩ := bind_eq_ok_iff.1 hc
  cases hc
  have href : m'.ref = m.ref := by rw [withBody_eq_ok hm']
  rw [href]
  refine ⟨h.plain, ?_, fun s hs o ho => ?_⟩
  · rw [← h.keys]
    exact OrderedMap.keys_insert_of_mem (OrderedMap.mem_keys_iff_exists.2 ⟨m, hm⟩) m'
  · rw [method?, OrderedMap.get?_insert] at ho
    split at ho
    · rename_i hkey
      cases ho
      rw [← hkey] at hm
      exact (h.found s hs m hm).withBody hm'
    · exact h.found s hs o ho

theorem Made.holds (h : Made c specs) : c.Holds specs := by
  induction h with
  | bare h =>
      refine ⟨List.forall_mem_nil _, ?_, List.forall_mem_nil _⟩
      rw [h]
      rfl
  | declared _ hs hc ih => exact ih.addMethod hs hc
  | embodied _ hm hc ih => exact ih.setBody hm hc

theorem Holds.mem_keys_iff (h : c.Holds specs) (hs : s.Plain) :
    s.subsig ∈ c.methods.keys ↔ ∃ s' ∈ specs, s'.SameSignature s := by
  rw [h.keys, List.mem_map]
  exact exists_congr fun s' => and_congr_right fun hs' => (h.plain s' hs').subsig_eq_iff hs

theorem Holds.exists_matches (h : c.Holds specs) (hs : s.Plain) (hm : c.method? s.subsig = some m) :
    ∃ s' ∈ specs, s'.SameSignature s ∧ Matches c.name s' m := by
  have hk : s.subsig ∈ c.methods.keys := OrderedMap.mem_keys_iff_exists.2 ⟨m, hm⟩
  obtain ⟨s', hs', hsame⟩ := (h.mem_keys_iff hs).1 hk
  have hsubsig := ((h.plain s' hs').subsig_eq_iff hs).2 hsame
  exact ⟨s', hs', hsame, h.found s' hs' m (hsubsig ▸ hm)⟩

end ClassDecl

open ClassDecl (Made Matches)

theorem Hierarchy.exists_matches_of_dispatch {h : Hierarchy}
    (hmade : ∀ d, d = c ∨ d ∈ h.decls → ∃ specs, Made d specs) (hs : s.Plain)
    (hd : h.dispatch c s.subsig = .ok (some m)) :
    ∃ d specs, (d = c ∨ d ∈ h.decls) ∧ Made d specs ∧ d.Declares s.subsig m ∧
      ∃ s' ∈ specs, s'.SameSignature s ∧ Matches d.name s' m := by
  obtain ⟨k, d, hd, hm, -⟩ := nearest_iff.1 hd
  have hplace : d = c ∨ d ∈ h.decls := by
    cases k with
    | zero => exact .inl (Option.some.inj hd).symm
    | succ k => exact .inr (mem_decls_of_ancestor? hd)
  obtain ⟨specs, hd⟩ := hmade d hplace
  exact ⟨d, specs, hplace, hd, hm, hd.holds.exists_matches hs hm.1⟩

namespace MethodSpec

/-- A subsignature stands for the name, the parameter types and the return type that it is made of. -/
structure Identified (s : MethodSpec) : Prop where
  apart : ∀ s' : MethodSpec, s'.Plain →
    subsignature s.name s.params s.returns = subsignature s'.name s'.params s'.returns →
      s.name = s'.name ∧ s.params = s'.params ∧ s.returns = s'.returns
  named : ∀ className, (MethodRef.mk className (subsignature s.name s.params s.returns)).name = s.name
  accepted : ∀ c specs, Made c specs → ((∃ c', c.addMethod s = .ok c') ↔
    ¬ (s.isAbstract = true ∧ s.body.isSome = true) ∧ ∀ s' ∈ specs, ¬ s'.SameSignature s)
  refused : ∀ c specs, Made c specs →
    (c.addMethod s = .error (.duplicateMethod s.subsig c.name) ↔
      ¬ (s.isAbstract = true ∧ s.body.isSome = true) ∧ ∃ s' ∈ specs, s'.SameSignature s)
  found_iff : ∀ c specs, Made c specs →
    ((∃ m, c.method? s.subsig = some m) ↔ ∃ s' ∈ specs, s'.SameSignature s)
  found : ∀ c specs m, Made c specs → c.method? s.subsig = some m →
    ∃ s' ∈ specs, s'.SameSignature s ∧ Matches c.name s' m
  dispatched : ∀ (h : Hierarchy) c m, (∀ d, d = c ∨ d ∈ h.decls → ∃ specs, Made d specs) →
    h.dispatch c s.subsig = .ok (some m) →
      ∃ d specs, (d = c ∨ d ∈ h.decls) ∧ Made d specs ∧ d.Declares s.subsig m ∧
        ∃ s' ∈ specs, s'.SameSignature s ∧ Matches d.name s' m

theorem subsig_identifies (hs : s.Plain) : s.Identified where
  apart _ hs' heq := subsignature_inj hs hs' heq
  named := name_subsignature hs
  accepted c specs h := by
    rw [ClassDecl.exists_addMethod_iff, ClassDecl.exists_makeMethod_iff, h.holds.mem_keys_iff hs]
    simp only [not_exists, not_and]
  refused c specs h := by
    rw [ClassDecl.addMethod_eq_duplicate_iff, ClassDecl.exists_makeMethod_iff,
      h.holds.mem_keys_iff hs]
  found_iff c specs h := by
    rw [← h.holds.mem_keys_iff hs]
    exact OrderedMap.mem_keys_iff_exists.symm
  found _ _ _ h hm := h.holds.exists_matches hs hm
  dispatched _ _ _ hmade hd := Hierarchy.exists_matches_of_dispatch hmade hs hd

end MethodSpec

namespace Overloaded

def bare : ClassDecl := { serial := 0, name := "Picker" }

def one : MethodSpec :=
  { name := "pick", params := [.array (.primitive .int), .cls "A"], returns := .array (.cls "B") }

def other : MethodSpec :=
  { one with params := [.array (.array (.primitive .int)), .cls "A"] }

theorem plain_cls {name : String} (h : PlainName name) (hp : ∀ p ∈ Primitive.all, p.text ≠ name)
    (hv : Ty.void.text ≠ name) : (Ty.cls name).Plain :=
  ⟨h, fun p => hp p (by cases p <;> decide), hv⟩

theorem one_plain : one.Plain where
  name := by decide
  params := List.forall_mem_cons.2 ⟨trivial, List.forall_mem_singleton.2
    (plain_cls (by decide) (by decide) (by decide))⟩
  returns := plain_cls (by decide) (by decide) (by decide)

theorem other_plain : other.Plain where
  name := one_plain.name
  params := List.forall_mem_cons.2 ⟨trivial, (List.forall_mem_cons.1 one_plain.params).2⟩
  returns := one_plain.returns

theorem overload_accepted : ∃ c c', bare.addMethod one = .ok c ∧ c.addMethod other = .ok c' ∧
    c.addMethod one = .error (.duplicateMethod "B[] pick(int[],A)" c.name) ∧
    (MethodRef.mk "Picker" "B[] pick(int[],A)").name = "pick" := by
  have hbare : Made bare [] := .bare rfl
  obtain ⟨c, hc⟩ := ((MethodSpec.subsig_identifies one_plain).accepted bare [] hbare).2
    ⟨by decide, List.forall_mem_nil _⟩
  have hone : Made c [one] := .declared hbare one_plain hc
  have hdiffer : ∀ s ∈ [one], ¬ s.SameSignature other :=
    List.forall_mem_singleton.2 fun h => absurd h.params (by decide)
  obtain ⟨c', hc'⟩ := ((MethodSpec.subsig_identifies other_plain).accepted c [one] hone).2
    ⟨by decide, hdiffer⟩
  have hdup := ((MethodSpec.subsig_identifies one_plain).refused c [one] hone).2
    ⟨by decide, one, List.mem_singleton_self one, rfl, rfl, rfl⟩
  exact ⟨c, c', hc, hc', hdup, (MethodSpec.subsig_identifies one_plain).named "Picker"⟩

end Overloaded

end Dataflow
