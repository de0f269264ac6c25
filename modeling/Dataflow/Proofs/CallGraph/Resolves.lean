import Dataflow.Proofs.CallGraph.Reach
import Dataflow.Proofs.Lists
import Mathlib.Logic.Relation

namespace Dataflow.Hierarchy

variable {h : Hierarchy}

def Extends (h : Hierarchy) (c d : ClassDecl) : Prop := h.superclass? c = .ok (some d)

/-- Whatever is named is declared, what is listed as an interface is one, and no chain of superclasses
runs in a circle. -/
structure Sane (h : Hierarchy) : Prop where
  receiver : ∀ m, ∀ s ∈ h.sitesOf m, ∀ c, h.callAt? s = some c →
    ∃ d, h.classNamed? c.method.className = some d
  superclass : ∀ c ∈ h.decls, ∀ name, c.superclass = some name → ∃ d, h.classNamed? name = some d
  interface : ∀ c ∈ h.decls, ∀ name ∈ c.interfaces,
    ∃ d, h.classNamed? name = some d ∧ d.isInterface = true
  acyclic : ∀ c, ¬ Relation.TransGen h.Extends c c

theorem required_eq {name : String} {d : ClassDecl} (hd : h.classNamed? name = some d)
    (referrer : String) : h.required name referrer = .ok d := by
  rw [required, hd]

theorem Sane.superclass?_eq (hs : h.Sane) {c : ClassDecl} (hc : c ∈ h.decls) :
    c.superclass = none ∧ h.superclass? c = .ok none ∨
      ∃ name d, c.superclass = some name ∧ h.classNamed? name = some d ∧ h.Extends c d := by
  cases hn : c.superclass with
  | none =>
      refine .inl ⟨rfl, ?_⟩
      rw [superclass?, hn]
  | some name =>
      obtain ⟨d, hd⟩ := hs.superclass c hc name hn
      refine .inr ⟨name, d, rfl, hd, ?_⟩
      rw [Extends, superclass?, hn]
      simp only [required_eq hd]
      rfl

theorem Sane.checkClass_eq (hs : h.Sane) {c : ClassDecl} (hc : c ∈ h.decls) :
    h.checkClass c = .ok () := by
  have hi : c.interfaces.forM (h.checkInterface c) = .ok () := by
    refine forM_eq_ok (fun name hname => ?_)
    obtain ⟨d, hd, hid⟩ := hs.interface c hc name hname
    rw [checkInterface, required_eq hd]
    exact if_pos hid
  rw [checkClass]
  obtain ⟨-, hsup⟩ | ⟨-, d, -, -, hsup⟩ := hs.superclass?_eq hc
  · rw [hsup]
    exact hi
  · rw [hsup]
    exact hi

theorem Sane.check_eq (hs : h.Sane) : h.check = .ok () :=
  forM_eq_ok (fun _ hc => hs.checkClass_eq hc)

/-- The names of the superclasses met so far are all different, as no chain runs in a circle, so there
are no more of them than classes. -/
theorem Sane.dispatchFrom_ok (hs : h.Sane) (subsig : String) {fuel : Nat} {c : ClassDecl}
    {names : List String} (hc : c ∈ h.decls) (hnodup : names.Nodup)
    (hnames : ∀ n ∈ names, ∃ d, h.classNamed? n = some d ∧ Relation.ReflTransGen h.Extends d c)
    (hfuel : h.size < names.length + fuel) : ∃ o, h.dispatchFrom subsig fuel c = .ok o := by
  induction fuel generalizing c names with
  | zero =>
      have hsub : ∀ n ∈ names, n ∈ h.classes.keys := by
        intro n hn
        obtain ⟨d, hd, -⟩ := hnames n hn
        exact (OrderedMap.mem_keys_iff _ _).2 (Option.isSome_iff_exists.2 ⟨d, hd⟩)
      have hle := (List.subperm_of_subset hnodup hsub).length_le
      rw [OrderedMap.keys, List.length_map] at hle
      exact absurd hfuel (Nat.not_lt.2 hle)
  | succ fuel ih =>
      rw [dispatchFrom]
      cases hm : c.concrete? subsig with
      | some m => exact ⟨some m, rfl⟩
      | none =>
          obtain ⟨-, hsup⟩ | ⟨name, d, -, hd, hsup⟩ := hs.superclass?_eq hc
          · exact ⟨none, by simp only [hsup]; rfl⟩
          · have hnew : name ∉ names := by
              intro hn
              obtain ⟨d', hd', hchain⟩ := hnames name hn
              rw [hd] at hd'
              cases hd'
              exact hs.acyclic d (.tail' hchain hsup)
            have hlong : ∀ n ∈ name :: names,
                ∃ e, h.classNamed? n = some e ∧ Relation.ReflTransGen h.Extends e d := by
              intro n hn
              rcases List.mem_cons.1 hn with rfl | hn
              · exact ⟨d, hd, .refl⟩
              · obtain ⟨e, he, hchain⟩ := hnames n hn
                exact ⟨e, he, hchain.tail hsup⟩
            have hlength : h.size < (name :: names).length + fuel := by
              rw [List.length_cons]
              omega
            obtain ⟨o, ho⟩ := ih (mem_decls_of_superclass? hsup)
              (List.nodup_cons.2 ⟨hnew, hnodup⟩) hlong hlength
            refine ⟨o, ?_⟩
            rw [Extends] at hsup
            simp only [hsup]
            exact ho

theorem Sane.dispatch_ok (hs : h.Sane) (subsig : String) {c : ClassDecl} (hc : c ∈ h.decls) :
    ∃ o, h.dispatch c subsig = .ok o :=
  hs.dispatchFrom_ok subsig hc List.nodup_nil (fun _ hn => absurd hn List.not_mem_nil)
    (by simp)

theorem Sane.dispatchNamed_ok (hs : h.Sane) (subsig name : String) :
    ∃ o, h.dispatchNamed subsig name = .ok o := by
  rw [dispatchNamed]
  cases hc : h.classNamed? name with
  | none => exact ⟨none, rfl⟩
  | some c =>
      obtain ⟨o, ho⟩ := hs.dispatch_ok subsig (mem_decls_of_classNamed? hc)
      exact ⟨o.map Method.ref, by simp only [ho]; rfl⟩

theorem Sane.dispatchAll_ok (hs : h.Sane) (name subsig : String) :
    ∃ l, h.dispatchAll name subsig = .ok l := by
  have hall : ∀ n ∈ name :: h.subtypes name, ∃ o, h.dispatchNamed subsig n = .ok o :=
    fun n _ => hs.dispatchNamed_ok subsig n
  obtain ⟨found, hfound⟩ := exists_mapM_eq_ok hall
  exact ⟨_, bind_eq_ok_iff.2 ⟨(), hs.check_eq, bind_eq_ok_iff.2 ⟨found, hfound, rfl⟩⟩⟩

theorem Sane.resolve_ok (hs : h.Sane) {m : MethodRef} {s : Site} (hm : s ∈ h.sitesOf m) {c : Call}
    (hc : h.callAt? s = some c) : ∃ l, h.resolve s c = .ok l := by
  obtain ⟨d, hd⟩ := hs.receiver m s hm c hc
  have hr : h.receiverClass s c = .ok d := by
    rw [receiverClass, hd]
  rw [resolve, hr]
  cases hk : c.kind with
  | static => exact ⟨_, rfl⟩
  | special =>
      obtain ⟨o, ho⟩ := hs.dispatch_ok c.method.subsig (mem_decls_of_classNamed? hd)
      exact ⟨_, bind_eq_ok_iff.2 ⟨d, rfl, bind_eq_ok_iff.2 ⟨o, ho, rfl⟩⟩⟩
  | virtual | interface => exact hs.dispatchAll_ok d.name c.method.subsig

theorem nodup_of_resolve {s : Site} {c : Call} {l : List MethodRef} (hl : h.resolve s c = .ok l) :
    l.Nodup := by
  obtain ⟨d, -, hl⟩ := bind_eq_ok_iff.1 hl
  cases hk : c.kind with
  | static =>
      simp only [hk] at hl
      cases hl
      exact Option.toList_nodup _
  | special =>
      simp only [hk] at hl
      obtain ⟨o, -, hl⟩ := bind_eq_ok_iff.1 hl
      cases hl
      exact Option.toList_nodup _
  | virtual | interface =>
      simp only [hk] at hl
      obtain ⟨-, -, hl⟩ := bind_eq_ok_iff.1 hl
      obtain ⟨found, -, hl⟩ := bind_eq_ok_iff.1 hl
      cases hl
      exact nodup_eraseDups _

end Dataflow.Hierarchy
