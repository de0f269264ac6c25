import Dataflow.Program.Relations
import Dataflow.Proofs.Program.Stores
import Mathlib.Data.List.Induction

namespace Dataflow

namespace Relations

def lists (c : ClassDecl) : Query → Bool
  | .subclasses => false
  | .implementors => !c.isInterface
  | .subinterfaces => c.isInterface

def mentions (c : ClassDecl) (q : Query) (name : String) : Nat :=
  match q with
  | .subclasses => if c.superclass = some name then 1 else 0
  | .implementors => if c.isInterface then 0 else c.interfaces.count name
  | .subinterfaces => if c.isInterface then c.interfaces.count name else 0

/-- The names of the classes that name another, in order and once for each mention. -/
def scan (l : List ClassDecl) (q : Query) (name : String) : List String :=
  l.flatMap (fun c => List.replicate (mentions c q name) c.name)

theorem mem_scan_iff {l : List ClassDecl} {q : Query} {name sub : String} :
    sub ∈ scan l q name ↔ ∃ c ∈ l, mentions c q name ≠ 0 ∧ c.name = sub := by
  simp only [scan, List.mem_flatMap, List.mem_replicate, eq_comm]

theorem subclasses_eq_scan (h : Hierarchy) (name : String) :
    h.subclasses name = scan h.decls .subclasses name := by
  rw [Hierarchy.subclasses, scan]
  induction h.decls with
  | nil => rfl
  | cons c l ih =>
      rw [List.flatMap_cons, ← ih, mentions]
      by_cases hs : c.superclass = some name <;> simp [hs]

theorem listing_eq_scan (h : Hierarchy) (name : String) (q : Query) (hq : q ≠ .subclasses) :
    h.listing (q = .subinterfaces) name = scan h.decls q name := by
  refine List.flatMap_congr fun c _ => ?_
  have hcount : (c.interfaces.filter (fun i => i = name)).length = c.interfaces.count name := by
    rw [List.count, List.countP_eq_length_filter]
    rfl
  rw [List.map_const', hcount]
  cases q with
  | subclasses => exact absurd rfl hq
  | implementors | subinterfaces => cases hi : c.isInterface <;> simp [mentions, hi]

theorem directSubtypes_eq_scan (h : Hierarchy) (name : String) :
    h.directSubtypes name = scan h.decls .subclasses name ++ scan h.decls .implementors name ++
      scan h.decls .subinterfaces name := by
  rw [Hierarchy.directSubtypes, subclasses_eq_scan, ← listing_eq_scan h name .implementors nofun,
    ← listing_eq_scan h name .subinterfaces nofun]
  rfl

/-- Relations that are filed where a check passes: they put names behind those that a query finds. -/
structure Files {α : Type} (checked : Except HierarchyError α) (r : Relations)
    (filed : Except HierarchyError Relations) (names : Query → String → List String) : Prop where
  error : ∀ e, checked = .error e → filed = .error e
  ok : ∀ a, checked = .ok a →
    ∃ r', filed = .ok r' ∧ ∀ q name, r'.find q name = r.find q name ++ names q name

variable {h : Hierarchy}

theorem Files.bind {α β : Type} {checked : Except HierarchyError α}
    {check : α → Except HierarchyError β} {r : Relations} {filed : Except HierarchyError Relations}
    {file : Relations → Except HierarchyError Relations} {names₁ names₂ : Query → String → List String}
    (h₁ : Files checked r filed names₁) (h₂ : ∀ a r', Files (check a) r' (file r') names₂) :
    Files (checked >>= check) r (filed >>= file) (fun q name => names₁ q name ++ names₂ q name) := by
  cases hc : checked with
  | error e =>
      rw [h₁.error e hc]
      exact ⟨fun _ he => congrArg _ (Except.error.inj he), fun _ ha => nomatch ha⟩
  | ok a =>
      obtain ⟨r₁, hr₁, hfind₁⟩ := h₁.ok a hc
      rw [hr₁]
      refine ⟨(h₂ a r₁).error, fun b hb => ?_⟩
      obtain ⟨r₂, hr₂, hfind₂⟩ := (h₂ a r₁).ok b hb
      refine ⟨r₂, hr₂, fun q name => ?_⟩
      rw [hfind₂, hfind₁, List.append_assoc]

theorem Files.fold {α : Type} {check : α → Except HierarchyError Unit}
    {step : Relations → α → Except HierarchyError Relations} {names : α → Query → String → List String}
    (hs : ∀ a r, Files (check a) r (step r a) (names a)) (l : List α) (r : Relations) :
    Files (l.forM check) r (l.foldlM step r) (fun q name => l.flatMap (fun a => names a q name)) := by
  induction l generalizing r with
  | nil => exact ⟨fun e he => (nomatch he), fun _ _ => ⟨r, rfl, fun _ _ => (List.append_nil _).symm⟩⟩
  | cons a l ih => exact (hs a r).bind fun _ r' => ih r'

theorem files_interface (h : Hierarchy) (c : ClassDecl) (name : String) (r : Relations) :
    Files (h.checkInterface c name) r (fileInterface h c r name)
      (fun q x => if lists c q ∧ x = name then [c.name] else []) := by
  rw [fileInterface]
  refine ⟨fun e he => by rw [he]; rfl, fun u hok => ?_⟩
  rw [hok]
  refine ⟨_, rfl, fun q x => ?_⟩
  cases hi : c.isInterface <;> cases q <;> simp [find, lists, hi, OrderedMap.getD_file]

theorem flatMap_listed (c : ClassDecl) (l : List String) (q : Query) (name : String) :
    l.flatMap (fun i => if lists c q ∧ name = i then [c.name] else []) =
      List.replicate (if lists c q then l.count name else 0) c.name := by
  induction l with
  | nil => split <;> rfl
  | cons i l ih =>
      rw [List.flatMap_cons, ih, List.count_cons]
      by_cases hl : lists c q <;> by_cases hi : name = i
      · subst hi
        simp [hl, List.replicate_succ]
      · simp [hl, hi, Ne.symm hi]
      · simp [hl]
      · simp [hl]

def fileSuperclass (r : Relations) (c : ClassDecl) : Option ClassDecl → Relations
  | none => r
  | some d => { r with subclasses := r.subclasses.file d.name c.name }

theorem files_superclass (hn : h.Named) (c : ClassDecl) (r : Relations) :
    Files (h.superclass? c) r ((h.superclass? c).map (fileSuperclass r c))
      (fun q name => if q = .subclasses ∧ c.superclass = some name then [c.name] else []) := by
  refine ⟨fun e he => by rw [he]; rfl, fun o ho => ?_⟩
  rw [ho]
  refine ⟨_, rfl, fun q name => ?_⟩
  rw [Hierarchy.superclass?] at ho
  cases hc : c.superclass with
  | none =>
      rw [hc] at ho
      cases ho
      simp [fileSuperclass]
  | some superclass =>
      rw [hc] at ho
      cases hd : h.classNamed? superclass with
      | none =>
          simp only [Hierarchy.required, hd] at ho
          cases ho
      | some d =>
          simp only [Hierarchy.required, hd] at ho
          cases ho
          obtain rfl := (hn.classNamed?_eq_some_iff.1 hd).2
          cases q <;> simp [fileSuperclass, find, OrderedMap.getD_file, eq_comm]

theorem replicate_mentions (c : ClassDecl) (q : Query) (name : String) :
    List.replicate (mentions c q name) c.name =
      (if q = .subclasses ∧ c.superclass = some name then [c.name] else []) ++
        List.replicate (if lists c q then c.interfaces.count name else 0) c.name := by
  cases q with
  | subclasses => by_cases hs : c.superclass = some name <;> simp [mentions, lists, hs]
  | implementors | subinterfaces => cases hi : c.isInterface <;> simp [mentions, lists, hi]

theorem fileClass_eq (h : Hierarchy) (c : ClassDecl) (r : Relations) :
    fileClass h r c = ((h.superclass? c).map (fileSuperclass r c) >>=
      fun r => c.interfaces.foldlM (fileInterface h c) r) := by
  rw [fileClass]
  cases h.superclass? c with
  | error e => rfl
  | ok o => cases o <;> rfl

theorem files_class (hn : h.Named) (c : ClassDecl) (r : Relations) :
    Files (h.checkClass c) r (fileClass h r c)
      (fun q name => List.replicate (mentions c q name) c.name) := by
  rw [fileClass_eq, Hierarchy.checkClass]
  have hfiles := (files_superclass hn c r).bind
    fun _ => Files.fold (files_interface h c) c.interfaces
  simp only [flatMap_listed, ← replicate_mentions] at hfiles
  exact hfiles

/-- The relations of all classes are what a scan of the classes finds, and to work them out fails as
checking the classes does. -/
theorem ofHierarchy_eq (hn : h.Named) (q : Query) (name : String) :
    (ofHierarchy h).map (fun r => r.find q name) = h.check.map (fun _ => scan h.decls q name) := by
  let blank : OrderedMap String (List String) := .ofList (h.classes.keys.map (fun n => (n, [])))
  have hblank : Relations.find ⟨blank, blank, blank⟩ q name = [] := by
    have hget : blank.getD name [] = [] :=
      (OrderedMap.getD_tabulate h.classes.nodup_keys (fun _ => []) name []).trans (ite_self _)
    cases q <;> exact hget
  have hfiles := Files.fold (files_class hn) h.decls ⟨blank, blank, blank⟩
  have hfold : ofHierarchy h = h.decls.foldlM (fileClass h) ⟨blank, blank, blank⟩ := rfl
  rw [hfold, Hierarchy.check]
  cases hc : h.decls.forM h.checkClass with
  | error e =>
      rw [hfiles.error e hc]
      rfl
  | ok u =>
      obtain ⟨r, hr, hfind⟩ := hfiles.ok u hc
      rw [hr]
      change Except.ok (r.find q name) = Except.ok _
      rw [hfind, hblank, List.nil_append]
      rfl

end Relations

namespace IndexedHierarchy

open Relations

inductive Request where
  | add (c : ClassDecl)
  | ask (q : Query) (name : String)

def answer (h : IndexedHierarchy) :
    Request → Except HierarchyError (List String) × IndexedHierarchy
  | .add c =>
    match h.add c with
    | .ok h' => (.ok [c.name], h')
    | .error e => (.error e, h)
  | .ask q name => h.query q name

def run (h : IndexedHierarchy) :
    List Request → List (Except HierarchyError (List String)) × IndexedHierarchy
  | [] => ([], h)
  | r :: rest =>
    let (reply, h') := h.answer r
    let (replies, h'') := h'.run rest
    (reply :: replies, h'')

def grow (l : List ClassDecl) : Request → List ClassDecl
  | .add c => if c.name ∈ l.map ClassDecl.name then l else l ++ [c]
  | .ask _ _ => l

def added (requests : List Request) : List ClassDecl := requests.foldl grow []

variable {h h₁ h₂ : IndexedHierarchy}

/-- Relations that are kept are those of the classes there are. -/
structure Coherent (h : IndexedHierarchy) : Prop where
  named : h.hierarchy.Named
  index : ∀ r, h.index = some r → ofHierarchy h.hierarchy = .ok r

theorem coherent_empty : Coherent {} := ⟨Hierarchy.named_empty, fun _ hr => nomatch hr⟩

theorem Coherent.relations_fst (hc : h.Coherent) : h.relations.1 = ofHierarchy h.hierarchy := by
  rw [relations]
  cases hi : h.index with
  | some r => exact (hc.index r hi).symm
  | none => cases hr : ofHierarchy h.hierarchy <;> rfl

theorem relations_hierarchy (h : IndexedHierarchy) : h.relations.2.hierarchy = h.hierarchy := by
  rw [relations]
  cases h.index with
  | some r => rfl
  | none => cases ofHierarchy h.hierarchy <;> rfl

theorem Coherent.relations (hc : h.Coherent) : h.relations.2.Coherent := by
  refine ⟨by rw [relations_hierarchy]; exact hc.named, fun r => ?_⟩
  rw [relations_hierarchy, IndexedHierarchy.relations]
  intro hr
  split at hr
  · exact hc.index r hr
  · split at hr
    · cases hr
      assumption
    · exact hc.index r hr

theorem Coherent.query_fst (hc : h.Coherent) (q : Query) (name : String) :
    (h.query q name).1 = h.hierarchy.check.map (fun _ => scan h.hierarchy.decls q name) := by
  rw [← ofHierarchy_eq hc.named, ← hc.relations_fst]
  rfl

theorem Coherent.answer (hc : h.Coherent) (r : Request) : (h.answer r).2.Coherent := by
  cases r with
  | ask q name => exact hc.relations
  | add c =>
      rw [IndexedHierarchy.answer]
      split
      · rename_i h' ha
        obtain ⟨g, hg, ha⟩ := bind_eq_ok_iff.1 ha
        cases ha
        exact ⟨hc.named.add hg, fun _ hr => nomatch hr⟩
      · exact hc

theorem answer_congr (h₁c : h₁.Coherent) (h₂c : h₂.Coherent) (hh : h₁.hierarchy = h₂.hierarchy)
    (r : Request) : (h₁.answer r).1 = (h₂.answer r).1 ∧
      (h₁.answer r).2.hierarchy = (h₂.answer r).2.hierarchy := by
  cases r with
  | ask q name =>
      refine ⟨?_, ?_⟩
      · change (h₁.query q name).1 = (h₂.query q name).1
        rw [h₁c.query_fst, h₂c.query_fst, hh]
      · change h₁.relations.2.hierarchy = h₂.relations.2.hierarchy
        rw [relations_hierarchy, relations_hierarchy, hh]
  | add c =>
      rw [IndexedHierarchy.answer, IndexedHierarchy.answer, IndexedHierarchy.add,
        IndexedHierarchy.add, hh]
      cases h₂.hierarchy.add c with
      | ok g => exact ⟨rfl, rfl⟩
      | error e => exact ⟨rfl, hh⟩

theorem run_congr (h₁c : h₁.Coherent) (h₂c : h₂.Coherent) (hh : h₁.hierarchy = h₂.hierarchy)
    (requests : List Request) : (h₁.run requests).1 = (h₂.run requests).1 := by
  induction requests generalizing h₁ h₂ with
  | nil => rfl
  | cons r requests ih =>
      obtain ⟨hreply, hnext⟩ := answer_congr h₁c h₂c hh r
      exact List.cons_eq_cons.2 ⟨hreply, ih (h₁c.answer r) (h₂c.answer r) hnext⟩

theorem run_concat (h : IndexedHierarchy) (requests : List Request) (r : Request) :
    (h.run (requests ++ [r])).2 = ((h.run requests).2.answer r).2 := by
  induction requests generalizing h with
  | nil => rfl
  | cons s requests ih => exact ih _

theorem Coherent.run (hc : h.Coherent) (requests : List Request) : (h.run requests).2.Coherent := by
  induction requests generalizing h with
  | nil => exact hc
  | cons r requests ih => exact ih (hc.answer r)

theorem Coherent.add_iff (hc : h.Coherent) (c : ClassDecl) :
    (∃ e, (h.answer (.add c)).1 = .error e) ↔ c.name ∈ h.hierarchy.decls.map ClassDecl.name := by
  rw [← hc.named.contains_iff, IndexedHierarchy.answer, IndexedHierarchy.add]
  by_cases hd : h.hierarchy.contains c.name = true
  · rw [Hierarchy.add_of_contains hd]
    exact ⟨fun _ => hd, fun _ => ⟨_, rfl⟩⟩
  · obtain ⟨g, hg, -⟩ := Hierarchy.exists_add hd
    rw [hg]
    exact ⟨fun ⟨_, he⟩ => (nomatch he), fun hd' => absurd hd' hd⟩

theorem Coherent.decls_answer (hc : h.Coherent) (r : Request) :
    (h.answer r).2.hierarchy.decls = grow h.hierarchy.decls r := by
  cases r with
  | ask q name => exact congrArg _ (relations_hierarchy h)
  | add c =>
      rw [grow]
      simp only [← hc.named.contains_iff]
      rw [IndexedHierarchy.answer, IndexedHierarchy.add]
      by_cases hd : h.hierarchy.contains c.name = true
      · rw [Hierarchy.add_of_contains hd, if_pos hd]
        rfl
      · obtain ⟨g, hg, hdecls⟩ := Hierarchy.exists_add hd
        rw [hg, if_neg hd]
        exact hdecls

theorem added_concat (requests : List Request) (r : Request) :
    added (requests ++ [r]) = grow (added requests) r := by
  rw [added, List.foldl_append]
  rfl

theorem decls_run (requests : List Request) :
    (run {} requests).2.hierarchy.decls = added requests := by
  induction requests using List.reverseRecOn with
  | nil => rfl
  | append_singleton requests r ih =>
      rw [run_concat, (coherent_empty.run requests).decls_answer, ih, added_concat]

/-- Requests that were no additions, and additions that were refused, leave the classes as they are. -/
theorem hierarchy_run_added (requests : List Request) :
    (run {} ((added requests).map .add)).2.hierarchy = (run {} requests).2.hierarchy := by
  induction requests using List.reverseRecOn with
  | nil => rfl
  | append_singleton requests r ih =>
      have hc := coherent_empty.run requests
      rw [added_concat, run_concat]
      cases r with
      | ask q name => exact ih.trans (relations_hierarchy _).symm
      | add c =>
          rw [grow]
          split
          · rename_i hd
            rw [← decls_run, ← hc.named.contains_iff] at hd
            rw [ih, IndexedHierarchy.answer, IndexedHierarchy.add, Hierarchy.add_of_contains hd]
            rfl
          · rw [List.map_append, List.map_singleton, run_concat]
            exact (answer_congr (coherent_empty.run _) hc ih (.add c)).2

/-- What a history of requests has made of a store of classes. -/
structure Scans (requests : List Request) (h : IndexedHierarchy) : Prop where
  decls : h.hierarchy.decls = added requests
  found : ∀ q name, (∀ c ∈ added requests, c.WellNamed (added requests)) →
    (h.answer (.ask q name)).1 = .ok (scan (added requests) q name)
  refused_iff : ∀ q name, (∃ e, (h.answer (.ask q name)).1 = .error e) ↔
    ∃ c ∈ added requests, ¬ c.WellNamed (added requests)
  duplicate_iff : ∀ c, (∃ e, (h.answer (.add c)).1 = .error e) ↔
    c.name ∈ (added requests).map ClassDecl.name
  traceless : ∀ later, (h.run later).1 = ((run {} ((added requests).map .add)).2.run later).1

/-- A store that keeps its relations answers as one that scans its classes each time. -/
theorem run_scans (requests : List Request) : Scans requests (run {} requests).2 := by
  have hc := coherent_empty.run requests
  have hdecls := decls_run requests
  have hquery : ∀ q name, ((run {} requests).2.answer (.ask q name)).1 =
      (run {} requests).2.hierarchy.check.map (fun _ => scan (added requests) q name) := by
    intro q name
    rw [← hdecls]
    exact hc.query_fst q name
  have hcheck := hc.named.check_eq_ok_iff
  rw [hdecls] at hcheck
  constructor
  · exact hdecls
  · intro q name hnamed
    rw [hquery, hcheck.2 hnamed]
    rfl
  · intro q name
    rw [hquery]
    cases hok : (run {} requests).2.hierarchy.check with
    | ok u =>
        refine ⟨fun ⟨_, he⟩ => (nomatch he), fun ⟨c, hmem, hbad⟩ => ?_⟩
        exact absurd (hcheck.1 hok c hmem) hbad
    | error e =>
        refine ⟨fun _ => ?_, fun _ => ⟨e, rfl⟩⟩
        have hbad : ¬ ∀ c ∈ added requests, c.WellNamed (added requests) := fun hall => by
          rw [hcheck.2 hall] at hok
          cases hok
        simpa using hbad
  · intro c
    rw [← hdecls]
    exact hc.add_iff c
  · intro later
    exact run_congr hc (coherent_empty.run _) (hierarchy_run_added requests).symm later

end IndexedHierarchy

end Dataflow
