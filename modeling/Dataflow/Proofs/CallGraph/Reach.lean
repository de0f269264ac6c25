import Dataflow.CallGraph.Build
import Dataflow.Traversal
import Mathlib.Data.List.Perm.Subperm

namespace Dataflow

namespace Hierarchy

variable {h : Hierarchy}

theorem mem_decls_of_classNamed? {name : String} {c : ClassDecl} (hc : h.classNamed? name = some c) :
    c ∈ h.decls :=
  List.mem_map.2 ⟨(name, c), (OrderedMap.get?_eq_some_iff _ _ _).1 hc, rfl⟩

theorem mem_decls_of_superclass? {c d : ClassDecl} (hd : h.superclass? c = .ok (some d)) :
    d ∈ h.decls := by
  rw [superclass?] at hd
  split at hd
  · cases hd
  · rename_i name _
    rw [required] at hd
    cases hc : h.classNamed? name with
    | none => rw [hc] at hd; cases hd
    | some e =>
        rw [hc] at hd
        cases hd
        exact mem_decls_of_classNamed? hc

theorem mem_methods_of_method? {c : ClassDecl} {subsig : String} {m : Method} (hc : c ∈ h.decls)
    (hm : c.method? subsig = some m) : m ∈ h.methods := by
  refine List.mem_flatMap.2 ⟨c, hc, ?_⟩
  exact List.mem_map.2 ⟨(subsig, m), (OrderedMap.get?_eq_some_iff _ _ _).1 hm, rfl⟩

theorem mem_methods_of_dispatchFrom {subsig : String} {fuel : Nat} {c : ClassDecl} {m : Method}
    (hc : c ∈ h.decls) (hm : h.dispatchFrom subsig fuel c = .ok (some m)) : m ∈ h.methods := by
  induction fuel generalizing c with
  | zero => cases hm
  | succ fuel ih =>
      rw [dispatchFrom] at hm
      cases hd : c.concrete? subsig with
      | some d =>
          rw [hd] at hm
          cases hm
          exact mem_methods_of_method? hc (Option.filter_eq_some_iff.1 hd).1
      | none =>
          rw [hd] at hm
          obtain ⟨s, hs, hm⟩ := bind_eq_ok_iff.1 hm
          cases s with
          | none => cases hm
          | some d => exact ih (mem_decls_of_superclass? hs) hm

theorem mem_refs_of_dispatch {c : ClassDecl} {subsig : String} {o : Option Method} {m : MethodRef}
    (hc : c ∈ h.decls) (ho : h.dispatch c subsig = .ok o) (hm : o.map Method.ref = some m) :
    m ∈ h.refs := by
  obtain ⟨d, rfl, rfl⟩ := Option.map_eq_some_iff.1 hm
  exact List.mem_map.2 ⟨d, mem_methods_of_dispatchFrom hc ho, rfl⟩

theorem mem_refs_of_dispatchNamed {subsig name : String} {m : MethodRef}
    (hm : h.dispatchNamed subsig name = .ok (some m)) : m ∈ h.refs := by
  rw [dispatchNamed] at hm
  split at hm
  · rename_i c hc
    obtain ⟨o, ho, hm⟩ := bind_eq_ok_iff.1 hm
    exact mem_refs_of_dispatch (mem_decls_of_classNamed? hc) ho (Except.ok.inj hm)
  · cases hm

theorem mem_refs_of_dispatchAll {name subsig : String} {l : List MethodRef} {m : MethodRef}
    (hl : h.dispatchAll name subsig = .ok l) (hm : m ∈ l) : m ∈ h.refs := by
  obtain ⟨-, -, hl⟩ := bind_eq_ok_iff.1 hl
  obtain ⟨found, hfound, hl⟩ := bind_eq_ok_iff.1 hl
  cases hl
  obtain ⟨o, ho, he⟩ := List.mem_filterMap.1 (List.mem_eraseDups.1 hm)
  obtain ⟨n, -, hn⟩ := exists_of_mem_mapM hfound ho
  exact mem_refs_of_dispatchNamed (hn.trans (congrArg _ he))

theorem mem_refs_of_resolve {s : Site} {c : Call} {l : List MethodRef} {m : MethodRef}
    (hl : h.resolve s c = .ok l) (hm : m ∈ l) : m ∈ h.refs := by
  obtain ⟨d, hd, hl⟩ := bind_eq_ok_iff.1 hl
  have hdecl : d ∈ h.decls := by
    rw [receiverClass] at hd
    split at hd
    · cases hd
      exact mem_decls_of_classNamed? ‹_›
    · cases hd
  cases hk : c.kind with
  | static =>
      simp only [hk] at hl
      cases hl
      obtain ⟨e, he, rfl⟩ := Option.map_eq_some_iff.1 (Option.mem_toList.1 hm)
      exact List.mem_map.2 ⟨e, mem_methods_of_method? hdecl he, rfl⟩
  | special =>
      simp only [hk] at hl
      obtain ⟨o, ho, hl⟩ := bind_eq_ok_iff.1 hl
      cases hl
      exact mem_refs_of_dispatch hdecl ho (Option.mem_toList.1 hm)
  | virtual | interface =>
      simp only [hk] at hl
      exact mem_refs_of_dispatchAll hl hm

end Hierarchy

namespace CallGraph.Search

variable {h : Hierarchy} {pool : List MethodRef} {main : MethodRef} {s : Search}

/-- A search in order: it has found methods of the pool only, it looks at each but once, and a callee
on an edge was looked at or is to be. -/
structure Orderly (pool : List MethodRef) (main : MethodRef) (s : Search) : Prop where
  entries : s.graph.entries = [main]
  main_found : main ∈ s.graph.reachable ∨ main ∈ s.queue.items
  fresh : ∀ m ∈ s.queue.items, m ∉ s.graph.reachable
  pooled : ∀ m, m ∈ s.graph.reachable ∨ m ∈ s.queue.items → m ∈ pool
  closed : ∀ e ∈ s.graph.edges, e.callee ∈ s.graph.reachable ∨ e.callee ∈ s.queue.items

theorem orderly_start (hm : main ∈ pool) : (start main).Orderly pool main where
  entries := rfl
  main_found := .inr List.mem_cons_self
  fresh _ _ := List.not_mem_nil
  pooled m hm' := by
    rcases hm' with hm' | hm'
    · cases hm'
    · exact List.mem_singleton.1 hm' ▸ hm
  closed _ he := absurd he List.not_mem_nil

theorem reachable_addEdge (g : CallGraph) (e : CallEdge) : (g.addEdge e).reachable = g.reachable := by
  rw [addEdge]
  split <;> rfl

theorem entries_addEdge (g : CallGraph) (e : CallEdge) : (g.addEdge e).entries = g.entries := by
  rw [addEdge]
  split <;> rfl

theorem mem_queue_meetCallee (kind : CallKind) (site : Site) (s : Search) (m n : MethodRef) :
    n ∈ (meetCallee kind site s m).queue.items ↔
      n ∈ s.queue.items ∨ n = m ∧ m ∉ s.graph.reachable := by
  have hc : (s.graph.addEdge ⟨kind, site, m⟩).contains m = true ↔ m ∈ s.graph.reachable := by
    rw [CallGraph.contains, reachable_addEdge, List.contains_iff_mem]
  rw [meetCallee]
  simp only
  split
  · rename_i hr
    have hr := hc.1 hr
    exact ⟨.inl, fun hn => hn.resolve_right (fun hn => hn.2 hr)⟩
  · rename_i hr
    have hr : m ∉ s.graph.reachable := fun hm => hr (hc.2 hm)
    rw [WorkQueue.mem_items_add]
    exact ⟨fun hn => hn.elim (fun hn => .inr ⟨hn, hr⟩) .inl,
      fun hn => hn.elim .inr (fun hn => .inl hn.1)⟩

theorem orderly_meetCallee (hs : s.Orderly pool main) (kind : CallKind) (site : Site)
    {m : MethodRef} (hm : m ∈ pool) : (meetCallee kind site s m).Orderly pool main := by
  have hr : (meetCallee kind site s m).graph.reachable = s.graph.reachable :=
    reachable_addEdge _ _
  refine ⟨(entries_addEdge _ _).trans hs.entries, ?_, ?_, ?_, ?_⟩
  · rw [hr, mem_queue_meetCallee]
    exact hs.main_found.imp id .inl
  · intro n hn
    rw [hr]
    rcases (mem_queue_meetCallee kind site s m n).1 hn with hn | ⟨rfl, hn⟩
    · exact hs.fresh n hn
    · exact hn
  · intro n hn
    rw [hr, mem_queue_meetCallee] at hn
    rcases hn with hn | hn | ⟨rfl, -⟩
    · exact hs.pooled n (.inl hn)
    · exact hs.pooled n (.inr hn)
    · exact hm
  · intro e he
    rw [hr, mem_queue_meetCallee]
    rcases (mem_edges_addEdge _ _ _).1 he with he | rfl
    · exact (hs.closed e he).imp id .inl
    · by_cases hm' : m ∈ s.graph.reachable
      · exact .inl hm'
      · exact .inr (.inr ⟨rfl, hm'⟩)

theorem orderly_meetSite (hs : s.Orderly pool main) (kind : CallKind) (site : Site)
    {callees : List MethodRef} (hc : ∀ m ∈ callees, m ∈ pool) :
    (meetSite kind site callees s).Orderly pool main := by
  apply List.foldlRecOn (motive := Orderly pool main)
  · split
    · exact ⟨hs.entries, hs.main_found, hs.fresh, hs.pooled, hs.closed⟩
    · exact hs
  · exact fun t ht m hm => orderly_meetCallee ht kind site (hc m hm)

theorem reachable_meetSite (kind : CallKind) (site : Site) (callees : List MethodRef) (s : Search) :
    (meetSite kind site callees s).graph.reachable = s.graph.reachable := by
  apply List.foldlRecOn (motive := fun t : Search => t.graph.reachable = s.graph.reachable)
  · split <;> rfl
  · exact fun t ht m _ => (reachable_addEdge _ _).trans ht

theorem orderly_resolveEach (hp : ∀ m ∈ h.refs, m ∈ pool) {sites : List Site}
    (hs : s.Orderly pool main) {s' : Search}
    (h' : h.resolveEach meetSite sites s = (s', .ok ())) :
    s'.Orderly pool main ∧ s'.graph.reachable = s.graph.reachable := by
  induction sites generalizing s with
  | nil =>
      cases h'
      exact ⟨hs, rfl⟩
  | cons site rest ih =>
      rw [Hierarchy.resolveEach] at h'
      split at h'
      · exact ih hs h'
      · rename_i call _
        split at h'
        · cases h'
        · rename_i callees hc
          have hmet := orderly_meetSite hs call.kind site
            (fun m hm => hp m (Hierarchy.mem_refs_of_resolve hc hm))
          obtain ⟨ho, hr⟩ := ih hmet h'
          exact ⟨ho, hr.trans (reachable_meetSite _ _ _ _)⟩

theorem orderly_pop (hs : s.Orderly pool main) {m : MethodRef} {rest : WorkQueue MethodRef}
    (hq : s.queue.pop? = some (m, rest)) :
    ({ s with graph := s.graph.addReachable m, queue := rest } : Search).Orderly pool main ∧
      (s.graph.addReachable m).reachable = s.graph.reachable ++ [m] := by
  have hi := WorkQueue.items_of_pop? hq
  have hnew : m ∉ s.graph.reachable := hs.fresh m (hi ▸ List.mem_cons_self)
  have hnodup := s.queue.nodup
  rw [hi, List.nodup_cons] at hnodup
  have hadd : (s.graph.addReachable m).reachable = s.graph.reachable ++ [m] := by
    rw [addReachable, dif_neg hnew]
  have hmove : ∀ n, n ∈ s.graph.reachable ∨ n ∈ s.queue.items ↔
      n ∈ (s.graph.addReachable m).reachable ∨ n ∈ rest.items := by
    intro n
    rw [hadd, hi, List.mem_append, List.mem_singleton, List.mem_cons, or_assoc]
  refine ⟨⟨?_, ?_, ?_, ?_, ?_⟩, hadd⟩
  · refine Eq.trans ?_ hs.entries
    simp only [addReachable]
    split <;> rfl
  · exact (hmove main).1 hs.main_found
  · intro n hn hr
    rcases (mem_reachable_addReachable _ _ _).1 hr with hr | rfl
    · exact hs.fresh n (hi ▸ List.mem_cons_of_mem m hn) hr
    · exact hnodup.1 hn
  · exact fun n hn => hs.pooled n ((hmove n).2 hn)
  · intro e he
    have he : e ∈ s.graph.edges := by
      simp only [addReachable] at he
      split at he <;> exact he
    exact (hmove e.callee).1 (hs.closed e he)

theorem orderly_complete (hp : ∀ m ∈ h.refs, m ∈ pool) {fuel : Nat} (hs : s.Orderly pool main)
    {s' : Search} (h' : complete h fuel s = (s', .ok ())) :
    s'.Orderly pool main ∧ s'.queue.items = [] := by
  induction fuel generalizing s with
  | zero => cases h'
  | succ fuel ih =>
      rw [complete] at h'
      split at h'
      · cases h'
        exact ⟨hs, (WorkQueue.pop?_eq_none_iff _).1 ‹_›⟩
      · rename_i m rest hq
        simp only at h'
        split at h'
        · cases h'
        · rename_i t u ht
          exact ih (orderly_resolveEach hp (orderly_pop hs hq).1 ht).1 h'

theorem Orderly.length_le (hs : s.Orderly pool main) : s.graph.reachable.length ≤ pool.length :=
  (List.subperm_of_subset s.graph.nodup_reachable (fun _ hm => hs.pooled _ (.inl hm))).length_le

/-- With fuel for the whole pool the search comes to an end: each method it looks at is another one of
the pool. -/
theorem complete_ne_outOfFuel (hp : ∀ m ∈ h.refs, m ∈ pool) {fuel : Nat} (hs : s.Orderly pool main)
    (hfuel : pool.length < s.graph.reachable.length + fuel) :
    (complete h fuel s).2 ≠ .error .outOfFuel := by
  induction fuel generalizing s with
  | zero => exact absurd hs.length_le (Nat.not_le.2 hfuel)
  | succ fuel ih =>
      rw [complete]
      split
      · exact nofun
      · rename_i m rest hq
        obtain ⟨hpop, hadd⟩ := orderly_pop hs hq
        simp only
        split
        · exact nofun
        · rename_i t u ht
          obtain ⟨ho, hr⟩ := orderly_resolveEach hp hpop ht
          apply ih ho
          rw [hr]
          change pool.length < (s.graph.addReachable m).reachable.length + fuel
          rw [hadd, List.length_append, List.length_singleton]
          omega

theorem orderly_begin (p : Program) :
    (start p.main).Orderly (p.main :: p.hierarchy.refs) p.main :=
  orderly_start List.mem_cons_self

theorem orderly_search {p : Program} (hs : search p = (s, .ok ())) :
    s.Orderly (p.main :: p.hierarchy.refs) p.main ∧ s.queue.items = [] :=
  orderly_complete (fun _ hm => List.mem_cons_of_mem _ hm) (orderly_begin p) hs

theorem search_ne_outOfFuel (p : Program) : (search p).2 ≠ .error .outOfFuel :=
  complete_ne_outOfFuel (fun _ hm => List.mem_cons_of_mem _ hm) (orderly_begin p)
    (by rw [List.length_cons]; omega)

theorem complete_add {fuel : Nat} (hs : (complete h fuel s).2 ≠ .error .outOfFuel) (k : Nat) :
    complete h (fuel + k) s = complete h fuel s := by
  induction fuel generalizing s with
  | zero => exact absurd rfl hs
  | succ fuel ih =>
      rw [complete] at hs
      rw [Nat.succ_add, complete, complete]
      cases hq : s.queue.pop? with
      | none => rfl
      | some q =>
          rw [hq] at hs
          simp only at hs ⊢
          split at hs
          · rfl
          · exact ih hs

theorem complete_eq {k l : Nat} (hk : (complete h k s).2 ≠ .error .outOfFuel)
    (hl : (complete h l s).2 ≠ .error .outOfFuel) : complete h k s = complete h l s := by
  rw [← complete_add hk l, ← complete_add hl k, Nat.add_comm]

end CallGraph.Search

theorem CallGraph.search_of_ofProgram {p : Program} {calls : CallGraph}
    (h : ofProgram p = .ok calls) : ∃ s, search p = (s, .ok ()) ∧ calls = s.graph := by
  rw [ofProgram] at h
  cases hs : search p with
  | mk s outcome =>
      rw [hs] at h
      cases outcome with
      | error e => cases h
      | ok u =>
          cases h
          exact ⟨s, rfl, rfl⟩

theorem CallGraph.closed_of_ofProgram {p : Program} {calls : CallGraph}
    (h : ofProgram p = .ok calls) :
    calls.entries = [p.main] ∧ p.main ∈ calls.reachable ∧
      ∀ e ∈ calls.edges, e.callee ∈ calls.reachable := by
  obtain ⟨s, hs, rfl⟩ := search_of_ofProgram h
  obtain ⟨ho, hq⟩ := Search.orderly_search hs
  refine ⟨ho.entries, ?_, fun e he => ?_⟩
  · exact ho.main_found.resolve_right (fun hm => by rw [hq] at hm; cases hm)
  · exact (ho.closed e he).resolve_right (fun hm => by rw [hq] at hm; cases hm)

end Dataflow
