import Dataflow.CallGraph.Tables
import Dataflow.Proofs.CallGraph.Search
import Dataflow.Proofs.OrderedMap

namespace Dataflow

namespace CallTables

variable {h : Hierarchy} {t : CallTables}

theorem mem_methods_iff (t : CallTables) (m : MethodRef) : m ∈ t.methods ↔ t.contains m = true :=
  t.reachable.mem_keys_iff m

theorem mem_calls_iff (t : CallTables) (e : CallEdge) :
    e ∈ t.calls ↔ t.edges.contains e = true :=
  t.edges.mem_keys_iff e

/-- Tables that go together: of the methods reached the call sites are known, of all edges both ends, and
each edge stands under its site and under its callee. -/
structure InStep (h : Hierarchy) (t : CallTables) : Prop where
  sites : ∀ m, t.sites.get? m = if m ∈ t.methods then some (h.sitesOf m) else none
  leaving : t.leaving.Groups t.calls CallEdge.site
  reaching : t.reaching.Groups t.calls CallEdge.callee
  mem_leaving : ∀ s, s ∈ t.leaving.keys ↔
    (∃ m ∈ t.methods, s ∈ h.sitesOf m) ∨ ∃ e ∈ t.calls, e.site = s
  mem_reaching : ∀ m, m ∈ t.reaching.keys ↔ m ∈ t.methods ∨ ∃ e ∈ t.calls, e.callee = m

theorem inStep_empty (h : Hierarchy) : InStep h {} where
  sites _ := rfl
  leaving := OrderedMap.groups_empty _
  reaching := OrderedMap.groups_empty _
  mem_leaving _ := ⟨fun hs => (nomatch hs), by rintro (⟨_, hm, -⟩ | ⟨_, he, -⟩) <;> cases ‹_ ∈ []›⟩
  mem_reaching _ := ⟨fun hm => (nomatch hm), by rintro (hm | ⟨_, he, -⟩) <;> cases ‹_ ∈ []›⟩

theorem addReachable_of_mem {m : MethodRef} (hm : m ∈ t.methods) :
    t.addReachable h m = (false, t) := by
  rw [addReachable, if_pos ((t.mem_methods_iff m).1 hm)]

theorem addReachable_of_not_mem {m : MethodRef} (hm : m ∉ t.methods) :
    t.addReachable h m = (true, { t with
      reachable := t.reachable.insert m ()
      sites := t.sites.insert m (h.sitesOf m)
      leaving := (h.sitesOf m).foldl (fun l s => l.setDefault s []) t.leaving
      reaching := t.reaching.setDefault m [] }) := by
  rw [addReachable, if_neg (mt (t.mem_methods_iff m).2 hm)]

theorem addEdge_of_mem {e : CallEdge} (he : e ∈ t.calls) : t.addEdge e = (false, t) := by
  rw [addEdge, if_pos ((t.mem_calls_iff e).1 he)]

theorem addEdge_of_not_mem {e : CallEdge} (he : e ∉ t.calls) :
    t.addEdge e = (true, { t with
      edges := t.edges.insert e ()
      leaving := t.leaving.file e.site e
      reaching := t.reaching.file e.callee e }) := by
  rw [addEdge, if_neg (mt (t.mem_calls_iff e).2 he)]

theorem InStep.addEntry (ht : t.InStep h) (m : MethodRef) : (t.addEntry m).InStep h := by
  rw [CallTables.addEntry]
  split
  · exact ht
  · exact ⟨ht.sites, ht.leaving, ht.reaching, ht.mem_leaving, ht.mem_reaching⟩

theorem InStep.addReachable (ht : t.InStep h) (m : MethodRef) :
    (t.addReachable h m).2.InStep h := by
  by_cases hm : m ∈ t.methods
  · rw [addReachable_of_mem hm]
    exact ht
  · rw [addReachable_of_not_mem hm]
    have hmethods (n : MethodRef) :
        n ∈ (t.reachable.insert m ()).keys ↔ n = m ∨ n ∈ t.methods :=
      OrderedMap.mem_keys_insert ()
    constructor
    case sites =>
      intro n
      simp only [OrderedMap.get?_insert, ht.sites, methods, hmethods]
      grind
    case leaving => exact ht.leaving.foldl_setDefault _
    case reaching => exact ht.reaching.setDefault m
    case mem_leaving =>
      intro s
      simp only [OrderedMap.mem_keys_foldl_setDefault, ht.mem_leaving, methods, calls, hmethods]
      grind
    case mem_reaching =>
      intro n
      simp only [OrderedMap.mem_keys_setDefault, ht.mem_reaching, methods, calls, hmethods]
      grind

theorem InStep.addEdge (ht : t.InStep h) (e : CallEdge) : (t.addEdge e).2.InStep h := by
  by_cases he : e ∈ t.calls
  · rw [addEdge_of_mem he]
    exact ht
  · rw [addEdge_of_not_mem he]
    have hcalls : (t.edges.insert e ()).keys = t.calls ++ [e] :=
      OrderedMap.keys_insert_of_not_mem he ()
    constructor
    case sites => exact ht.sites
    case leaving =>
      simp only [calls, hcalls]
      exact ht.leaving.file e
    case reaching =>
      simp only [calls, hcalls]
      exact ht.reaching.file e
    case mem_leaving =>
      intro s
      simp only [OrderedMap.mem_keys_file, ht.mem_leaving, methods, calls, hcalls]
      grind
    case mem_reaching =>
      intro m
      simp only [OrderedMap.mem_keys_file, ht.mem_reaching, methods, calls, hcalls]
      grind

theorem graph_addEntry (t : CallTables) (m : MethodRef) :
    (t.addEntry m).graph = t.graph.addEntry m := by
  rw [addEntry, CallGraph.addEntry]
  change _ = if h : m ∈ t.entries then _ else _
  split <;> rfl

theorem addReachable_eq (h : Hierarchy) (t : CallTables) (m : MethodRef) :
    (t.addReachable h m).1 = !t.graph.contains m ∧
      (t.addReachable h m).2.graph = t.graph.addReachable m := by
  rw [CallGraph.contains, CallGraph.addReachable]
  by_cases hm : m ∈ t.graph.reachable
  · rw [addReachable_of_mem hm, dif_pos hm, List.contains_iff_mem.2 hm]
    exact ⟨rfl, rfl⟩
  · have hkeys : (t.reachable.insert m ()).keys = t.methods ++ [m] :=
      OrderedMap.keys_insert_of_not_mem hm ()
    rw [addReachable_of_not_mem hm, dif_neg hm, Bool.eq_false_iff.2 (mt List.contains_iff_mem.1 hm)]
    refine ⟨rfl, ?_⟩
    simp only [graph, methods, hkeys]
    rfl

theorem addEdge_eq (t : CallTables) (e : CallEdge) :
    (t.addEdge e).1 = !t.graph.containsEdge e ∧ (t.addEdge e).2.graph = t.graph.addEdge e := by
  rw [CallGraph.containsEdge, CallGraph.addEdge]
  by_cases he : e ∈ t.graph.edges
  · rw [addEdge_of_mem he, dif_pos he, List.contains_iff_mem.2 he]
    exact ⟨rfl, rfl⟩
  · have hkeys : (t.edges.insert e ()).keys = t.calls ++ [e] :=
      OrderedMap.keys_insert_of_not_mem he ()
    rw [addEdge_of_not_mem he, dif_neg he, Bool.eq_false_iff.2 (mt List.contains_iff_mem.1 he)]
    refine ⟨rfl, ?_⟩
    simp only [graph, calls, hkeys]
    rfl

/-- Tables answer as a graph does that keeps its methods and its edges in two lists. -/
structure Answers (h : Hierarchy) (t : CallTables) (g : CallGraph) : Prop where
  graph : t.graph = g
  contains : ∀ m, t.contains m = g.contains m
  sitesIn : ∀ m, t.sitesIn m = g.sitesIn h m
  edgesFrom : ∀ s, t.edgesFrom s = g.edgesFrom s
  edgesInto : ∀ m, t.edgesInto m = g.edgesInto m
  callees : ∀ s, t.callees s = g.callees s
  callers : ∀ m, t.callers m = g.callers m
  text : t.text = g.text

theorem contains_graph (t : CallTables) (m : MethodRef) : t.graph.contains m = t.contains m := by
  rw [Bool.eq_iff_iff, CallGraph.contains, List.contains_iff_mem, ← mem_methods_iff]
  rfl

theorem InStep.answers (ht : t.InStep h) : t.Answers h t.graph where
  graph := rfl
  contains m := (t.contains_graph m).symm
  sitesIn m := by
    rw [CallTables.sitesIn, OrderedMap.getD, ht.sites, CallGraph.sitesIn, contains_graph]
    simp only [mem_methods_iff]
    split <;> rfl
  edgesFrom s := ht.leaving.getD s
  edgesInto m := ht.reaching.getD m
  callees s := congrArg (List.map CallEdge.callee) (ht.leaving.getD s)
  callers m := congrArg (List.map CallEdge.site) (ht.reaching.getD m)
  text := rfl

namespace Search

open CallGraph (Stop)

variable {s t : Search} {u : CallGraph.Search} {m : MethodRef} {rest : List MethodRef} {fuel : Nat}

theorem visit_of_mem (rest : List MethodRef) (hm : m ∈ s.tables.methods) :
    s.visit h m rest = (false, { s with queue := rest }) := by
  rw [visit, addReachable_of_mem hm]

theorem visit_of_not_mem (rest : List MethodRef) (hm : m ∉ s.tables.methods) :
    s.visit h m rest = (true, (s.visit h m rest).2) ∧
      (s.visit h m rest).2.tables.methods = s.tables.methods ++ [m] ∧
      (s.visit h m rest).2.tables.sitesIn m = h.sitesOf m := by
  rw [visit, addReachable_of_not_mem hm]
  refine ⟨rfl, OrderedMap.keys_insert_of_not_mem hm (), ?_⟩
  rw [sitesIn, OrderedMap.getD_insert, if_pos rfl]

theorem complete_nil (hq : s.queue = []) : complete h (fuel + 1) s = (s, .ok ()) := by
  rw [complete, hq]

theorem complete_skip (hq : s.queue = m :: rest) (hm : m ∈ s.tables.methods) :
    complete h (fuel + 1) s = complete h fuel { s with queue := rest } := by
  rw [complete, hq]
  simp only [visit_of_mem rest hm]

theorem complete_failed (hq : s.queue = m :: rest) (hm : m ∉ s.tables.methods)
    {e : HierarchyError}
    (ht : h.resolveEach meetSite (h.sitesOf m) (s.visit h m rest).2 = (t, .error e)) :
    complete h (fuel + 1) s = (t, .error (.failed e)) := by
  obtain ⟨hvisit, -, hsites⟩ := visit_of_not_mem (h := h) rest hm
  rw [complete, hq]
  simp only
  rw [hvisit]
  simp only [hsites, ht]

theorem complete_look (hq : s.queue = m :: rest) (hm : m ∉ s.tables.methods)
    (ht : h.resolveEach meetSite (h.sitesOf m) (s.visit h m rest).2 = (t, .ok ())) :
    complete h (fuel + 1) s = complete h fuel t := by
  obtain ⟨hvisit, -, hsites⟩ := visit_of_not_mem (h := h) rest hm
  rw [complete, hq]
  simp only
  rw [hvisit]
  simp only [hsites, ht]

theorem inStep_meetSite (hs : s.tables.InStep h) (kind : CallKind) (site : Site)
    (callees : List MethodRef) : (meetSite kind site callees s).tables.InStep h := by
  apply List.foldlRecOn (motive := fun s : Search => s.tables.InStep h)
  · split <;> exact hs
  · exact fun s hs m _ => hs.addEdge _

theorem inStep_resolveEach (hs : s.tables.InStep h) (sites : List Site) :
    (h.resolveEach meetSite sites s).1.tables.InStep h := by
  induction sites generalizing s with
  | nil => exact hs
  | cons site sites ih =>
      rw [Hierarchy.resolveEach]
      split
      · exact ih hs
      · split
        · exact hs
        · exact ih (inStep_meetSite hs _ site _)

theorem inStep_complete (hs : s.tables.InStep h) (fuel : Nat) :
    (complete h fuel s).1.tables.InStep h := by
  induction fuel generalizing s with
  | zero => exact hs
  | succ fuel ih =>
      cases hq : s.queue with
      | nil => rwa [complete_nil hq]
      | cons m rest =>
          by_cases hm : m ∈ s.tables.methods
          · rw [complete_skip hq hm]
            exact ih hs
          · have hvisit : (s.visit h m rest).2.tables.InStep h := hs.addReachable m
            have hmet := inStep_resolveEach hvisit (h.sitesOf m)
            cases ht : h.resolveEach meetSite (h.sitesOf m) (s.visit h m rest).2 with
            | mk t outcome =>
                rw [ht] at hmet
                cases outcome with
                | error e => rwa [complete_failed hq hm ht]
                | ok _ =>
                    rw [complete_look hq hm ht]
                    exact ih hmet

theorem inStep_search (p : Program) : (search p).1.tables.InStep p.hierarchy :=
  inStep_complete ((inStep_empty _).addEntry _) _

def waiting (s : Search) : List MethodRef :=
  (s.queue.filter (fun m => m ∉ s.tables.methods)).eraseDups

/-- The search with the plain graph is as far, and its queue holds once what waits for good reason. -/
structure Matches (s : Search) (u : CallGraph.Search) : Prop where
  graph : s.tables.graph = u.graph
  queue : u.queue.items = s.waiting
  unresolved : s.unresolved = u.unresolved

theorem matches_start (main : MethodRef) : Matches (start main) (.start main) where
  graph := graph_addEntry {} main
  queue := rfl
  unresolved := rfl

theorem methods_addEdge (t : CallTables) (e : CallEdge) : (t.addEdge e).2.methods = t.methods := by
  rw [addEdge]
  split <;> rfl

theorem matches_meetCallee (hm : Matches s u) (kind : CallKind) (site : Site) (n : MethodRef) :
    Matches (meetCallee kind site s n) (CallGraph.Search.meetCallee kind site u n) := by
  have hgraph : (s.tables.addEdge ⟨kind, site, n⟩).2.graph = u.graph.addEdge ⟨kind, site, n⟩ := by
    rw [(addEdge_eq _ _).2, hm.graph]
  have hcontains : (u.graph.addEdge ⟨kind, site, n⟩).contains n =
      (s.tables.addEdge ⟨kind, site, n⟩).2.contains n := by
    rw [← hgraph, contains_graph]
  refine ⟨hgraph, ?_, hm.unresolved⟩
  simp only [meetCallee, CallGraph.Search.meetCallee, waiting, methods_addEdge, hcontains]
  split
  · exact hm.queue
  · rename_i hn
    have hn : n ∉ s.tables.methods := by
      rwa [← mem_methods_iff, methods_addEdge] at hn
    rw [List.filter_append, List.filter_singleton, decide_eq_true hn, cond_true, eraseDups_concat,
      WorkQueue.items_add, hm.queue, waiting]
    simp only [List.mem_eraseDups]

theorem matches_meetSite (hm : Matches s u) (kind : CallKind) (site : Site)
    (callees : List MethodRef) :
    Matches (meetSite kind site callees s) (CallGraph.Search.meetSite kind site callees u) := by
  rw [meetSite, CallGraph.Search.meetSite]
  have hunresolved : Matches
      (if callees.isEmpty then { s with unresolved := s.unresolved ++ [site] } else s)
      (if callees.isEmpty then { u with unresolved := u.unresolved ++ [site] } else u) := by
    split
    · exact ⟨hm.graph, hm.queue, by rw [hm.unresolved]⟩
    · exact hm
  generalize (if callees.isEmpty then { s with unresolved := s.unresolved ++ [site] } else s) = s'
    at hunresolved ⊢
  generalize (if callees.isEmpty then { u with unresolved := u.unresolved ++ [site] } else u) = u'
    at hunresolved ⊢
  induction callees generalizing s' u' with
  | nil => exact hunresolved
  | cons n callees ih => exact ih _ _ (matches_meetCallee hunresolved kind site n)

theorem matches_resolveEach (hm : Matches s u) (sites : List Site) :
    ∃ u', h.resolveEach CallGraph.Search.meetSite sites u =
        (u', (h.resolveEach meetSite sites s).2) ∧
      Matches (h.resolveEach meetSite sites s).1 u' := by
  induction sites generalizing s u with
  | nil => exact ⟨u, rfl, hm⟩
  | cons site sites ih =>
      rw [Hierarchy.resolveEach, Hierarchy.resolveEach]
      cases h.callAt? site with
      | none => exact ih hm
      | some c =>
          cases hr : h.resolve site c with
          | error e =>
              simp only [hr]
              exact ⟨u, rfl, hm⟩
          | ok callees =>
              simp only [hr]
              exact ih (matches_meetSite hm c.kind site callees)

theorem matches_visit (hs : Matches s u) (hq : s.queue = m :: rest) (hm : m ∉ s.tables.methods) :
    ∃ rest', u.queue.pop? = some (m, rest') ∧
      Matches (s.visit h m rest).2
        { u with graph := u.graph.addReachable m, queue := rest' } := by
  have hmethods := (visit_of_not_mem (h := h) rest hm).2.1
  have hwaiting : s.waiting = m :: (s.visit h m rest).2.waiting := by
    rw [waiting, waiting, hq, hmethods, List.filter_cons_of_pos (by simpa using hm),
      List.eraseDups_cons, List.filter_filter]
    congr 2
    refine List.filter_congr (fun n _ => ?_)
    rw [Bool.eq_iff_iff]
    simp [and_comm]
  cases hpop : u.queue.pop? with
  | none =>
      rw [WorkQueue.pop?_eq_none_iff, hs.queue, hwaiting] at hpop
      cases hpop
  | some q =>
      obtain ⟨n, rest'⟩ := q
      have hitems := WorkQueue.items_of_pop? hpop
      rw [hs.queue, hwaiting] at hitems
      obtain ⟨rfl, hrest⟩ := List.cons_eq_cons.1 hitems
      refine ⟨rest', rfl, ?_, hrest.symm, hs.unresolved⟩
      rw [← hs.graph]
      exact (addReachable_eq h s.tables m).2

/-- What waits though it was looked at is passed over, and the other search makes no step. -/
theorem matches_skip (hs : Matches s u) (hq : s.queue = m :: rest) (hm : m ∈ s.tables.methods) :
    Matches { s with queue := rest } u := by
  refine ⟨hs.graph, ?_, hs.unresolved⟩
  rw [hs.queue, waiting, hq, List.filter_cons_of_neg (by simpa using hm)]
  rfl

theorem matches_complete (hs : Matches s u)
    (hend : (complete h fuel s).2 ≠ .error .outOfFuel) :
    ∃ k, Matches (complete h fuel s).1 (CallGraph.Search.complete h k u).1 ∧
      (complete h fuel s).2 = (CallGraph.Search.complete h k u).2 := by
  induction fuel generalizing s u with
  | zero => exact absurd rfl hend
  | succ fuel ih =>
      cases hq : s.queue with
      | nil =>
          have hpop : u.queue.pop? = none := by
            rw [WorkQueue.pop?_eq_none_iff, hs.queue, waiting, hq]
            rfl
          refine ⟨1, ?_⟩
          rw [complete_nil hq, CallGraph.Search.complete, hpop]
          exact ⟨hs, rfl⟩
      | cons m rest =>
          by_cases hm : m ∈ s.tables.methods
          · rw [complete_skip hq hm] at hend ⊢
            exact ih (matches_skip hs hq hm) hend
          · obtain ⟨rest', hpop, hvisit⟩ := matches_visit (h := h) hs hq hm
            obtain ⟨u', hu, hmet⟩ := matches_resolveEach (h := h) hvisit (h.sitesOf m)
            cases ht : h.resolveEach meetSite (h.sitesOf m) (s.visit h m rest).2 with
            | mk t outcome =>
                rw [ht] at hu hmet
                cases outcome with
                | error e =>
                    refine ⟨1, ?_⟩
                    rw [complete_failed hq hm ht, CallGraph.Search.complete, hpop]
                    simp only [hu]
                    exact ⟨hmet, trivial⟩
                | ok _ =>
                    rw [complete_look hq hm ht] at hend ⊢
                    obtain ⟨k, hk⟩ := ih hmet hend
                    refine ⟨k + 1, ?_⟩
                    rw [CallGraph.Search.complete, hpop]
                    simp only [hu]
                    exact hk

/-- What a search makes wait without looking at a method: so many methods at most, and declared ones. -/
structure Lengthens (h : Hierarchy) (k : Nat) (s t : Search) : Prop where
  methods : t.tables.methods = s.tables.methods
  queue : ∃ new, t.queue = s.queue ++ new ∧ new.length ≤ k ∧ ∀ m ∈ new, m ∈ h.refs

variable {k l : Nat}

theorem lengthens_refl (h : Hierarchy) (s : Search) : Lengthens h 0 s s :=
  ⟨rfl, [], by simp⟩

theorem Lengthens.mono (hs : Lengthens h k s t) (hk : k ≤ l) : Lengthens h l s t := by
  obtain ⟨new, hq, hlength, hnew⟩ := hs.queue
  exact ⟨hs.methods, new, hq, hlength.trans hk, hnew⟩

theorem Lengthens.trans {r : Search} (hr : Lengthens h k r s) (hs : Lengthens h l s t) :
    Lengthens h (k + l) r t := by
  obtain ⟨new, hq, hlength, hnew⟩ := hr.queue
  obtain ⟨new', hq', hlength', hnew'⟩ := hs.queue
  refine ⟨hs.methods.trans hr.methods, new ++ new', by rw [hq', hq, List.append_assoc], ?_, ?_⟩
  · rw [List.length_append]
    exact Nat.add_le_add hlength hlength'
  · exact List.forall_mem_append.2 ⟨hnew, hnew'⟩

theorem lengthens_meetCallee (kind : CallKind) (site : Site) (s : Search) {n : MethodRef}
    (hn : n ∈ h.refs) : Lengthens h 1 s (meetCallee kind site s n) := by
  refine ⟨methods_addEdge _ _, ?_⟩
  simp only [meetCallee]
  split
  · exact ⟨[], by simp⟩
  · exact ⟨[n], rfl, le_rfl, fun m hm => List.mem_singleton.1 hm ▸ hn⟩

theorem lengthens_meetSite (kind : CallKind) (site : Site) {callees : List MethodRef}
    (hc : ∀ m ∈ callees, m ∈ h.refs) (s : Search) :
    Lengthens h callees.length s (meetSite kind site callees s) := by
  have hfold (s : Search) : Lengthens h callees.length s (callees.foldl (meetCallee kind site) s) := by
    induction callees generalizing s with
    | nil => exact lengthens_refl h s
    | cons n callees ih =>
        obtain ⟨hn, hc⟩ := List.forall_mem_cons.1 hc
        rw [List.length_cons, Nat.add_comm]
        exact (lengthens_meetCallee kind site s hn).trans (ih hc _)
  rw [meetSite]
  split
  · obtain ⟨hmethods, hqueue⟩ := hfold { s with unresolved := s.unresolved ++ [site] }
    exact ⟨hmethods, hqueue⟩
  · exact hfold s

theorem lengthens_resolveEach (sites : List Site) (s : Search) :
    Lengthens h (sites.length * h.refs.length) s (h.resolveEach meetSite sites s).1 := by
  induction sites generalizing s with
  | nil => exact (lengthens_refl h s).mono (Nat.zero_le _)
  | cons site sites ih =>
      rw [Hierarchy.resolveEach, List.length_cons, Nat.succ_mul, Nat.add_comm]
      split
      · exact (ih s).mono (Nat.le_add_left _ _)
      · split
        · exact (lengthens_refl h s).mono (Nat.zero_le _)
        · rename_i callees hr
          have hc : ∀ m ∈ callees, m ∈ h.refs := fun m hm => Hierarchy.mem_refs_of_resolve hr hm
          have hlength := (List.subperm_of_subset (Hierarchy.nodup_of_resolve hr) hc).length_le
          exact ((lengthens_meetSite _ site hc s).mono hlength).trans (ih _)

/-- What a search may still have to look at: what waits, and what can come to wait behind the methods of a
pool that it has not looked at. -/
def potential (h : Hierarchy) (pool : List MethodRef) (s : Search) : Nat :=
  s.queue.length +
    ((pool.filter (fun m => m ∉ s.tables.methods)).flatMap h.sitesOf).length * h.refs.length

variable {pool : List MethodRef}

theorem potential_skip (h : Hierarchy) (pool : List MethodRef) (hq : s.queue = m :: rest) :
    potential h pool { s with queue := rest } < potential h pool s := by
  rw [potential, potential, hq, List.length_cons]
  simp only
  omega

/-- Whatever a method makes wait was accounted for while it was not looked at. -/
theorem potential_look (hq : s.queue = m :: rest) (hm : m ∉ s.tables.methods) (hpool : m ∈ pool) :
    potential h pool (h.resolveEach meetSite (h.sitesOf m) (s.visit h m rest).2).1 <
      potential h pool s := by
  obtain ⟨hlooked, new, hqueue, hlength, -⟩ :=
    lengthens_resolveEach (h := h) (h.sitesOf m) (s.visit h m rest).2
  have hmethods := (visit_of_not_mem (h := h) rest hm).2.1
  have hrest : (s.visit h m rest).2.queue = rest := rfl
  have hfilter : pool.filter (fun n => n ∉ s.tables.methods ++ [m]) =
      (pool.filter (fun n => n ∉ s.tables.methods)).filter (fun n => n ≠ m) := by
    rw [List.filter_filter]
    refine List.filter_congr (fun n _ => ?_)
    rw [Bool.eq_iff_iff]
    simp [and_comm]
  have hmem : m ∈ pool.filter (fun n => n ∉ s.tables.methods) :=
    List.mem_filter.2 ⟨hpool, by simpa using hm⟩
  have hsites := Nat.mul_le_mul_right h.refs.length (length_flatMap_filter_ne_add_le h.sitesOf hmem)
  rw [Nat.add_mul] at hsites
  rw [potential, potential, hlooked, hmethods, hfilter, hqueue, hrest, hq, List.length_append,
    List.length_cons]
  omega

theorem complete_ne_outOfFuel (hrefs : ∀ m ∈ h.refs, m ∈ pool)
    (hqueue : ∀ m ∈ s.queue, m ∈ pool) (hfuel : potential h pool s < fuel) :
    (complete h fuel s).2 ≠ .error .outOfFuel := by
  induction fuel generalizing s with
  | zero => cases hfuel
  | succ fuel ih =>
      cases hq : s.queue with
      | nil =>
          rw [complete_nil hq]
          exact nofun
      | cons m rest =>
          obtain ⟨hpool, hrest⟩ := List.forall_mem_cons.1 (hq ▸ hqueue)
          by_cases hm : m ∈ s.tables.methods
          · have hskip := potential_skip h pool hq
            rw [complete_skip hq hm]
            exact ih hrest (by omega)
          · have hlook := potential_look (h := h) hq hm hpool
            obtain ⟨-, new, hnew, -, hmet⟩ :=
              lengthens_resolveEach (h := h) (h.sitesOf m) (s.visit h m rest).2
            cases ht : h.resolveEach meetSite (h.sitesOf m) (s.visit h m rest).2 with
            | mk t outcome =>
                rw [ht] at hlook hnew
                cases outcome with
                | error e =>
                    rw [complete_failed hq hm ht]
                    exact nofun
                | ok _ =>
                    rw [complete_look hq hm ht]
                    refine ih ?_ (Nat.lt_of_lt_of_le hlook (Nat.le_of_lt_succ hfuel))
                    rw [hnew]
                    exact List.forall_mem_append.2 ⟨hrest, fun n hn => hrefs n (hmet n hn)⟩

/-- The fuel of a search is enough. -/
theorem search_ne_outOfFuel (p : Program) : (search p).2 ≠ .error .outOfFuel := by
  have hmethods : (start p.main).tables.methods = [] := rfl
  have hqueue : (start p.main).queue = [p.main] := rfl
  have hpool : ∀ m ∈ (start p.main).queue, m ∈ p.main :: p.hierarchy.refs := by
    intro m hm
    rw [List.mem_singleton.1 hm]
    exact List.mem_cons_self
  refine complete_ne_outOfFuel (fun m hm => List.mem_cons_of_mem _ hm) hpool ?_
  rw [potential, hmethods, hqueue, Search.fuel, List.length_singleton]
  simp only [List.not_mem_nil, not_false_eq_true, decide_true, List.filter_true]
  omega

/-- Both searches find the same in the same order, and come to the same end. -/
theorem matches_search (p : Program) :
    Matches (search p).1 (CallGraph.search p).1 ∧ (search p).2 = (CallGraph.search p).2 := by
  obtain ⟨k, hmatches, hsame⟩ :=
    matches_complete (matches_start p.main) (search_ne_outOfFuel p)
  have hk : (CallGraph.Search.complete p.hierarchy k (.start p.main)).2 ≠ .error .outOfFuel :=
    hsame ▸ search_ne_outOfFuel p
  rw [CallGraph.Search.complete_eq hk (CallGraph.Search.search_ne_outOfFuel p)] at hmatches hsame
  exact ⟨hmatches, hsame⟩

end Search

theorem map_graph_ofProgram (p : Program) : (ofProgram p).map graph = CallGraph.ofProgram p := by
  obtain ⟨hmatches, hsame⟩ := Search.matches_search p
  rw [ofProgram, CallGraph.ofProgram]
  simp only [hsame, ← hmatches.graph]
  cases (CallGraph.search p).2 <;> rfl

theorem graph_of_ofProgram {p : Program} (ht : ofProgram p = .ok t) :
    CallGraph.ofProgram p = .ok t.graph := by
  rw [← map_graph_ofProgram, ht]
  rfl

theorem exists_of_ofProgram {p : Program} {g : CallGraph} (hg : CallGraph.ofProgram p = .ok g) :
    ∃ t, ofProgram p = .ok t ∧ t.graph = g := by
  rw [← map_graph_ofProgram] at hg
  cases ht : ofProgram p with
  | ok t =>
      rw [ht] at hg
      exact ⟨t, rfl, Except.ok.inj hg⟩
  | error stop => rw [ht] at hg; cases hg

theorem inStep_of_ofProgram {p : Program} (ht : ofProgram p = .ok t) : t.InStep p.hierarchy := by
  have hs := Search.inStep_search p
  rw [ofProgram] at ht
  cases hp : (search p).2 with
  | error e => simp only [hp] at ht; cases ht
  | ok _ =>
      simp only [hp] at ht
      cases ht
      exact hs

end CallTables

end Dataflow
