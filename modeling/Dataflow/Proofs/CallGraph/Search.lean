import Dataflow.Proofs.CallGraph.Order
import Dataflow.Proofs.CallGraph.Resolves

namespace Dataflow

namespace Hierarchy

variable {h : Hierarchy}

def edgesAt (h : Hierarchy) (s : Site) : List CallEdge :=
  match h.callAt? s with
  | none => []
  | some c =>
    match h.resolve s c with
    | .error _ => []
    | .ok l => l.map (CallEdge.mk c.kind s)

def edgesOf (h : Hierarchy) (m : MethodRef) : List CallEdge := (h.sitesOf m).flatMap h.edgesAt

theorem mem_edgesAt_iff (h : Hierarchy) (s : Site) (e : CallEdge) : e ∈ h.edgesAt s ↔
    e.site = s ∧ ∃ c l, h.callAt? s = some c ∧ e.kind = c.kind ∧ h.resolve s c = .ok l ∧
      e.callee ∈ l := by
  rw [edgesAt]
  split
  · rename_i hc
    simp [hc]
  · rename_i c hc
    split
    · rename_i hr
      simp [hc, hr]
    · rename_i l hr
      rw [List.mem_map]
      constructor
      · rintro ⟨n, hn, rfl⟩
        exact ⟨rfl, c, l, hc, rfl, hr, hn⟩
      · rintro ⟨hs, c', l', hc', hk, hr', hn⟩
        rw [hc] at hc'
        cases hc'
        rw [hr] at hr'
        cases hr'
        exact ⟨e.callee, hn, by rw [← hk, ← hs]⟩

theorem edgesAt_of_resolve {s : Site} {c : Call} {l : List MethodRef} (hc : h.callAt? s = some c)
    (hl : h.resolve s c = .ok l) : h.edgesAt s = l.map (CallEdge.mk c.kind s) := by
  simp only [edgesAt, hc, hl]

theorem nodup_edgesAt (h : Hierarchy) (s : Site) : (h.edgesAt s).Nodup := by
  rw [edgesAt]
  split
  · exact List.nodup_nil
  · split
    · exact List.nodup_nil
    · rename_i hl
      exact (nodup_of_resolve hl).map (fun _ _ he => congrArg CallEdge.callee he)

theorem method_of_mem_sitesOf {m : MethodRef} {s : Site} (hs : s ∈ h.sitesOf m) : s.method = m := by
  rw [sitesOf] at hs
  cases hb : h.body? m with
  | none => rw [hb] at hs; cases hs
  | some b =>
      rw [hb] at hs
      obtain ⟨i, -, rfl⟩ := List.mem_map.1 hs
      rfl

theorem nodup_sitesOf (h : Hierarchy) (m : MethodRef) : (h.sitesOf m).Nodup := by
  rw [sitesOf]
  cases h.body? m with
  | none => exact List.nodup_nil
  | some b => exact (List.nodup_range.filter _).map (fun _ _ hi => congrArg Site.position hi)

theorem exists_of_callAt? {s : Site} {c : Call} (hc : h.callAt? s = some c) :
    ∃ b, h.body? s.method = some b ∧ ∃ result, b.stmt? s.position = some (.invoke result c) := by
  rw [callAt?] at hc
  split at hc
  · rename_i result call hs
    cases hc
    obtain ⟨b, hb, hs⟩ := Option.bind_eq_some_iff.1 hs
    exact ⟨b, hb, result, hs⟩
  · cases hc

theorem exists_of_body? {m : MethodRef} {b : Body} (hb : h.body? m = some b) :
    ∃ d ∈ h.methods, d.body = some b := by
  obtain ⟨d, hd, hb⟩ := Option.bind_eq_some_iff.1 hb
  obtain ⟨c, hc, hd⟩ := Option.bind_eq_some_iff.1 hd
  exact ⟨d, mem_methods_of_method? (mem_decls_of_classNamed? hc) hd, hb⟩

theorem mem_edgesOf_iff (h : Hierarchy) (m : MethodRef) (e : CallEdge) :
    e ∈ h.edgesOf m ↔ e.caller = m ∧ e.site ∈ h.sitesOf m ∧ e ∈ h.edgesAt e.site := by
  rw [edgesOf, List.mem_flatMap]
  constructor
  · rintro ⟨s, hs, he⟩
    obtain rfl := ((h.mem_edgesAt_iff s e).1 he).1
    exact ⟨method_of_mem_sitesOf hs, hs, he⟩
  · rintro ⟨-, hs, he⟩
    exact ⟨e.site, hs, he⟩

theorem calls_iff (h : Hierarchy) (m n : MethodRef) :
    h.Calls m n ↔ ∃ e ∈ h.edgesOf m, e.callee = n := by
  constructor
  · rintro ⟨s, hs, l, hl, hn⟩
    rw [resolveAt] at hl
    split at hl
    · rename_i c hc
      refine ⟨⟨c.kind, s, n⟩, List.mem_flatMap.2 ⟨s, hs, ?_⟩, rfl⟩
      exact (h.mem_edgesAt_iff s _).2 ⟨rfl, c, l, hc, rfl, hl, hn⟩
    · cases hl
      cases hn
  · rintro ⟨e, he, rfl⟩
    obtain ⟨-, hs, he⟩ := (h.mem_edgesOf_iff m e).1 he
    obtain ⟨-, c, l, hc, -, hl, hn⟩ := (h.mem_edgesAt_iff _ e).1 he
    refine ⟨e.site, hs, l, ?_, hn⟩
    simp only [resolveAt, hc, hl]

theorem resolveAt_eq {s : Site} {l : List MethodRef} (hl : h.resolveAt s = .ok l) :
    (h.edgesAt s).map CallEdge.callee = l := by
  rw [resolveAt] at hl
  rw [edgesAt]
  split at hl
  · rename_i c hc
    simp only [hc, hl, List.map_map]
    exact List.map_id l
  · rename_i hc
    cases hl
    simp only [hc]
    rfl

theorem nodup_edgesOf (h : Hierarchy) (m : MethodRef) : (h.edgesOf m).Nodup :=
  nodup_flatMap_of_nodup (fun s e he => ((h.mem_edgesAt_iff s e).1 he).1) h.nodup_edgesAt
    (h.nodup_sitesOf m)

end Hierarchy

namespace CallGraph

namespace Search

variable {h : Hierarchy} {main : MethodRef} {s t u : Search}

/-- What a search gains from edges that it has not entered yet: it enters them in order, and puts the
callees it has not found yet in the queue. -/
structure Gains (s t : Search) (es : List CallEdge) : Prop where
  reachable : t.graph.reachable = s.graph.reachable
  edges : t.graph.edges = s.graph.edges ++ es
  queue : ∃ new, t.queue.items = s.queue.items ++ new ∧ new.Nodup ∧
    ∀ n ∈ new, (∃ e ∈ es, e.callee = n) ∧ n ∉ s.graph.reachable ++ s.queue.items
  found : ∀ e ∈ es, e.callee ∈ t.graph.reachable ++ t.queue.items

theorem gains_nil (hg : t.graph = s.graph) (hq : t.queue = s.queue) : s.Gains t [] where
  reachable := congrArg _ hg
  edges := by rw [hg, List.append_nil]
  queue := ⟨[], by rw [hq, List.append_nil], List.nodup_nil, fun _ hn => absurd hn List.not_mem_nil⟩
  found _ he := absurd he List.not_mem_nil

theorem Gains.trans {es es' : List CallEdge} (hs : s.Gains t es) (ht : t.Gains u es') :
    s.Gains u (es ++ es') := by
  obtain ⟨new, hq, hn, hnew⟩ := hs.queue
  obtain ⟨new', hq', hn', hnew'⟩ := ht.queue
  constructor
  · exact ht.reachable.trans hs.reachable
  · rw [ht.edges, hs.edges, List.append_assoc]
  · refine ⟨new ++ new', by rw [hq', hq, List.append_assoc], ?_, fun n hm => ?_⟩
    · refine List.nodup_append.2 ⟨hn, hn', fun x hx y hy hxy => (hnew' y hy).2 ?_⟩
      rw [← hxy, hq]
      exact List.mem_append_right _ (List.mem_append_right _ hx)
    · rcases List.mem_append.1 hm with hm | hm
      · obtain ⟨⟨e, he, hc⟩, hold⟩ := hnew n hm
        exact ⟨⟨e, List.mem_append_left _ he, hc⟩, hold⟩
      · obtain ⟨⟨e, he, hc⟩, hold⟩ := hnew' n hm
        refine ⟨⟨e, List.mem_append_right _ he, hc⟩, fun hm' => hold ?_⟩
        rw [hs.reachable, hq, ← List.append_assoc]
        exact List.mem_append_left _ hm'
  · intro e he
    rcases List.mem_append.1 he with he | he
    · rw [ht.reachable, hq', ← List.append_assoc]
      exact List.mem_append_left _ (hs.found e he)
    · exact ht.found e he

theorem gains_meetCallee {kind : CallKind} {site : Site} {n : MethodRef}
    (hnew : ⟨kind, site, n⟩ ∉ s.graph.edges) :
    s.Gains (meetCallee kind site s n) [⟨kind, site, n⟩] := by
  have hr : (meetCallee kind site s n).graph.reachable = s.graph.reachable := reachable_addEdge _ _
  have hfound : n ∈ (meetCallee kind site s n).graph.reachable ++
      (meetCallee kind site s n).queue.items := by
    rw [hr, List.mem_append, mem_queue_meetCallee]
    by_cases hn : n ∈ s.graph.reachable
    · exact .inl hn
    · exact .inr (.inr ⟨rfl, hn⟩)
  refine ⟨hr, ?_, ?_, fun e he => List.mem_singleton.1 he ▸ hfound⟩
  · change (s.graph.addEdge ⟨kind, site, n⟩).edges = _
    rw [addEdge, dif_neg hnew]
  · by_cases hn : n ∈ s.graph.reachable ++ s.queue.items
    · refine ⟨[], ?_, List.nodup_nil, fun _ hm => absurd hm List.not_mem_nil⟩
      rw [List.append_nil, meetCallee]
      simp only
      split
      · rfl
      · rename_i hc
        have hq : n ∈ s.queue.items := (List.mem_append.1 hn).resolve_left (fun hm => hc (by
          rw [CallGraph.contains, reachable_addEdge]
          exact List.contains_iff_mem.2 hm))
        rw [WorkQueue.items_add, if_pos hq]
    · refine ⟨[n], ?_, List.nodup_singleton n, fun m hm => ?_⟩
      · rw [List.mem_append, not_or] at hn
        rw [meetCallee]
        simp only [CallGraph.contains, reachable_addEdge]
        rw [if_neg (fun hc => hn.1 (List.contains_iff_mem.1 hc)), WorkQueue.items_add,
          if_neg hn.2]
      · obtain rfl := List.mem_singleton.1 hm
        exact ⟨⟨_, List.mem_singleton_self _, rfl⟩, hn⟩

theorem gains_foldl {kind : CallKind} {site : Site} {callees : List MethodRef}
    (hnew : (s.graph.edges ++ callees.map (CallEdge.mk kind site)).Nodup) :
    s.Gains (callees.foldl (meetCallee kind site) s) (callees.map (CallEdge.mk kind site)) := by
  induction callees generalizing s with
  | nil => exact gains_nil rfl rfl
  | cons n callees ih =>
      have hn : ⟨kind, site, n⟩ ∉ s.graph.edges :=
        fun he => (List.nodup_append.1 hnew).2.2 _ he _ List.mem_cons_self rfl
      have hstep := gains_meetCallee hn
      refine hstep.trans (ih ?_)
      rwa [hstep.edges, List.append_assoc]

theorem gains_meetSite {kind : CallKind} {site : Site} {callees : List MethodRef}
    (hnew : (s.graph.edges ++ callees.map (CallEdge.mk kind site)).Nodup) :
    s.Gains (meetSite kind site callees s) (callees.map (CallEdge.mk kind site)) := by
  rw [meetSite]
  split
  · rename_i he
    rw [List.isEmpty_iff.1 he]
    exact gains_nil rfl rfl
  · exact gains_foldl hnew

theorem gains_resolveEach {sites : List Site} (hm : h.resolveEach meetSite sites s = (t, .ok ()))
    (hnew : (s.graph.edges ++ sites.flatMap h.edgesAt).Nodup) :
    s.Gains t (sites.flatMap h.edgesAt) ∧ ∀ site ∈ sites, ∃ l, h.resolveAt site = .ok l := by
  induction sites generalizing s with
  | nil =>
      cases hm
      exact ⟨gains_nil rfl rfl, fun _ hs => absurd hs List.not_mem_nil⟩
  | cons site sites ih =>
      rw [List.flatMap_cons] at hnew ⊢
      rw [Hierarchy.resolveEach] at hm
      split at hm
      · rename_i hc
        have hnone : h.edgesAt site = [] := by simp only [Hierarchy.edgesAt, hc]
        rw [hnone, List.nil_append] at hnew ⊢
        obtain ⟨hg, hr⟩ := ih hm hnew
        refine ⟨hg, List.forall_mem_cons.2 ⟨⟨[], ?_⟩, hr⟩⟩
        simp only [Hierarchy.resolveAt, hc]
      · rename_i c hc
        split at hm
        · cases hm
        · rename_i l hl
          rw [Hierarchy.edgesAt_of_resolve hc hl] at hnew ⊢
          rw [← List.append_assoc] at hnew
          have hsite := gains_meetSite (List.nodup_append.1 hnew).1
          rw [← hsite.edges] at hnew
          obtain ⟨hg, hr⟩ := ih hm hnew
          refine ⟨hsite.trans hg, List.forall_mem_cons.2 ⟨⟨l, ?_⟩, hr⟩⟩
          simp only [Hierarchy.resolveAt, hc, hl]

/-- A search that has entered just what the methods looked at call, breadth first. -/
structure Faithful (h : Hierarchy) (main : MethodRef) (s : Search) : Prop where
  order : h.Breadthwise main s.graph.reachable s.queue.items
  edges : s.graph.edges = s.graph.reachable.flatMap h.edgesOf
  resolved : ∀ m ∈ s.graph.reachable, ∀ site ∈ h.sitesOf m, ∃ l, h.resolveAt site = .ok l

theorem faithful_start (h : Hierarchy) (main : MethodRef) : (start main).Faithful h main where
  order := h.breadthwise_start main
  edges := rfl
  resolved _ hm := absurd hm List.not_mem_nil

theorem nodup_flatMap_edgesOf (h : Hierarchy) {l : List MethodRef} (hl : l.Nodup) :
    (l.flatMap h.edgesOf).Nodup :=
  nodup_flatMap_of_nodup (fun m e he => ((h.mem_edgesOf_iff m e).1 he).1) h.nodup_edgesOf hl

theorem faithful_look (hs : s.Faithful h main) {m : MethodRef} {rest : WorkQueue MethodRef}
    (hq : s.queue.pop? = some (m, rest))
    (ht : h.resolveEach meetSite (h.sitesOf m)
      { s with graph := s.graph.addReachable m, queue := rest } = (t, .ok ())) :
    t.Faithful h main := by
  have horder := hs.order
  rw [WorkQueue.items_of_pop? hq] at horder
  have hnodup := horder.nodup
  have hm : m ∉ s.graph.reachable :=
    fun hm => (List.nodup_append.1 hnodup).2.2 m hm m List.mem_cons_self rfl
  have hreach : (s.graph.addReachable m).reachable = s.graph.reachable ++ [m] := by
    rw [addReachable, dif_neg hm]
  have hedges : (s.graph.addReachable m).edges = s.graph.reachable.flatMap h.edgesOf := by
    rw [addReachable, dif_neg hm]
    exact hs.edges
  have hall : (s.graph.addReachable m).edges ++ h.edgesOf m =
      (s.graph.reachable ++ [m]).flatMap h.edgesOf := by
    rw [hedges, List.flatMap_append, List.flatMap_singleton]
  have hlooked : (s.graph.reachable ++ [m]).Nodup :=
    List.concat_eq_append ▸ (List.nodup_append.1 hnodup).1.concat hm
  obtain ⟨hg, hres⟩ := gains_resolveEach ht (by
    change ((s.graph.addReachable m).edges ++ h.edgesOf m).Nodup
    rw [hall]
    exact nodup_flatMap_edgesOf h hlooked)
  have htr : t.graph.reachable = s.graph.reachable ++ [m] := hg.reachable.trans hreach
  obtain ⟨new, htq, hnewnodup, hnew⟩ := hg.queue
  have htq : t.queue.items = rest.items ++ new := htq
  have hfound : (s.graph.reachable ++ [m]) ++ rest.items = s.graph.reachable ++ m :: rest.items := by
    simp
  constructor
  · rw [htr, htq]
    apply horder.look _ hnewnodup
    · intro n hn
      obtain ⟨e, he, hc⟩ := (h.calls_iff m n).1 hn
      have hn := hg.found e he
      rwa [hc, htr, htq, ← List.append_assoc, hfound] at hn
    · intro n hn
      obtain ⟨he, hold⟩ := hnew n hn
      change n ∉ (s.graph.addReachable m).reachable ++ rest.items at hold
      rw [hreach, hfound] at hold
      exact ⟨(h.calls_iff m n).2 he, hold⟩
  · rw [htr, ← hall]
    exact hg.edges
  · rw [htr]
    intro k hk
    rcases List.mem_append.1 hk with hk | hk
    · exact hs.resolved k hk
    · rw [List.mem_singleton.1 hk]
      exact hres

theorem faithful_complete {fuel : Nat} (hs : s.Faithful h main)
    (ht : complete h fuel s = (t, .ok ())) : t.Faithful h main := by
  induction fuel generalizing s with
  | zero => cases ht
  | succ fuel ih =>
      rw [complete] at ht
      split at ht
      · cases ht
        exact hs
      · rename_i m rest hq
        simp only at ht
        split at ht
        · cases ht
        · rename_i u _ hu
          exact ih (faithful_look hs hq hu) ht

theorem Faithful.mem_edges_iff (hs : s.Faithful h main) (e : CallEdge) :
    e ∈ s.graph.edges ↔ e.caller ∈ s.graph.reachable ∧ e ∈ h.edgesOf e.caller := by
  rw [hs.edges, List.mem_flatMap]
  constructor
  · rintro ⟨m, hm, he⟩
    obtain rfl := ((h.mem_edgesOf_iff m e).1 he).1
    exact ⟨hm, he⟩
  · rintro ⟨hm, he⟩
    exact ⟨e.caller, hm, he⟩

theorem Faithful.mem_edgesAt (hs : s.Faithful h main) {e : CallEdge} (he : e ∈ s.graph.edges) :
    e ∈ h.edgesAt e.site :=
  ((h.mem_edgesOf_iff e.caller e).1 ((hs.mem_edges_iff e).1 he).2).2.2

theorem Faithful.edgesFrom_eq (hs : s.Faithful h main) {m : MethodRef}
    (hm : m ∈ s.graph.reachable) {site : Site} (hsite : site ∈ h.sitesOf m) :
    s.graph.edgesFrom site = h.edgesAt site := by
  have hedges : s.graph.edges = (s.graph.reachable.flatMap h.sitesOf).flatMap h.edgesAt := by
    rw [hs.edges, List.flatMap_assoc]
    rfl
  have hsites : (s.graph.reachable.flatMap h.sitesOf).Nodup :=
    nodup_flatMap_of_nodup (fun _ _ hm => Hierarchy.method_of_mem_sitesOf hm) h.nodup_sitesOf
      s.graph.nodup_reachable
  rw [edgesFrom, hedges]
  exact filter_flatMap_of_nodup (fun c e he => ((h.mem_edgesAt_iff c e).1 he).1) hsites
    (List.mem_flatMap.2 ⟨m, hm, hsite⟩)

theorem Faithful.callees_eq (hs : s.Faithful h main) {m : MethodRef} (hm : m ∈ s.graph.reachable)
    {site : Site} (hsite : site ∈ h.sitesOf m) :
    h.resolveAt site = .ok (s.graph.callees site) := by
  obtain ⟨l, hl⟩ := hs.resolved m hm site hsite
  rw [callees, hs.edgesFrom_eq hm hsite, Hierarchy.resolveAt_eq hl, hl]

theorem Faithful.nodup_callees (hs : s.Faithful h main) (site : Site) :
    (s.graph.callees site).Nodup := by
  refine List.Nodup.map_on ?_ (s.graph.nodup_edges.filter _)
  intro e he e' he' hc
  obtain ⟨he, hsite⟩ := (s.graph.mem_edgesFrom_iff site e).1 he
  obtain ⟨he', hsite'⟩ := (s.graph.mem_edgesFrom_iff site e').1 he'
  obtain ⟨-, c, -, hcall, hkind, -⟩ := (h.mem_edgesAt_iff _ e).1 (hs.mem_edgesAt he)
  obtain ⟨-, c', -, hcall', hkind', -⟩ := (h.mem_edgesAt_iff _ e').1 (hs.mem_edgesAt he')
  rw [hsite] at hcall
  rw [hsite', hcall] at hcall'
  obtain rfl := Option.some.inj hcall'
  cases e with
  | mk kind s n =>
      cases e' with
      | mk kind' s' n' =>
          cases hsite
          cases hsite'
          cases hkind
          cases hkind'
          cases hc
          rfl

theorem resolveEach_ok {σ : Type} (meet : CallKind → Site → List MethodRef → σ → σ)
    {sites : List Site}
    (hr : ∀ site ∈ sites, ∀ c, h.callAt? site = some c → ∃ l, h.resolve site c = .ok l) (s : σ) :
    ∃ t, h.resolveEach meet sites s = (t, .ok ()) := by
  induction sites generalizing s with
  | nil => exact ⟨s, rfl⟩
  | cons site sites ih =>
      have hrest := (List.forall_mem_cons.1 hr).2
      rw [Hierarchy.resolveEach]
      cases hc : h.callAt? site with
      | none => exact ih hrest s
      | some c =>
          obtain ⟨l, hl⟩ := hr site List.mem_cons_self c hc
          simp only [hl]
          exact ih hrest _

/-- In a sane hierarchy a search does not fail. -/
theorem complete_ne_failed (hs : h.Sane) (fuel : Nat) (s : Search) (e : HierarchyError) :
    (complete h fuel s).2 ≠ .error (.failed e) := by
  induction fuel generalizing s with
  | zero => intro hc; cases hc
  | succ fuel ih =>
      rw [complete]
      cases hq : s.queue.pop? with
      | none => intro hc; cases hc
      | some q =>
          obtain ⟨m, rest⟩ := q
          have hr : ∀ site ∈ h.sitesOf m, ∀ c, h.callAt? site = some c →
              ∃ l, h.resolve site c = .ok l :=
            fun site hsite c hc => hs.resolve_ok hsite hc
          obtain ⟨t, ht⟩ := resolveEach_ok meetSite hr
            { s with graph := s.graph.addReachable m, queue := rest }
          simp only [ht]
          exact ih t

end Search

end CallGraph

end Dataflow
