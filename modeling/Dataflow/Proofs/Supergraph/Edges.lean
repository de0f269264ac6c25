import Dataflow.Proofs.CallGraph.Reach
import Dataflow.Proofs.FlowGraph.OfBody
import Dataflow.Proofs.Supergraph.Equations
import Dataflow.Supergraph.OfCalls

namespace Dataflow

namespace Supergraph

variable {h : Hierarchy} {calls : CallGraph} {g : Supergraph}

theorem ofCalls_eq {ready : OrderedMap MethodRef FlowGraph} (hg : ofCalls h calls ready = .ok g) :
    ∃ l, embed h calls ready = .ok l ∧ g = join calls (.ofList l) := by
  obtain ⟨l, hl, hg⟩ := bind_eq_ok_iff.1 hg
  cases hg
  exact ⟨l, hl, rfl⟩

theorem embed_empty (h : Hierarchy) (calls : CallGraph) : embed h calls .empty =
    (calls.reachable.filterMap (fun m => (h.body? m).map (fun b => (m, b)))).mapM
      (fun e => FlowGraph.ofBody e.2 >>= fun f => .ok (e.1, f)) :=
  rfl

theorem mem_embed_iff {l : List (MethodRef × FlowGraph)} (hl : embed h calls .empty = .ok l)
    (m : MethodRef) (f : FlowGraph) : (m, f) ∈ l ↔
      m ∈ calls.reachable ∧ ∃ b, h.body? m = some b ∧ FlowGraph.ofBody b = .ok f := by
  rw [embed_empty] at hl
  constructor
  · intro hm
    obtain ⟨⟨k, b⟩, hk, hf⟩ := exists_of_mem_mapM hl hm
    obtain ⟨f', hf', he⟩ := bind_eq_ok_iff.1 hf
    cases he
    obtain ⟨k', hr, hb⟩ := List.mem_filterMap.1 hk
    obtain ⟨b', hb', he⟩ := Option.map_eq_some_iff.1 hb
    cases he
    exact ⟨hr, b, hb', hf'⟩
  · rintro ⟨hr, b, hb, hf⟩
    have hk : (m, b) ∈ calls.reachable.filterMap (fun m => (h.body? m).map (fun b => (m, b))) :=
      List.mem_filterMap.2 ⟨m, hr, by rw [hb]; rfl⟩
    obtain ⟨d, hd, he⟩ := exists_mem_of_mapM hl hk
    have hd' : (.ok (m, f) : Except GraphError _) = .ok d := by
      rw [← he, hf]
      rfl
    cases hd'
    exact hd

theorem map_fst_filterMap {α β : Type} (k : α → Option β) (xs : List α) :
    (xs.filterMap (fun m => (k m).map (fun b => (m, b)))).map Prod.fst =
      xs.filter (fun m => (k m).isSome) := by
  induction xs with
  | nil => rfl
  | cons x xs ih =>
      cases hx : k x with
      | none => simp [hx, ih]
      | some b => simp [hx, ih]

theorem nodup_embed {ready : OrderedMap MethodRef FlowGraph} {l : List (MethodRef × FlowGraph)}
    (hl : embed h calls ready = .ok l) : (l.map Prod.fst).Nodup := by
  rw [embed] at hl
  rw [map_of_mapM (k := Prod.fst) (fun e d hd => ?_) hl, map_fst_filterMap]
  · exact calls.nodup_reachable.filter _
  · split at hd
    · cases hd
      rfl
    · obtain ⟨f, -, he⟩ := bind_eq_ok_iff.1 hd
      cases he
      rfl

theorem body_of_graph? {ready : OrderedMap MethodRef FlowGraph}
    (hg : ofCalls h calls ready = .ok g)
    (hready : ∀ m f, ready.get? m = some f → h.body? m = some f.body) {m : MethodRef}
    {f : FlowGraph} (hf : g.graph? m = some f) : h.body? m = some f.body := by
  obtain ⟨l, hl, rfl⟩ := ofCalls_eq hg
  have hmem : (m, f) ∈ l := by
    rw [← OrderedMap.entries_ofList (nodup_embed hl)]
    exact (OrderedMap.get?_eq_some_iff _ _ _).1 hf
  rw [embed] at hl
  obtain ⟨⟨k, b⟩, hk, hd⟩ := exists_of_mem_mapM hl hmem
  obtain ⟨k', -, hb⟩ := List.mem_filterMap.1 hk
  obtain ⟨b', hb', he⟩ := Option.map_eq_some_iff.1 hb
  cases he
  split at hd
  · cases hd
    exact hready _ _ ‹_›
  · obtain ⟨f', hf', he⟩ := bind_eq_ok_iff.1 hd
    cases he
    rw [FlowGraph.body_ofBody hf']
    exact hb'

theorem graph?_eq_some_iff (hg : ofCalls h calls .empty = .ok g) (m : MethodRef) (f : FlowGraph) :
    g.graph? m = some f ↔
      m ∈ calls.reachable ∧ ∃ b, h.body? m = some b ∧ FlowGraph.ofBody b = .ok f := by
  obtain ⟨l, hl, rfl⟩ := ofCalls_eq hg
  rw [← mem_embed_iff hl]
  change (OrderedMap.ofList l).get? m = some f ↔ _
  rw [OrderedMap.get?_eq_some_iff, OrderedMap.entries_ofList (nodup_embed hl)]

theorem hasMethod_iff (hg : ofCalls h calls .empty = .ok g) (m : MethodRef) :
    g.hasMethod m = true ↔ m ∈ calls.reachable ∧ (h.body? m).isSome = true := by
  change (g.graph? m).isSome = true ↔ _
  rw [Option.isSome_iff_exists, Option.isSome_iff_exists]
  constructor
  · rintro ⟨f, hf⟩
    obtain ⟨hr, b, hb, -⟩ := (graph?_eq_some_iff hg m f).1 hf
    exact ⟨hr, b, hb⟩
  · rintro ⟨hr, b, hb⟩
    obtain ⟨l, hl, rfl⟩ := ofCalls_eq hg
    rw [embed_empty] at hl
    obtain ⟨d, hd, he⟩ := exists_mem_of_mapM hl (x := (m, b))
      (List.mem_filterMap.2 ⟨m, hr, by rw [hb]; rfl⟩)
    obtain ⟨f, hf, -⟩ := bind_eq_ok_iff.1 he
    exact ⟨f, (graph?_eq_some_iff hg m f).2 ⟨hr, b, hb, hf⟩⟩

theorem mem_edges_join (calls : CallGraph) (graphs : OrderedMap MethodRef FlowGraph)
    (e : SuperEdge) : e ∈ (join calls graphs).edges ↔ ∃ m f n, graphs.get? m = some f ∧
      n ∈ f.nodes ∧ e ∈ nodeEdges calls.callees graphs m f n := by
  change e ∈ List.flatMap _ _ ↔ _
  simp only [List.mem_flatMap]
  constructor
  · rintro ⟨d, hd, n, hn, he⟩
    exact ⟨d.1, d.2, n, (OrderedMap.get?_eq_some_iff _ _ _).2 hd, hn, he⟩
  · rintro ⟨m, f, n, hf, hn, he⟩
    exact ⟨(m, f), (OrderedMap.get?_eq_some_iff _ _ _).1 hf, n, hn, he⟩

theorem mem_edges_iff (hg : ofCalls h calls .empty = .ok g) (e : SuperEdge) :
    e ∈ g.edges ↔ ∃ m f n, g.graph? m = some f ∧ n ∈ f.nodes ∧
      e ∈ nodeEdges calls.callees g.graphs m f n := by
  obtain ⟨l, -, rfl⟩ := ofCalls_eq hg
  exact mem_edges_join calls _ e

variable {m : MethodRef} {f : FlowGraph}

theorem exists_normal (hg : ofCalls h calls .empty = .ok g) (hf : g.graph? m = some f) {n k : Node}
    (hn : ∀ result call, f.body.stmtOf? n ≠ some (.invoke result call)) (hk : k ∈ f.succs n) :
    ∃ kind, .normal ⟨m, n⟩ ⟨m, k⟩ kind ∈ g.edges := by
  obtain ⟨e, he, rfl, rfl⟩ := (f.mem_succs_iff n k).1 hk
  refine ⟨e.kind, (mem_edges_iff hg _).2 ⟨m, f, e.source, hf, ?_, ?_⟩⟩
  · exact (FlowGraph.hasNode_of_mem_succs hk).1
  · have hmem : SuperEdge.normal ⟨m, e.source⟩ ⟨m, e.target⟩ e.kind ∈
        (f.outEdges e.source).map (fun d => .normal ⟨m, e.source⟩ ⟨m, d.target⟩ d.kind) :=
      List.mem_map.2 ⟨e, List.mem_filter.2 ⟨he, decide_eq_true rfl⟩, rfl⟩
    simp only [nodeEdges]
    split
    · exact absurd ‹_› (hn _ _)
    · exact hmem

section CallSite

variable {i : Nat} {result : Option Var} {call : Call}

theorem mem_edges_of_callEdges (hg : ofCalls h calls .empty = .ok g) (hf : g.graph? m = some f)
    (hs : f.body.stmt? i = some (.invoke result call)) {e : SuperEdge}
    (he : e ∈ callEdges calls.callees g.graphs f ⟨m, i⟩) : e ∈ g.edges := by
  refine (mem_edges_iff hg e).2 ⟨m, f, .stmt i, hf, ?_, ?_⟩
  · refine (f.body.mem_nodes_iff _).2 (decide_eq_true ?_)
    exact (List.getElem?_eq_some_iff.1 hs).1
  · have hs : f.body.stmtOf? (.stmt i) = some (.invoke result call) := hs
    simp only [nodeEdges, hs]
    exact he

theorem exists_callToReturn (hg : ofCalls h calls .empty = .ok g) (hf : g.graph? m = some f)
    (hs : f.body.stmt? i = some (.invoke result call)) {k : Node} (hk : k ∈ f.succs (.stmt i)) :
    ∃ analysed, .callToReturn ⟨m, i⟩ ⟨m, k⟩ analysed ∈ g.edges ∧
      (analysed = true → calls.callees ⟨m, i⟩ ≠ [] ∧
        ∀ c ∈ calls.callees ⟨m, i⟩, g.hasMethod c = true) := by
  obtain ⟨e, he, hsource, rfl⟩ := (f.mem_succs_iff _ k).1 hk
  refine ⟨_, mem_edges_of_callEdges hg hf hs (List.mem_append_left _ (List.mem_map.2
    ⟨e, List.mem_filter.2 ⟨he, decide_eq_true hsource⟩, rfl⟩)), fun ha => ?_⟩
  obtain ⟨hne, hlen⟩ := Bool.and_eq_true_iff.1 ha
  refine ⟨fun he => ?_, ?_⟩
  · rw [he] at hne
    cases hne
  · exact List.length_filter_eq_length_iff.1 (of_decide_eq_true hlen)

theorem call_mem_edges (hg : ofCalls h calls .empty = .ok g) (hf : g.graph? m = some f)
    (hs : f.body.stmt? i = some (.invoke result call)) {c : MethodRef}
    (hc : c ∈ calls.callees ⟨m, i⟩) (hm : g.hasMethod c = true) : .call ⟨m, i⟩ c ∈ g.edges :=
  mem_edges_of_callEdges hg hf hs (List.mem_append_right _ (List.mem_flatMap.2
    ⟨c, List.mem_filter.2 ⟨hc, hm⟩, List.mem_cons_self⟩))

theorem ret_mem_edges (hg : ofCalls h calls .empty = .ok g) (hf : g.graph? m = some f)
    (hs : f.body.stmt? i = some (.invoke result call)) {c : MethodRef}
    (hc : c ∈ calls.callees ⟨m, i⟩) (hm : g.hasMethod c = true) {k : Node}
    (hk : k ∈ f.succs (.stmt i)) : .ret c ⟨m, i⟩ ⟨m, k⟩ ∈ g.edges :=
  mem_edges_of_callEdges hg hf hs (List.mem_append_right _ (List.mem_flatMap.2
    ⟨c, List.mem_filter.2 ⟨hc, hm⟩, List.mem_cons_of_mem _ (List.mem_map.2 ⟨k, hk, rfl⟩)⟩))

end CallSite

theorem mem_points (hf : g.graph? m = some f) {n : Node} (hn : n ∈ f.nodes) : ⟨m, n⟩ ∈ g.points :=
  (mem_points_iff g _).2 ⟨f, hf, hn⟩

theorem entry_mem_nodes (f : FlowGraph) : Node.entry ∈ f.nodes := (f.body.mem_nodes_iff _).2 rfl

theorem exit_mem_nodes (f : FlowGraph) : Node.exit ∈ f.nodes := (f.body.mem_nodes_iff _).2 rfl

theorem nodeEdges_cases {callees : Site → List MethodRef}
    {graphs : OrderedMap MethodRef FlowGraph} {n : Node} {e : SuperEdge}
    (he : e ∈ nodeEdges callees graphs m f n) :
    (∃ d ∈ f.outEdges n, e = .normal ⟨m, n⟩ ⟨m, d.target⟩ d.kind) ∨ ∃ i, n = .stmt i ∧
      ((∃ d ∈ f.outEdges n, ∃ analysed, e = .callToReturn ⟨m, i⟩ ⟨m, d.target⟩ analysed) ∨
        ∃ c fc, graphs.get? c = some fc ∧
          (e = .call ⟨m, i⟩ c ∨ ∃ k ∈ f.succs n, e = .ret c ⟨m, i⟩ ⟨m, k⟩)) := by
  simp only [nodeEdges] at he
  split at he
  · rename_i i _ _ _
    refine .inr ⟨i, rfl, ?_⟩
    rcases List.mem_append.1 he with he | he
    · obtain ⟨d, hd, rfl⟩ := List.mem_map.1 he
      exact .inl ⟨d, hd, _, rfl⟩
    · obtain ⟨c, hc, he⟩ := List.mem_flatMap.1 he
      obtain ⟨fc, hfc⟩ := Option.isSome_iff_exists.1 (List.mem_filter.1 hc).2
      refine .inr ⟨c, fc, hfc, ?_⟩
      rcases List.mem_cons.1 he with rfl | he
      · exact .inl rfl
      · obtain ⟨k, hk, rfl⟩ := List.mem_map.1 he
        exact .inr ⟨k, hk, rfl⟩
  · obtain ⟨d, hd, rfl⟩ := List.mem_map.1 he
    exact .inl ⟨d, hd, rfl⟩

theorem ends_join (calls : CallGraph) (graphs : OrderedMap MethodRef FlowGraph) {e : SuperEdge}
    (he : e ∈ (join calls graphs).edges) :
    e.source ∈ (join calls graphs).points ∧ e.target ∈ (join calls graphs).points := by
  obtain ⟨m, f, n, hf, hn, he⟩ := (mem_edges_join calls graphs e).1 he
  have hf : (join calls graphs).graph? m = some f := hf
  have hsource : (⟨m, n⟩ : Point) ∈ (join calls graphs).points := mem_points hf hn
  have hinside : ∀ d ∈ f.outEdges n, (⟨m, d.target⟩ : Point) ∈ (join calls graphs).points := by
    intro d hd
    obtain ⟨hd, -⟩ := List.mem_filter.1 hd
    exact mem_points hf ((f.body.mem_nodes_iff _).2 (f.ends d hd).2)
  obtain ⟨d, hd, rfl⟩ | ⟨i, rfl, ⟨d, hd, analysed, rfl⟩ | ⟨c, fc, hfc, rfl | ⟨k, hk, rfl⟩⟩⟩ :=
    nodeEdges_cases he
  · exact ⟨hsource, hinside d hd⟩
  · exact ⟨hsource, hinside d hd⟩
  · have hfc : (join calls graphs).graph? c = some fc := hfc
    exact ⟨hsource, mem_points hfc (entry_mem_nodes fc)⟩
  · have hfc : (join calls graphs).graph? c = some fc := hfc
    exact ⟨mem_points hfc (exit_mem_nodes fc),
      mem_points hf (FlowGraph.hasNode_of_mem_succs hk).2⟩

theorem target_mem_points (hg : ofCalls h calls .empty = .ok g) {e : SuperEdge}
    (he : e ∈ g.edges) : e.target ∈ g.points := by
  obtain ⟨l, -, rfl⟩ := ofCalls_eq hg
  exact (ends_join calls _ he).2

variable {p : Program}

theorem entryMethods_ofCalls (hcalls : CallGraph.ofProgram p = .ok calls)
    (hg : ofCalls p.hierarchy calls .empty = .ok g) :
    g.entryMethods = if (p.hierarchy.body? p.main).isSome then [p.main] else [] := by
  obtain ⟨hentries, hmain, -⟩ := CallGraph.closed_of_ofProgram hcalls
  have hcg : g.calls = calls := by
    obtain ⟨l, -, rfl⟩ := ofCalls_eq hg
    rfl
  rw [entryMethods, hcg, hentries, List.filter_singleton]
  have hm := hasMethod_iff hg p.main
  by_cases hb : (p.hierarchy.body? p.main).isSome = true
  · rw [if_pos hb, hm.2 ⟨hmain, hb⟩]
    rfl
  · rw [if_neg hb, Bool.eq_false_iff.2 (fun h => hb (hm.1 h).2)]
    rfl

/-- The graph of a program can be solved if and only if its main method has a body. -/
theorem validate_ofCalls_iff (hcalls : CallGraph.ofProgram p = .ok calls)
    (hg : ofCalls p.hierarchy calls .empty = .ok g) :
    g.validate = .ok () ↔ (p.hierarchy.body? p.main).isSome = true := by
  rw [validate_eq_ok_iff, entryMethods_ofCalls hcalls hg]
  constructor
  · rintro ⟨hne, -⟩
    by_contra hb
    exact hne (if_neg hb)
  · intro hb
    rw [if_pos hb]
    exact ⟨List.cons_ne_nil _ _, fun e he => target_mem_points hg he⟩

end Supergraph

end Dataflow
