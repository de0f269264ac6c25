import Dataflow.Proofs.CallGraph.Exact
import Dataflow.Proofs.Supergraph.Tables

namespace Dataflow

/-- The point whose statement gives rise to an edge: its source, but the site of the call it comes back
from. -/
def SuperEdge.origin : SuperEdge → Point
  | normal s _ _ => s
  | callToReturn site _ _ => site.point
  | call site _ => site.point
  | ret _ site _ => site.point

theorem SuperEdge.origin_eq_source {e : SuperEdge} (he : e.source.node ≠ .exit) :
    e.origin = e.source := by
  cases e with
  | normal s t kind => rfl
  | callToReturn site t analysed => rfl
  | call site callee => rfl
  | ret callee site t => exact absurd rfl he

namespace Supergraph

variable {h : Hierarchy} {calls : CallGraph} {g : Supergraph}

def edgesAt (g : Supergraph) (p : Point) : List SuperEdge :=
  (g.graph? p.method).elim [] (fun f => nodeEdges g.calls.callees g.graphs p.method f p.node)

theorem edgesAt_eq {m : MethodRef} {f : FlowGraph} (hf : g.graph? m = some f) (n : Node) :
    g.edgesAt ⟨m, n⟩ = nodeEdges g.calls.callees g.graphs m f n := by
  rw [edgesAt, hf]
  rfl

theorem nodeEdges_of_not_call (callees : Site → List MethodRef) (graphs : OrderedMap MethodRef FlowGraph)
    (m : MethodRef) {f : FlowGraph} {n : Node}
    (hn : ∀ result call, f.body.stmtOf? n ≠ some (.invoke result call)) :
    nodeEdges callees graphs m f n =
      (f.outEdges n).map (fun e => .normal ⟨m, n⟩ ⟨m, e.target⟩ e.kind) := by
  simp only [nodeEdges]
  split
  · exact absurd ‹_› (hn _ _)
  · rfl

theorem nodeEdges_of_call (callees : Site → List MethodRef) (graphs : OrderedMap MethodRef FlowGraph)
    (m : MethodRef) {f : FlowGraph} {i : Nat} {result : Option Var} {call : Call}
    (hs : f.body.stmt? i = some (.invoke result call)) :
    nodeEdges callees graphs m f (.stmt i) = callEdges callees graphs f ⟨m, i⟩ := by
  have hs : f.body.stmtOf? (.stmt i) = some (.invoke result call) := hs
  simp only [nodeEdges, hs]

theorem origin_of_mem_nodeEdges {callees : Site → List MethodRef}
    {graphs : OrderedMap MethodRef FlowGraph} {m : MethodRef} {f : FlowGraph} {n : Node}
    {e : SuperEdge} (he : e ∈ nodeEdges callees graphs m f n) : e.origin = ⟨m, n⟩ := by
  obtain ⟨d, -, rfl⟩ | ⟨i, rfl, ⟨d, -, analysed, rfl⟩ | ⟨c, fc, -, rfl | ⟨k, -, rfl⟩⟩⟩ :=
    nodeEdges_cases he <;> rfl

theorem origin_of_mem_edgesAt (g : Supergraph) (p : Point) (e : SuperEdge) (he : e ∈ g.edgesAt p) :
    e.origin = p := by
  rw [edgesAt] at he
  cases hf : g.graph? p.method with
  | none => rw [hf] at he; cases he
  | some f =>
      rw [hf] at he
      exact origin_of_mem_nodeEdges he

/-- The edges of a join are those that its points give rise to, point by point. -/
theorem edges_join (calls : CallGraph) (graphs : OrderedMap MethodRef FlowGraph) :
    (join calls graphs).edges =
      (join calls graphs).points.flatMap (join calls graphs).edgesAt := by
  rw [points, List.flatMap_assoc]
  refine List.flatMap_congr (fun e he => ?_)
  have hf : (join calls graphs).graph? e.1 = some e.2 := (OrderedMap.get?_eq_some_iff _ _ _).2 he
  rw [List.flatMap_map]
  exact List.flatMap_congr (fun n _ => (edgesAt_eq hf n).symm)

section Joined

variable {graphs : OrderedMap MethodRef FlowGraph}

theorem outEdges_join {p : Point} (hp : p ∈ (join calls graphs).points) (hn : p.node ≠ .exit) :
    (join calls graphs).outEdges p =
      ((join calls graphs).edgesAt p).filter (fun e => e.source = p) := by
  have hfilter : (join calls graphs).edges.filter (fun e => e.origin = p) =
      (join calls graphs).edgesAt p := by
    rw [edges_join]
    exact filter_flatMap_of_nodup (origin_of_mem_edgesAt _) (nodup_points _) hp
  rw [← hfilter, List.filter_filter]
  refine List.filter_congr (fun e _ => ?_)
  by_cases hs : e.source = p
  · simp [hs, SuperEdge.origin_eq_source (hs ▸ hn)]
  · simp [hs]

variable {m : MethodRef} {f : FlowGraph}

theorem outEdges_of_not_call (hf : (join calls graphs).graph? m = some f) {n : Node}
    (hn : n ∈ f.nodes) (hne : n ≠ .exit)
    (hcall : ∀ result call, f.body.stmtOf? n ≠ some (.invoke result call)) :
    (join calls graphs).outEdges ⟨m, n⟩ =
      (f.outEdges n).map (fun e => .normal ⟨m, n⟩ ⟨m, e.target⟩ e.kind) := by
  rw [outEdges_join (mem_points hf hn) hne, edgesAt_eq hf, nodeEdges_of_not_call _ _ _ hcall]
  refine List.filter_eq_self.2 (fun e he => ?_)
  obtain ⟨d, -, rfl⟩ := List.mem_map.1 he
  exact decide_eq_true rfl

def analysed (g : Supergraph) (s : Site) : Bool :=
  !(g.calls.callees s).isEmpty && (g.callees s).length = (g.calls.callees s).length

theorem analysed_eq_true_iff (g : Supergraph) (s : Site) : g.analysed s = true ↔
    g.calls.callees s ≠ [] ∧ ∀ c ∈ g.calls.callees s, g.hasMethod c = true := by
  rw [analysed, Bool.and_eq_true, decide_eq_true_eq, callees, List.length_filter_eq_length_iff]
  simp

theorem outEdges_of_call (hf : (join calls graphs).graph? m = some f) {i : Nat}
    {result : Option Var} {call : Call} (hs : f.body.stmt? i = some (.invoke result call)) :
    (join calls graphs).outEdges ⟨m, .stmt i⟩ =
      (f.outEdges (.stmt i)).map (fun e =>
        .callToReturn ⟨m, i⟩ ⟨m, e.target⟩ ((join calls graphs).analysed ⟨m, i⟩)) ++
      ((join calls graphs).callees ⟨m, i⟩).map (.call ⟨m, i⟩) := by
  have hn : Node.stmt i ∈ f.nodes :=
    (f.body.mem_nodes_iff _).2 (decide_eq_true (List.getElem?_eq_some_iff.1 hs).1)
  rw [outEdges_join (mem_points hf hn) (by simp), edgesAt_eq hf, nodeEdges_of_call _ _ _ hs,
    callEdges]
  simp only
  rw [List.filter_append, List.filter_flatMap]
  congr 1
  · refine List.filter_eq_self.2 (fun e he => ?_)
    obtain ⟨d, -, rfl⟩ := List.mem_map.1 he
    exact decide_eq_true rfl
  · rw [← List.flatMap_singleton' (List.map _ _), List.flatMap_map]
    refine List.flatMap_congr (fun c _ => ?_)
    have hsource : decide ((SuperEdge.call ⟨m, i⟩ c).source = ⟨m, .stmt i⟩) = true :=
      decide_eq_true rfl
    rw [List.filter_cons, if_pos hsource]
    congr 1
    refine List.filter_eq_nil_iff.2 (fun e he hsrc => ?_)
    obtain ⟨k, -, rfl⟩ := List.mem_map.1 he
    have hsrc := congrArg Point.node (of_decide_eq_true hsrc)
    cases hsrc

theorem mem_outEdges_exit (hf : (join calls graphs).graph? m = some f)
    (hv : f.outEdges .exit = []) (e : SuperEdge) :
    e ∈ (join calls graphs).outEdges ⟨m, .exit⟩ ↔
      ∃ s k, (join calls graphs).isCallSite s.point = true ∧ m ∈ (join calls graphs).callees s ∧
        k ∈ (join calls graphs).returnSites s.point ∧ e = .ret m s ⟨s.method, k⟩ := by
  rw [outEdges, List.mem_filter, mem_edges_join, decide_eq_true_eq]
  constructor
  · rintro ⟨⟨c, d, n, hd, hn, he⟩, hs⟩
    simp only [nodeEdges] at he
    split at he
    · rename_i i result call hi
      rcases List.mem_append.1 he with he | he
      · obtain ⟨k, -, rfl⟩ := List.mem_map.1 he
        cases hs
      · obtain ⟨c', hc', he⟩ := List.mem_flatMap.1 he
        rcases List.mem_cons.1 he with rfl | he
        · cases hs
        · obtain ⟨k, hk, rfl⟩ := List.mem_map.1 he
          cases hs
          have hd : (join calls graphs).graph? c = some d := hd
          refine ⟨⟨c, i⟩, k, ?_, hc', ?_, rfl⟩
          · simp only [isCallSite, stmtOf?, body?, Site.point, hd, Option.map_some,
              Option.bind_some, hi]
            rfl
          · simp only [returnSites, Site.point, hd]
            exact hk
    · obtain ⟨k, hk, rfl⟩ := List.mem_map.1 he
      cases hs
      have hd : (join calls graphs).graph? m = some d := hd
      rw [hf] at hd
      cases hd
      rw [hv] at hk
      cases hk
  · rintro ⟨s, k, hsite, hc, hk, rfl⟩
    obtain ⟨st, hst, hinv⟩ := (Option.any_eq_true _ _).1 hsite
    obtain ⟨b, hb, hst⟩ := Option.bind_eq_some_iff.1 hst
    obtain ⟨d, hd, rfl⟩ := Option.map_eq_some_iff.1 hb
    have hd : (join calls graphs).graph? s.method = some d := hd
    have hi : d.body.stmt? s.position = some st := hst
    simp only [returnSites, Site.point, hd] at hk
    cases st with
    | invoke result call =>
        refine ⟨⟨s.method, d, .stmt s.position, hd, (FlowGraph.hasNode_of_mem_succs hk).1, ?_⟩, rfl⟩
        rw [nodeEdges_of_call _ _ _ hi]
        exact List.mem_append_right _ (List.mem_flatMap.2
          ⟨m, hc, List.mem_cons_of_mem _ (List.mem_map.2 ⟨k, hk, rfl⟩)⟩)
    | nop | assign | branch | goto | switch | ret => cases hinv

theorem nodup_rets_of_call {s : Site} {known : List MethodRef} (hknown : known.Nodup)
    (succs : List Node) (hsuccs : succs.Nodup) :
    (known.flatMap (fun c => SuperEdge.call s c ::
      succs.map (fun k => .ret c s ⟨s.method, k⟩))).Nodup := by
  refine List.nodup_flatMap.2 ⟨fun c _ => List.nodup_cons.2 ⟨?_, ?_⟩, hknown.imp ?_⟩
  · intro hm
    obtain ⟨k, -, he⟩ := List.mem_map.1 hm
    cases he
  · exact hsuccs.map (fun k l he => by cases he; rfl)
  · intro c c' hne e he he'
    rcases List.mem_cons.1 he with rfl | he
    · rcases List.mem_cons.1 he' with he' | he'
      · cases he'
        exact hne rfl
      · obtain ⟨k, -, he'⟩ := List.mem_map.1 he'
        cases he'
    · obtain ⟨k, -, rfl⟩ := List.mem_map.1 he
      rcases List.mem_cons.1 he' with he' | he'
      · cases he'
      · obtain ⟨l, -, he'⟩ := List.mem_map.1 he'
        cases he'
        exact hne rfl

theorem filter_map_of_source_ne {p : Point} {k : Edge → SuperEdge} (hk : ∀ e, (k e).source ≠ p)
    (l : List Edge) : (l.map k).filter (fun e => e.source = p) = [] := by
  refine List.filter_eq_nil_iff.2 (fun e he hs => ?_)
  obtain ⟨d, -, rfl⟩ := List.mem_map.1 he
  exact hk d (of_decide_eq_true hs)

theorem nodup_outEdges_exit (hcallees : ∀ s, (calls.callees s).Nodup)
    (hf : (join calls graphs).graph? m = some f) (hv : f.outEdges .exit = []) :
    ((join calls graphs).outEdges ⟨m, .exit⟩).Nodup := by
  rw [outEdges, edges_join, List.filter_flatMap]
  refine nodup_flatMap_of_nodup
    (fun p e he => origin_of_mem_edgesAt _ p e (List.mem_filter.1 he).1) (fun p => ?_)
    (nodup_points _)
  rw [edgesAt]
  cases hd : (join calls graphs).graph? p.method with
  | none => exact List.nodup_nil
  | some d =>
      simp only [Option.elim_some, nodeEdges]
      split
      · rw [callEdges]
        simp only
        rw [List.filter_append, filter_map_of_source_ne, List.nil_append]
        · exact (nodup_rets_of_call ((hcallees _).filter _) _ (nodup_eraseDups _)).filter _
        · intro _ hs
          cases hs
      · by_cases hp : p = ⟨m, .exit⟩
        · subst hp
          rw [hf] at hd
          cases hd
          rw [hv]
          exact List.nodup_nil
        · rw [filter_map_of_source_ne]
          · exact List.nodup_nil
          · exact fun _ hs => hp hs

end Joined

/-- A supergraph, and its tables, that wire a call graph exactly onto the graphs of the methods it
reaches. -/
structure Wired (h : Hierarchy) (calls : CallGraph) (g : Supergraph) (t : SuperTables) : Prop where
  calls_eq : g.calls = calls
  methods : g.methods = calls.reachable.filter (fun m => (h.body? m).isSome)
  graph : ∀ m f, g.graph? m = some f ↔
    m ∈ calls.reachable ∧ ∃ b, h.body? m = some b ∧ FlowGraph.ofBody b = .ok f
  points : g.points =
    g.methods.flatMap (fun m => (g.graph? m).elim [] (fun f => f.nodes.map (Point.mk m)))
  nodup_points : g.points.Nodup
  normal : ∀ m f, g.graph? m = some f → ∀ n ∈ f.nodes, n ≠ .exit →
    g.isCallSite ⟨m, n⟩ = false → g.outEdges ⟨m, n⟩ =
      (f.outEdges n).map (fun e => .normal ⟨m, n⟩ ⟨m, e.target⟩ e.kind)
  site : ∀ m f, g.graph? m = some f → ∀ i, g.isCallSite ⟨m, .stmt i⟩ = true →
    g.outEdges ⟨m, .stmt i⟩ =
      (f.outEdges (.stmt i)).map (fun e =>
        .callToReturn ⟨m, i⟩ ⟨m, e.target⟩ (g.analysed ⟨m, i⟩)) ++
      (g.callees ⟨m, i⟩).map (.call ⟨m, i⟩)
  analysed : ∀ s, g.analysed s = true ↔
    calls.callees s ≠ [] ∧ ∀ c ∈ calls.callees s, (h.body? c).isSome = true
  callees : ∀ s, g.callees s = (calls.callees s).filter (fun c => (h.body? c).isSome)
  nodup_callees : ∀ s, (g.callees s).Nodup
  exit : ∀ m ∈ g.methods, ∀ e, e ∈ g.outEdges ⟨m, .exit⟩ ↔
    ∃ s k, g.isCallSite s.point = true ∧ m ∈ g.callees s ∧ k ∈ g.returnSites s.point ∧
      e = .ret m s ⟨s.method, k⟩
  nodup_exit : ∀ m ∈ g.methods, (g.outEdges ⟨m, .exit⟩).Nodup
  ends : ∀ e ∈ g.edges, e.source ∈ g.points ∧ e.target ∈ g.points
  validate : g.validate = .ok () ↔ ∃ m ∈ calls.entries, (h.body? m).isSome = true
  tables : t.Answers g
  owner : ∀ p ∈ g.points, t.methodOf? p = some p.method
  outEdges : ∀ p ∈ g.points, ∃ es, t.outEdges? p = some es ∧
    ∀ e, es.count e = if e.source = p then g.edges.count e else 0
  inEdges : ∀ p ∈ g.points, ∃ es, t.inEdges? p = some es ∧
    ∀ e, es.count e = if e.target = p then g.edges.count e else 0

theorem methods_ofCalls (hg : ofCalls h calls .empty = .ok g) :
    g.methods = calls.reachable.filter (fun m => (h.body? m).isSome) := by
  obtain ⟨l, hl, rfl⟩ := ofCalls_eq hg
  change (OrderedMap.ofList l).keys = _
  rw [OrderedMap.keys, OrderedMap.entries_ofList (nodup_embed hl), ← map_fst_filterMap]
  rw [embed_empty] at hl
  refine map_of_mapM (k := Prod.fst) (fun e d hd => ?_) hl
  obtain ⟨f, -, he⟩ := bind_eq_ok_iff.1 hd
  cases he
  rfl

theorem points_eq (g : Supergraph) : g.points =
    g.methods.flatMap (fun m => (g.graph? m).elim [] (fun f => f.nodes.map (Point.mk m))) := by
  rw [points, methods, OrderedMap.keys, List.flatMap_map]
  refine List.flatMap_congr (fun e he => ?_)
  have hf : g.graph? e.1 = some e.2 := (OrderedMap.get?_eq_some_iff _ _ _).2 he
  rw [hf]
  rfl

theorem mem_methods_iff (g : Supergraph) (m : MethodRef) :
    m ∈ g.methods ↔ ∃ f, g.graph? m = some f := by
  rw [methods, OrderedMap.mem_keys_iff, OrderedMap.contains, Option.isSome_iff_exists]
  rfl

theorem isCallSite_iff (g : Supergraph) (p : Point) :
    g.isCallSite p = true ↔ ∃ result call, g.stmtOf? p = some (.invoke result call) := by
  rw [isCallSite, Option.any_eq_true]
  constructor
  · rintro ⟨s, hs, hi⟩
    cases s with
    | invoke result call => exact ⟨result, call, hs⟩
    | nop | assign | branch | goto | switch | ret => cases hi
  · rintro ⟨result, call, hs⟩
    exact ⟨_, hs, rfl⟩

theorem stmtOf?_of_graph? {m : MethodRef} {f : FlowGraph} (hf : g.graph? m = some f) (n : Node) :
    g.stmtOf? ⟨m, n⟩ = f.body.stmtOf? n := by
  simp only [stmtOf?, body?, hf, Option.map_some, Option.bind_some]

theorem wired_of_ofProgram {p : Program} (hp : CallGraph.ofProgram p = .ok calls)
    (hg : ofCalls p.hierarchy calls .empty = .ok g) {t : SuperTables} (ht : t.Answers g) :
    g.Wired p.hierarchy calls t := by
  have hcalls := CallGraph.exact_of_ofProgram hp
  have hvalid : g.validate = .ok () ↔
      ∃ m ∈ calls.entries, (p.hierarchy.body? m).isSome = true := by
    rw [validate_ofCalls_iff hp hg, hcalls.entries]
    simp
  have hmethods := methods_ofCalls hg
  have hgraph := graph?_eq_some_iff hg
  have hmethod := hasMethod_iff hg
  obtain ⟨l, hl, rfl⟩ := ofCalls_eq hg
  have hbody : ∀ s, ∀ c ∈ calls.callees s,
      ((join calls (.ofList l)).hasMethod c = true ↔ (p.hierarchy.body? c).isSome = true) := by
    intro s c hc
    obtain ⟨e, he, rfl⟩ := List.mem_map.1 hc
    have hr := (hcalls.reachable_of_mem_edges e (List.mem_filter.1 he).1).2
    rw [hmethod]
    exact ⟨fun hm => hm.2, fun hb => ⟨hr, hb⟩⟩
  have hexit : ∀ m ∈ (join calls (.ofList l)).methods, ∃ f,
      (join calls (.ofList l)).graph? m = some f ∧ f.outEdges .exit = [] := by
    intro m hm
    obtain ⟨f, hf⟩ := (mem_methods_iff _ m).1 hm
    obtain ⟨-, b, -, hb⟩ := (hgraph m f).1 hf
    exact ⟨f, hf, ((FlowGraph.validate_eq_ok_iff f).1 (FlowGraph.validate_ofBody hb)).2.1⟩
  constructor
  case calls_eq => rfl
  case methods => exact hmethods
  case graph => exact hgraph
  case points => exact points_eq _
  case nodup_points => exact nodup_points _
  case normal =>
    intro m f hf n hn hne hsite
    refine outEdges_of_not_call hf hn hne (fun result call hs => ?_)
    rw [← stmtOf?_of_graph? hf] at hs
    rw [(isCallSite_iff _ _).2 ⟨result, call, hs⟩] at hsite
    cases hsite
  case site =>
    intro m f hf i hsite
    obtain ⟨result, call, hs⟩ := (isCallSite_iff _ _).1 hsite
    rw [stmtOf?_of_graph? hf] at hs
    exact outEdges_of_call hf hs
  case analysed =>
    intro s
    rw [analysed_eq_true_iff]
    exact and_congr_right (fun _ => forall₂_congr (hbody s))
  case callees =>
    intro s
    refine List.filter_congr (fun c hc => ?_)
    exact Bool.eq_iff_iff.2 (hbody s c hc)
  case nodup_callees => exact fun s => (hcalls.nodup_callees s).filter _
  case exit =>
    intro m hm
    obtain ⟨f, hf, hv⟩ := hexit m hm
    exact mem_outEdges_exit hf hv
  case nodup_exit =>
    intro m hm
    obtain ⟨f, hf, hv⟩ := hexit m hm
    exact nodup_outEdges_exit hcalls.nodup_callees hf hv
  case ends => exact fun e he => ends_join calls _ he
  case validate => exact hvalid
  case tables => exact ht
  case owner => exact fun p hp => (ht.methodOf? p).trans (if_pos hp)
  case outEdges =>
    intro p hp
    exact ⟨_, (ht.outEdges? p).trans (if_pos hp),
      count_filter_prop (fun e : SuperEdge => e.source = p) _⟩
  case inEdges =>
    intro p hp
    exact ⟨_, (ht.inEdges? p).trans (if_pos hp),
      count_filter_prop (fun e : SuperEdge => e.target = p) _⟩

/-- The supergraph of a program whose methods' graphs can be built is built, and so are its tables, from
those of the call graph. They wire the call graph onto these graphs exactly. -/
theorem ofCalls_wired {p : Program} (hcalls : CallGraph.ofProgram p = .ok calls)
    (hflow : ∀ m ∈ calls.reachable, ∀ b, p.hierarchy.body? m = some b →
      ∃ f, FlowGraph.ofBody b = .ok f) :
    ∃ g t, ofCalls p.hierarchy calls .empty = .ok g ∧ g.Wired p.hierarchy calls t ∧
      CallTables.ofProgram p = .ok t.calls ∧ t.calls.graph = calls ∧
      SuperTables.ofCalls p.hierarchy t.calls .empty = .ok (.ok t) := by
  have hall : ∀ e ∈ calls.reachable.filterMap
      (fun m => (p.hierarchy.body? m).map (fun b => (m, b))),
      ∃ d, (FlowGraph.ofBody e.2 >>= fun f => .ok (e.1, f)) = .ok d := by
    intro e he
    obtain ⟨m, hm, he⟩ := List.mem_filterMap.1 he
    obtain ⟨b, hb, rfl⟩ := Option.map_eq_some_iff.1 he
    obtain ⟨f, hf⟩ := hflow m hm b hb
    exact ⟨(m, f), bind_eq_ok_iff.2 ⟨f, hf, rfl⟩⟩
  obtain ⟨l, hl⟩ := exists_mapM_eq_ok hall
  have hg : ofCalls p.hierarchy calls .empty = .ok (join calls (.ofList l)) :=
    bind_eq_ok_iff.2 ⟨l, (embed_empty _ _).trans hl, rfl⟩
  obtain ⟨ct, hct, rfl⟩ := CallTables.exists_of_ofProgram hcalls
  obtain ⟨t, ht, rfl, -, hanswers⟩ :=
    SuperTables.ofCalls_answers (CallTables.inStep_of_ofProgram hct) hg
  exact ⟨_, t, hg, wired_of_ofProgram hcalls hg hanswers, hct, rfl, ht⟩

end Supergraph

open Supergraph in
theorem Shapes.ofCalls_wired_shapes : CallGraph.ofProgram program = .ok calls ∧
    ∃ g t, ofCalls program.hierarchy calls .empty = .ok g ∧ g.Wired program.hierarchy calls t ∧
      CallTables.ofProgram program = .ok t.calls ∧ t.calls.graph = calls ∧
      SuperTables.ofCalls program.hierarchy t.calls .empty = .ok (.ok t) := by
  refine ⟨ofProgram_program, ofCalls_wired ofProgram_program (fun m hm b hb => ?_)⟩
  simp only [calls, List.mem_cons, List.not_mem_nil, or_false] at hm
  rcases hm with rfl | rfl | rfl
  · obtain rfl : mainBody = b := Option.some.inj hb
    exact ⟨_, rfl⟩
  · cases hb
  · obtain rfl : circleBody = b := Option.some.inj hb
    exact ⟨_, rfl⟩

end Dataflow
