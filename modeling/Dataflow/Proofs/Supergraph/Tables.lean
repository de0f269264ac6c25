import Dataflow.Proofs.CallGraph.Tables
import Dataflow.Proofs.Supergraph.Edges
import Dataflow.Supergraph.Tables

namespace Dataflow

namespace SuperTables

variable {t t' : SuperTables} {edges : List SuperEdge}

/-- Tables that go together: the points are the keys of all of them, a point lies in its own method, and
each edge stands under both its ends. -/
structure Holds (edges : List SuperEdge) (t : SuperTables) : Prop where
  owner : ∀ p, t.owner.get? p = if p ∈ t.points then some p.method else none
  leaving : t.leaving.GroupsOver edges SuperEdge.source (fun p => p ∈ t.points)
  reaching : t.reaching.GroupsOver edges SuperEdge.target (fun p => p ∈ t.points)

theorem holds_empty (calls : CallTables) : Holds [] { calls } where
  owner _ := rfl
  leaving := ⟨OrderedMap.groups_empty _, fun _ => Iff.rfl⟩
  reaching := ⟨OrderedMap.groups_empty _, fun _ => Iff.rfl⟩

theorem holds_enter (ht : t.Holds []) (m : MethodRef) (n : Node) : (enter m t n).Holds [] where
  owner p := by
    simp only [enter, OrderedMap.get?_insert, ht.owner, List.mem_append, List.mem_singleton]
    grind
  leaving := ⟨ht.leaving.groups.insert_nil _, fun p => by
    simp only [enter, OrderedMap.mem_keys_insert, ht.leaving.mem_keys_iff, List.mem_append,
      List.mem_singleton, or_comm]⟩
  reaching := ⟨ht.reaching.groups.insert_nil _, fun p => by
    simp only [enter, OrderedMap.mem_keys_insert, ht.reaching.mem_keys_iff, List.mem_append,
      List.mem_singleton, or_comm]⟩

theorem foldl_enter (m : MethodRef) (nodes : List Node) (t : SuperTables) (ht : t.Holds []) :
    (nodes.foldl (enter m) t).Holds [] ∧ (nodes.foldl (enter m) t).calls = t.calls ∧
      (nodes.foldl (enter m) t).graphs = t.graphs ∧
      (nodes.foldl (enter m) t).points = t.points ++ nodes.map (Point.mk m) := by
  induction nodes generalizing t with
  | nil => exact ⟨ht, rfl, rfl, by simp⟩
  | cons n nodes ih =>
      obtain ⟨hholds, hcalls, hgraphs, hpoints⟩ := ih (enter m t n) (holds_enter ht m n)
      refine ⟨hholds, hcalls, hgraphs, ?_⟩
      rw [List.foldl_cons, hpoints, List.map_cons]
      simp [enter]

theorem foldl_embed (graphs : List (MethodRef × FlowGraph)) (t : SuperTables) (ht : t.Holds []) :
    (graphs.foldl embed t).Holds [] ∧ (graphs.foldl embed t).calls = t.calls ∧
      (graphs.foldl embed t).graphs = graphs.foldl (fun m e => m.insert e.1 e.2) t.graphs ∧
      (graphs.foldl embed t).points =
        t.points ++ graphs.flatMap (fun e => e.2.nodes.map (Point.mk e.1)) := by
  induction graphs generalizing t with
  | nil => exact ⟨ht, rfl, rfl, by simp⟩
  | cons e graphs ih =>
      obtain ⟨he, hcalls, hgraphs, hpoints⟩ := foldl_enter e.1 e.2.nodes
        { t with graphs := t.graphs.insert e.1 e.2 }
        ⟨ht.owner, ht.leaving, ht.reaching⟩
      obtain ⟨hholds, hcalls', hgraphs', hpoints'⟩ := ih (embed t e) he
      refine ⟨hholds, hcalls'.trans hcalls, hgraphs'.trans ?_, hpoints'.trans ?_⟩
      · rw [embed, hgraphs, List.foldl_cons]
      · rw [embed, hpoints, List.flatMap_cons, List.append_assoc]

theorem add_eq (ht : t.Holds edges) {e : SuperEdge} (hs : e.source ∈ t.points)
    (hr : e.target ∈ t.points) : t.add e = .ok { t with
      leaving := t.leaving.file e.source e
      reaching := t.reaching.file e.target e } := by
  have hs := (t.leaving.mem_keys_iff _).1 ((ht.leaving.mem_keys_iff _).2 hs)
  have hr := (t.reaching.mem_keys_iff _).1 ((ht.reaching.mem_keys_iff _).2 hr)
  simp [add, hs, hr]

theorem Holds.file (ht : t.Holds edges) {e : SuperEdge} (hs : e.source ∈ t.points)
    (hr : e.target ∈ t.points) : Holds (edges ++ [e]) { t with
      leaving := t.leaving.file e.source e
      reaching := t.reaching.file e.target e } where
  owner := ht.owner
  leaving := ht.leaving.file hs
  reaching := ht.reaching.file hr

theorem foldlM_add (more : List SuperEdge) (ht : t.Holds edges)
    (hends : ∀ e ∈ more, e.source ∈ t.points ∧ e.target ∈ t.points) :
    ∃ t', more.foldlM add t = .ok t' ∧ t'.Holds (edges ++ more) ∧ t'.calls = t.calls ∧
      t'.graphs = t.graphs ∧ t'.points = t.points := by
  induction more generalizing t edges with
  | nil => exact ⟨t, rfl, by rwa [List.append_nil], rfl, rfl, rfl⟩
  | cons e more ih =>
      obtain ⟨⟨hs, hr⟩, hends⟩ := List.forall_mem_cons.1 hends
      obtain ⟨t', ht', hholds, heq⟩ := ih (ht.file hs hr) hends
      refine ⟨t', ?_, ?_, heq⟩
      · rw [List.foldlM_cons, add_eq ht hs hr]
        exact ht'
      · rwa [List.append_assoc] at hholds

/-- Tables answer as a graph does that keeps its edges in one list. -/
structure Answers (t : SuperTables) (g : Supergraph) : Prop where
  graphs : t.graphs = g.graphs
  points : t.points = g.points
  methodOf? : ∀ p, t.methodOf? p = if p ∈ g.points then some p.method else none
  outEdges? : ∀ p, t.outEdges? p = if p ∈ g.points then some (g.outEdges p) else none
  inEdges? : ∀ p, t.inEdges? p = if p ∈ g.points then some (g.inEdges p) else none
  succs? : ∀ p, t.succs? p = if p ∈ g.points then some (g.succs p) else none
  preds? : ∀ p, t.preds? p = if p ∈ g.points then some (g.preds p) else none
  returnSites? : ∀ p, t.returnSites? p = if p ∈ g.points then some (g.returnSites p) else none
  hasPoint : ∀ p, t.hasPoint p = g.hasPoint p
  isCallSite : ∀ p, t.isCallSite p = g.isCallSite p
  callees : ∀ s, t.callees s = g.callees s
  entryMethods : t.entryMethods = g.entryMethods
  edges : t.edges.Perm g.edges
  text : t.text = g.text
  validate : t.validate = g.validate

variable {h : Hierarchy} {g : Supergraph}

theorem mem_points_of_isCallSite {p : Point} (hc : g.isCallSite p = true) : p ∈ g.points := by
  obtain ⟨s, hs, -⟩ := (Option.any_eq_true _ _).1 hc
  obtain ⟨b, hb, hs⟩ := Option.bind_eq_some_iff.1 hs
  obtain ⟨f, hf, rfl⟩ := Option.map_eq_some_iff.1 hb
  refine (Supergraph.mem_points_iff g p).2 ⟨f, hf, (f.body.mem_nodes_iff _).2 ?_⟩
  cases hn : p.node with
  | stmt i =>
      rw [hn] at hs
      exact decide_eq_true (List.getElem?_eq_some_iff.1 hs).1
  | entry | exit | stray _ _ => rw [hn] at hs; cases hs

theorem Holds.hasPoint_iff (ht : t.Holds edges) (p : Point) :
    t.hasPoint p = true ↔ p ∈ t.points := by
  rw [hasPoint, OrderedMap.contains, ht.owner]
  split <;> simp [*]

theorem Holds.graphAt?_eq (ht : t.Holds edges) (p : Point) :
    t.graphAt? p = if p ∈ t.points then t.graphs.get? p.method else none := by
  rw [graphAt?, methodOf?, ht.owner]
  split <;> rfl

theorem find?_stray {l : List SuperEdge} {inside : Point → Bool}
    (hl : ∀ e ∈ l, inside e.target = true) : l.find? (fun e => !inside e.target) = none := by
  refine List.find?_eq_none.2 (fun e he => ?_)
  rw [hl e he]
  exact Bool.false_ne_true

theorem Holds.answers (ht : t.Holds g.edges) (hcalls : t.calls.Answers h g.calls)
    (hgraphs : t.graphs = g.graphs) (hpoints : t.points = g.points)
    (hends : ∀ e ∈ g.edges, e.target ∈ g.points) : t.Answers g := by
  have hout := ht.leaving.get?_eq
  have hin := ht.reaching.get?_eq
  have howner := ht.owner
  have hat := ht.graphAt?_eq
  have hinside := ht.hasPoint_iff
  rw [hpoints] at hout hin howner
  simp only [hpoints, hgraphs] at hat hinside
  have hentries : t.entryMethods = g.entryMethods := by
    rw [SuperTables.entryMethods, Supergraph.entryMethods, ← hcalls.graph, hgraphs]
    rfl
  constructor
  case graphs => exact hgraphs
  case points => exact hpoints
  case methodOf? => exact howner
  case outEdges? => exact hout
  case inEdges? => exact hin
  case succs? =>
    intro p
    rw [SuperTables.succs?, SuperTables.outEdges?, hout]
    split <;> rfl
  case preds? =>
    intro p
    rw [SuperTables.preds?, SuperTables.inEdges?, hin]
    split <;> rfl
  case returnSites? =>
    intro p
    rw [SuperTables.returnSites?, hat]
    split
    · obtain ⟨f, hf, -⟩ := (Supergraph.mem_points_iff g p).1 ‹_›
      rw [Supergraph.returnSites, hf, show g.graphs.get? p.method = some f from hf]
      rfl
    · rfl
  case hasPoint => exact fun p => Bool.eq_iff_iff.2 ((hinside p).trans (g.hasPoint_iff p).symm)
  case isCallSite =>
    intro p
    rw [SuperTables.isCallSite, hat]
    split
    · rw [Supergraph.isCallSite, Supergraph.stmtOf?, Supergraph.body?, Supergraph.graph?]
      cases g.graphs.get? p.method <;> rfl
    · exact (Bool.eq_false_iff.2 (fun hc => absurd (mem_points_of_isCallSite hc) ‹_›)).symm
  case callees =>
    intro s
    rw [SuperTables.callees, hcalls.callees, hgraphs]
    rfl
  case entryMethods => exact hentries
  case edges => exact ht.leaving.groups.perm
  case text =>
    have hlength : t.edges.length = g.edges.length := ht.leaving.groups.perm.length_eq
    unfold SuperTables.text Supergraph.text
    rw [SuperTables.methods, Supergraph.methods, hgraphs, hpoints, hlength]
  case validate =>
    have hperm : ∀ e ∈ t.edges, e ∈ g.edges := fun _ he => ht.leaving.groups.perm.subset he
    rw [SuperTables.validate, Supergraph.validate, hentries, ← hcalls.graph,
      find?_stray (fun e he => (hinside _).2 (hends e (hperm e he))),
      find?_stray (fun e he => (g.hasPoint_iff _).2 (hends e he))]
    rfl

/-- Graphs of methods that are wired in tables make the supergraph that joins them. -/
theorem build_answers {calls : CallTables} (hcalls : calls.InStep h)
    {graphs : List (MethodRef × FlowGraph)} (hgraphs : (graphs.map Prod.fst).Nodup) :
    ∃ t, build calls graphs = .ok t ∧ t.calls = calls ∧
      t.graph = Supergraph.join calls.graph (.ofList graphs) ∧ t.Answers t.graph := by
  obtain ⟨hholds, hc, hg, hp⟩ := foldl_embed graphs { calls } (holds_empty calls)
  have hpoints : (graphs.foldl embed { calls }).points =
      (Supergraph.join calls.graph (.ofList graphs)).points := by
    rw [hp, Supergraph.points]
    change _ = (OrderedMap.ofList graphs).entries.flatMap _
    rw [OrderedMap.entries_ofList hgraphs]
    rfl
  have hwiring : (graphs.foldl embed { calls }).wiring =
      (Supergraph.join calls.graph (.ofList graphs)).edges := by
    rw [wiring, hc, hg, funext hcalls.answers.callees]
    rfl
  have hends := fun e he => Supergraph.ends_join calls.graph (.ofList graphs) (e := e) he
  obtain ⟨t, ht, htholds, htcalls, htgraphs, htpoints⟩ := foldlM_add
    (graphs.foldl embed { calls }).wiring hholds (by rw [hwiring, hpoints]; exact hends)
  have htcalls : t.calls = calls := htcalls.trans hc
  have htgraphs : t.graphs = .ofList graphs := htgraphs.trans hg
  have hgraph : t.graph = Supergraph.join calls.graph (.ofList graphs) := by
    rw [graph, htcalls, htgraphs]
  rw [List.nil_append, hwiring] at htholds
  refine ⟨t, ht, htcalls, hgraph, ?_⟩
  rw [hgraph]
  refine htholds.answers (h := h) ?_ htgraphs (htpoints.trans hpoints) (fun e he => (hends e he).2)
  rw [htcalls]
  exact hcalls.answers

theorem ofCalls_answers {calls : CallTables} (hcalls : calls.InStep h)
    {ready : OrderedMap MethodRef FlowGraph} (hg : Supergraph.ofCalls h calls.graph ready = .ok g) :
    ∃ t, ofCalls h calls ready = .ok (.ok t) ∧ t.calls = calls ∧ t.graph = g ∧ t.Answers g := by
  obtain ⟨l, hl, rfl⟩ := Supergraph.ofCalls_eq hg
  obtain ⟨t, ht, htcalls, hgraph, hanswers⟩ := build_answers hcalls (Supergraph.nodup_embed hl)
  exact ⟨t, bind_eq_ok_iff.2 ⟨l, hl, congrArg Except.ok ht⟩, htcalls, hgraph, hgraph ▸ hanswers⟩

end SuperTables

end Dataflow
