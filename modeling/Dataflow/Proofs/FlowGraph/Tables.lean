import Dataflow.FlowGraph.OfBody
import Dataflow.FlowGraph.Tables
import Dataflow.Proofs.FlowGraph.Valid
import Dataflow.Proofs.Lists
import Dataflow.Proofs.OrderedMap

namespace Dataflow

namespace Body

variable {b : Body} {e : Edge}

def Takes (b : Body) (e : Edge) : Prop := b.hasNode e.source = true ∧ b.hasNode e.target = true

instance (b : Body) (e : Edge) : Decidable (b.Takes e) := inferInstanceAs (Decidable (_ ∧ _))

def taken (b : Body) (asked : List Edge) : List Edge := asked.filter (fun e => b.Takes e)

theorem taken_concat (b : Body) (asked : List Edge) (e : Edge) :
    b.taken (asked ++ [e]) = b.taken asked ++ if b.Takes e then [e] else [] := by
  rw [taken, List.filter_append, taken]
  by_cases he : b.Takes e <;> simp [he]

end Body

namespace EdgeTables

variable {b : Body} {t : EdgeTables} {e : Edge} {edges asked : List Edge} {n m : Node}

structure Agree (b : Body) (edges : List Edge) (t : EdgeTables) : Prop where
  body : t.body = b
  leaving : t.leaving.GroupsOver edges Edge.source (fun n => b.hasNode n = true)
  reaching : t.reaching.GroupsOver edges Edge.target (fun n => b.hasNode n = true)

theorem groupsOver_blank (b : Body) (key : Edge → Node) :
    (blank b).GroupsOver [] key (fun n => b.hasNode n = true) := by
  obtain ⟨hgroups, hkeys⟩ := OrderedMap.groupsOver_blank b.nodup_nodes key
  exact ⟨hgroups, fun n => (hkeys n).trans (b.mem_nodes_iff n)⟩

theorem agree_bare (b : Body) : Agree b [] (bare b) :=
  ⟨rfl, groupsOver_blank b _, groupsOver_blank b _⟩

theorem strayEnd?_eq_none_iff (t : EdgeTables) (e : Edge) : t.strayEnd? e = none ↔ t.body.Takes e := by
  simp [strayEnd?, Body.Takes]

theorem add_of_takes (he : t.body.Takes e) : t.add e = (.ok e,
    { t with leaving := t.leaving.file e.source e, reaching := t.reaching.file e.target e }) := by
  rw [add, (t.strayEnd?_eq_none_iff e).2 he]

theorem add_of_not_takes (he : ¬ t.body.Takes e) :
    ∃ n, t.strayEnd? e = some n ∧
      t.add e = (.error (.strayEndpoint (t.body.nodeText n) t.body.name), t) := by
  rw [← strayEnd?_eq_none_iff] at he
  obtain ⟨n, hn⟩ := Option.ne_none_iff_exists'.1 he
  exact ⟨n, hn, by rw [add, hn]⟩

theorem add_refused_iff (t : EdgeTables) (e : Edge) :
    (∃ d, (t.add e).1 = .error d) ↔ ¬ t.body.Takes e := by
  by_cases he : t.body.Takes e
  · rw [add_of_takes he]
    exact ⟨fun ⟨_, hd⟩ => (nomatch hd), fun hn => absurd he hn⟩
  · obtain ⟨n, -, hadd⟩ := add_of_not_takes he
    rw [hadd]
    exact ⟨fun _ => he, fun _ => ⟨_, rfl⟩⟩

theorem Agree.add (h : Agree b edges t) (e : Edge) :
    Agree b (edges ++ if b.Takes e then [e] else []) (t.add e).2 := by
  by_cases he : b.Takes e
  · rw [if_pos he, add_of_takes (h.body ▸ he)]
    exact ⟨h.body, h.leaving.file he.1, h.reaching.file he.2⟩
  · obtain ⟨n, -, hadd⟩ := add_of_not_takes (t := t) (h.body.symm ▸ he)
    rw [if_neg he, List.append_nil, hadd]
    exact h

theorem agree_addAll (b : Body) (asked : List Edge) :
    Agree b (b.taken asked) ((bare b).addAll asked) := by
  induction asked using List.reverseRecOn with
  | nil => exact agree_bare b
  | append_singleton asked e ih =>
      rw [Body.taken_concat, addAll, List.foldl_append]
      exact ih.add e

/-- The far ends of the edges at a node, each once, in the order in which they are first reached. -/
structure Lists (edges : List Edge) (near far : Edge → Node) (n : Node) (ms : List Node) : Prop where
  nodup : ms.Nodup
  mem_iff : ∀ m, m ∈ ms ↔ ∃ e ∈ edges, near e = n ∧ far e = m
  ordered : ms.Pairwise (fun x y => ∃ front e back, edges = front ++ e :: back ∧ near e = n ∧
    far e = x ∧ ∀ d ∈ front, near d = n → far d ≠ y)

theorem lists_eraseDups (edges : List Edge) (near far : Edge → Node) (n : Node) :
    Lists edges near far n (((edges.filter (fun e => near e = n)).map far).eraseDups) where
  nodup := nodup_eraseDups _
  mem_iff m := by
    simp only [List.mem_eraseDups, List.mem_map, List.mem_filter, decide_eq_true_eq, and_assoc]
  ordered := by
    refine (pairwise_eraseDups _).imp ?_
    rintro x y ⟨front, back, heq, hy⟩
    obtain ⟨front, rest, hfilter, rfl, hrest⟩ := List.map_eq_append_iff.1 heq
    obtain ⟨e, back, rfl, rfl, -⟩ := List.map_eq_cons_iff.1 hrest
    obtain ⟨front, rest, rfl, rfl, hrest⟩ := List.filter_eq_append_iff.1 hfilter
    obtain ⟨between, back, rfl, hbetween, he, -⟩ := List.filter_eq_cons_iff.1 hrest
    refine ⟨front ++ between, e, back, by rw [List.append_assoc], of_decide_eq_true he, rfl, ?_⟩
    intro d hd hn hdy
    rcases List.mem_append.1 hd with hd | hd
    · exact hy (List.mem_map.2 ⟨d, List.mem_filter.2 ⟨hd, decide_eq_true hn⟩, hdy⟩)
    · exact hbetween d hd (decide_eq_true hn)

end EdgeTables

namespace FlowGraph

def addAll (g : FlowGraph) (edges : List Edge) : FlowGraph :=
  edges.foldl (fun g e => (g.addEdge e).toOption.getD g) g

variable {b : Body} {g : FlowGraph} {e : Edge} {asked : List Edge}

theorem addEdge_eq (g : FlowGraph) (e : Edge) : (g.body.Takes e → ∃ g', g.addEdge e = .ok g' ∧
      g'.body = g.body ∧ g'.edges = g.edges ++ [e]) ∧
    (¬ g.body.Takes e → ∃ n, [e.source, e.target].find? (fun n => !g.body.hasNode n) = some n ∧
      g.addEdge e = .error (.strayEndpoint (g.body.nodeText n) g.body.name)) := by
  rw [addEdge]
  by_cases hs : g.hasNode e.source = true
  · by_cases ht : g.hasNode e.target = true
    · rw [dif_pos hs, dif_pos ht]
      exact ⟨fun _ => ⟨_, rfl, rfl, rfl⟩, fun hn => absurd ⟨hs, ht⟩ hn⟩
    · rw [dif_pos hs, dif_neg ht]
      refine ⟨fun h => absurd h.2 ht, fun _ => ⟨e.target, ?_, rfl⟩⟩
      rw [hasNode] at hs ht
      simp [hs, ht]
  · rw [dif_neg hs]
    refine ⟨fun h => absurd h.1 hs, fun _ => ⟨e.source, ?_, rfl⟩⟩
    rw [hasNode] at hs
    simp [hs]

theorem addAll_bare (b : Body) (asked : List Edge) :
    ((bare b).addAll asked).body = b ∧ ((bare b).addAll asked).edges = b.taken asked := by
  induction asked using List.reverseRecOn with
  | nil => exact ⟨rfl, rfl⟩
  | append_singleton asked e ih =>
      obtain ⟨hbody, hedges⟩ := ih
      rw [Body.taken_concat, addAll, List.foldl_append]
      change ((addEdge ((bare b).addAll asked) e).toOption.getD _).body = b ∧
        ((addEdge ((bare b).addAll asked) e).toOption.getD _).edges = _
      obtain ⟨htakes, hrefuses⟩ := ((bare b).addAll asked).addEdge_eq e
      rw [hbody] at htakes hrefuses
      by_cases he : b.Takes e
      · obtain ⟨g', hg', hbody', hedges'⟩ := htakes he
        rw [hg', if_pos he, ← hedges]
        exact ⟨hbody', hedges'⟩
      · obtain ⟨n, -, hg'⟩ := hrefuses he
        rw [hg', if_neg he, List.append_nil]
        exact ⟨hbody, hedges⟩

theorem validate_eq_error_iff (g : FlowGraph) : (∃ d, g.validate = .error d) ↔
    (∃ e ∈ g.edges, e.target = .entry) ∨ (∃ e ∈ g.edges, e.source = .exit) ∨
      ∃ n, g.body.hasNode n = true ∧ n ≠ .exit ∧ ∀ e ∈ g.edges, e.source ≠ n := by
  have hok : (∃ d, g.validate = .error d) ↔ ¬ g.validate = .ok () := by
    cases g.validate <;> simp
  have hout (n : Node) : g.outEdges n = [] ↔ ∀ e ∈ g.edges, e.source ≠ n := by
    simp only [outEdges, List.filter_eq_nil_iff, decide_eq_true_eq, ne_eq]
  have hentry : ¬ g.inEdges .entry = [] ↔ ∃ e ∈ g.edges, e.target = .entry := by
    simp only [inEdges, List.filter_eq_nil_iff, decide_eq_true_eq, not_forall, not_not, exists_prop]
  have hexit : ¬ g.outEdges .exit = [] ↔ ∃ e ∈ g.edges, e.source = .exit := by
    simp only [hout, ne_eq, not_forall, not_not, exists_prop]
  have hnone : (¬ ∀ n ∈ g.nodes, n ≠ .exit → g.outEdges n ≠ []) ↔
      ∃ n, g.body.hasNode n = true ∧ n ≠ .exit ∧ ∀ e ∈ g.edges, e.source ≠ n := by
    simp only [← hout, nodes, Body.mem_nodes_iff, ne_eq, not_forall, not_not, exists_prop]
  rw [hok, validate_eq_ok_iff, not_and_or, not_and_or, hentry, hexit, hnone]

end FlowGraph

namespace EdgeTables

variable {b : Body} {t : EdgeTables} {g : FlowGraph} {e : Edge} {asked : List Edge}

/-- The tables answer as a graph does that keeps its edges in one list. -/
structure Answers (t : EdgeTables) (g : FlowGraph) : Prop where
  outEdges : ∀ n, t.outEdges? n = if g.hasNode n then some (g.outEdges n) else none
  inEdges : ∀ n, t.inEdges? n = if g.hasNode n then some (g.inEdges n) else none
  succs : ∀ n, t.succs? n = if g.hasNode n then some (g.succs n) else none
  preds : ∀ n, t.preds? n = if g.hasNode n then some (g.preds n) else none
  edgesBySource : t.edgesBySource = g.edgesBySource
  validate : t.validate = g.validate
  add : ∀ e, (t.add e).1 = (g.addEdge e).map (fun _ => e)

theorem Agree.answers (h : Agree g.body g.edges t) : Answers t g := by
  have hleaving := h.leaving.groups.getD
  have hreaching := h.reaching.groups.getD
  constructor
  case outEdges => exact h.leaving.get?_eq
  case inEdges => exact h.reaching.get?_eq
  case succs =>
    intro n
    rw [succs?, outEdges?, h.leaving.get?_eq n, FlowGraph.hasNode]
    split <;> rfl
  case preds =>
    intro n
    rw [preds?, inEdges?, h.reaching.get?_eq n, FlowGraph.hasNode]
    split <;> rfl
  case edgesBySource =>
    rw [EdgeTables.edgesBySource, h.body, funext hleaving]
    rfl
  case validate =>
    simp only [EdgeTables.validate, h.body, hleaving, hreaching]
    rfl
  case add =>
    intro e
    obtain ⟨htakes, hrefuses⟩ := g.addEdge_eq e
    by_cases he : g.body.Takes e
    · obtain ⟨g', hg', -⟩ := htakes he
      rw [hg', add_of_takes (h.body.symm ▸ he)]
      rfl
    · obtain ⟨n, hn, hg'⟩ := hrefuses he
      obtain ⟨m, hm, hadd⟩ := add_of_not_takes (t := t) (h.body.symm ▸ he)
      rw [strayEnd?, h.body, hn] at hm
      cases hm
      rw [hg', hadd, h.body]
      rfl

/-- What two tables hold that were asked to take some edges. -/
structure Mirrors (b : Body) (asked : List Edge) (t : EdgeTables) : Prop where
  outEdges : ∀ n, b.hasNode n = true →
    t.outEdges? n = some ((b.taken asked).filter (fun e => e.source = n))
  inEdges : ∀ n, b.hasNode n = true →
    t.inEdges? n = some ((b.taken asked).filter (fun e => e.target = n))
  count_outEdges : ∀ n es, t.outEdges? n = some es → ∀ e,
    es.count e = if e.source = n then (b.taken asked).count e else 0
  count_inEdges : ∀ n es, t.inEdges? n = some es → ∀ e,
    es.count e = if e.target = n then (b.taken asked).count e else 0
  succs : ∀ n, b.hasNode n = true →
    ∃ ms, t.succs? n = some ms ∧ Lists (b.taken asked) Edge.source Edge.target n ms
  preds : ∀ n, b.hasNode n = true →
    ∃ ms, t.preds? n = some ms ∧ Lists (b.taken asked) Edge.target Edge.source n ms
  mirrored : ∀ n m ms ns, t.succs? n = some ms → t.preds? m = some ns → (m ∈ ms ↔ n ∈ ns)
  absent : ∀ n, b.hasNode n = false →
    t.outEdges? n = none ∧ t.inEdges? n = none ∧ t.succs? n = none ∧ t.preds? n = none
  refused_iff : ∀ e, (∃ d, (t.add e).1 = .error d) ↔ ¬ b.Takes e
  traceless : ∀ e, ¬ b.Takes e → t.add e = (.error (.strayEndpoint
    (b.nodeText (if b.hasNode e.source then e.target else e.source)) b.name), t)
  validate_iff : (∃ d, t.validate = .error d) ↔ (∃ e ∈ b.taken asked, e.target = .entry) ∨
    (∃ e ∈ b.taken asked, e.source = .exit) ∨
      ∃ n, b.hasNode n = true ∧ n ≠ .exit ∧ ∀ e ∈ b.taken asked, e.source ≠ n
  answers : Answers t ((FlowGraph.bare b).addAll asked)

theorem strayEnd?_eq_some {n : Node} (h : t.strayEnd? e = some n) :
    n = if t.body.hasNode e.source then e.target else e.source := by
  rw [strayEnd?] at h
  by_cases hs : t.body.hasNode e.source = true
  · rw [if_pos hs]
    rw [List.find?_cons_of_neg (by simp [hs])] at h
    exact (List.mem_singleton.1 (List.mem_of_find?_eq_some h))
  · rw [if_neg hs]
    rw [List.find?_cons_of_pos (by simp [hs])] at h
    exact (Option.some.inj h).symm

/-- Whatever edges a graph was asked to take, its two tables mirror each other. -/
theorem addAll_mirrors (b : Body) (asked : List Edge) :
    Mirrors b asked ((bare b).addAll asked) := by
  have h := agree_addAll b asked
  obtain ⟨hbody, hedges⟩ := FlowGraph.addAll_bare b asked
  have hanswers : Answers ((bare b).addAll asked) ((FlowGraph.bare b).addAll asked) := by
    refine Agree.answers ?_
    rw [hbody, hedges]
    exact h
  have hlists (near far : Edge → Node) (n : Node) := lists_eraseDups (b.taken asked) near far n
  constructor
  case outEdges => intro n hn; exact (h.leaving.get?_eq n).trans (if_pos hn)
  case inEdges => intro n hn; exact (h.reaching.get?_eq n).trans (if_pos hn)
  case answers => exact hanswers
  case count_outEdges =>
    intro n es hes e
    rw [h.leaving.groups.found n es hes, count_filter_prop]
  case count_inEdges =>
    intro n es hes e
    rw [h.reaching.groups.found n es hes, count_filter_prop]
  case succs =>
    intro n hn
    refine ⟨_, ?_, hlists Edge.source Edge.target n⟩
    rw [succs?, outEdges?, h.leaving.get?_eq n, if_pos hn]
    rfl
  case preds =>
    intro n hn
    refine ⟨_, ?_, hlists Edge.target Edge.source n⟩
    rw [preds?, inEdges?, h.reaching.get?_eq n, if_pos hn]
    rfl
  case mirrored =>
    intro n m ms ns hms hns
    obtain ⟨es, hes, rfl⟩ := Option.map_eq_some_iff.1 hms
    obtain ⟨ds, hds, rfl⟩ := Option.map_eq_some_iff.1 hns
    rw [h.leaving.groups.found n es hes, h.reaching.groups.found m ds hds, (hlists _ _ n).mem_iff,
      (hlists _ _ m).mem_iff]
    exact exists_congr fun e => and_congr_right' and_comm
  case absent =>
    intro n hn
    have hout : ((bare b).addAll asked).outEdges? n = none :=
      (h.leaving.get?_eq n).trans (if_neg (by rw [hn]; exact Bool.false_ne_true))
    have hin : ((bare b).addAll asked).inEdges? n = none :=
      (h.reaching.get?_eq n).trans (if_neg (by rw [hn]; exact Bool.false_ne_true))
    exact ⟨hout, hin, by rw [succs?, hout]; rfl, by rw [preds?, hin]; rfl⟩
  case refused_iff =>
    intro e
    have hrefused := ((bare b).addAll asked).add_refused_iff e
    rwa [h.body] at hrefused
  case traceless =>
    intro e he
    obtain ⟨n, hn, hadd⟩ := add_of_not_takes (t := (bare b).addAll asked) (h.body.symm ▸ he)
    rw [hadd, strayEnd?_eq_some hn, h.body]
  case validate_iff =>
    rw [hanswers.validate, FlowGraph.validate_eq_error_iff, hbody, hedges]

end EdgeTables

end Dataflow
