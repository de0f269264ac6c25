import Dataflow.FlowGraph.OfBody
import Dataflow.Proofs.FlowGraph.Valid

namespace Dataflow

namespace Body

variable {b : Body} {i : Nat}

theorem exits_ne_nil {s : Stmt Target} {es : List Edge} (h : b.exits i s = .ok es) : es ≠ [] := by
  cases s with
  | branch c t | goto t =>
      obtain ⟨d, -, h⟩ := bind_eq_ok_iff.1 h
      cases h
      exact List.cons_ne_nil _ _
  | switch v values targets default =>
      obtain ⟨cs, -, h⟩ := bind_eq_ok_iff.1 h
      obtain ⟨d, -, h⟩ := bind_eq_ok_iff.1 h
      cases h
      simp
  | ret | nop | assign | invoke =>
      cases h
      exact List.cons_ne_nil _ _

theorem following_ne_entry (b : Body) (i : Nat) : b.following i ≠ .entry := by
  rw [following]
  split <;> simp

theorem target_ne_entry_of_jump {t : Target} {kind : EdgeKind} {v : Option Int} {e : Edge}
    (h : b.jump i t kind v = .ok e) : e.target ≠ .entry := by
  rw [jump] at h
  cases ht : b.landing i t with
  | error d => simp [ht, Except.map] at h
  | ok n =>
      simp only [ht, Except.map, Except.ok.injEq] at h
      subst h
      rintro rfl
      simp only [landing] at ht
      split at ht
      · split at ht <;> cases ht
      · cases ht
      · cases ht

theorem target_ne_entry_of_exits {s : Stmt Target} {es : List Edge} (h : b.exits i s = .ok es)
    {e : Edge} (he : e ∈ es) : e.target ≠ .entry := by
  cases s with
  | branch c t =>
      obtain ⟨d, hd, h⟩ := bind_eq_ok_iff.1 h
      cases h
      rcases List.mem_cons.1 he with rfl | he
      · exact target_ne_entry_of_jump hd
      · obtain rfl := List.mem_singleton.1 he
        exact b.following_ne_entry i
  | goto t =>
      obtain ⟨d, hd, h⟩ := bind_eq_ok_iff.1 h
      cases h
      obtain rfl := List.mem_singleton.1 he
      exact target_ne_entry_of_jump hd
  | switch v values targets default =>
      obtain ⟨cs, hcs, h⟩ := bind_eq_ok_iff.1 h
      obtain ⟨d, hd, h⟩ := bind_eq_ok_iff.1 h
      cases h
      rcases List.mem_append.1 he with he | he
      · obtain ⟨p, -, hp⟩ := exists_of_mem_mapM hcs he
        exact target_ne_entry_of_jump hp
      · obtain rfl := List.mem_singleton.1 he
        exact target_ne_entry_of_jump hd
  | ret v =>
      cases h
      obtain rfl := List.mem_singleton.1 he
      exact fun h => nomatch h
  | nop | assign | invoke =>
      cases h
      obtain rfl := List.mem_singleton.1 he
      exact b.following_ne_entry i

theorem first_ne_entry (b : Body) : b.first ≠ .entry := by
  rw [first]
  split <;> simp

end Body

namespace FlowGraph

variable {b : Body} {g : FlowGraph}

theorem body_ofBody (h : ofBody b = .ok g) : g.body = b := by
  rw [ofBody] at h
  split at h
  · cases h
  · cases h
    rfl

theorem exists_exits (h : ofBody b = .ok g) {i : Nat} {s : Stmt Target} (hs : b.stmt? i = some s) :
    ∃ es, b.exits i s = .ok es := by
  rw [ofBody] at h
  split at h
  · cases h
  · rename_i exits hexits
    obtain ⟨es, -, hes⟩ := exists_mem_of_mapM hexits (x := (s, i))
      (List.mem_zipIdx_iff_getElem?.2 hs)
    exact ⟨es, hes⟩

theorem mem_edges_ofBody_iff (h : ofBody b = .ok g) (e : Edge) :
    e ∈ g.edges ↔ e = ⟨.entry, b.first, .entry, none⟩ ∨
      ∃ i s es, b.stmt? i = some s ∧ b.exits i s = .ok es ∧ e ∈ es := by
  rw [ofBody] at h
  split at h
  · cases h
  · rename_i exits hexits
    cases h
    rw [List.mem_cons]
    refine or_congr_right ⟨fun he => ?_, ?_⟩
    · obtain ⟨es, hes, he⟩ := List.mem_flatten.1 he
      obtain ⟨p, hp, hps⟩ := exists_of_mem_mapM hexits hes
      exact ⟨p.2, p.1, es, List.mem_zipIdx_iff_getElem?.1 hp, hps, he⟩
    · rintro ⟨i, s, es, hs, hes, he⟩
      obtain ⟨es', hes', he'⟩ := exists_mem_of_mapM hexits (x := (s, i))
        (List.mem_zipIdx_iff_getElem?.2 hs)
      have he' : b.exits i s = .ok es' := he'
      rw [hes] at he'
      cases he'
      exact List.mem_flatten.2 ⟨es, hes', he⟩

/-- The graph of a body can always be solved. -/
theorem validate_ofBody (h : ofBody b = .ok g) : g.validate = .ok () := by
  have hedge := mem_edges_ofBody_iff h
  refine (validate_eq_ok_iff g).2 ⟨?_, ?_, ?_⟩
  · refine List.filter_eq_nil_iff.2 (fun e he => ?_)
    rw [decide_eq_true_eq]
    rcases (hedge e).1 he with rfl | ⟨i, s, es, -, hes, he⟩
    · exact b.first_ne_entry
    · exact Body.target_ne_entry_of_exits hes he
  · refine List.filter_eq_nil_iff.2 (fun e he => ?_)
    rw [decide_eq_true_eq]
    rcases (hedge e).1 he with rfl | ⟨i, s, es, -, hes, he⟩
    · exact fun h => nomatch h
    · rw [(Body.ends_of_exits hes he).1]
      exact fun h => nomatch h
  · intro n hn hne
    suffices hsome : ∃ e ∈ g.edges, e.source = n by
      obtain ⟨e, he, hs⟩ := hsome
      exact List.ne_nil_of_mem (List.mem_filter.2 ⟨he, decide_eq_true hs⟩)
    cases n with
    | entry => exact ⟨_, (hedge _).2 (.inl rfl), rfl⟩
    | exit => exact absurd rfl hne
    | stray serial tag => cases (g.body.mem_nodes_iff _).1 hn
    | stmt i =>
        have hi : i < g.body.stmts.length :=
          of_decide_eq_true ((g.body.mem_nodes_iff _).1 hn)
        rw [body_ofBody h] at hi
        have hs : b.stmt? i = some b.stmts[i] := List.getElem?_eq_getElem hi
        obtain ⟨es, hes⟩ := exists_exits h hs
        obtain ⟨e, he⟩ := List.exists_mem_of_ne_nil _ (Body.exits_ne_nil hes)
        exact ⟨e, (hedge e).2 (.inr ⟨i, _, es, hs, hes, he⟩), (Body.ends_of_exits hes he).1⟩

end FlowGraph

end Dataflow
