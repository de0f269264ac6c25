import Dataflow.CallGraph.Resolve
import Dataflow.Proofs.Lists
import Mathlib.Order.Lattice.Nat

namespace Dataflow.Hierarchy

variable {h : Hierarchy} {main : MethodRef}

/-- A method calls another one if a call site in it resolves to that one. -/
def Calls (h : Hierarchy) (m n : MethodRef) : Prop :=
  ∃ s ∈ h.sitesOf m, ∃ l, h.resolveAt s = .ok l ∧ n ∈ l

inductive Chain (h : Hierarchy) (main : MethodRef) : Nat → MethodRef → Prop
  | start : Chain h main 0 main
  | call {k m n} : Chain h main k m → h.Calls m n → Chain h main (k + 1) n

/-- The length of the shortest chain of calls to a method. -/
noncomputable def depth (h : Hierarchy) (main m : MethodRef) : Nat := sInf {k | h.Chain main k m}

theorem depth_le_of_chain {k : Nat} {m : MethodRef} (hm : h.Chain main k m) : h.depth main m ≤ k :=
  Nat.sInf_le hm

theorem chain_depth {k : Nat} {m : MethodRef} (hm : h.Chain main k m) :
    h.Chain main (h.depth main m) m := by
  have hne : {i | h.Chain main i m}.Nonempty := ⟨k, hm⟩
  exact Nat.sInf_mem hne

def Found (h : Hierarchy) (main : MethodRef) (l : List MethodRef) (n : MethodRef) : Prop :=
  n = main ∨ ∃ m ∈ l, h.Calls m n

theorem Found.mono {l l' : List MethodRef} (hl : l ⊆ l') {n : MethodRef} (hn : h.Found main l n) :
    h.Found main l' n := by
  obtain rfl | ⟨m, hm, hc⟩ := hn
  · exact .inl rfl
  · exact .inr ⟨m, hl hm, hc⟩

/-- Methods looked at and methods found behind them, in breadth-first order: of two that were found the
earlier one was found no later, so that what the first few methods call stands in front of whatever
else was found. -/
structure Breadthwise (h : Hierarchy) (main : MethodRef) (looked pending : List MethodRef) : Prop where
  head : (looked ++ pending).head? = some main
  nodup : (looked ++ pending).Nodup
  chain : ∀ n ∈ looked ++ pending, ∃ k, h.Chain main k n
  found : ∀ n ∈ looked ++ pending, h.Found main looked n
  complete : ∀ m ∈ looked, ∀ n, h.Calls m n → n ∈ looked ++ pending
  fifo : ∀ l, l <+: looked →
    (looked ++ pending).Pairwise (fun x y => h.Found main l y → h.Found main l x)

theorem breadthwise_start (h : Hierarchy) (main : MethodRef) : h.Breadthwise main [] [main] where
  head := rfl
  nodup := List.nodup_singleton main
  chain _ hn := ⟨0, List.mem_singleton.1 hn ▸ .start⟩
  found _ hn := .inl (List.mem_singleton.1 hn)
  complete _ hm := absurd hm List.not_mem_nil
  fifo _ _ := List.pairwise_singleton _ main

/-- To look at the oldest method found adds behind all others those that only it calls. -/
theorem Breadthwise.look {looked pending new : List MethodRef} {m : MethodRef}
    (hb : h.Breadthwise main looked (m :: pending))
    (hcall : ∀ n ∈ new, h.Calls m n ∧ n ∉ looked ++ m :: pending) (hnew : new.Nodup)
    (hall : ∀ n, h.Calls m n → n ∈ (looked ++ m :: pending) ++ new) :
    h.Breadthwise main (looked ++ [m]) (pending ++ new) := by
  have hlist : (looked ++ [m]) ++ (pending ++ new) = (looked ++ m :: pending) ++ new := by
    simp
  have hm : m ∈ looked ++ m :: pending := List.mem_append_right _ List.mem_cons_self
  have hfound : ∀ n ∈ (looked ++ m :: pending) ++ new, h.Found main (looked ++ [m]) n := by
    intro n hn
    rcases List.mem_append.1 hn with hn | hn
    · exact (hb.found n hn).mono (List.subset_append_left _ _)
    · exact .inr ⟨m, List.mem_append_right _ List.mem_cons_self, (hcall n hn).1⟩
  have hmain : main ∈ looked ++ m :: pending := List.mem_of_mem_head? hb.head
  have hold : ∀ l, l <+: looked → ∀ n ∈ new, ¬ h.Found main l n := by
    rintro l hl n hn (rfl | ⟨k, hk, hc⟩)
    · exact (hcall n hn).2 hmain
    · exact (hcall n hn).2 (hb.complete k (hl.subset hk) n hc)
  constructor
  · rw [hlist, List.head?_append, hb.head]
    rfl
  · rw [hlist, List.nodup_append]
    refine ⟨hb.nodup, hnew, fun x hx y hy hxy => ?_⟩
    exact (hcall y hy).2 (hxy ▸ hx)
  · rw [hlist]
    intro n hn
    rcases List.mem_append.1 hn with hn | hn
    · exact hb.chain n hn
    · obtain ⟨k, hk⟩ := hb.chain m hm
      exact ⟨k + 1, hk.call (hcall n hn).1⟩
  · rw [hlist]
    exact hfound
  · rw [hlist]
    intro k hk n hc
    rcases List.mem_append.1 hk with hk | hk
    · exact List.mem_append_left _ (hb.complete k hk n hc)
    · rw [List.mem_singleton.1 hk] at hc
      exact hall n hc
  · rw [hlist]
    intro l hl
    rcases List.prefix_concat_iff.1 hl with rfl | hl
    · exact List.pairwise_of_forall_mem_list (fun x hx y _ _ => hfound x hx)
    · refine List.pairwise_append.2 ⟨hb.fifo l hl, ?_, ?_⟩
      · exact List.pairwise_of_forall_mem_list (fun x _ y hy hf => absurd hf (hold l hl y hy))
      · exact fun x _ y hy hf => absurd hf (hold l hl y hy)

section Searched

variable {l : List MethodRef}

theorem Breadthwise.mem_of_calls (hb : h.Breadthwise main l []) {m n : MethodRef} (hm : m ∈ l)
    (hc : h.Calls m n) : n ∈ l := by
  have hn := hb.complete m hm n hc
  rwa [List.append_nil] at hn

theorem Breadthwise.main_mem (hb : h.Breadthwise main l []) : main ∈ l := by
  have hhead := hb.head
  rw [List.append_nil] at hhead
  exact List.mem_of_mem_head? hhead

theorem Breadthwise.mem_iff (hb : h.Breadthwise main l []) (n : MethodRef) :
    n ∈ l ↔ ∃ k, h.Chain main k n := by
  constructor
  · intro hn
    exact hb.chain n (List.mem_append_left _ hn)
  · rintro ⟨k, hk⟩
    induction hk with
    | start => exact hb.main_mem
    | call _ hc ih => exact hb.mem_of_calls ih hc

theorem Breadthwise.chain_depth (hb : h.Breadthwise main l []) {n : MethodRef} (hn : n ∈ l) :
    h.Chain main (h.depth main n) n := by
  obtain ⟨k, hk⟩ := (hb.mem_iff n).1 hn
  exact Hierarchy.chain_depth hk

theorem Breadthwise.depth_le_succ_iff (hb : h.Breadthwise main l []) (k : Nat) {n : MethodRef}
    (hn : n ∈ l) :
    h.depth main n ≤ k + 1 ↔ h.Found main (l.filter (fun m => h.depth main m ≤ k)) n := by
  constructor
  · intro hd
    have hchain := hb.chain_depth hn
    generalize h.depth main n = d at hd hchain
    cases hchain with
    | start => exact .inl rfl
    | @call j m _ hm hc =>
        have hj : h.depth main m ≤ k := (depth_le_of_chain hm).trans (Nat.le_of_succ_le_succ hd)
        exact .inr ⟨m, List.mem_filter.2 ⟨(hb.mem_iff m).2 ⟨j, hm⟩, decide_eq_true hj⟩, hc⟩
  · rintro (rfl | ⟨m, hm, hc⟩)
    · exact (depth_le_of_chain .start).trans (Nat.zero_le _)
    · obtain ⟨hm, hd⟩ := List.mem_filter.1 hm
      exact (depth_le_of_chain ((hb.chain_depth hm).call hc)).trans
        (Nat.succ_le_succ (of_decide_eq_true hd))

/-- By induction on the depth: the methods at it or above stand in front, so what they call does. -/
theorem Breadthwise.pairwise_depth_le (hb : h.Breadthwise main l []) (k : Nat) :
    l.Pairwise (fun x y => h.depth main y ≤ k → h.depth main x ≤ k) := by
  have hfifo := hb.fifo
  rw [List.append_nil] at hfifo
  induction k with
  | zero =>
      refine (hfifo [] List.nil_prefix).imp_of_mem (fun {x y} hx hy hxy hd => ?_)
      have hmain : ∀ z, h.Found main [] z → z = main := by
        rintro z (rfl | ⟨m, hm, -⟩)
        · rfl
        · cases hm
      have hy0 := hb.chain_depth hy
      rw [Nat.le_zero.1 hd] at hy0
      cases hy0
      rw [hmain x (hxy (.inl rfl))]
      exact depth_le_of_chain .start
  | succ k ih =>
      refine (hfifo _ (filter_prefix_of_pairwise ih)).imp_of_mem (fun {x y} hx hy hxy => ?_)
      rw [hb.depth_le_succ_iff k hx, hb.depth_le_succ_iff k hy]
      exact hxy

theorem Breadthwise.sorted (hb : h.Breadthwise main l []) :
    l.Pairwise (fun m n => h.depth main m ≤ h.depth main n) :=
  List.pairwise_iff_forall_sublist.2 (fun {_ n} hs =>
    List.pairwise_iff_forall_sublist.1 (hb.pairwise_depth_le (h.depth main n)) hs le_rfl)

theorem Breadthwise.exists_caller (hb : h.Breadthwise main l []) {front back : List MethodRef}
    {n : MethodRef} (hl : l = front ++ n :: back) (hfront : front ≠ []) :
    ∃ m ∈ front, h.Calls m n := by
  have hn : n ∈ l := hl ▸ List.mem_append_right _ List.mem_cons_self
  have hchain := hb.chain_depth hn
  have hsorted := hb.sorted
  have hhead := hb.head
  have hnodup := hb.nodup
  rw [List.append_nil, hl] at hhead hnodup
  generalize hd : h.depth main n = d at hchain
  cases hchain with
  | start =>
      obtain ⟨m, front, rfl⟩ := List.exists_cons_of_ne_nil hfront
      obtain rfl := Option.some.inj hhead
      have hm := (List.nodup_append.1 hnodup).2.2 m List.mem_cons_self m List.mem_cons_self
      exact absurd rfl hm
  | @call j m _ hm hc =>
      have hlt : h.depth main m < h.depth main n := hd ▸ Nat.lt_succ_of_le (depth_le_of_chain hm)
      have hmem : m ∈ front ++ n :: back := hl ▸ (hb.mem_iff m).2 ⟨j, hm⟩
      rw [hl] at hsorted
      rcases List.mem_append.1 hmem with hfr | hrest
      · exact ⟨m, hfr, hc⟩
      · rcases List.mem_cons.1 hrest with rfl | hback
        · exact absurd hlt (lt_irrefl _)
        · have hle := (List.pairwise_cons.1 (List.pairwise_append.1 hsorted).2.1).1 m hback
          exact absurd hlt (not_lt.2 hle)

end Searched

end Dataflow.Hierarchy
