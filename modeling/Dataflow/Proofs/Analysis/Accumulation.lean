import Dataflow.Analysis.ConstProp
import Dataflow.Analysis.Liveness
import Dataflow.Analysis.Solve
import Dataflow.Proofs.Fact.Order
import Dataflow.Proofs.FixedPoint.Climb

namespace Dataflow

namespace Analysis

variable {φ : Type} {a : Analysis φ}

structure Accumulates (a : Analysis φ) : Prop where
  meet_absorb : ∀ f t, a.meetInto f (a.meetInto f t) = a.meetInto f t
  meet_keep : ∀ {g t} (f : φ), a.meetInto g t = t →
    a.meetInto g (a.meetInto f t) = a.meetInto f t
  same_refl : ∀ f, a.same f f = true

structure Grows (a : Analysis φ) (b : Body) (fits : φ → Prop) (height : φ → Nat) (bound : Nat) :
    Prop where
  initial_fits : fits a.initial
  boundary_fits : fits (a.boundary b)
  meet_fits : ∀ {f t}, fits f → fits t → fits (a.meetInto f t)
  transfer_fits : ∀ {s f}, (∀ t, s = some t → t ∈ b.stmts) → fits f → fits (a.transfer s f)
  meet_climbs : ∀ {f t}, fits f → a.meetInto f t = t ∨ height t < height (a.meetInto f t)
  height_le : ∀ {f}, fits f → height f ≤ bound

theorem mem_stmts_of_stmtOf? {b : Body} {n : Node} {s : Stmt Target} (h : b.stmtOf? n = some s) :
    s ∈ b.stmts := by
  cases n with
  | stmt i => exact List.mem_of_getElem? h
  | entry | exit | stray _ _ => cases h

section Fold

variable {ν : Type}

def meetAll (a : Analysis φ) (r : ν → φ) (l : List ν) (t : φ) : φ :=
  l.foldl (fun t m => a.meetInto (r m) t) t

theorem meetAll_keep (ha : a.Accumulates) (r : ν → φ) (l : List ν) {g t : φ}
    (h : a.meetInto g t = t) : a.meetInto g (a.meetAll r l t) = a.meetAll r l t := by
  induction l generalizing t with
  | nil => exact h
  | cons m l ih => exact ih (ha.meet_keep (r m) h)

theorem meetAll_absorb (ha : a.Accumulates) (r : ν → φ) {l : List ν} {m : ν} (hm : m ∈ l) (t : φ) :
    a.meetInto (r m) (a.meetAll r l t) = a.meetAll r l t := by
  induction l generalizing t with
  | nil => cases hm
  | cons k l ih =>
      rcases List.mem_cons.1 hm with rfl | hm
      · exact meetAll_keep ha r l (ha.meet_absorb (r m) t)
      · exact ih hm (a.meetInto (r k) t)

theorem meetAll_eq_self {r : ν → φ} {l : List ν} {t : φ}
    (h : ∀ m ∈ l, a.meetInto (r m) t = t) : a.meetAll r l t = t := by
  induction l with
  | nil => rfl
  | cons m l ih =>
      change a.meetAll r l (a.meetInto (r m) t) = t
      rw [h m List.mem_cons_self]
      exact ih (fun k hk => h k (List.mem_cons_of_mem m hk))

theorem meetAll_congr {r r' : ν → φ} {l : List ν} (h : ∀ m ∈ l, r m = r' m) (t : φ) :
    a.meetAll r l t = a.meetAll r' l t := by
  induction l generalizing t with
  | nil => rfl
  | cons m l ih =>
      change a.meetAll r l (a.meetInto (r m) t) = a.meetAll r' l (a.meetInto (r' m) t)
      rw [h m List.mem_cons_self]
      exact ih (fun k hk => h k (List.mem_cons_of_mem m hk)) _

variable {b : Body} {fits : φ → Prop} {height : φ → Nat} {bound : Nat}

theorem meetAll_fits (hg : a.Grows b fits height bound) {r : ν → φ} (hr : ∀ m, fits (r m))
    (l : List ν) {t : φ} (ht : fits t) : fits (a.meetAll r l t) := by
  induction l generalizing t with
  | nil => exact ht
  | cons m l ih => exact ih (hg.meet_fits (hr m) ht)

theorem meetAll_climbs (hg : a.Grows b fits height bound) {r : ν → φ} (hr : ∀ m, fits (r m))
    (l : List ν) (t : φ) :
    a.meetAll r l t = t ∨ height t < height (a.meetAll r l t) := by
  induction l generalizing t with
  | nil => exact .inl rfl
  | cons m l ih =>
      have hl := ih (a.meetInto (r m) t)
      change a.meetAll r l (a.meetInto (r m) t) = t ∨
        height t < height (a.meetAll r l (a.meetInto (r m) t))
      rcases hg.meet_climbs (t := t) (hr m) with he | hlt
      · rw [he] at hl ⊢
        exact hl
      · right
        rcases hl with he | hlt'
        · rw [he]
          exact hlt
        · exact Nat.lt_trans hlt hlt'

end Fold

theorem local_system (ha : a.Accumulates) (g : FlowGraph) : (a.system g).Local where
  collect_congr {n f g' before} h := by
    apply meetAll_congr
    intro m hm
    exact h m ((a.mem_sinks_iff_mem_sources g m n).2 hm)
  collect_collect n f before := meetAll_eq_self (fun m hm => meetAll_absorb ha f hm before)
  same_refl := ha.same_refl

theorem climbs_system {g : FlowGraph} {fits : φ → Prop} {height : φ → Nat} {bound : Nat}
    (hg : a.Grows g.body fits height bound) : (a.system g).Climbs fits height bound where
  collect_fits hf hb := meetAll_fits hg hf _ hb
  transfer_fits hf := hg.transfer_fits (fun _ h => mem_stmts_of_stmtOf? h) hf
  collect_climbs hf _ := meetAll_climbs hg hf _ _
  height_le := hg.height_le

end Analysis

theorem mem_mentioned_of_param {b : Body} {x : Var} (h : x ∈ b.params) : x ∈ b.mentioned :=
  List.mem_eraseDups.2 (List.mem_append_left _ h)

theorem mem_mentioned_of_def {b : Body} {s : Stmt Target} (hs : s ∈ b.stmts) {x : Var}
    (h : s.def? = some x) : x ∈ b.mentioned := by
  apply List.mem_eraseDups.2
  apply List.mem_append_right
  refine List.mem_flatMap.2 ⟨s, hs, List.mem_append_left _ ?_⟩
  rw [h]
  exact List.mem_singleton_self x

theorem mem_mentioned_of_use {b : Body} {s : Stmt Target} (hs : s ∈ b.stmts) {x : Var}
    (h : x ∈ s.uses) : x ∈ b.mentioned := by
  apply List.mem_eraseDups.2
  apply List.mem_append_right
  exact List.mem_flatMap.2 ⟨s, hs, List.mem_append_right _ h⟩

namespace ConstProp

open Dataflow.Fact

variable {r : Var → Value → Prop} {f : Fact}

theorem each_boundary {s : Seeding} {b : Body}
    (h : ∀ x ∈ b.params, s = .all ∨ x.holdsInt = true → r x .nac) : (boundary s b).Each r := by
  apply List.foldlRecOn (motive := Fact.Each r)
  · exact Fact.each_empty r
  · intro f hf x hx
    split
    · rename_i hs
      rw [Bool.or_eq_true, decide_eq_true_eq] at hs
      exact hf.update fun _ => h x hx hs
    · exact hf

theorem each_transfer {s : Option (Stmt Target)} (hf : f.Each r)
    (h : ∀ t x, s = some t → t.def? = some x → x.holdsInt = true → r x .nac ∧
      ∀ e, t = .assign x e → evaluate e f ≠ .undef → r x (evaluate e f)) :
    (transfer s f).Each r := by
  cases s with
  | none => exact hf
  | some t =>
      cases t with
      | assign x e =>
          rw [transfer_assign]
          split
          · exact hf.update ((h _ x rfl rfl ‹_›).2 e rfl)
          · exact hf
      | invoke result c =>
          cases result with
          | none => exact hf
          | some x =>
              rw [transfer_result]
              split
              · exact hf.update fun _ => (h _ x rfl rfl ‹_›).1
              · exact hf
      | nop _ | branch _ _ | goto _ | switch _ _ _ _ | ret _ => exact hf

theorem bindsOnly_boundary (seeding : Seeding) (b : Body) :
    BindsOnly b.mentioned (boundary seeding b) :=
  bindsOnly_iff.2 (each_boundary fun _ hx _ => mem_mentioned_of_param hx)

theorem bindsOnly_transfer {xs : List Var} {s : Option (Stmt Target)} {f : Fact}
    (hs : ∀ t x, s = some t → t.def? = some x → x ∈ xs) (hf : BindsOnly xs f) :
    BindsOnly xs (transfer s f) :=
  bindsOnly_iff.2 (each_transfer (bindsOnly_iff.1 hf) fun t x ht hx _ =>
    ⟨hs t x ht hx, fun _ _ _ => hs t x ht hx⟩)

end ConstProp

theorem constProp_accumulates (c : Config) : (constProp c).Accumulates where
  meet_absorb := Fact.meetInto_absorb
  meet_keep := Fact.meetInto_keep
  same_refl := Fact.same_refl

theorem constProp_grows (c : Config) (b : Body) :
    (constProp c).Grows b (Fact.BindsOnly b.mentioned) (Fact.height b.mentioned)
      (2 * b.mentioned.length) where
  initial_fits := Fact.bindsOnly_empty _
  boundary_fits := ConstProp.bindsOnly_boundary c.seeding b
  meet_fits := Fact.bindsOnly_meetInto
  transfer_fits hs hf :=
    ConstProp.bindsOnly_transfer (fun t _ ht hx => mem_mentioned_of_def (hs t ht) hx) hf
  meet_climbs := Fact.meetInto_climbs
  height_le _ := Fact.height_le _ _

namespace VarSet

theorem foldl_insert_eq_self {l : List Var} {s : VarSet} (h : ∀ x ∈ l, x ∈ s) :
    l.foldl insert s = s := by
  induction l with
  | nil => rfl
  | cons x l ih =>
      rw [List.foldl_cons, VarSet.insert_eq_self (h x List.mem_cons_self)]
      exact ih (fun y hy => h y (List.mem_cons_of_mem x hy))

theorem union_eq_self {s t : VarSet} (h : ∀ x, x ∈ s → x ∈ t) : t.union s = t :=
  foldl_insert_eq_self h

theorem subset_of_union_eq_self {s t : VarSet} (h : t.union s = t) {x : Var} (hx : x ∈ s) :
    x ∈ t := by
  rw [← h, mem_union]
  exact .inr hx

theorem size_lt_size {s t : VarSet} (h : ∀ x, x ∈ s → x ∈ t) {x : Var} (hx : x ∈ t)
    (hn : ¬ x ∈ s) : s.size < t.size := by
  have hnd : (x :: s.items).Nodup := List.nodup_cons.2 ⟨hn, s.nodup⟩
  have hsub : x :: s.items ⊆ t.items := List.cons_subset.2 ⟨hx, h⟩
  exact (List.subperm_of_subset hnd hsub).length_le

theorem size_le {s : VarSet} {xs : List Var} (h : ∀ x, x ∈ s → x ∈ xs) : s.size ≤ xs.length :=
  (List.subperm_of_subset s.nodup h).length_le

end VarSet

theorem liveness_accumulates (c : Config) : (liveness c).Accumulates where
  meet_absorb f t := VarSet.union_eq_self (fun x hx => (VarSet.mem_union t f x).2 (.inr hx))
  meet_keep {_ t} f h := VarSet.union_eq_self (fun x hx =>
    (VarSet.mem_union t f x).2 (.inl (VarSet.subset_of_union_eq_self h hx)))
  same_refl s := (VarSet.same_iff s s).2 (fun _ => Iff.rfl)

theorem liveness_grows (c : Config) (b : Body) :
    (liveness c).Grows b (fun s => ∀ x, x ∈ s → x ∈ b.mentioned) VarSet.size
      (2 * b.mentioned.length) where
  initial_fits _ hx := absurd hx (VarSet.not_mem_empty _)
  boundary_fits _ hx := absurd hx (VarSet.not_mem_empty _)
  meet_fits {f t} hf ht x hx := by
    rcases (VarSet.mem_union t f x).1 hx with hx | hx
    · exact ht x hx
    · exact hf x hx
  transfer_fits {s f} hs hf x hx := by
    cases s with
    | none => exact hf x hx
    | some s =>
        rcases (Liveness.mem_transfer s f x).1 hx with hu | ⟨-, hx⟩
        · exact mem_mentioned_of_use (hs s rfl) hu
        · exact hf x hx
  meet_climbs {f t} _ := by
    by_cases h : ∀ x, x ∈ f → x ∈ t
    · exact .inl (VarSet.union_eq_self h)
    · right
      obtain ⟨x, hx⟩ := not_forall.1 h
      obtain ⟨hxf, hxt⟩ := Classical.not_imp.1 hx
      exact VarSet.size_lt_size (fun y hy => (VarSet.mem_union t f y).2 (.inl hy))
        ((VarSet.mem_union t f x).2 (.inr hxf)) hxt
  height_le hf := Nat.le_trans (VarSet.size_le hf) (Nat.le_mul_of_pos_left _ Nat.two_pos)

end Dataflow
