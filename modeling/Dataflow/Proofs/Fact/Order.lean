import Dataflow.Fact.Basic
import Dataflow.Proofs.OrderedMap
import Mathlib.Algebra.Order.BigOperators.Group.List
import Mathlib.Algebra.Order.Ring.Nat

namespace Dataflow

namespace Value

instance : PartialOrder Value where
  le v w := v.meet w = w
  le_refl := meet_self
  le_trans u v w huv hvw := by
    rw [← show v.meet w = w from hvw, ← meet_assoc, show u.meet v = v from huv]
  le_antisymm v w hvw hwv := by
    rw [← show v.meet w = w from hvw, meet_comm]
    exact Eq.symm hwv

theorem le_iff {v w : Value} : v ≤ w ↔ v.meet w = w := Iff.rfl

theorem undef_le (v : Value) : undef ≤ v := undef_meet v

theorem le_nac (v : Value) : v ≤ nac := meet_nac v

theorem const_le_iff {n : Int} {v : Value} : const n ≤ v ↔ v = const n ∨ v = nac := by
  cases v with
  | undef => simp [le_iff, meet]
  | const m =>
      simp only [le_iff, meet]
      by_cases h : n = m
      · simp [h]
      · simp [h, Ne.symm h]
  | nac => simp [le_iff]

theorem nac_le_iff {v : Value} : nac ≤ v ↔ v = nac := by
  rw [le_iff, nac_meet, eq_comm]

theorem le_meet_left (v w : Value) : v ≤ v.meet w := by
  rw [le_iff, ← meet_assoc, meet_self]

theorem le_meet_right (v w : Value) : w ≤ v.meet w := by
  rw [meet_comm]
  exact le_meet_left w v

theorem meet_le {u v w : Value} (hv : v ≤ u) (hw : w ≤ u) : v.meet w ≤ u := by
  rw [le_iff, meet_assoc, le_iff.1 hw, le_iff.1 hv]

theorem meet_le_meet {u u' v v' : Value} (hu : u ≤ u') (hv : v ≤ v') : u.meet v ≤ u'.meet v' :=
  meet_le (le_trans hu (le_meet_left u' v')) (le_trans hv (le_meet_right u' v'))

theorem le_undef_iff {v : Value} : v ≤ undef ↔ v = undef := by
  rw [le_iff, meet_undef]

theorem le_const_iff {v : Value} {n : Int} : v ≤ const n ↔ v = undef ∨ v = const n := by
  cases v with
  | undef => simp [undef_le]
  | const m => simp [const_le_iff, eq_comm]
  | nac => simp [nac_le_iff]

theorem const_of_meet {v w : Value} {n : Int} (h : v.meet w = .const n) :
    v = .const n ∨ w = .const n := by
  cases v with
  | undef => exact .inr (by simpa using h)
  | nac => simp at h
  | const m => cases w with
    | undef => exact .inl (by simpa using h)
    | nac => simp at h
    | const k =>
        have hle : const m ≤ const n := h ▸ le_meet_left _ _
        exact .inl ((const_le_iff.1 hle).resolve_right (fun h => nomatch h)).symm

def meetAll (l : List Value) : Value := l.foldr meet undef

/-- How many steps a value is above the undefined one. -/
def rank : Value → Nat
  | undef => 0
  | const _ => 1
  | nac => 2

theorem rank_le_two (v : Value) : v.rank ≤ 2 := by
  cases v <;> simp [rank]

theorem rank_lt_rank {v w : Value} (h : v < w) : v.rank < w.rank := by
  obtain ⟨hle, hne⟩ := lt_iff_le_and_ne.1 h
  cases v with
  | undef => cases w with
    | undef => exact absurd rfl hne
    | const _ | nac => exact Nat.zero_lt_succ _
  | const n =>
      rcases const_le_iff.1 hle with rfl | rfl
      · exact absurd rfl hne
      · exact Nat.lt_succ_self 1
  | nac => exact absurd (nac_le_iff.1 hle).symm hne

theorem rank_le_rank {v w : Value} (h : v ≤ w) : v.rank ≤ w.rank := by
  rcases eq_or_lt_of_le h with rfl | h
  · exact Nat.le_refl _
  · exact Nat.le_of_lt (rank_lt_rank h)

end Value

namespace Fact

theorem update_eq_self {f : Fact} {x : Var} {v : Value} (hv : v ≠ .undef) (h : f.get x = v) :
    f.update x v = f := by
  have hb := OrderedMap.insert_eq_self ((get_eq_iff f x hv).1 h)
  obtain ⟨b, hd⟩ := f
  rw [update, assign]
  rw [dif_neg hv]
  simp only [hb]

theorem mem_entries_iff (f : Fact) (x : Var) (v : Value) :
    (x, v) ∈ f.entries ↔ v ≠ .undef ∧ f.get x = v := by
  have he : (x, v) ∈ f.entries ↔ f.bindings.get? x = some v :=
    (OrderedMap.get?_eq_some_iff f.bindings x v).symm
  constructor
  · intro h
    have hv : v ≠ .undef := by
      rintro rfl
      exact f.defined x (he.1 h)
    exact ⟨hv, (get_eq_iff f x hv).2 (he.1 h)⟩
  · rintro ⟨hv, h⟩
    exact he.2 ((get_eq_iff f x hv).1 h)

theorem get_foldl_update {l : List (Var × Value)} (hl : (l.map Prod.fst).Nodup) (t : Fact)
    (x : Var) :
    (l.foldl (fun t e => t.update e.1 (e.2.meet (t.get e.1))) t).get x =
      ((l.lookup x).getD .undef).meet (t.get x) := by
  induction l generalizing t with
  | nil => exact (Value.undef_meet _).symm
  | cons e rest ih =>
      obtain ⟨y, v⟩ := e
      obtain ⟨hy, hrest⟩ := List.nodup_cons.1 hl
      rw [List.foldl_cons, ih hrest, get_update, List.lookup_cons]
      by_cases hx : x = y
      · subst hx
        have hn : rest.lookup x = none := by
          rw [List.lookup_eq_none_iff]
          intro p hp
          rw [bne_iff_ne]
          rintro rfl
          exact hy (List.mem_map.2 ⟨p, hp, rfl⟩)
        simp [hn]
      · have hb : (x == y) = false := beq_eq_false_iff_ne.2 hx
        rw [if_neg hx, hb]

@[simp] theorem get_meetInto (f t : Fact) (x : Var) :
    (f.meetInto t).get x = (f.get x).meet (t.get x) :=
  get_foldl_update f.bindings.nodup_keys t x

theorem get_foldl_meetInto (l : List Fact) (t : Fact) (x : Var) :
    (l.foldl (fun t f => f.meetInto t) t).get x =
      (t.get x).meet (Value.meetAll (l.map (fun f => f.get x))) := by
  induction l generalizing t with
  | nil => exact (Value.meet_undef _).symm
  | cons f l ih =>
      calc ((f :: l).foldl (fun t f => f.meetInto t) t).get x
          = ((f.meetInto t).get x).meet (Value.meetAll (l.map (fun f => f.get x))) := ih _
        _ = ((t.get x).meet (f.get x)).meet (Value.meetAll (l.map (fun f => f.get x))) := by
            rw [get_meetInto, Value.meet_comm (f.get x)]
        _ = (t.get x).meet (Value.meetAll ((f :: l).map (fun f => f.get x))) :=
            Value.meet_assoc _ _ _

theorem meetInto_eq_self {f t : Fact} (h : ∀ x, f.get x ≤ t.get x) : f.meetInto t = t := by
  have hstep : ∀ e ∈ f.entries, t.update e.1 (e.2.meet (t.get e.1)) = t := by
    rintro ⟨x, v⟩ he
    obtain ⟨hv, hx⟩ := (mem_entries_iff f x v).1 he
    have hle : v.meet (t.get x) = t.get x := hx ▸ h x
    rw [hle]
    refine update_eq_self ?_ rfl
    intro hu
    rw [hu, Value.meet_undef] at hle
    exact hv hle
  rw [meetInto]
  revert hstep
  induction f.entries with
  | nil => exact fun _ => rfl
  | cons e rest ih =>
      intro hstep
      rw [List.foldl_cons, hstep e List.mem_cons_self]
      exact ih (fun d hd => hstep d (List.mem_cons_of_mem e hd))

theorem le_of_meetInto_eq_self {f t : Fact} (h : f.meetInto t = t) (x : Var) :
    f.get x ≤ t.get x := by
  rw [Value.le_iff, ← get_meetInto, h]

theorem meetInto_absorb (f t : Fact) : f.meetInto (f.meetInto t) = f.meetInto t := by
  apply meetInto_eq_self
  intro x
  rw [get_meetInto]
  exact Value.le_meet_left _ _

theorem meetInto_keep {g t : Fact} (f : Fact) (h : g.meetInto t = t) :
    g.meetInto (f.meetInto t) = f.meetInto t := by
  apply meetInto_eq_self
  intro x
  rw [get_meetInto]
  exact le_trans (le_of_meetInto_eq_self h x) (Value.le_meet_right _ _)

theorem same_refl (f : Fact) : f.same f = true := (same_iff f f).2 (fun _ => rfl)

section

def Each (r : Var → Value → Prop) (f : Fact) : Prop := ∀ x v, (x, v) ∈ f.entries → r x v

variable {r : Var → Value → Prop} {f t : Fact}

theorem each_iff : f.Each r ↔ ∀ x, f.get x ≠ .undef → r x (f.get x) := by
  constructor
  · exact fun h x hx => h x _ ((mem_entries_iff f x _).2 ⟨hx, rfl⟩)
  · intro h x v hv
    obtain ⟨hv, rfl⟩ := (mem_entries_iff f x v).1 hv
    exact h x hv

theorem each_empty (r : Var → Value → Prop) : empty.Each r := each_iff.2 fun _ h => absurd rfl h

theorem Each.imp {r' : Var → Value → Prop} (h : f.Each r) (hr : ∀ x v, r x v → r' x v) :
    f.Each r' := fun x v hv => hr x v (h x v hv)

theorem Each.update (h : f.Each r) {x : Var} {v : Value} (hv : v ≠ .undef → r x v) :
    (f.update x v).Each r := by
  refine each_iff.2 fun y hy => ?_
  rw [get_update] at hy ⊢
  by_cases he : y = x
  · rw [if_pos he] at hy ⊢
    exact he ▸ hv hy
  · rw [if_neg he] at hy ⊢
    exact each_iff.1 h y hy

theorem Each.erase (h : f.Each r) (x : Var) : (f.erase x).Each r := by
  refine each_iff.2 fun y hy => ?_
  rw [get_erase] at hy ⊢
  by_cases he : y = x
  · exact absurd (if_pos he) hy
  · rw [if_neg he] at hy ⊢
    exact each_iff.1 h y hy

theorem Each.meetInto (hr : ∀ x v w, r x v → r x w → r x (v.meet w)) (hf : f.Each r)
    (ht : t.Each r) : (f.meetInto t).Each r := by
  refine each_iff.2 fun x hx => ?_
  rw [get_meetInto] at hx ⊢
  by_cases hfx : f.get x = .undef
  · rw [hfx, Value.undef_meet] at hx ⊢
    exact each_iff.1 ht x hx
  · by_cases htx : t.get x = .undef
    · rw [htx, Value.meet_undef] at hx ⊢
      exact each_iff.1 hf x hfx
    · exact hr x _ _ (each_iff.1 hf x hfx) (each_iff.1 ht x htx)

end

def BindsOnly (xs : List Var) (f : Fact) : Prop := ∀ x, f.get x ≠ .undef → x ∈ xs

def height (xs : List Var) (f : Fact) : Nat := (xs.map (fun x => (f.get x).rank)).sum

variable {xs : List Var}

theorem bindsOnly_iff {f : Fact} : BindsOnly xs f ↔ f.Each (fun x _ => x ∈ xs) :=
  (each_iff (r := fun x _ => x ∈ xs)).symm

theorem bindsOnly_empty (xs : List Var) : BindsOnly xs .empty := bindsOnly_iff.2 (each_empty _)

theorem bindsOnly_meetInto {f t : Fact} (hf : BindsOnly xs f) (ht : BindsOnly xs t) :
    BindsOnly xs (f.meetInto t) :=
  bindsOnly_iff.2 ((bindsOnly_iff.1 hf).meetInto (fun _ _ _ hx _ => hx) (bindsOnly_iff.1 ht))

theorem height_le (xs : List Var) (f : Fact) : f.height xs ≤ 2 * xs.length := by
  induction xs with
  | nil => exact Nat.le_refl _
  | cons x xs ih =>
      have hx := Value.rank_le_two (f.get x)
      simp only [height, List.map_cons, List.sum_cons, List.length_cons] at ih ⊢
      omega

theorem height_lt_height {f g : Fact} (hle : ∀ x, f.get x ≤ g.get x) {x : Var} (hx : x ∈ xs)
    (hne : f.get x ≠ g.get x) : f.height xs < g.height xs := by
  apply List.sum_lt_sum
  · intro y _
    exact Value.rank_le_rank (hle y)
  · exact ⟨x, hx, Value.rank_lt_rank (lt_of_le_of_ne (hle x) hne)⟩

/-- To meet a fact into a target either says nothing new or makes it climb. -/
theorem meetInto_climbs {f t : Fact} (hf : BindsOnly xs f) :
    f.meetInto t = t ∨ t.height xs < (f.meetInto t).height xs := by
  by_cases h : ∀ x, f.get x ≤ t.get x
  · exact .inl (meetInto_eq_self h)
  · obtain ⟨x, hx⟩ := not_forall.1 h
    right
    have hfx : f.get x ≠ .undef := by
      intro hu
      exact hx (hu ▸ Value.undef_le _)
    refine height_lt_height (fun y => ?_) (hf x hfx) ?_
    · rw [get_meetInto]
      exact Value.le_meet_right _ _
    · rw [get_meetInto]
      intro he
      exact hx (Value.le_iff.2 he.symm)

end Fact

end Dataflow
