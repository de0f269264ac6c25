import Dataflow.Proofs.Fact.Registers

namespace Dataflow

namespace Value

theorem le_iff_flat (v w : Value) : v ≤ w ↔ v = w ∨ v = undef ∨ w = nac := by
  cases v with
  | undef => simp [undef_le]
  | const n => simp [const_le_iff, eq_comm]
  | nac => simp [nac_le_iff, eq_comm]

theorem isLUB_meet (v w : Value) : IsLUB {v, w} (v.meet w) := by
  constructor
  · rintro u (rfl | rfl)
    · exact le_meet_left _ _
    · exact le_meet_right _ _
  · intro u hu
    exact meet_le (hu (.inl rfl)) (hu (.inr rfl))

theorem meetAll_le_iff {l : List Value} {u : Value} : meetAll l ≤ u ↔ ∀ v ∈ l, v ≤ u := by
  induction l with
  | nil => exact iff_of_true (undef_le u) (fun _ h => nomatch h)
  | cons v l ih =>
      rw [List.forall_mem_cons, ← ih]
      exact ⟨fun h => ⟨le_trans (le_meet_left _ _) h, le_trans (le_meet_right _ _) h⟩,
        fun h => meet_le h.1 h.2⟩

/-- Neither the order of values nor how often they come matters to their meet. -/
theorem meetAll_congr {l l' : List Value} (h : ∀ v, v ∈ l ↔ v ∈ l') : meetAll l = meetAll l' := by
  refine eq_of_forall_ge_iff fun u => ?_
  rw [meetAll_le_iff, meetAll_le_iff]
  exact forall_congr' fun v => imp_congr_left (h v)

/-- The laws of meeting: the least upper bound in the flat order, where the undefined value is below
all constants and these are below the value that is not a constant. -/
structure MeetLaws : Prop where
  comm : ∀ v w : Value, v.meet w = w.meet v
  assoc : ∀ u v w : Value, (u.meet v).meet w = u.meet (v.meet w)
  idem : ∀ v : Value, v.meet v = v
  undef_meet : ∀ v : Value, undef.meet v = v ∧ v.meet undef = v
  nac_meet : ∀ v : Value, nac.meet v = nac ∧ v.meet nac = nac
  le_iff : ∀ v w : Value, v ≤ w ↔ v = w ∨ v = undef ∨ w = nac
  isLUB : ∀ v w : Value, IsLUB {v, w} (v.meet w)

theorem meetLaws : MeetLaws where
  comm := meet_comm
  assoc := meet_assoc
  idem := meet_self
  undef_meet v := ⟨Value.undef_meet v, meet_undef v⟩
  nac_meet v := ⟨Value.nac_meet v, meet_nac v⟩
  le_iff := le_iff_flat
  isLUB := isLUB_meet

end Value

theorem Fact.get_foldl_meetInto_congr {l l' : List Fact} (h : ∀ f, f ∈ l ↔ f ∈ l') (t : Fact)
    (x : Var) : (l.foldl (fun t f => f.meetInto t) t).get x =
      (l'.foldl (fun t f => f.meetInto t) t).get x := by
  rw [get_foldl_meetInto, get_foldl_meetInto]
  refine congrArg _ (Value.meetAll_congr fun v => ?_)
  rw [List.mem_map, List.mem_map]
  exact exists_congr fun f => and_congr_left' (h f)

namespace Registers

variable {r : Registers} {t f : String}

/-- What is left after a fact was met into another, which may be the same one. -/
structure Meets (r : Registers) (t f : String) : Prop where
  get_eq : ∀ x, (r.apply (.meetFrom t f)).2.view t x = (r.view f x).meet (r.view t x)
  source_eq : (r.apply (.meetFrom t f)).2.read f = r.read f
  defined : ∀ e ∈ ((r.apply (.meetFrom t f)).2.read t).entries, e.2 ≠ .undef

theorem Separate.read_meetFrom_self (h : r.Separate) (t a : String) :
    (r.apply (.meetFrom t t)).2.read a = r.read a := by
  rw [h.read_meetFrom]
  split
  · rename_i ha
    rw [Fact.meetInto_eq_self fun _ => le_refl _, ha]
  · rfl

theorem Separate.meets (h : r.Separate) (t f : String) : r.Meets t f where
  get_eq x := by rw [view, h.read_meetFrom, if_pos rfl, Fact.get_meetInto]; rfl
  source_eq := by
    by_cases hf : f = t
    · rw [hf]
      exact h.read_meetFrom_self t t
    · exact h.read_apply_of_ne hf
  defined := (total _).defined

theorem Separate.read_run_meetFrom (h : r.Separate) (t : String) (l : List String) :
    (r.run (l.map (.meetFrom t))).2.read t =
      ((l.filter (fun a => a ≠ t)).map r.read).foldl (fun t f => f.meetInto t) (r.read t) := by
  induction l generalizing r with
  | nil => rfl
  | cons a l ih =>
      rw [List.map_cons]
      refine (ih (h.apply (.meetFrom t a))).trans ?_
      by_cases ha : a = t
      · subst ha
        rw [List.filter_cons_of_neg (by simp), h.read_meetFrom_self,
          List.map_congr_left fun b _ => h.read_meetFrom_self a b]
      · have hother : ∀ b ∈ l.filter (fun b => b ≠ t),
            (r.apply (.meetFrom t a)).2.read b = r.read b :=
          fun b hb => h.read_apply_of_ne (of_decide_eq_true (List.mem_filter.1 hb).2)
        rw [List.filter_cons_of_pos (by simpa using ha), List.map_cons, List.foldl_cons,
          List.map_congr_left hother, h.read_meetFrom, if_pos rfl]

theorem Separate.view_run_meetFrom_congr (h : r.Separate) (t : String) {l l' : List String}
    (hl : ∀ a, a ∈ l ↔ a ∈ l') :
    (r.run (l.map (.meetFrom t))).2.view t = (r.run (l'.map (.meetFrom t))).2.view t := by
  funext x
  rw [view, view, h.read_run_meetFrom, h.read_run_meetFrom]
  refine Fact.get_foldl_meetInto_congr (fun g => ?_) _ x
  simp only [List.mem_map, List.mem_filter, hl]

/-- Facts can be met in any order, and as often as one likes. Values have a least upper bound; to meet a
fact into another gives each variable the one of its two values and leaves the fact as it is, also if
it is the target; and what has been met into a target in the end depends only on which facts these
were. -/
theorem meets_order_free :
    Value.MeetLaws ∧
    (∀ ops t f, (empty.run ops).2.Meets t f) ∧
    (∀ l l' : List Fact, (∀ f, f ∈ l ↔ f ∈ l') → ∀ (t : Fact) x,
      (l.foldl (fun t f => f.meetInto t) t).get x = (l'.foldl (fun t f => f.meetInto t) t).get x) ∧
    ∀ ops t (l l' : List String), (∀ a, a ∈ l ↔ a ∈ l') →
      ((empty.run ops).2.run (l.map (.meetFrom t))).2.view t =
        ((empty.run ops).2.run (l'.map (.meetFrom t))).2.view t :=
  ⟨Value.meetLaws, fun ops t f => (separate_empty.run ops).meets t f,
    fun _ _ hl => Fact.get_foldl_meetInto_congr hl,
    fun ops t _ _ hl => (separate_empty.run ops).view_run_meetFrom_congr t hl⟩

namespace Crossing

def x : Var := ⟨0, 0, "x", .primitive .int, 0⟩

def y : Var := ⟨0, 1, "y", .primitive .int, 1⟩

def history : List Op := [
  .make "f" [(x, .const 1), (y, .const 2)],
  .make "g" [(y, .const 3), (x, .const 1)],
  .make "t" []]

def there : List String := ["f", "g", "f", "t"]

def back : List String := ["t", "g", "t", "f"]

theorem mem_there_iff (a : String) : a ∈ there ↔ a ∈ back := by
  simp only [there, back, List.mem_cons, List.not_mem_nil, or_false]
  grind

theorem meets_order_free_crossing : (∀ a, a ∈ there ↔ a ∈ back) ∧
    ((empty.run history).2.run (there.map (.meetFrom "t"))).2.view "t" =
      ((empty.run history).2.run (back.map (.meetFrom "t"))).2.view "t" ∧
    ((empty.run history).2.run (there.map (.meetFrom "t"))).2.view "t" x = .const 1 ∧
    ((empty.run history).2.run (back.map (.meetFrom "t"))).2.view "t" y = .nac :=
  ⟨mem_there_iff, meets_order_free.2.2.2 history "t" there back mem_there_iff, by decide +kernel,
    by decide +kernel⟩

end Crossing

end Registers

end Dataflow
