import Dataflow.Fact.Registers
import Dataflow.Proofs.Fact.Order
import Mathlib.Data.Set.Card

namespace Dataflow

/-- The value that a list of bindings gives a variable last. -/
def Value.lastOf (l : List (Var × Value)) (x : Var) : Value := (l.reverse.lookup x).getD undef

theorem get_foldl_of_get_put {σ κ ν : Type} [DecidableEq κ] {g : σ → κ → ν} {p : σ → κ × ν → σ}
    (h : ∀ s e k, g (p s e) k = if k = e.1 then e.2 else g s k) (l : List (κ × ν)) (s : σ) (k : κ) :
    g (l.foldl p s) k = (l.reverse.lookup k).getD (g s k) := by
  induction l generalizing s with
  | nil => rfl
  | cons e l ih =>
      obtain ⟨m, v⟩ := e
      rw [List.foldl_cons, ih, h, List.reverse_cons, List.lookup_append, List.lookup_cons]
      by_cases hk : k = m
      · cases l.reverse.lookup k <;> simp [hk]
      · have hb : (k == m) = false := beq_eq_false_iff_ne.2 hk
        cases l.reverse.lookup k <;> simp [hk, hb]

theorem OrderedMap.lookup_reverse {κ ν : Type} [DecidableEq κ] (m : OrderedMap κ ν) (k : κ) :
    m.entries.reverse.lookup k = m.get? k := by
  have hr : (m.entries.reverse.map Prod.fst).Nodup := by
    rw [List.map_reverse, List.nodup_reverse]
    exact m.nodup_keys
  refine Option.ext fun v => ?_
  rw [get?_eq_some_iff]
  exact (get?_eq_some_iff ⟨_, hr⟩ k v).trans List.mem_reverse

namespace Fact

variable {f g : Fact} {x : Var} {v : Value}

theorem get_update_eq (f : Fact) (x : Var) (v : Value) :
    (f.update x v).get = Function.update f.get x v := by
  funext y
  rw [get_update, Function.update_apply]

theorem get_erase_eq (f : Fact) (x : Var) : (f.erase x).get = Function.update f.get x .undef := by
  funext y
  rw [get_erase, Function.update_apply]

theorem remove_fst_iff (f : Fact) (x : Var) :
    (f.remove x).1 = true ↔ Function.update f.get x .undef ≠ f.get := by
  rw [Ne, Function.update_eq_self_iff, eq_comm (a := Value.undef)]
  exact contains_iff f x

theorem assign_fst_iff (f : Fact) (x : Var) (v : Value) :
    (f.assign x v).1 = true ↔ Function.update f.get x v ≠ f.get := by
  rw [assign]
  split
  · rename_i hv
    exact hv ▸ remove_fst_iff f x
  · rename_i hv
    refine decide_eq_true_iff.trans (not_congr ?_)
    rw [Function.update_eq_self_iff, eq_comm (a := v)]
    exact (get_eq_iff f x hv).symm

theorem same_iff_get_eq (f g : Fact) : f.same g = true ↔ f.get = g.get :=
  (same_iff f g).trans funext_iff.symm

theorem copyFrom_fst_iff (f g : Fact) : (f.copyFrom g).1 = true ↔ g.get ≠ f.get := by
  rw [ne_comm, copyFrom]
  split
  · rename_i h
    exact iff_of_false Bool.false_ne_true (not_not_intro ((same_iff_get_eq f g).1 h))
  · rename_i h
    exact iff_of_true rfl (fun he => h ((same_iff_get_eq f g).2 he))

theorem get_copyFrom (f g : Fact) : (f.copyFrom g).2.get = g.get := by
  rw [copyFrom]
  split
  · exact (same_iff_get_eq f g).1 ‹_›
  · rfl

theorem get_meetInto_eq (f t : Fact) : (f.meetInto t).get = fun x => (f.get x).meet (t.get x) :=
  funext (get_meetInto f t)

theorem get_ofList (l : List (Var × Value)) : (ofList l).get = Value.lastOf l := by
  funext x
  rw [ofList, get_foldl_of_get_put (fun f e y => get_update f e.1 e.2 y),
    OrderedMap.lookup_reverse, OrderedMap.ofList]
  exact get_foldl_of_get_put (g := fun m x => OrderedMap.getD m x .undef)
    (fun m e y => OrderedMap.getD_insert m e.1 e.2 y .undef) l .empty x

theorem encard_get_ne_undef (f : Fact) : {x | f.get x ≠ .undef}.encard = f.size := by
  have hkeys : {x | f.get x ≠ .undef} = (f.bindings.keys.toFinset : Set Var) := by
    ext x
    rw [Set.mem_ofPred_eq, ← contains_iff, Finset.mem_coe, List.mem_toFinset]
    exact (OrderedMap.mem_keys_iff f.bindings x).symm
  have hnodup : f.bindings.keys.Nodup := f.bindings.nodup_keys
  rw [hkeys, Set.encard_coe_eq_coe_finsetCard, List.toFinset_card_of_nodup hnodup,
    OrderedMap.keys, List.length_map]
  rfl

end Fact

namespace Registers

/-- For each name a total function from variables to values. -/
abbrev View := String → Var → Value

def view (r : Registers) : View := fun name => (r.read name).get

/-- An operation on views, with its answer. A flag that reports a change is set if and only if the
function has changed. -/
inductive Step (m : View) : Op → Answer → View → Prop
  | make {name l} : Step m (.make name l) .none (Function.update m name (Value.lastOf l))
  | update {name x v b} : (b = true ↔ Function.update (m name) x v ≠ m name) →
      Step m (.update name x v) (.flag b) (Function.update m name (Function.update (m name) x v))
  | remove {name x b} : (b = true ↔ Function.update (m name) x .undef ≠ m name) →
      Step m (.remove name x) (.flag b)
        (Function.update m name (Function.update (m name) x .undef))
  | get {name x} : Step m (.get name x) (.value (m name x)) m
  | contains {name x b} : (b = true ↔ m name x ≠ .undef) → Step m (.contains name x) (.flag b) m
  | copy {name other} : Step m (.copy name other) .none (Function.update m name (m other))
  | copyFrom {name other b} : (b = true ↔ m other ≠ m name) →
      Step m (.copyFrom name other) (.flag b) (Function.update m name (m other))
  | same {name other b} : (b = true ↔ m name = m other) → Step m (.same name other) (.flag b) m
  | meetFrom {name other} : Step m (.meetFrom name other) .none
      (Function.update m name (fun x => (m other x).meet (m name x)))

inductive Steps : View → List Op → List Answer → View → Prop
  | nil {m} : Steps m [] [] m
  | cons {m m' m'' op ops answer answers} : Step m op answer m' → Steps m' ops answers m'' →
      Steps m (op :: ops) (answer :: answers) m''

variable {r : Registers} {name other a : String} {f : Fact} {op : Op}

structure Separate (r : Registers) : Prop where
  bound : ∀ a i, r.refs.get? a = some i → i < r.cells.length
  inj : ∀ a b i, r.refs.get? a = some i → r.refs.get? b = some i → a = b

theorem separate_empty : empty.Separate :=
  ⟨fun _ _ h => (nomatch h), fun _ _ _ h => (nomatch h)⟩

theorem Separate.place (h : r.Separate) (name : String) (f : Fact) : (r.place name f).Separate := by
  have hnew : ∀ b i, r.refs.get? b = some i → i ≠ r.cells.length :=
    fun b i hi => Nat.ne_of_lt (h.bound b i hi)
  constructor
  · intro a i ha
    rw [Registers.place, OrderedMap.get?_insert] at ha
    rw [Registers.place, List.length_append, List.length_singleton]
    split at ha
    · cases ha
      exact Nat.lt_succ_self _
    · exact Nat.lt_succ_of_lt (h.bound a i ha)
  · intro a b i ha hb
    rw [Registers.place, OrderedMap.get?_insert] at ha hb
    split at ha <;> split at hb
    · rw [‹a = name›, ‹b = name›]
    · exact absurd (Option.some.inj ha).symm (hnew b i hb)
    · exact absurd (Option.some.inj hb).symm (hnew a i ha)
    · exact h.inj a b i ha hb

theorem Separate.read_place (h : r.Separate) (name : String) (f : Fact) (a : String) :
    (r.place name f).read a = if a = name then f else r.read a := by
  rw [read, Registers.place, OrderedMap.get?_insert]
  split
  · simp
  · cases ha : r.refs.get? a with
    | none => simp [read, ha]
    | some i => simp [read, ha, List.getElem?_append_left (h.bound a i ha)]

theorem Separate.write (h : r.Separate) (name : String) (f : Fact) : (r.write name f).Separate := by
  rw [Registers.write]
  split
  · refine ⟨fun a i ha => ?_, h.inj⟩
    rw [List.length_set]
    exact h.bound a i ha
  · exact h.place name f

theorem Separate.read_write (h : r.Separate) (name : String) (f : Fact) (a : String) :
    (r.write name f).read a = if a = name then f else r.read a := by
  rw [Registers.write]
  split
  · rename_i i hi
    by_cases ha : a = name
    · subst ha
      simp [read, hi, List.getElem?_set_self (h.bound a i hi)]
    · cases hj : r.refs.get? a with
      | none => simp [read, hj, ha]
      | some j =>
          have hij : i ≠ j := fun he => ha (h.inj a name j hj (he ▸ hi))
          simp [read, hj, ha, List.getElem?_set_ne hij]
  · exact h.read_place name f a

theorem Separate.foldl_meetBinding (h : r.Separate) (name : String) (l : List (Var × Value)) :
    (l.foldl (meetBinding name) r).Separate ∧ ∀ a, (l.foldl (meetBinding name) r).read a =
      if a = name then l.foldl (fun t e => t.update e.1 (e.2.meet (t.get e.1))) (r.read name)
      else r.read a := by
  induction l generalizing r with
  | nil =>
      refine ⟨h, fun a => ?_⟩
      by_cases ha : a = name
      · rw [if_pos ha, ha]
        rfl
      · rw [if_neg ha]
        rfl
  | cons e l ih =>
      obtain ⟨hs, hr⟩ := ih (h.write name _)
      refine ⟨hs, fun a => ?_⟩
      rw [List.foldl_cons, List.foldl_cons, meetBinding, hr a, h.read_write, if_pos rfl,
        h.read_write]
      by_cases ha : a = name
      · rw [if_pos ha, if_pos ha]
      · rw [if_neg ha, if_neg ha, if_neg ha]

/-- To meet binding after binding into a cell is to meet the facts, also if they are the same. -/
theorem Separate.read_meetFrom (h : r.Separate) (name other a : String) :
    (r.apply (.meetFrom name other)).2.read a =
      if a = name then (r.read other).meetInto (r.read name) else r.read a :=
  (h.foldl_meetBinding name _).2 a

theorem Separate.apply (h : r.Separate) (op : Op) : (r.apply op).2.Separate := by
  cases op with
  | make name l => exact h.place name _
  | update name x v => exact h.write name _
  | remove name x => exact h.write name _
  | get name x | contains name x | same name other => exact h
  | copy name other => exact h.place name _
  | copyFrom name other =>
      simp only [Registers.apply]
      split
      · exact h.place name _
      · exact h
  | meetFrom name other => exact (h.foldl_meetBinding name _).1

theorem Separate.read_apply_of_ne (h : r.Separate) (ha : a ≠ op.name) :
    (r.apply op).2.read a = r.read a := by
  cases op with
  | make name l => exact (h.read_place name _ a).trans (if_neg ha)
  | update name x v => exact (h.read_write name _ a).trans (if_neg ha)
  | remove name x => exact (h.read_write name _ a).trans (if_neg ha)
  | get name x | contains name x | same name other => rfl
  | copy name other => exact (h.read_place name _ a).trans (if_neg ha)
  | copyFrom name other =>
      simp only [Registers.apply]
      split
      · exact (h.read_place name _ a).trans (if_neg ha)
      · rfl
  | meetFrom name other => exact (h.read_meetFrom name other a).trans (if_neg ha)

theorem Separate.run (h : r.Separate) (ops : List Op) : (r.run ops).2.Separate := by
  induction ops generalizing r with
  | nil => exact h
  | cons op ops ih => exact ih (h.apply op)

theorem Separate.read_run_of_ne (h : r.Separate) {ops : List Op} (ha : ∀ op ∈ ops, op.name ≠ a) :
    (r.run ops).2.read a = r.read a := by
  induction ops generalizing r with
  | nil => rfl
  | cons op ops ih =>
      obtain ⟨hop, hops⟩ := List.forall_mem_cons.1 ha
      exact (ih (h.apply op) hops).trans (h.read_apply_of_ne (Ne.symm hop))

theorem view_eq_update {r r' : Registers} {f : Fact} {k : Var → Value}
    (h : ∀ a, r'.read a = if a = name then f else r.read a) (hk : f.get = k) :
    r'.view = Function.update r.view name k := by
  funext a
  rw [view, h a, Function.update_apply]
  split
  · exact hk
  · rfl

theorem Separate.step_apply (h : r.Separate) (op : Op) :
    Step r.view op (r.apply op).1 (r.apply op).2.view := by
  cases op with
  | make name l =>
      change Step _ _ _ (r.place name (.ofList l)).view
      rw [view_eq_update (h.read_place name _) (Fact.get_ofList l)]
      exact .make
  | update name x v =>
      change Step _ _ _ (r.write name ((r.read name).update x v)).view
      rw [view_eq_update (h.read_write name _) (Fact.get_update_eq _ x v)]
      exact .update (Fact.assign_fst_iff _ x v)
  | remove name x =>
      change Step _ _ _ (r.write name ((r.read name).erase x)).view
      rw [view_eq_update (h.read_write name _) (Fact.get_erase_eq _ x)]
      exact .remove (Fact.remove_fst_iff _ x)
  | get name x => exact .get
  | contains name x => exact .contains (Fact.contains_iff _ x)
  | copy name other =>
      change Step _ _ _ (r.place name (r.read other)).view
      rw [view_eq_update (h.read_place name _) rfl]
      exact .copy
  | copyFrom name other =>
      have hflag := Fact.copyFrom_fst_iff (r.read name) (r.read other)
      have hview : (r.apply (.copyFrom name other)).2.view =
          Function.update r.view name (r.view other) := by
        simp only [Registers.apply]
        split
        · exact view_eq_update (h.read_place name _) (Fact.get_copyFrom _ _)
        · rename_i hb
          have hsame : r.view other = r.view name := by_contra fun he => hb (hflag.2 he)
          exact (Function.update_eq_self_iff.2 hsame).symm
      rw [hview]
      exact .copyFrom hflag
  | same name other => exact .same (Fact.same_iff_get_eq _ _)
  | meetFrom name other =>
      rw [view_eq_update (h.read_meetFrom name other) (Fact.get_meetInto_eq _ _)]
      exact .meetFrom

theorem Separate.steps_run (h : r.Separate) (ops : List Op) :
    Steps r.view ops (r.run ops).1 (r.run ops).2.view := by
  induction ops generalizing r with
  | nil => exact .nil
  | cons op ops ih => exact .cons (h.step_apply op) (ih (h.apply op))

/-- A fact as a total function: it stores no undefined value, is asked for the variables of which it
says something, and is as large as there are such variables. -/
structure Total (f : Fact) : Prop where
  defined : ∀ e ∈ f.entries, e.2 ≠ .undef
  contains_iff : ∀ x, f.contains x = true ↔ f.get x ≠ .undef
  encard_eq : {x | f.get x ≠ .undef}.encard = f.size

theorem total (f : Fact) : Total f where
  defined e he := ((Fact.mem_entries_iff f e.1 e.2).1 he).1
  contains_iff := Fact.contains_iff f
  encard_eq := Fact.encard_get_ne_undef f

/-- Facts under names refine total functions under names, over every history of operations. All
answers are those that the functions give, each fact is one of the functions, and facts are told apart
as the functions are. Later operations change the facts of their own names only, whatever was copied
or met before. -/
theorem run_refines (ops : List Op) :
    Steps (fun _ _ => .undef) ops (empty.run ops).1 (empty.run ops).2.view ∧
    (∀ a, Total ((empty.run ops).2.read a)) ∧
    (∀ a b, ((empty.run ops).2.read a).same ((empty.run ops).2.read b) = true ↔
      (empty.run ops).2.view a = (empty.run ops).2.view b) ∧
    ∀ later a, (∀ op ∈ later, op.name ≠ a) →
      ((empty.run ops).2.run later).2.read a = (empty.run ops).2.read a :=
  ⟨separate_empty.steps_run ops, fun _ => total _, fun _ _ => Fact.same_iff_get_eq _ _,
    fun _ _ ha => (separate_empty.run ops).read_run_of_ne ha⟩

namespace Shared

def x : Var := ⟨0, 0, "x", .primitive .int, 0⟩

def y : Var := ⟨0, 1, "y", .primitive .int, 1⟩

def history : List Op := [
  .make "p" [(x, .const 1), (y, .undef), (x, .const 2)],
  .copy "q" "p",
  .update "p" y .nac,
  .copyFrom "p" "q",
  .copyFrom "p" "q",
  .update "q" y (.const 7),
  .meetFrom "p" "q",
  .same "q" "p",
  .meetFrom "q" "q"]

def later : List Op := [.remove "q" x, .update "q" y .nac, .meetFrom "q" "p"]

theorem ne_of_mem_later : ∀ op ∈ later, op.name ≠ "p" := by
  simp [later, Op.name]

theorem run_refines_shared : (∀ op ∈ later, op.name ≠ "p") ∧
    (empty.run history).1 = [.none, .none, .flag true, .flag true, .flag false, .flag true, .none,
      .flag true, .none] ∧
    ((empty.run history).2.run later).2.read "p" = (empty.run history).2.read "p" ∧
    ((empty.run history).2.run later).2.view "p" y = .const 7 ∧
    ((empty.run history).2.run later).2.view "q" y = .nac :=
  ⟨ne_of_mem_later, by decide +kernel, (run_refines history).2.2.2 later "p" ne_of_mem_later,
    by decide +kernel, by decide +kernel⟩

end Shared

end Registers

end Dataflow
