import Dataflow.Proofs.Analysis.Bounds

namespace Dataflow

namespace System

variable {ν φ : Type} [DecidableEq ν] {S : System ν φ} {P Q : ν → φ → Prop} {st : State ν φ}

structure Keeps (S : System ν φ) (P Q : ν → φ → Prop) : Prop where
  collect : ∀ n r before, (∀ m, Q m (r m)) → P n before → P n (S.collect n r before)
  transfer : ∀ n f, P n f → Q n (S.transfer n f)

theorem Keeps.incoming (hS : S.Keeps P Q) (h : S.Throughout P Q st) (n : ν) :
    P n (S.incoming st n) :=
  hS.collect n _ _ (fun m => (h m).2) (h n).1

theorem Keeps.visitAll (hS : S.Keeps P Q) (h : S.Throughout P Q st) (ns : List ν) :
    S.Throughout P Q (S.visitAll st ns) :=
  visitAll_induction (P := S.Throughout P Q) h fun v _ hv =>
    throughout_visit hv (hS.incoming hv v.2) (hS.transfer v.2 _ (hS.incoming hv v.2))

theorem Keeps.settle (hS : S.Keeps P Q) {p : Progress ν φ} (h : S.Throughout P Q p.state)
    (fuel : Nat) : S.Throughout P Q (S.settle fuel p).state := by
  rw [state_settle]
  exact hS.visitAll h _

def State.receive (st : State ν φ) (n : ν) (f : φ) : State ν φ :=
  { st with inputs := st.inputs.insert n f }

theorem throughout_receive (h : S.Throughout P Q st) {n : ν} {f : φ} (hf : P n f) :
    S.Throughout P Q (st.receive n f) := by
  intro m
  refine ⟨?_, (h m).2⟩
  rw [input, State.receive, OrderedMap.getD_insert]
  split
  · rename_i he
    exact he ▸ hf
  · exact (h m).1

end System

/-- The states that solving a graph passes through. Within a visit the results of the sources of the
node are taken in one after the other. -/
inductive Analysis.Passes {φ : Type} (a : Analysis φ) (s : Strategy) (g : FlowGraph) :
    System.State Node φ → Prop
  | between (k : Nat) : Passes a s g ((a.system g).visitAll (a.begin g) ((a.itinerary s g).take k))
  | within {k n st} (j : Nat) : (a.itinerary s g)[k]? = some n →
      st = (a.system g).visitAll (a.begin g) ((a.itinerary s g).take k) →
      Passes a s g (st.receive n
        (a.meetAll ((a.system g).result st) ((a.sources g n).take j) ((a.system g).input st n)))

theorem Analysis.passes_run {φ : Type} (a : Analysis φ) (s : Strategy) (g : FlowGraph) :
    a.Passes s g (a.run s g).2 := by
  rw [run_eq_visitAll, ← List.take_length (l := a.itinerary s g)]
  exact .between _

namespace ConstProp

variable {c : Config} {g : FlowGraph} {r : Var → Value → Prop}

theorem each_meetAll (hmeet : ∀ x v w, r x v → r x w → r x (v.meet w)) {out : Node → Fact}
    (hout : ∀ m, (out m).Each r) (l : List Node) {f : Fact} (hf : f.Each r) :
    ((constProp c).meetAll out l f).Each r :=
  List.foldlRecOn _ _ hf fun _ ht m _ => (hout m).meetInto hmeet ht

theorem each_of_passes (hmeet : ∀ x v w, r x v → r x w → r x (v.meet w))
    (hboundary : (boundary c.seeding g.body).Each r)
    (htransfer : ∀ t f, f.Each r → (transfer t f).Each r) {s : Strategy}
    {st : System.State Node Fact} (h : (constProp c).Passes s g st) (n : Node) :
    (((constProp c).system g).input st n).Each r ∧
      (((constProp c).system g).result st n).Each r := by
  have hkeeps : ((constProp c).system g).Keeps (fun _ f => f.Each r) (fun _ f => f.Each r) :=
    ⟨fun _ _ _ hout hf => each_meetAll (c := c) hmeet hout _ hf, fun _ f => htransfer _ f⟩
  have hbegin : ((constProp c).system g).Throughout (fun _ f => f.Each r) (fun _ f => f.Each r)
      ((constProp c).begin g) := by
    intro m
    rw [Analysis.input_begin, Analysis.result_begin]
    refine ⟨Fact.each_empty r, ?_⟩
    split
    · exact hboundary
    · exact Fact.each_empty r
  suffices h : ((constProp c).system g).Throughout (fun _ f => f.Each r) (fun _ f => f.Each r) st
    from h n
  cases h with
  | between k => exact hkeeps.visitAll hbegin _
  | within j _ hst =>
      have hst := hst ▸ hkeeps.visitAll hbegin _
      exact System.throughout_receive hst (each_meetAll hmeet (fun m => (hst m).2) _ (hst _).1)

end ConstProp

end Dataflow
