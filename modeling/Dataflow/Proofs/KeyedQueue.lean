import Dataflow.KeyedQueue
import Dataflow.Proofs.OrderedMap

namespace Dataflow

namespace WorkQueue

variable {α σ : Type}

/-- An exchange that adds absent items only, at the end, and takes items out at the front. -/
inductive Step : List α → Exchange α → List α → Prop
  | add {l a} : a ∉ l → Step l ⟨.add a, .ok (.flag true)⟩ (l ++ [a])
  | again {l a} : a ∈ l → Step l ⟨.add a, .ok (.flag false)⟩ l
  | pop {l a} : Step (a :: l) ⟨.pop, .ok (.item a)⟩ l
  | exhausted : Step [] ⟨.pop, .error .emptyQueue⟩ []
  | contains {l a b} : (b = true ↔ a ∈ l) → Step l ⟨.contains a, .ok (.flag b)⟩ l
  | nonempty {l b} : (b = true ↔ l ≠ []) → Step l ⟨.nonempty, .ok (.flag b)⟩ l

inductive Steps : List α → List (Exchange α) → List α → Prop
  | nil {l} : Steps l [] l
  | cons {l l' l'' x log} : Step l x l' → Steps l' log l'' → Steps l (x :: log) l''

namespace Exchange

def added? : Exchange α → Option α
  | ⟨.add a, .ok (.flag true)⟩ => some a
  | _ => none

def popped? : Exchange α → Option α
  | ⟨.pop, .ok (.item a)⟩ => some a
  | _ => none

def popReply? : Exchange α → Option (Except Failure (Reply α))
  | ⟨.pop, reply⟩ => some reply
  | _ => none

theorem added?_eq_some_iff {x : Exchange α} {a : α} :
    x.added? = some a ↔ x = ⟨.add a, .ok (.flag true)⟩ := by
  constructor
  · intro h
    unfold added? at h
    split at h
    · cases h
      rfl
    · cases h
  · rintro rfl
    rfl

end Exchange

def added (log : List (Exchange α)) : List α := log.filterMap Exchange.added?

def popped (log : List (Exchange α)) : List α := log.filterMap Exchange.popped?

def popReplies (log : List (Exchange α)) : List (Except Failure (Reply α)) :=
  log.filterMap Exchange.popReply?

variable {l l' l₁ l₂ : List α} {x y : Exchange α} {log log₁ log₂ front middle back : List (Exchange α)}
  {a : α}

theorem added_cons (x : Exchange α) (log : List (Exchange α)) :
    added (x :: log) = x.added?.toList ++ added log := by
  rw [added, List.filterMap_cons]
  cases x.added? <;> rfl

theorem popped_cons (x : Exchange α) (log : List (Exchange α)) :
    popped (x :: log) = x.popped?.toList ++ popped log := by
  rw [popped, List.filterMap_cons]
  cases x.popped? <;> rfl

theorem Step.nodup (h : Step l x l') (hl : l.Nodup) : l'.Nodup := by
  cases h with
  | add ha => exact List.concat_eq_append ▸ hl.concat ha
  | pop => exact (List.nodup_cons.1 hl).2
  | again | exhausted | contains | nonempty => exact hl

theorem Steps.nodup (h : Steps l log l') (hl : l.Nodup) : l'.Nodup := by
  induction h with
  | nil => exact hl
  | cons hx _ ih => exact ih (hx.nodup hl)

theorem Step.unique (h₁ : Step l x l₁) (h₂ : Step l y l₂) (hr : x.request = y.request) :
    x = y ∧ l₁ = l₂ := by
  cases h₁ <;> cases h₂ <;> cases hr
  case add.add | again.again | pop.pop | exhausted.exhausted => exact ⟨rfl, rfl⟩
  case add.again ha ha' => exact absurd ha' ha
  case again.add ha ha' => exact absurd ha ha'
  case contains.contains hb _ hb' | nonempty.nonempty hb _ hb' =>
    rw [Bool.eq_iff_iff.2 (hb.trans hb'.symm)]
    exact ⟨rfl, rfl⟩

theorem Steps.unique (h₁ : Steps l log₁ l₁) (h₂ : Steps l log₂ l₂)
    (hr : log₁.map Exchange.request = log₂.map Exchange.request) : log₁ = log₂ ∧ l₁ = l₂ := by
  induction h₁ generalizing log₂ with
  | nil =>
      cases h₂ with
      | nil => exact ⟨rfl, rfl⟩
      | cons => cases hr
  | cons hx _ ih =>
      cases h₂ with
      | nil => cases hr
      | cons hy hlog =>
          rw [List.map_cons, List.map_cons, List.cons_eq_cons] at hr
          obtain ⟨rfl, rfl⟩ := hx.unique hy hr.1
          obtain ⟨rfl, rfl⟩ := ih hlog hr.2
          exact ⟨rfl, rfl⟩

theorem steps_cons_iff : Steps l (x :: log) l₂ ↔ ∃ l₁, Step l x l₁ ∧ Steps l₁ log l₂ := by
  constructor
  · rintro (_ | ⟨hx, hlog⟩)
    exact ⟨_, hx, hlog⟩
  · rintro ⟨l₁, hx, hlog⟩
    exact .cons hx hlog

theorem steps_append_iff :
    Steps l (front ++ back) l₂ ↔ ∃ l₁, Steps l front l₁ ∧ Steps l₁ back l₂ := by
  induction front generalizing l with
  | nil =>
      refine ⟨fun h => ⟨l, .nil, h⟩, ?_⟩
      rintro ⟨l₁, _ | _, h⟩
      exact h
  | cons x front ih =>
      simp only [List.cons_append, steps_cons_iff, ih]
      constructor
      · rintro ⟨l₀, hx, l₁, hfront, hback⟩
        exact ⟨l₁, ⟨l₀, hx, hfront⟩, hback⟩
      · rintro ⟨l₁, ⟨l₀, hx, hfront⟩, hback⟩
        exact ⟨l₀, hx, l₁, hfront, hback⟩

theorem Step.conserves (h : Step l x l') : l ++ x.added?.toList = x.popped?.toList ++ l' := by
  cases h with
  | add => rfl
  | pop => exact List.append_nil _
  | again | exhausted | contains | nonempty => exact List.append_nil _

theorem Steps.conserves (h : Steps l log l') : l ++ added log = popped log ++ l' := by
  induction h with
  | nil => exact List.append_nil _
  | @cons l l' l'' x log hx _ ih =>
      calc l ++ added (x :: log)
          = (l ++ x.added?.toList) ++ added log := by rw [added_cons, List.append_assoc]
        _ = x.popped?.toList ++ (l' ++ added log) := by rw [hx.conserves, List.append_assoc]
        _ = popped (x :: log) ++ l'' := by rw [ih, popped_cons, List.append_assoc]

/-- Between two times that an item is taken out it is added once more than it is taken out again. -/
theorem Steps.count_between [DecidableEq α] (hl : l.Nodup) (h : Steps l
    (front ++ ⟨.pop, .ok (.item a)⟩ :: middle ++ ⟨.pop, .ok (.item a)⟩ :: back) l') :
    (added middle).count a = (popped middle).count a + 1 := by
  obtain ⟨l₂, h, hback⟩ := steps_append_iff.1 h
  obtain ⟨l₀, hfront, h⟩ := steps_append_iff.1 h
  obtain ⟨l₁, hpop, hmiddle⟩ := steps_cons_iff.1 h
  obtain ⟨l₃, hagain, -⟩ := steps_cons_iff.1 hback
  cases hpop
  have hl₁ := List.nodup_cons.1 (hfront.nodup hl)
  have hl₂ := hmiddle.nodup hl₁.2
  cases hagain
  -- the item is not pending right behind the first time, and at the head right before the second
  have hcount := congrArg (List.count a) hmiddle.conserves
  rw [List.count_append, List.count_append, List.count_eq_zero_of_not_mem hl₁.1,
    List.count_cons_self, List.count_eq_zero_of_not_mem (List.nodup_cons.1 hl₂).1] at hcount
  omega

theorem Step.mem_iff (h : Step l x l') (hl : l.Nodup) :
    a ∈ l' ↔ (a ∈ l ∧ x.popped? ≠ some a) ∨ x.added? = some a := by
  cases h with
  | add => simp [Exchange.added?, Exchange.popped?, eq_comm]
  | again | exhausted | contains | nonempty => simp [Exchange.added?, Exchange.popped?]
  | @pop _ b =>
      have hb := (List.nodup_cons.1 hl).1
      simp only [Exchange.added?, Exchange.popped?, List.mem_cons]
      grind

def Leaves (log : List (Exchange α)) (a : α) : Prop :=
  ∃ front back, log = front ++ ⟨.add a, .ok (.flag true)⟩ :: back ∧ a ∉ popped back

theorem leaves_cons_iff :
    Leaves (x :: log) a ↔ (x.added? = some a ∧ a ∉ popped log) ∨ Leaves log a := by
  rw [Exchange.added?_eq_some_iff]
  constructor
  · rintro ⟨_ | ⟨y, front⟩, back, heq, hback⟩
    · cases heq
      exact .inl ⟨rfl, hback⟩
    · cases heq
      exact .inr ⟨front, back, rfl, hback⟩
  · rintro (⟨rfl, hlog⟩ | ⟨front, back, rfl, hback⟩)
    · exact ⟨[], log, rfl, hlog⟩
    · exact ⟨x :: front, back, rfl, hback⟩

theorem Steps.mem_iff (h : Steps l log l') (hl : l.Nodup) :
    a ∈ l' ↔ (a ∈ l ∧ a ∉ popped log) ∨ Leaves log a := by
  induction h with
  | nil => simp [popped, Leaves]
  | @cons l l' l'' x log hx _ ih =>
      have hpopped : a ∉ popped (x :: log) ↔ x.popped? ≠ some a ∧ a ∉ popped log := by
        rw [popped_cons, List.mem_append, Option.mem_toList, not_or]
      rw [ih (hx.nodup hl), hx.mem_iff hl, hpopped, leaves_cons_iff, or_and_right, and_assoc,
        or_assoc]

theorem Steps.eq_item (h : Steps l log l') {i : Nat} (hi : l[i]? = some a)
    {reply : Except Failure (Reply α)} (hr : (popReplies log)[i]? = some reply) :
    reply = .ok (.item a) := by
  induction h generalizing i with
  | nil => cases hr
  | cons hx _ ih =>
      cases hx with
      | add =>
          refine ih ?_ hr
          rw [List.getElem?_append_left (List.getElem?_eq_some_iff.1 hi).1]
          exact hi
      | again | contains | nonempty => exact ih hi hr
      | exhausted => cases hi
      | pop =>
          cases i with
          | zero =>
              cases hi
              cases hr
              rfl
          | succ i => exact ih hi hr

theorem Steps.eq_item_iff (h : Steps l (⟨.add a, .ok (.flag true)⟩ :: log) l') {i : Nat}
    (hi : i ≤ l.length) {reply : Except Failure (Reply α)}
    (hr : (popReplies log)[i]? = some reply) : reply = .ok (.item a) ↔ i = l.length := by
  obtain ⟨l₁, hadd, hlog⟩ := steps_cons_iff.1 h
  cases hadd with
  | add ha =>
      constructor
      · rintro rfl
        by_contra hne
        have hlt : i < l.length := Nat.lt_of_le_of_ne hi hne
        have hget : (l ++ [a])[i]? = some l[i] := by
          rw [List.getElem?_append_left hlt, List.getElem?_eq_getElem hlt]
        cases hlog.eq_item hget hr
        exact ha (List.getElem_mem hlt)
      · rintro rfl
        exact hlog.eq_item List.getElem?_concat_length hr

theorem serve_append (answer : σ → Request α → Except Failure (Reply α) × σ) (s : σ)
    (requests later : List (Request α)) : serve answer s (requests ++ later) =
      ((serve answer s requests).1 ++ (serve answer (serve answer s requests).2 later).1,
        (serve answer (serve answer s requests).2 later).2) := by
  induction requests generalizing s with
  | nil => rfl
  | cons r requests ih => simp only [List.cons_append, serve, ih]

theorem map_request_serve (answer : σ → Request α → Except Failure (Reply α) × σ) (s : σ)
    (requests : List (Request α)) : (serve answer s requests).1.map Exchange.request = requests := by
  induction requests generalizing s with
  | nil => rfl
  | cons r requests ih => exact congrArg (r :: ·) (ih _)

theorem serve_adds (answer : σ → Request α → Except Failure (Reply α) × σ) {put : σ → α → σ}
    (h : ∀ s a, (answer s (.add a)).2 = put s a) (s : σ) (l : List α) :
    (serve answer s (l.map .add)).2 = l.foldl put s := by
  induction l generalizing s with
  | nil => rfl
  | cons a l ih =>
      rw [List.foldl_cons, ← h, ← ih]
      rfl

/-- What answers as the reference queue does over one exchange does so over all. -/
theorem steps_serve {answer : σ → Request α → Except Failure (Reply α) × σ} {items : σ → List α}
    (h : ∀ s r, Step (items s) ⟨r, (answer s r).1⟩ (items (answer s r).2)) (s : σ)
    (requests : List (Request α)) :
    Steps (items s) (serve answer s requests).1 (items (serve answer s requests).2) := by
  induction requests generalizing s with
  | nil => exact .nil
  | cons r requests ih => exact .cons (h s r) (ih _)

variable [DecidableEq α]

theorem step_answer (q : WorkQueue α) (r : Request α) :
    Step q.items ⟨r, (q.answer r).1⟩ (q.answer r).2.items := by
  cases r with
  | add a =>
      rw [answer, items_add, contains]
      by_cases ha : a ∈ q.items
      · rw [if_pos ha, List.contains_iff_mem.2 ha]
        exact .again ha
      · rw [if_neg ha, Bool.eq_false_iff.2 (mt List.contains_iff_mem.1 ha)]
        exact .add ha
  | pop =>
      rw [answer]
      cases hq : q.pop? with
      | none =>
          rw [(pop?_eq_none_iff q).1 hq]
          exact .exhausted
      | some p =>
          rw [items_of_pop? hq]
          exact .pop
  | contains a => exact .contains List.contains_iff_mem
  | nonempty => exact .nonempty (by simp [isEmpty])

theorem steps_run (q : WorkQueue α) (requests : List (Request α)) :
    Steps q.items (q.run requests).1 (q.run requests).2.items :=
  steps_serve step_answer q requests

theorem ofList_eq (l : List α) : ofList l = (empty.run (l.map .add)).2 :=
  (serve_adds answer (fun _ _ => rfl) empty l).symm

end WorkQueue

namespace KeyedQueue

open WorkQueue

variable {α : Type} {q : KeyedQueue α} {a : α} {rest : List α}

theorem length_items (q : KeyedQueue α) : q.items.length = q.size := List.length_map _

variable [DecidableEq α]

theorem contains_iff (q : KeyedQueue α) (a : α) : q.contains a = true ↔ a ∈ q.items :=
  (q.pending.mem_keys_iff a).symm

theorem add_of_mem (h : a ∈ q.items) : q.add a = (false, q) :=
  if_pos ((contains_iff q a).2 h)

theorem add_of_not_mem (h : a ∉ q.items) :
    ∃ q', q.add a = (true, q') ∧ q'.items = q.items ++ [a] :=
  ⟨_, if_neg (mt (contains_iff q a).1 h), OrderedMap.keys_insert_of_not_mem h ()⟩

theorem pop_of_items_eq_nil (h : q.items = []) : q.pop = (.error .emptyQueue, q) := by
  rw [pop, List.map_eq_nil_iff.1 h]

theorem pop_of_items_eq_cons (h : q.items = a :: rest) :
    ∃ q', q.pop = (.ok a, q') ∧ q'.items = rest := by
  obtain ⟨⟨b, u⟩, es, hentries, rfl, -⟩ := List.map_eq_cons_iff.1 h
  exact ⟨⟨q.pending.erase b⟩, by rw [pop, hentries], OrderedMap.keys_erase_of_keys_eq_cons h⟩

theorem step_answer (q : KeyedQueue α) (r : Request α) :
    Step q.items ⟨r, (q.answer r).1⟩ (q.answer r).2.items := by
  cases r with
  | add a =>
      rw [answer]
      by_cases ha : a ∈ q.items
      · rw [add_of_mem ha]
        exact .again ha
      · obtain ⟨q', hadd, hitems⟩ := add_of_not_mem ha
        rw [hadd, hitems]
        exact .add ha
  | pop =>
      rw [answer]
      cases hq : q.items with
      | nil =>
          rw [pop_of_items_eq_nil hq, hq]
          exact .exhausted
      | cons a rest =>
          obtain ⟨q', hpop, hitems⟩ := pop_of_items_eq_cons hq
          rw [hpop, hitems]
          exact .pop
  | contains a => exact .contains (contains_iff q a)
  | nonempty =>
      refine .nonempty ?_
      simp [isEmpty, ← length_items]

theorem steps_run (q : KeyedQueue α) (requests : List (Request α)) :
    Steps q.items (q.run requests).1 (q.run requests).2.items :=
  steps_serve step_answer q requests

theorem ofList_eq (l : List α) : ofList l = (empty.run (l.map .add)).2 :=
  (serve_adds answer (fun _ _ => rfl) empty l).symm

theorem items_ofList (l : List α) : (ofList l).items = l.eraseDups := by
  induction l using List.reverseRecOn with
  | nil => rfl
  | append_singleton l a ih =>
      have hmem : a ∈ (ofList l).items ↔ a ∈ l := by rw [ih, List.mem_eraseDups]
      rw [ofList, List.foldl_append, eraseDups_concat, ← ih]
      change ((ofList l).add a).2.items = _
      by_cases ha : a ∈ l
      · rw [if_pos ha, add_of_mem (hmem.2 ha)]
      · obtain ⟨q', hadd, hitems⟩ := add_of_not_mem (mt hmem.1 ha)
        rw [if_neg ha, hadd, hitems]

/-- A queue that keeps the same items in a list answers the same and goes on to hold the same. -/
theorem run_eq_of_items_eq {p : WorkQueue α} (h : p.items = q.items) (requests : List (Request α)) :
    (p.run requests).1 = (q.run requests).1 ∧ (p.run requests).2.items = (q.run requests).2.items := by
  have hlisted := p.steps_run requests
  rw [h] at hlisted
  refine hlisted.unique (q.steps_run requests) ?_
  rw [WorkQueue.run, run, map_request_serve, map_request_serve]

theorem items_workQueue_ofList (l : List α) : (WorkQueue.ofList l).items = (ofList l).items := by
  have hempty : (WorkQueue.empty : WorkQueue α).items = (empty : KeyedQueue α).items := rfl
  rw [WorkQueue.ofList_eq, ofList_eq]
  exact (run_eq_of_items_eq hempty (l.map .add)).2

theorem answer_add_iff (q : KeyedQueue α) (a : α) :
    (q.answer (.add a)).1 = .ok (.flag true) ↔ a ∉ q.items := by
  rw [answer]
  by_cases ha : a ∈ q.items
  · simp [add_of_mem ha, ha]
  · obtain ⟨q', hadd, -⟩ := add_of_not_mem ha
    simp [hadd, ha]

theorem answer_add_of_mem (h : a ∈ q.items) : q.answer (.add a) = (.ok (.flag false), q) := by
  rw [answer, add_of_mem h]

theorem answer_pop_error_iff (q : KeyedQueue α) :
    (∃ e, (q.answer .pop).1 = .error e) ↔ q.items = [] := by
  rw [answer]
  cases hitems : q.items with
  | nil => simp [pop_of_items_eq_nil hitems, Except.map]
  | cons a rest =>
      obtain ⟨q', hpop, -⟩ := pop_of_items_eq_cons hitems
      simp [hpop, Except.map]

theorem answer_pop_of_items_eq_nil (h : q.items = []) :
    q.answer .pop = (.error .emptyQueue, q) := by
  rw [answer, pop_of_items_eq_nil h]
  rfl

/-- The log of a queue from its beginning, the items to begin with taken for additions. -/
def history (initial : List α) (requests : List (Request α)) : List (Exchange α) :=
  (empty.run (initial.map .add ++ requests)).1

theorem run_append (q : KeyedQueue α) (requests later : List (Request α)) :
    q.run (requests ++ later) = ((q.run requests).1 ++ ((q.run requests).2.run later).1,
      ((q.run requests).2.run later).2) :=
  serve_append answer q requests later

theorem steps_history (initial : List α) (requests : List (Request α)) :
    Steps [] (history initial requests) ((ofList initial).run requests).2.items := by
  have hrun := steps_run empty (initial.map .add ++ requests)
  rw [ofList_eq, history]
  rw [run_append] at hrun ⊢
  exact hrun

theorem items_of_steps {front : List (Exchange α)} {l : List α} (h : Steps [] front l) :
    (empty.run (front.map Exchange.request)).2.items = l :=
  ((steps_run empty _).unique h (map_request_serve answer empty _)).2

/-- What a queue does that was begun with some items and has answered some requests. -/
structure Serves (initial : List α) (requests : List (Request α)) (q : KeyedQueue α) : Prop where
  first : (ofList initial).items = initial.eraseDups
  steps : Steps (ofList initial).items ((ofList initial).run requests).1 q.items
  log_eq : ((WorkQueue.ofList initial).run requests).1 = ((ofList initial).run requests).1
  items_eq : ((WorkQueue.ofList initial).run requests).2.items = q.items
  nodup : q.items.Nodup
  history_eq : history initial requests =
    history initial [] ++ ((ofList initial).run requests).1
  add_iff : ∀ a, (q.answer (.add a)).1 = .ok (.flag true) ↔ a ∉ q.items
  again : ∀ a ∈ q.items, q.answer (.add a) = (.ok (.flag false), q)
  pop_iff : (∃ e, (q.answer .pop).1 = .error e) ↔ q.items = []
  traceless : q.items = [] → q.answer .pop = (.error .emptyQueue, q)
  conserves : added (history initial requests) = popped (history initial requests) ++ q.items
  between : ∀ front a middle back, history initial requests =
      front ++ ⟨.pop, .ok (.item a)⟩ :: middle ++ ⟨.pop, .ok (.item a)⟩ :: back →
    (added middle).count a = (popped middle).count a + 1
  mem_iff : ∀ a, a ∈ q.items ↔ Leaves (history initial requests) a
  turn : ∀ front a back, history initial requests = front ++ ⟨.add a, .ok (.flag true)⟩ :: back →
    ∀ i ≤ (empty.run (front.map Exchange.request)).2.size, ∀ reply,
      (popReplies back)[i]? = some reply →
        (reply = .ok (.item a) ↔ i = (empty.run (front.map Exchange.request)).2.size)

/-- A work queue takes items in the order in which they were added, once for each addition, and loses
none, over every history of requests. -/
theorem run_serves (initial : List α) (requests : List (Request α)) :
    Serves initial requests ((ofList initial).run requests).2 := by
  have hhistory := steps_history initial requests
  obtain ⟨hlog, hitems⟩ := run_eq_of_items_eq (items_workQueue_ofList initial) requests
  constructor
  case first => exact items_ofList initial
  case steps => exact steps_run (ofList initial) requests
  case log_eq => exact hlog
  case items_eq => exact hitems
  case nodup => exact hhistory.nodup List.nodup_nil
  case history_eq => rw [history, history, List.append_nil, run_append, ← ofList_eq]
  case add_iff => exact answer_add_iff _
  case again => exact fun a => answer_add_of_mem
  case pop_iff => exact answer_pop_error_iff _
  case traceless => exact answer_pop_of_items_eq_nil
  case conserves => exact hhistory.conserves
  case between =>
    intro front a middle back heq
    rw [heq] at hhistory
    exact hhistory.count_between List.nodup_nil
  case mem_iff =>
    intro a
    rw [hhistory.mem_iff List.nodup_nil, or_iff_right (fun h => List.not_mem_nil h.1)]
  case turn =>
    intro front a back heq i hi reply hr
    rw [heq] at hhistory
    obtain ⟨l, hfront, hback⟩ := steps_append_iff.1 hhistory
    rw [← length_items, items_of_steps hfront] at hi ⊢
    exact hback.eq_item_iff hi hr

example : popReplies ((ofList [1, 2, 1]).run [.add 1, .pop, .add 1, .pop, .pop, .pop]).1 =
    [.ok (.item 1), .ok (.item 2), .ok (.item 1), .error .emptyQueue] := rfl

end KeyedQueue

end Dataflow
