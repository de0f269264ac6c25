import Dataflow.Body.MethodRef
import Dataflow.Proofs.Text.Split

namespace Dataflow

/-- A name that stays in one piece in a subsignature. -/
structure PlainName (name : String) : Prop where
  ne_empty : name ≠ ""
  marks : ∀ c ∈ [' ', '(', ')', ',', '[', ']'], c ∉ name.toList

theorem plainName_iff {name : String} : PlainName name ↔ name ≠ "" ∧
    [' ', '(', ')', ',', '[', ']'].all (fun c => !name.toList.contains c) = true := by
  rw [List.all_eq_true]
  simp only [Bool.not_eq_true', List.contains_eq_mem, decide_eq_false_iff_not]
  exact ⟨fun h => ⟨h.ne_empty, h.marks⟩, fun h => ⟨h.1, h.2⟩⟩

instance (name : String) : Decidable (PlainName name) := decidable_of_iff _ plainName_iff.symm

namespace Ty

variable {t t' : Ty}

/-- Classes are named plainly, and like no type of another kind. -/
def Plain : Ty → Prop
  | primitive _ => True
  | cls name => PlainName name ∧ (∀ p : Primitive, p.text ≠ name) ∧ void.text ≠ name
  | array t => t.Plain
  | void => True

theorem Plain.plainName_text (h : t.Plain) (ht : ∀ e, t ≠ array e) : PlainName t.text := by
  cases t with
  | primitive p => cases p <;> decide
  | cls name => exact h.1
  | array e => exact absurd rfl (ht e)
  | void => decide

theorem toList_text_array (e : Ty) : (array e).text.toList = e.text.toList ++ ['[', ']'] :=
  String.toList_append

theorem Plain.text_ne_empty (h : t.Plain) : t.text.toList ≠ [] := by
  cases t with
  | array e => simp [toList_text_array]
  | _ => exact fun hnil => (h.plainName_text nofun).ne_empty (String.toList_eq_nil_iff.1 hnil)

theorem Plain.not_mem_text {c : Char} (hc : c ∈ [' ', '(', ')', ',']) (h : t.Plain) :
    c ∉ t.text.toList := by
  induction t with
  | array e ih =>
      have hbrackets : ∀ c ∈ [' ', '(', ')', ','], c ∉ ['[', ']'] := by simp
      rw [toList_text_array, List.mem_append, not_or]
      exact ⟨ih h, hbrackets c hc⟩
  | _ => exact (h.plainName_text nofun).marks c (List.mem_append_left ['[', ']'] hc)

theorem Plain.text_array_ne (h : t.Plain) (ht : ∀ e, t ≠ array e) (e : Ty) :
    (array e).text ≠ t.text := by
  intro heq
  refine (h.plainName_text ht).marks ']' (by decide) ?_
  rw [← heq, toList_text_array]
  simp

theorem Plain.text_inj (h : t.Plain) (h' : t'.Plain) (heq : t.text = t'.text) : t = t' := by
  induction t generalizing t' with
  | primitive p =>
      cases t' with
      | primitive p' =>
          have hp := congrArg Primitive.ofText? heq
          rw [text, text, Primitive.ofText?_text, Primitive.ofText?_text] at hp
          rw [Option.some.inj hp]
      | cls name => exact absurd heq (h'.2.1 p)
      | array e => exact absurd heq.symm (h.text_array_ne nofun e)
      | void => cases p <;> exact absurd heq (by decide)
  | cls name =>
      cases t' with
      | primitive p => exact absurd heq.symm (h.2.1 p)
      | cls name' => exact congrArg cls heq
      | array e => exact absurd heq.symm (h.text_array_ne nofun e)
      | void => exact absurd heq.symm h.2.2
  | array e ih =>
      cases t' with
      | array e' =>
          rw [← String.toList_inj, toList_text_array, toList_text_array] at heq
          have he : e = e' := ih h h' (String.toList_inj.1 (List.append_cancel_right heq))
          rw [he]
      | _ => exact absurd heq (h'.text_array_ne nofun e)
  | void =>
      cases t' with
      | primitive p => cases p <;> exact absurd heq (by decide)
      | cls name => exact absurd heq h'.2.2
      | array e => exact absurd heq.symm (h.text_array_ne nofun e)
      | void => rfl

theorem map_text_inj {ts ts' : List Ty} (h : ∀ t ∈ ts, t.Plain) (h' : ∀ t ∈ ts', t.Plain)
    (heq : ts.map (fun t => t.text.toList) = ts'.map (fun t => t.text.toList)) : ts = ts' := by
  induction ts generalizing ts' with
  | nil => exact (List.map_eq_nil_iff.1 heq.symm).symm
  | cons t ts ih =>
      cases ts' with
      | nil => cases heq
      | cons t' ts' =>
          obtain ⟨ht, hts⟩ := List.forall_mem_cons.1 h
          obtain ⟨ht', hts'⟩ := List.forall_mem_cons.1 h'
          obtain ⟨hone, hrest⟩ := List.cons.inj heq
          rw [ht.text_inj ht' (String.toList_inj.1 hone), ih hts hts' hrest]

end Ty

variable {name name' : String} {params params' : List Ty} {returns returns' : Ty}

structure PlainSignature (name : String) (params : List Ty) (returns : Ty) : Prop where
  name : PlainName name
  params : ∀ t ∈ params, t.Plain
  returns : returns.Plain

theorem toList_subsignature (name : String) (params : List Ty) (returns : Ty) :
    (subsignature name params returns).toList = returns.text.toList ++ ' ' :: (name.toList ++ '(' ::
      ([','].intercalate (params.map (fun t => t.text.toList)) ++ [')'])) := by
  simp [subsignature, String.toList_append, String.toList_intercalate, Function.comp_def]

theorem subsignature_inj (h : PlainSignature name params returns)
    (h' : PlainSignature name' params' returns')
    (heq : subsignature name params returns = subsignature name' params' returns') :
    name = name' ∧ params = params' ∧ returns = returns' := by
  rw [← String.toList_inj, toList_subsignature, toList_subsignature] at heq
  obtain ⟨hreturns, heq⟩ := Text.append_mark_inj (h.returns.not_mem_text (by decide))
    (h'.returns.not_mem_text (by decide)) heq
  obtain ⟨hname, heq⟩ := Text.append_mark_inj (h.name.marks '(' (by decide))
    (h'.name.marks '(' (by decide)) heq
  have hpart {ts : List Ty} (hts : ∀ t ∈ ts, t.Plain) :
      ∀ p ∈ ts.map (fun t => t.text.toList), p ≠ [] ∧ ',' ∉ p := by
    rintro p hp
    obtain ⟨t, ht, rfl⟩ := List.mem_map.1 hp
    exact ⟨(hts t ht).text_ne_empty, (hts t ht).not_mem_text (by decide)⟩
  have hparams := Text.intercalate_mark_inj (hpart h.params) (hpart h'.params)
    (List.append_cancel_right heq)
  exact ⟨String.toList_inj.1 hname, Ty.map_text_inj h.params h'.params hparams,
    h.returns.text_inj h'.returns (String.toList_inj.1 hreturns)⟩

theorem name_subsignature (h : PlainSignature name params returns) (className : String) :
    (MethodRef.mk className (subsignature name params returns)).name = name := by
  have hhead : '(' ∉ returns.text.toList ++ ' ' :: name.toList := by
    rw [List.mem_append, List.mem_cons, not_or, not_or]
    exact ⟨h.returns.not_mem_text (by decide), by decide, h.name.marks '(' (by decide)⟩
  have hname : ' ' ∉ name.toList.reverse := fun hm =>
    h.name.marks ' ' (by decide) (List.mem_reverse.1 hm)
  have htext : (subsignature name params returns).toList =
      (returns.text.toList ++ ' ' :: name.toList) ++ '(' ::
        ([','].intercalate (params.map (fun t => t.text.toList)) ++ [')']) := by
    rw [toList_subsignature, List.append_assoc, List.cons_append]
  simp only [MethodRef.name]
  rw [htext, Text.takeWhile_append_mark hhead, List.reverse_append, List.reverse_cons,
    List.append_assoc, List.singleton_append, Text.takeWhile_append_mark hname, List.reverse_reverse,
    String.ofList_toList]

end Dataflow
