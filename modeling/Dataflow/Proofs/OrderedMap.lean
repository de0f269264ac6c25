import Dataflow.OrderedMap
import Dataflow.Proofs.Lists

namespace Dataflow.OrderedMap

variable {κ ν : Type} [DecidableEq κ]

theorem bind_eq_self {k : κ} {v : ν} {l : List (κ × ν)} (h : l.lookup k = some v) :
    bind k v l = l := by
  induction l with
  | nil => cases h
  | cons e rest ih =>
      obtain ⟨a, b⟩ := e
      by_cases hk : a = k
      · subst hk
        rw [List.lookup_cons, beq_self_eq_true] at h
        cases h
        rw [bind, if_pos rfl]
      · have hb : (k == a) = false := beq_eq_false_iff_ne.2 (Ne.symm hk)
        rw [List.lookup_cons, hb] at h
        rw [bind, if_neg hk, ih h]

theorem insert_eq_self {m : OrderedMap κ ν} {k : κ} {v : ν} (h : m.get? k = some v) :
    m.insert k v = m := by
  obtain ⟨l, hl⟩ := m
  have hb := bind_eq_self (v := v) h
  rw [insert]
  congr

theorem mem_keys_iff_exists {m : OrderedMap κ ν} {k : κ} : k ∈ m.keys ↔ ∃ v, m.get? k = some v := by
  rw [mem_keys_iff, contains, Option.isSome_iff_exists]

theorem get?_of_not_mem {m : OrderedMap κ ν} {k : κ} (h : k ∉ m.keys) : m.get? k = none := by
  rw [mem_keys_iff, contains, Bool.not_eq_true, Option.isSome_eq_false_iff,
    Option.isNone_iff_eq_none] at h
  exact h

theorem get?_eq_some_getD {m : OrderedMap κ ν} {k : κ} (h : k ∈ m.keys) (d : ν) :
    m.get? k = some (m.getD k d) := by
  obtain ⟨v, hv⟩ := mem_keys_iff_exists.1 h
  rw [getD, hv]
  rfl

theorem keys_bind_of_mem {k : κ} {l : List (κ × ν)} (h : k ∈ l.map Prod.fst) (v : ν) :
    (bind k v l).map Prod.fst = l.map Prod.fst := by
  induction l with
  | nil => cases h
  | cons e rest ih =>
      by_cases hk : e.1 = k
      · rw [bind, if_pos hk, List.map_cons, List.map_cons, hk]
      · rcases List.mem_cons.1 h with he | he
        · exact absurd he.symm hk
        · rw [bind, if_neg hk, List.map_cons, List.map_cons, ih he]

theorem bind_of_not_mem {k : κ} {l : List (κ × ν)} (h : k ∉ l.map Prod.fst) (v : ν) :
    bind k v l = l ++ [(k, v)] := by
  induction l with
  | nil => rfl
  | cons e rest ih =>
      rw [List.map_cons, List.mem_cons, not_or] at h
      rw [bind, if_neg (Ne.symm h.1), ih h.2]
      rfl

theorem keys_insert_of_mem {m : OrderedMap κ ν} {k : κ} (h : k ∈ m.keys) (v : ν) :
    (m.insert k v).keys = m.keys :=
  keys_bind_of_mem h v

theorem keys_insert_of_not_mem {m : OrderedMap κ ν} {k : κ} (h : k ∉ m.keys) (v : ν) :
    (m.insert k v).keys = m.keys ++ [k] := by
  have hentries : (m.insert k v).entries = m.entries ++ [(k, v)] := bind_of_not_mem h v
  rw [keys, hentries, List.map_append]
  rfl

theorem mem_keys_insert {m : OrderedMap κ ν} {k x : κ} (v : ν) :
    x ∈ (m.insert k v).keys ↔ x = k ∨ x ∈ m.keys :=
  mem_keys_bind k v m.entries x

theorem mem_keys_setDefault {m : OrderedMap κ ν} {k x : κ} (v : ν) :
    x ∈ (m.setDefault k v).keys ↔ x = k ∨ x ∈ m.keys := by
  rw [setDefault]
  split
  · rename_i hk
    have hk := (m.mem_keys_iff k).2 hk
    exact ⟨.inr, fun hx => hx.elim (fun he => he ▸ hk) id⟩
  · exact mem_keys_insert v

theorem mem_keys_foldl_setDefault (v : ν) (l : List κ) {m : OrderedMap κ ν} {x : κ} :
    x ∈ (l.foldl (fun m k => m.setDefault k v) m).keys ↔ x ∈ l ∨ x ∈ m.keys := by
  induction l generalizing m with
  | nil => simp
  | cons k l ih =>
      rw [List.foldl_cons, ih, mem_keys_setDefault, List.mem_cons, or_left_comm, or_assoc]

theorem get?_setDefault (m : OrderedMap κ ν) (k : κ) (v : ν) (x : κ) :
    (m.setDefault k v).get? x = if x = k then some (m.getD k v) else m.get? x := by
  rw [setDefault]
  split
  · rename_i hk
    by_cases hx : x = k
    · rw [if_pos hx, hx]
      exact get?_eq_some_getD ((m.mem_keys_iff k).2 hk) v
    · rw [if_neg hx]
  · rename_i hk
    rw [get?_insert, getD, get?_of_not_mem (fun hm => hk ((m.mem_keys_iff k).1 hm))]
    rfl

theorem mem_keys_file {m : OrderedMap κ (List ν)} {k x : κ} (a : ν) :
    x ∈ (m.file k a).keys ↔ x = k ∨ x ∈ m.keys :=
  mem_keys_insert _

theorem getD_file (m : OrderedMap κ (List ν)) (k : κ) (a : ν) (x : κ) :
    (m.file k a).getD x [] = m.getD x [] ++ if x = k then [a] else [] := by
  rw [file, getD_insert]
  split
  · rw [‹x = k›]
  · exact (List.append_nil _).symm

theorem entries_foldl_insert (l : List (κ × ν)) (m : OrderedMap κ ν)
    (h : (m.keys ++ l.map Prod.fst).Nodup) :
    (l.foldl (fun m e => m.insert e.1 e.2) m).entries = m.entries ++ l := by
  induction l generalizing m with
  | nil => exact (List.append_nil _).symm
  | cons e rest ih =>
      obtain ⟨hm, -, hdisj⟩ := List.nodup_append.1 h
      have hk : e.1 ∉ m.keys := fun hk => hdisj e.1 hk e.1 List.mem_cons_self rfl
      have he : (m.insert e.1 e.2).entries = m.entries ++ [e] := bind_of_not_mem hk e.2
      have hkeys := keys_insert_of_not_mem hk e.2
      rw [List.foldl_cons, ih, he, List.append_assoc]
      · rfl
      · rw [hkeys, List.append_assoc]
        exact h

theorem entries_ofList {l : List (κ × ν)} (h : (l.map Prod.fst).Nodup) :
    (ofList l).entries = l :=
  entries_foldl_insert l empty h

theorem keys_erase (m : OrderedMap κ ν) (k : κ) :
    (m.erase k).keys = m.keys.filter (fun x => x ≠ k) := by
  rw [keys, keys, List.filter_map]
  rfl

theorem keys_erase_of_keys_eq_cons {m : OrderedMap κ ν} {k : κ} {rest : List κ}
    (h : m.keys = k :: rest) : (m.erase k).keys = rest := by
  have hk : k ∉ rest := (List.nodup_cons.1 (h ▸ m.nodup_keys : (k :: rest).Nodup)).1
  rw [keys_erase, h, List.filter_cons_of_neg (by simp), List.filter_eq_self]
  intro x hx
  exact decide_eq_true fun he => hk (he ▸ hx)

omit [DecidableEq κ] in
theorem map_fst_tabulate (l : List κ) (f : κ → ν) :
    (l.map (fun k => (k, f k))).map Prod.fst = l := by
  rw [List.map_map]
  exact List.map_id l

theorem keys_tabulate {l : List κ} (h : l.Nodup) (f : κ → ν) :
    (ofList (l.map (fun k => (k, f k)))).keys = l := by
  have hk := map_fst_tabulate l f
  rw [keys, entries_ofList (hk.symm ▸ h), hk]

theorem get?_tabulate {l : List κ} (h : l.Nodup) (f : κ → ν) {k : κ} (hk : k ∈ l) :
    (ofList (l.map (fun k => (k, f k)))).get? k = some (f k) := by
  rw [get?_eq_some_iff, entries_ofList ((map_fst_tabulate l f).symm ▸ h)]
  exact List.mem_map.2 ⟨k, hk, rfl⟩

theorem getD_tabulate {l : List κ} (h : l.Nodup) (f : κ → ν) (k : κ) (d : ν) :
    (ofList (l.map (fun k => (k, f k)))).getD k d = if k ∈ l then f k else d := by
  rw [getD]
  split
  · rw [get?_tabulate h f ‹_›]
    rfl
  · rw [get?_of_not_mem (by rw [keys_tabulate h]; exact ‹_›)]
    rfl

theorem map_entries (m : OrderedMap κ ν) :
    m.entries.map (fun e => (e.1, some e.2)) = m.keys.map (fun k => (k, m.get? k)) := by
  rw [keys, List.map_map]
  refine List.map_congr_left (fun e he => ?_)
  rw [Function.comp_apply, (get?_eq_some_iff m e.1 e.2).2 he]

theorem eq_of_get? {m₁ m₂ : OrderedMap κ ν} (hkeys : m₁.keys = m₂.keys)
    (hget : ∀ k, m₁.get? k = m₂.get? k) : m₁ = m₂ := by
  have hmap : m₁.entries.map (fun e => (e.1, some e.2)) =
      m₂.entries.map (fun e => (e.1, some e.2)) := by
    rw [map_entries, map_entries, hkeys, funext hget]
  have hinj (e e' : κ × ν) (h : (e.1, some e.2) = (e'.1, some e'.2)) : e = e' :=
    Prod.ext (Prod.mk.inj h).1 (Option.some.inj (Prod.mk.inj h).2)
  have hentries : m₁.entries = m₂.entries := (List.map_inj_right hinj).1 hmap
  cases m₁
  cases m₂
  congr

theorem ofList_concat (l : List (κ × ν)) (e : κ × ν) :
    ofList (l ++ [e]) = (ofList l).insert e.1 e.2 := by
  rw [ofList, List.foldl_append]
  rfl

theorem keys_ofList (l : List (κ × ν)) : (ofList l).keys = (l.map Prod.fst).eraseDups := by
  induction l using List.reverseRecOn with
  | nil => rfl
  | append_singleton l e ih =>
      have hmem : e.1 ∈ (ofList l).keys ↔ e.1 ∈ l.map Prod.fst := by rw [ih, List.mem_eraseDups]
      rw [ofList_concat, List.map_append, List.map_singleton, eraseDups_concat, ← ih]
      by_cases he : e.1 ∈ l.map Prod.fst
      · rw [if_pos he, keys_insert_of_mem (hmem.2 he)]
      · rw [if_neg he, keys_insert_of_not_mem (mt hmem.1 he)]

theorem get?_ofList (l : List (κ × ν)) (k : κ) : (ofList l).get? k = l.reverse.lookup k := by
  induction l using List.reverseRecOn with
  | nil => rfl
  | append_singleton l e ih =>
      rw [ofList_concat, get?_insert, ih, List.reverse_append, List.reverse_singleton,
        List.singleton_append, List.lookup_cons]
      by_cases hk : k = e.1
      · rw [if_pos hk, hk, beq_self_eq_true]
      · rw [if_neg hk, beq_eq_false_iff_ne.2 hk]

/-- A table in which items stand under their keys, in the order in which they came. -/
structure Groups (m : OrderedMap κ (List ν)) (items : List ν) (key : ν → κ) : Prop where
  found : ∀ k l, m.get? k = some l → l = items.filter (fun a => key a = k)
  mem_keys : ∀ a ∈ items, key a ∈ m.keys

section Groups

variable {m : OrderedMap κ (List ν)} {items : List ν} {key : ν → κ}

theorem groups_empty (key : ν → κ) : (empty : OrderedMap κ (List ν)).Groups [] key where
  found _ _ h := nomatch h
  mem_keys _ h := nomatch h

theorem Groups.filter_eq_nil (h : m.Groups items key) {k : κ} (hk : k ∉ m.keys) :
    items.filter (fun a => key a = k) = [] :=
  List.filter_eq_nil_iff.2 (fun a ha he => hk (of_decide_eq_true he ▸ h.mem_keys a ha))

theorem Groups.getD (h : m.Groups items key) (k : κ) :
    m.getD k [] = items.filter (fun a => key a = k) := by
  by_cases hk : k ∈ m.keys
  · exact h.found k _ (get?_eq_some_getD hk [])
  · rw [OrderedMap.getD, get?_of_not_mem hk, h.filter_eq_nil hk]
    rfl

theorem Groups.setDefault (h : m.Groups items key) (k : κ) :
    (m.setDefault k []).Groups items key where
  found x l hl := by
    rw [get?_setDefault] at hl
    split at hl
    · rename_i hx
      rw [← Option.some.inj hl, hx]
      exact h.getD k
    · exact h.found x l hl
  mem_keys a ha := (mem_keys_setDefault []).2 (.inr (h.mem_keys a ha))

theorem Groups.foldl_setDefault (h : m.Groups items key) (l : List κ) :
    (l.foldl (fun m k => m.setDefault k []) m).Groups items key := by
  induction l generalizing m with
  | nil => exact h
  | cons k l ih => exact ih (h.setDefault k)

theorem Groups.file (h : m.Groups items key) (a : ν) :
    (m.file (key a) a).Groups (items ++ [a]) key where
  found k l hl := by
    rw [OrderedMap.file, get?_insert] at hl
    rw [List.filter_append]
    split at hl
    · rename_i hk
      rw [← Option.some.inj hl, h.getD, hk]
      simp
    · rename_i hk
      rw [h.found k l hl]
      simp [Ne.symm hk]
  mem_keys b hb := by
    refine (mem_keys_file a).2 ?_
    rcases List.mem_append.1 hb with hb | hb
    · exact .inr (h.mem_keys b hb)
    · exact .inl (congrArg key (List.mem_singleton.1 hb))

theorem Groups.insert_nil (h : m.Groups [] key) (k : κ) : (m.insert k []).Groups [] key where
  found x l hl := by
    rw [get?_insert] at hl
    split at hl
    · exact (Option.some.inj hl).symm
    · exact h.found x l hl
  mem_keys _ ha := nomatch ha

theorem Groups.flatten_values (h : m.Groups items key) :
    m.values.flatten = m.keys.flatMap (fun k => items.filter (fun a => key a = k)) := by
  rw [values, keys, List.flatMap_map, List.flatMap_def]
  refine congrArg List.flatten (List.map_congr_left (fun e he => ?_))
  exact h.found e.1 e.2 ((get?_eq_some_iff m e.1 e.2).2 he)

theorem Groups.perm [DecidableEq ν] (h : m.Groups items key) : m.values.flatten.Perm items := by
  have hkey : ∀ k, ∀ a ∈ items.filter (fun a => key a = k), key a = k :=
    fun k a ha => of_decide_eq_true (List.mem_filter.1 ha).2
  rw [h.flatten_values, List.perm_iff_count]
  intro a
  by_cases ha : key a ∈ m.keys
  · have hcount (l : List ν) : (l.filter (fun b => key b = key a)).count a = l.count a :=
      List.count_filter (decide_eq_true rfl)
    rw [← hcount, filter_flatMap_of_nodup (l := m.keys) hkey m.nodup_keys ha, hcount]
  · rw [List.count_eq_zero.2 (fun hm => ha (h.mem_keys a hm)), List.count_eq_zero]
    intro hm
    obtain ⟨k, hk, hm⟩ := List.mem_flatMap.1 hm
    exact ha (hkey k a hm ▸ hk)

/-- Groups in which just certain keys have a place. -/
structure GroupsOver (m : OrderedMap κ (List ν)) (items : List ν) (key : ν → κ) (p : κ → Prop) :
    Prop where
  groups : m.Groups items key
  mem_keys_iff : ∀ k, k ∈ m.keys ↔ p k

variable {p : κ → Prop}

theorem groupsOver_blank {l : List κ} (hl : l.Nodup) (key : ν → κ) :
    (ofList (l.map (fun k => (k, [])))).GroupsOver [] key (fun k => k ∈ l) where
  groups :=
    { found := fun k xs hxs => by
        have hk := mem_keys_iff_exists.2 ⟨xs, hxs⟩
        rw [keys_tabulate hl] at hk
        rw [get?_tabulate hl (fun _ => []) hk] at hxs
        exact (Option.some.inj hxs).symm
      mem_keys := fun _ ha => nomatch ha }
  mem_keys_iff k := by rw [keys_tabulate hl]

theorem GroupsOver.get?_eq [DecidablePred p] (h : m.GroupsOver items key p) (k : κ) :
    m.get? k = if p k then some (items.filter (fun a => key a = k)) else none := by
  split
  · rw [get?_eq_some_getD ((h.mem_keys_iff k).2 ‹_›) [], h.groups.getD]
  · exact get?_of_not_mem (fun hk => absurd ((h.mem_keys_iff k).1 hk) ‹_›)

theorem GroupsOver.file (h : m.GroupsOver items key p) {a : ν} (ha : p (key a)) :
    (m.file (key a) a).GroupsOver (items ++ [a]) key p where
  groups := h.groups.file a
  mem_keys_iff k := by
    rw [mem_keys_file, h.mem_keys_iff]
    exact or_iff_right_of_imp (fun hk => hk ▸ ha)

end Groups

end Dataflow.OrderedMap
