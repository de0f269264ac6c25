namespace Dataflow

/-- A finite map that remembers the order in which its keys first came in. Binding a key again keeps
its place; erasing it and binding it once more moves it to the end. -/
structure OrderedMap (κ ν : Type) where
  entries : List (κ × ν)
  nodup_keys : (entries.map Prod.fst).Nodup

namespace OrderedMap

variable {κ ν : Type}

def empty : OrderedMap κ ν := ⟨[], List.nodup_nil⟩

instance : Inhabited (OrderedMap κ ν) := ⟨empty⟩

def keys (m : OrderedMap κ ν) : List κ := m.entries.map Prod.fst

def values (m : OrderedMap κ ν) : List ν := m.entries.map Prod.snd

def size (m : OrderedMap κ ν) : Nat := m.entries.length

variable [DecidableEq κ]

def get? (m : OrderedMap κ ν) (k : κ) : Option ν := m.entries.lookup k

def getD (m : OrderedMap κ ν) (k : κ) (default : ν) : ν := (m.get? k).getD default

def contains (m : OrderedMap κ ν) (k : κ) : Bool := (m.get? k).isSome

def bind (k : κ) (v : ν) : List (κ × ν) → List (κ × ν)
  | [] => [(k, v)]
  | e :: rest => if e.1 = k then (k, v) :: rest else e :: bind k v rest

theorem mem_keys_bind (k : κ) (v : ν) (l : List (κ × ν)) (x : κ) :
    x ∈ (bind k v l).map Prod.fst ↔ x = k ∨ x ∈ l.map Prod.fst := by
  induction l with
  | nil => simp [bind]
  | cons e rest ih =>
    by_cases h : e.1 = k
    · simp [bind, h]
    · simp only [bind, h, if_false, List.map_cons, List.mem_cons, ih]
      grind

theorem nodup_keys_bind (k : κ) (v : ν) {l : List (κ × ν)} (h : (l.map Prod.fst).Nodup) :
    ((bind k v l).map Prod.fst).Nodup := by
  induction l with
  | nil => simp [bind]
  | cons e rest ih =>
    rw [List.map_cons, List.nodup_cons] at h
    by_cases he : e.1 = k
    · simpa [bind, he] using h
    · rw [bind, if_neg he, List.map_cons, List.nodup_cons, mem_keys_bind, not_or]
      exact ⟨⟨he, h.1⟩, ih h.2⟩

def insert (m : OrderedMap κ ν) (k : κ) (v : ν) : OrderedMap κ ν :=
  ⟨bind k v m.entries, nodup_keys_bind k v m.nodup_keys⟩

def setDefault (m : OrderedMap κ ν) (k : κ) (v : ν) : OrderedMap κ ν :=
  if m.contains k then m else m.insert k v

/-- Put an item behind those that stand under a key. -/
def file (m : OrderedMap κ (List ν)) (k : κ) (a : ν) : OrderedMap κ (List ν) :=
  m.insert k (m.getD k [] ++ [a])

def erase (m : OrderedMap κ ν) (k : κ) : OrderedMap κ ν :=
  ⟨m.entries.filter (fun e => e.1 ≠ k),
    (List.filter_sublist.map Prod.fst).nodup m.nodup_keys⟩

/-- Bindings made one after the other, so that the last of equal keys wins in the first one's place. -/
def ofList (l : List (κ × ν)) : OrderedMap κ ν := l.foldl (fun m e => m.insert e.1 e.2) empty

def sameBindings [DecidableEq ν] (m₁ m₂ : OrderedMap κ ν) : Bool :=
  m₁.entries.all (fun e => m₂.get? e.1 = some e.2) && m₂.entries.all (fun e => m₁.get? e.1 = some e.2)

@[simp] theorem get?_empty (k : κ) : (empty : OrderedMap κ ν).get? k = none := rfl

theorem lookup_bind (k : κ) (v : ν) (l : List (κ × ν)) (x : κ) :
    (bind k v l).lookup x = if x = k then some v else l.lookup x := by
  induction l with
  | nil => simp [bind, List.lookup_cons]; grind
  | cons e rest ih =>
    obtain ⟨a, b⟩ := e
    by_cases h : a = k
    · subst h
      simp only [bind, if_true, List.lookup_cons]
      grind
    · simp only [bind, h, if_false, List.lookup_cons, ih]
      grind

@[simp] theorem get?_insert (m : OrderedMap κ ν) (k : κ) (v : ν) (x : κ) :
    (m.insert k v).get? x = if x = k then some v else m.get? x :=
  lookup_bind k v m.entries x

@[simp] theorem getD_insert (m : OrderedMap κ ν) (k : κ) (v : ν) (x : κ) (d : ν) :
    (m.insert k v).getD x d = if x = k then v else m.getD x d := by
  rw [getD, get?_insert]
  split <;> rfl

theorem lookup_filter_ne (k : κ) (l : List (κ × ν)) (x : κ) :
    (l.filter (fun e => e.1 ≠ k)).lookup x = if x = k then none else l.lookup x := by
  induction l with
  | nil => simp
  | cons e rest ih =>
    obtain ⟨a, b⟩ := e
    rw [List.filter_cons, List.lookup_cons]
    grind

@[simp] theorem get?_erase (m : OrderedMap κ ν) (k x : κ) :
    (m.erase k).get? x = if x = k then none else m.get? x :=
  lookup_filter_ne k m.entries x

theorem get?_eq_some_iff (m : OrderedMap κ ν) (k : κ) (v : ν) :
    m.get? k = some v ↔ (k, v) ∈ m.entries := by
  obtain ⟨l, h⟩ := m
  simp only [get?]
  induction l with
  | nil => simp
  | cons e rest ih =>
    obtain ⟨a, b⟩ := e
    rw [List.map_cons, List.nodup_cons] at h
    have ih := ih h.2
    by_cases hk : k = a
    · subst hk
      have hv : (k, v) ∉ rest := fun hm => h.1 (List.mem_map.2 ⟨(k, v), hm, rfl⟩)
      simp [hv, eq_comm]
    · have hb : (k == a) = false := beq_eq_false_iff_ne.2 hk
      simp [List.lookup_cons, hb, hk, ih]

theorem mem_keys_iff (m : OrderedMap κ ν) (k : κ) : k ∈ m.keys ↔ m.contains k = true := by
  simp only [keys, contains, List.mem_map, Option.isSome_iff_exists, get?_eq_some_iff]
  grind

theorem sameBindings_iff [DecidableEq ν] (m₁ m₂ : OrderedMap κ ν) :
    m₁.sameBindings m₂ = true ↔ ∀ k, m₁.get? k = m₂.get? k := by
  simp only [sameBindings, Bool.and_eq_true, List.all_eq_true, decide_eq_true_eq]
  constructor
  · rintro ⟨h₁, h₂⟩ k
    apply Option.ext
    intro v
    constructor
    · intro h
      exact h₁ (k, v) ((get?_eq_some_iff m₁ k v).1 h)
    · intro h
      exact h₂ (k, v) ((get?_eq_some_iff m₂ k v).1 h)
  · intro h
    constructor
    · intro e he
      rw [← h e.1]
      exact (get?_eq_some_iff m₁ e.1 e.2).2 he
    · intro e he
      rw [h e.1]
      exact (get?_eq_some_iff m₂ e.1 e.2).2 he

end OrderedMap

end Dataflow
