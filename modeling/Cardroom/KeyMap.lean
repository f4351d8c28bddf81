/-!
Finite maps as lists of entries with one entry per key. A new key goes to the end and a key keeps
its place when its value changes, so the order of the entries is the order in which the keys came.
`get?_insert`, `get?_erase` and `get?_modify` say what each operation does to every key.
-/

namespace Cardroom

/-- No two entries have the same key. -/
structure KeyMap (κ α : Type) where
  entries : List (κ × α)
  nodup_keys : (entries.map Prod.fst).Nodup

namespace KeyMap

variable {κ α : Type}

def empty : KeyMap κ α := ⟨[], by simp⟩

instance : Inhabited (KeyMap κ α) := ⟨empty⟩

def size (m : KeyMap κ α) : Nat := m.entries.length

def isEmpty (m : KeyMap κ α) : Bool := m.entries.isEmpty

def keys (m : KeyMap κ α) : List κ := m.entries.map Prod.fst

def values (m : KeyMap κ α) : List α := m.entries.map Prod.snd

variable [DecidableEq κ]

def get? (m : KeyMap κ α) (k : κ) : Option α := m.entries.lookup k

def contains (m : KeyMap κ α) (k : κ) : Bool := (m.get? k).isSome

def place (k : κ) (a : α) : List (κ × α) → List (κ × α)
  | [] => [(k, a)]
  | (j, b) :: r => if j = k then (j, a) :: r else (j, b) :: place k a r

theorem mem_keys_place {k x : κ} {a : α} {l : List (κ × α)} :
    x ∈ (place k a l).map Prod.fst ↔ x = k ∨ x ∈ l.map Prod.fst := by
  induction l with
  | nil => simp [place]
  | cons e l ih =>
    obtain ⟨j, b⟩ := e
    by_cases h : j = k
    · simp [place, h]
    · simp only [place, h, if_false, List.map_cons, List.mem_cons, ih]
      constructor <;> rintro (h | h | h) <;> simp [h]

theorem nodup_keys_place {k : κ} {a : α} {l : List (κ × α)} (h : (l.map Prod.fst).Nodup) :
    ((place k a l).map Prod.fst).Nodup := by
  induction l with
  | nil => simp [place]
  | cons e l ih =>
    obtain ⟨j, b⟩ := e
    rw [place]
    split
    · exact h
    · rename_i hk
      rw [List.map_cons, List.nodup_cons] at h ⊢
      rw [mem_keys_place]
      exact ⟨fun e => e.elim hk h.1, ih h.2⟩

def insert (m : KeyMap κ α) (k : κ) (a : α) : KeyMap κ α :=
  ⟨place k a m.entries, nodup_keys_place m.nodup_keys⟩

def erase (m : KeyMap κ α) (k : κ) : KeyMap κ α :=
  ⟨m.entries.filter (·.1 ≠ k), m.nodup_keys.sublist (List.filter_sublist.map _)⟩

def modify (m : KeyMap κ α) (k : κ) (f : α → α) : KeyMap κ α :=
  match m.get? k with
  | some a => m.insert k (f a)
  | none => m

theorem lookup_cons_eq_ite (j x : κ) (b : α) (l : List (κ × α)) :
    ((j, b) :: l).lookup x = if x = j then some b else l.lookup x := by
  by_cases h : x = j
  · simp [h]
  · rw [List.lookup_cons, beq_false_of_ne h, if_neg h]

theorem lookup_place (k x : κ) (a : α) (l : List (κ × α)) :
    (place k a l).lookup x = if x = k then some a else l.lookup x := by
  induction l with
  | nil => exact lookup_cons_eq_ite k x a []
  | cons e l ih =>
    obtain ⟨j, b⟩ := e
    by_cases h : j = k
    · subst h
      by_cases hx : x = j <;> simp [place, lookup_cons_eq_ite, hx]
    · rw [place, if_neg h, lookup_cons_eq_ite, lookup_cons_eq_ite, ih]
      by_cases hx : x = j
      · subst hx
        simp [h]
      · simp [hx]

theorem lookup_filter_ne (k x : κ) (l : List (κ × α)) :
    (l.filter (·.1 ≠ k)).lookup x = if x = k then none else l.lookup x := by
  induction l with
  | nil => simp
  | cons e l ih =>
    obtain ⟨j, b⟩ := e
    rw [List.filter_cons]
    by_cases h : j = k
    · subst h
      rw [if_neg (by simp), ih, lookup_cons_eq_ite]
      by_cases hx : x = j <;> simp [hx]
    · rw [if_pos (by simp [h]), lookup_cons_eq_ite, lookup_cons_eq_ite, ih]
      by_cases hx : x = j
      · subst hx
        simp [h]
      · simp [hx]

@[simp] theorem get?_empty (k : κ) : (empty : KeyMap κ α).get? k = none := rfl

theorem get?_insert (m : KeyMap κ α) (k x : κ) (a : α) :
    (m.insert k a).get? x = if x = k then some a else m.get? x :=
  lookup_place k x a m.entries

theorem get?_erase (m : KeyMap κ α) (k x : κ) :
    (m.erase k).get? x = if x = k then none else m.get? x :=
  lookup_filter_ne k x m.entries

theorem get?_modify (m : KeyMap κ α) (k x : κ) (f : α → α) :
    (m.modify k f).get? x = if x = k then (m.get? x).map f else m.get? x := by
  unfold modify
  split
  · rename_i a h
    rw [get?_insert]
    by_cases hx : x = k
    · subst hx
      simp [h]
    · simp [hx]
  · rename_i h
    by_cases hx : x = k
    · subst hx
      simp [h]
    · simp [hx]

theorem isSome_lookup_iff (k : κ) (l : List (κ × α)) :
    (l.lookup k).isSome = true ↔ k ∈ l.map Prod.fst := by
  induction l with
  | nil => simp
  | cons e l ih =>
    obtain ⟨j, b⟩ := e
    rw [lookup_cons_eq_ite, List.map_cons, List.mem_cons, ← ih]
    by_cases h : k = j <;> simp [h]

theorem contains_iff (m : KeyMap κ α) (k : κ) : m.contains k = true ↔ k ∈ m.keys :=
  isSome_lookup_iff k m.entries

end KeyMap

end Cardroom
