import Cardroom.KeyMap

namespace Cardroom

variable {κ α : Type}

namespace KeyMap

variable [DecidableEq κ] {p : κ → Bool}

def restrict (p : κ → Bool) (m : KeyMap κ α) : List (κ × α) := m.entries.filter fun e => p e.1

theorem lookup_filter {k : κ} (hk : p k = true) (l : List (κ × α)) :
    (l.filter fun e => p e.1).lookup k = l.lookup k := by
  induction l with
  | nil => rfl
  | cons e l ih =>
    obtain ⟨j, b⟩ := e
    rw [List.filter_cons, lookup_cons_eq_ite]
    split
    · rw [lookup_cons_eq_ite, ih]
    · rename_i hj
      have hne : k ≠ j := fun h => hj (h ▸ hk)
      rw [if_neg hne, ih]

theorem get?_congr {m n : KeyMap κ α} (h : m.restrict p = n.restrict p) {k : κ}
    (hk : p k = true) : m.get? k = n.get? k := by
  rw [get?, get?, ← lookup_filter hk m.entries, ← lookup_filter hk n.entries]
  exact congrArg (List.lookup k) h

theorem filter_place_of_pos {k : κ} (hk : p k = true) (a : α) (l : List (κ × α)) :
    (place k a l).filter (fun e => p e.1) = place k a (l.filter fun e => p e.1) := by
  induction l with
  | nil => simp [place, hk]
  | cons e l ih =>
    obtain ⟨j, b⟩ := e
    rw [place, List.filter_cons]
    by_cases hj : j = k
    · subst hj
      rw [if_pos rfl, if_pos hk, place, if_pos rfl, List.filter_cons, if_pos hk]
    · rw [if_neg hj, List.filter_cons, ih]
      split
      · rw [place, if_neg hj]
      · rfl

theorem filter_place_of_neg {k : κ} (hk : ¬ p k = true) (a : α) (l : List (κ × α)) :
    (place k a l).filter (fun e => p e.1) = l.filter fun e => p e.1 := by
  induction l with
  | nil => simp [place, hk]
  | cons e l ih =>
    obtain ⟨j, b⟩ := e
    rw [place, List.filter_cons]
    by_cases hj : j = k
    · subst hj
      rw [if_pos rfl, if_neg hk, List.filter_cons, if_neg hk]
    · rw [if_neg hj, List.filter_cons, ih]

theorem restrict_insert_of_neg {k : κ} (hk : ¬ p k = true) (m : KeyMap κ α) (a : α) :
    (m.insert k a).restrict p = m.restrict p :=
  filter_place_of_neg hk a m.entries

theorem restrict_insert_congr {m n : KeyMap κ α} (h : m.restrict p = n.restrict p) {k : κ}
    (hk : p k = true) (a : α) : (m.insert k a).restrict p = (n.insert k a).restrict p := by
  calc (m.insert k a).restrict p = place k a (m.restrict p) := filter_place_of_pos hk a m.entries
    _ = place k a (n.restrict p) := by rw [h]
    _ = (n.insert k a).restrict p := (filter_place_of_pos hk a n.entries).symm

theorem restrict_erase (m : KeyMap κ α) (k : κ) :
    (m.erase k).restrict p = (m.restrict p).filter (·.1 ≠ k) := by
  rw [restrict, restrict, erase, List.filter_filter, List.filter_filter]
  exact List.filter_congr fun e _ => Bool.and_comm ..

theorem restrict_erase_of_neg {k : κ} (hk : ¬ p k = true) (m : KeyMap κ α) :
    (m.erase k).restrict p = m.restrict p := by
  rw [restrict_erase, List.filter_eq_self]
  intro e he
  have hp : p e.1 = true := by simpa using (List.mem_filter.1 he).2
  exact decide_eq_true fun h => hk (h ▸ hp)

theorem mem_entries_iff {m : KeyMap κ α} {k : κ} {a : α} :
    (k, a) ∈ m.entries ↔ m.get? k = some a := by
  have hlist : ∀ l : List (κ × α), (l.map Prod.fst).Nodup →
      ((k, a) ∈ l ↔ l.lookup k = some a) := by
    intro l hl
    induction l with
    | nil => simp
    | cons e l ih =>
      obtain ⟨j, b⟩ := e
      obtain ⟨hj, hl⟩ := List.nodup_cons.1 hl
      rw [lookup_cons_eq_ite, List.mem_cons, ih hl, Prod.mk.injEq]
      by_cases hk : k = j
      · have hnone : l.lookup k = none := by
          rw [← Option.not_isSome_iff_eq_none, isSome_lookup_iff, hk]
          exact hj
        simp [hk, hk ▸ hnone, eq_comm]
      · simp [hk]
  exact hlist m.entries m.nodup_keys

theorem entries_ext {l r : List (κ × α)} (hn : (l.map Prod.fst).Nodup)
    (hk : l.map Prod.fst = r.map Prod.fst) (h : ∀ k, l.lookup k = r.lookup k) : l = r := by
  induction l generalizing r with
  | nil => exact (List.map_eq_nil_iff.1 hk.symm).symm
  | cons e l ih =>
    obtain ⟨j, b⟩ := e
    obtain - | ⟨⟨i, c⟩, r⟩ := r
    · cases hk
    obtain ⟨hi, hrest⟩ := List.cons.inj hk
    obtain ⟨hj, hn⟩ := List.nodup_cons.1 hn
    change j = i at hi
    subst hi
    have hvalue : some b = some c := by simpa [lookup_cons_eq_ite] using h j
    cases hvalue
    refine congrArg _ (ih hn hrest fun k => ?_)
    by_cases hkj : k = j
    · -- no later entry has the key
      have hnone : ∀ s : List (κ × α), s.map Prod.fst = l.map Prod.fst → s.lookup k = none := by
        intro s hs
        rw [← Option.not_isSome_iff_eq_none, isSome_lookup_iff, hs, hkj]
        exact hj
      rw [hnone l rfl, hnone r hrest.symm]
    · simpa [lookup_cons_eq_ite, hkj] using h k

theorem ext_get? {m n : KeyMap κ α} (hk : m.keys = n.keys) (h : ∀ k, m.get? k = n.get? k) :
    m = n := by
  obtain ⟨l, hl⟩ := m
  obtain ⟨r, hr⟩ := n
  cases entries_ext hl hk h
  rfl

theorem keys_place (k : κ) (a : α) (l : List (κ × α)) :
    (place k a l).map Prod.fst =
      if k ∈ l.map Prod.fst then l.map Prod.fst else l.map Prod.fst ++ [k] := by
  induction l with
  | nil => rfl
  | cons e l ih =>
    obtain ⟨j, b⟩ := e
    rw [place]
    by_cases h : j = k
    · simp [h]
    · rw [if_neg h, List.map_cons, ih, List.map_cons]
      by_cases hk : k ∈ l.map Prod.fst
      · rw [if_pos hk, if_pos (List.mem_cons_of_mem _ hk)]
      · rw [if_neg hk, if_neg fun hm => (List.mem_cons.1 hm).elim (fun e => h e.symm) hk,
          List.cons_append]

theorem keys_insert (m : KeyMap κ α) (k : κ) (a : α) :
    (m.insert k a).keys = if k ∈ m.keys then m.keys else m.keys ++ [k] :=
  keys_place k a m.entries

theorem keys_insert_of_mem {m : KeyMap κ α} {k : κ} (h : k ∈ m.keys) (a : α) :
    (m.insert k a).keys = m.keys := by
  rw [keys_insert, if_pos h]

theorem keys_erase (m : KeyMap κ α) (k : κ) : (m.erase k).keys = m.keys.filter (· ≠ k) := by
  rw [keys, keys, erase, List.filter_map]
  rfl

theorem mem_keys_iff {m : KeyMap κ α} {k : κ} : k ∈ m.keys ↔ (m.get? k).isSome = true :=
  (m.contains_iff k).symm

theorem keys_modify (m : KeyMap κ α) (k : κ) (f : α → α) : (m.modify k f).keys = m.keys := by
  unfold modify
  split
  · rename_i a h
    exact keys_insert_of_mem (mem_keys_iff.2 (by rw [h]; rfl)) _
  · rfl

theorem insert_of_get? {m : KeyMap κ α} {k : κ} {a : α} (h : m.get? k = some a) :
    m.insert k a = m := by
  have hk : k ∈ m.keys := mem_keys_iff.2 (by rw [h]; rfl)
  refine ext_get? (keys_insert_of_mem hk a) fun x => ?_
  rw [get?_insert]
  split
  · rename_i hx
    rw [hx, h]
  · rfl

theorem erase_of_get? {m : KeyMap κ α} {k : κ} (h : m.get? k = none) : m.erase k = m := by
  have hk : k ∉ m.keys := fun hm => by rw [mem_keys_iff, h] at hm; cases hm
  refine ext_get? ?_ fun x => ?_
  · rw [keys_erase, List.filter_eq_self]
    exact fun x hx => decide_eq_true fun e => hk (e ▸ hx)
  · rw [get?_erase]
    split
    · rename_i hx
      rw [hx, h]
    · rfl

theorem insert_insert (m : KeyMap κ α) (k : κ) (a b : α) :
    (m.insert k a).insert k b = m.insert k b := by
  refine ext_get? ?_ fun x => ?_
  · rw [keys_insert_of_mem, keys_insert, keys_insert]
    exact mem_keys_iff.2 (by rw [get?_insert, if_pos rfl]; rfl)
  · rw [get?_insert, get?_insert, get?_insert]
    split <;> rfl

theorem erase_insert (m : KeyMap κ α) (k : κ) (a : α) : (m.insert k a).erase k = m.erase k := by
  refine ext_get? ?_ fun x => ?_
  · rw [keys_erase, keys_insert, keys_erase]
    split
    · rfl
    · simp
  · rw [get?_erase, get?_erase, get?_insert]
    split <;> rfl

end KeyMap

end Cardroom
