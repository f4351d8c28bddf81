import Cardroom.Frame.Reading

namespace Cardroom.Json

theorem mapM_map_eq {α β : Type} {write : α → β} {read? : β → Option α} {xs : List α}
    (h : ∀ x ∈ xs, read? (write x) = some x) : (xs.map write).mapM read? = some xs := by
  induction xs with
  | nil => rfl
  | cons x xs ih =>
    have hxs := ih fun y hy => h y (List.mem_cons_of_mem x hy)
    rw [List.map_cons, List.mapM_cons, h x List.mem_cons_self, hxs]
    rfl

theorem exists_of_mem_mapM {α β : Type} {f : α → Option β} {xs : List α} {ys : List β}
    (h : xs.mapM f = some ys) : ∀ y ∈ ys, ∃ x ∈ xs, f x = some y := by
  induction xs generalizing ys with
  | nil =>
    cases h
    intro y hy
    cases hy
  | cons x xs ih =>
    rw [List.mapM_cons] at h
    obtain ⟨y, hy, h⟩ := Option.bind_eq_some_iff.1 h
    obtain ⟨zs, hzs, h⟩ := Option.bind_eq_some_iff.1 h
    cases h
    intro z hz
    rcases List.mem_cons.1 hz with rfl | hz
    · exact ⟨x, List.mem_cons_self, hy⟩
    · obtain ⟨w, hw, hwz⟩ := ih hzs z hz
      exact ⟨w, List.mem_cons_of_mem x hw, hwz⟩

theorem fields?_record (fields : List (String × Json)) :
    fields? (fields.map fun (name, j) => (Quoted.ofText name, j)) = some fields := by
  refine mapM_map_eq fun field _ => ?_
  change (Quoted.ofText field.1).text?.map (·, field.2) = _
  rw [Quoted.text?_ofText]
  rfl

theorem components?_record (names : List String) (fields : List (String × Json)) :
    (record fields).components? names = names.mapM fun name => once? name fields := by
  rw [record, components?, fields?_record]
  rfl

def members : Json → List (Quoted × Json)
  | .object members => members
  | _ => []

def valuesUnder (names : List String) (j : Json) : List Json :=
  (j.members.filter fun m => m.1.text?.any names.contains).map Prod.snd

theorem eq_object_of_valuesUnder {names : List String} {j v : Json}
    (h : v ∈ j.valuesUnder names) : ∃ members, j = .object members := by
  cases j with
  | object members => exact ⟨members, rfl⟩
  | _ => cases h

theorem named_eq_valuesUnder (names : List String) {members : List (Quoted × Json)}
    {fields : List (String × Json)} (h : fields? members = some fields) :
    named names fields = valuesUnder names (.object members) := by
  change (fields.filter fun field => names.contains field.1).map Prod.snd =
    (members.filter fun m => m.1.text?.any names.contains).map Prod.snd
  induction members generalizing fields with
  | nil =>
    cases h
    rfl
  | cons m members ih =>
    rw [fields?, List.mapM_cons] at h
    obtain ⟨field, hfield, h⟩ := Option.bind_eq_some_iff.1 h
    obtain ⟨rest, hrest, h⟩ := Option.bind_eq_some_iff.1 h
    obtain ⟨name, hname, rfl⟩ := Option.map_eq_some_iff.1 hfield
    cases h
    have hrest := ih hrest
    rw [List.filter_cons, List.filter_cons, hname, Option.any_some]
    split
    · rw [List.map_cons, List.map_cons, hrest]
    · exact hrest

section

variable {name : String} {names : List String} {members : List (Quoted × Json)}
  {fields : List (String × Json)}

theorem atMostOnce?_eq_some_iff (h : fields? members = some fields) {found : Option Json} :
    atMostOnce? names fields = some found ↔
      valuesUnder names (.object members) = found.toList := by
  rw [← named_eq_valuesUnder names h, atMostOnce?]
  split
  · rename_i hnone
    rw [hnone]
    cases found <;> simp
  · rename_i v hone
    rw [hone]
    cases found <;> simp
  · rename_i hnone hone
    refine ⟨nofun, fun hfound => ?_⟩
    cases found with
    | none => exact absurd hfound hnone
    | some v => exact absurd hfound (hone v)

theorem once?_eq_some_iff (h : fields? members = some fields) {v : Json} :
    once? name fields = some v ↔ valuesUnder [name] (.object members) = [v] := by
  rw [once?, Option.join_eq_some_iff, atMostOnce?_eq_some_iff h]
  rfl

theorem last?_eq (h : fields? members = some fields) :
    last? name fields = (valuesUnder [name] (.object members)).getLast? := by
  rw [last?, named_eq_valuesUnder [name] h]

end

theorem depthItems_le_iff {items : List Json} {n : Nat} :
    depthItems items ≤ n ↔ ∀ j ∈ items, j.depth ≤ n := by
  induction items with
  | nil => simp [depthItems]
  | cons j items ih => rw [depthItems, Nat.max_le, ih, List.forall_mem_cons]

theorem depthMembers_le_iff {members : List (Quoted × Json)} {n : Nat} :
    depthMembers members ≤ n ↔ ∀ m ∈ members, m.2.depth ≤ n := by
  induction members with
  | nil => simp [depthMembers]
  | cons m members ih => rw [depthMembers, Nat.max_le, ih, List.forall_mem_cons]

theorem depth_array_le {items : List Json} {n : Nat} (h : ∀ j ∈ items, j.depth ≤ n) :
    (array items).depth ≤ n + 1 := by
  rw [depth]
  exact Nat.succ_le_succ (depthItems_le_iff.2 h)

theorem depth_record_le {fields : List (String × Json)} {n : Nat}
    (h : ∀ field ∈ fields, field.2.depth ≤ n) : (record fields).depth ≤ n + 1 := by
  rw [record, depth]
  exact Nat.succ_le_succ (depthMembers_le_iff.2 (List.forall_mem_map.2 h))

theorem isStrictItems_iff {items : List Json} :
    isStrictItems items = true ↔ ∀ j ∈ items, j.isStrict = true := by
  induction items with
  | nil => simp [isStrictItems]
  | cons j items ih => rw [isStrictItems, Bool.and_eq_true, ih, List.forall_mem_cons]

theorem isStrictMembers_iff {members : List (Quoted × Json)} : isStrictMembers members = true ↔
    ∀ m ∈ members, m.1.text?.isSome = true ∧ m.2.isStrict = true := by
  induction members with
  | nil => simp [isStrictMembers]
  | cons m members ih =>
    rw [isStrictMembers, Bool.and_eq_true, Bool.and_eq_true, ih, List.forall_mem_cons]

theorem bool?_eq_some_iff {j : Json} {b : Bool} : j.bool? = some b ↔ j = .bool b := by
  cases j <;> simp [bool?]

theorem isInt64_iff {i : Int} :
    isInt64 i = true ↔ -0x8000000000000000 ≤ i ∧ i < 0x8000000000000000 := by
  simp [isInt64]

theorem int64?_ofInt {i : Int} (h : isInt64 i = true) : (ofInt i).int64? = some i := by
  rw [int64?, integer?_ofInt, Option.filter_some, if_pos h]

theorem isInt64_of_int64? {j : Json} {i : Int} (h : j.int64? = some i) : isInt64 i = true :=
  (Option.filter_eq_some_iff.1 h).2

theorem word64?_ofNat {n : Nat} (h : isWord64 n = true) : (ofNat n).word64? = some n := by
  rw [word64?, integer?_ofNat, Option.filter_some, if_pos h]
  rfl

theorem isWord64_of_word64? {j : Json} {n : Nat} (h : j.word64? = some n) :
    isWord64 n = true := by
  obtain ⟨i, hi, rfl⟩ := Option.map_eq_some_iff.1 h
  have hword := (Option.filter_eq_some_iff.1 hi).2
  have hnonneg : 0 ≤ i := by
    simp only [isWord64, Bool.and_eq_true, decide_eq_true_eq] at hword
    exact hword.1
  rwa [Int.toNat_of_nonneg hnonneg]

theorem natAbs_lt_of_isInt64 {i : Int} (h : isInt64 i = true) : i.natAbs < UInt64.size := by
  rw [isInt64_iff] at h
  have hsize : UInt64.size = 0x10000000000000000 := rfl
  omega

theorem lt_of_isWord64 {n : Nat} (h : isWord64 n = true) : n < UInt64.size := by
  simp only [isWord64, Bool.and_eq_true, decide_eq_true_eq] at h
  have hsize : UInt64.size = 0x10000000000000000 := rfl
  omega

end Cardroom.Json
