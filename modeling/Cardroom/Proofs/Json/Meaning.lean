import Cardroom.Proofs.Json.Grammar
import Cardroom.Proofs.Json.Records

namespace Cardroom.Json

/-- The string stands for these characters: no surrogate in it is without its other half. -/
inductive Quoted.Means : Quoted → List Char → Prop where
  | nil : Means [] []
  | char {c : Char} {q : Quoted} {cs : List Char} (h : Means q cs) : Means (.char c :: q) (c :: cs)
  | pair {high low : Nat} {q : Quoted} {cs : List Char} (hhigh : 0xD800 ≤ high ∧ high < 0xDC00)
    (hlow : 0xDC00 ≤ low ∧ low < 0xE000) (h : Means q cs) :
    Means (.surrogate high :: .surrogate low :: q) (join high low :: cs)

namespace Quoted

variable {q : Quoted} {cs : List Char}

theorem Means.chars? (h : q.Means cs) : q.chars? = some cs := by
  induction h with
  | nil => rfl
  | char _ ih => rw [Quoted.chars?, ih]; rfl
  | pair hhigh hlow _ ih =>
    rw [Quoted.chars?, if_pos (by simp [isHigh, isLow, hhigh, hlow]), ih]
    rfl

theorem means_of_chars? (h : q.chars? = some cs) : q.Means cs := by
  fun_induction Quoted.chars? q generalizing cs with
  | case1 =>
    cases h
    exact .nil
  | case2 c q ih =>
    obtain ⟨ds, hds, rfl⟩ := Option.map_eq_some_iff.1 h
    exact .char (ih hds)
  | case3 high low q hpair ih =>
    obtain ⟨ds, hds, rfl⟩ := Option.map_eq_some_iff.1 h
    simp only [isHigh, isLow, Bool.and_eq_true, decide_eq_true_eq] at hpair
    exact .pair hpair.1 hpair.2 (ih hds)
  | case4 => cases h
  | case5 => cases h

theorem text?_eq_some_iff {s : String} : q.text? = some s ↔ q.Means s.toList := by
  constructor
  · intro h
    obtain ⟨cs, hcs, rfl⟩ := Option.map_eq_some_iff.1 h
    rw [String.toList_ofList]
    exact means_of_chars? hcs
  · intro h
    rw [text?, h.chars?, Option.map_some, String.ofList_toList]

theorem isSome_text?_iff : q.text?.isSome = true ↔ ∃ cs, q.Means cs := by
  rw [text?, Option.isSome_map, Option.isSome_iff_exists]
  exact exists_congr fun cs => ⟨means_of_chars?, Means.chars?⟩

/-- A string stands for one run of characters only. -/
theorem Means.unique {ds : List Char} (h : q.Means cs) (h' : q.Means ds) : cs = ds :=
  Option.some.inj (h.chars?.symm.trans h'.chars?)

theorem means_ofText (s : String) : (ofText s).Means s.toList :=
  text?_eq_some_iff.1 (text?_ofText s)

end Quoted

/-- The number is written as the integer `i`; `-0` is written as none. -/
inductive Number.IsInteger : Number → Int → Prop where
  | pos (whole : List Char) : IsInteger ⟨false, whole, [], none⟩ (value whole)
  | neg {whole : List Char} (h : value whole ≠ 0) :
    IsInteger ⟨true, whole, [], none⟩ (-(value whole : Int))

theorem Number.integer?_eq_some_iff {n : Number} {i : Int} :
    n.integer? = some i ↔ n.IsInteger i := by
  constructor
  · obtain ⟨negative, whole, fraction, exponent⟩ := n
    intro h
    unfold integer? at h
    split at h
    · rename_i hplain
      simp only [Bool.and_eq_true, List.isEmpty_iff, Option.isNone_iff_eq_none] at hplain
      obtain ⟨rfl, rfl⟩ := hplain
      cases negative with
      | true =>
        rw [if_pos rfl] at h
        split at h
        · cases h
        · rename_i hzero
          cases h
          exact .neg hzero
      | false =>
        cases h
        exact .pos whole
    · cases h
  · rintro (whole | hzero)
    · rfl
    · simp [integer?, hzero]

theorem int64?_eq_some_iff {j : Json} {i : Int} : j.int64? = some i ↔
    ∃ n, j = .number n ∧ n.IsInteger i ∧ -0x8000000000000000 ≤ i ∧ i < 0x8000000000000000 := by
  rw [int64?, Option.filter_eq_some_iff, isInt64_iff]
  cases j with
  | number n =>
    rw [integer?, Number.integer?_eq_some_iff]
    simp
  | _ => simp [integer?]

/-- Every string in the document stands for characters, every number is finite, and no more than `n`
arrays and objects are open at once. -/
inductive Admissible : Nat → Json → Prop where
  | null (n : Nat) : Admissible n .null
  | bool (n : Nat) (b : Bool) : Admissible n (.bool b)
  | number (n : Nat) {x : Number} (h : x.isFinite = true) : Admissible n (.number x)
  | text (n : Nat) {q : Quoted} (h : ∃ cs, q.Means cs) : Admissible n (.text q)
  | array {n : Nat} {items : List Json} (h : ∀ j ∈ items, Admissible n j) :
    Admissible (n + 1) (.array items)
  | object {n : Nat} {members : List (Quoted × Json)}
    (hnames : ∀ m ∈ members, ∃ cs, m.1.Means cs) (h : ∀ m ∈ members, Admissible n m.2) :
    Admissible (n + 1) (.object members)

theorem admissible_iff {j : Json} {n : Nat} :
    Admissible n j ↔ j.isStrict = true ∧ j.depth ≤ n := by
  induction j using forall_of_parts generalizing n with
  | null => exact ⟨fun _ => ⟨rfl, Nat.zero_le n⟩, fun _ => .null n⟩
  | bool b => exact ⟨fun _ => ⟨rfl, Nat.zero_le n⟩, fun _ => .bool n b⟩
  | number x => exact ⟨fun | .number _ h => ⟨h, Nat.zero_le n⟩, fun h => .number n h.1⟩
  | text q =>
    rw [isStrict, Quoted.isSome_text?_iff]
    exact ⟨fun | .text _ h => ⟨h, Nat.zero_le n⟩, fun h => .text n h.1⟩
  | array items ih =>
    rw [isStrict, isStrictItems_iff, depth]
    constructor
    · rintro (_ | _ | _ | _ | h)
      have hitems := fun j hj => (ih j hj).1 (h j hj)
      exact ⟨fun j hj => (hitems j hj).1,
        Nat.succ_le_succ (depthItems_le_iff.2 fun j hj => (hitems j hj).2)⟩
    · rintro ⟨hstrict, hdepth⟩
      cases n with
      | zero => exact absurd hdepth (Nat.not_succ_le_zero _)
      | succ n =>
        have hitems := depthItems_le_iff.1 (Nat.le_of_succ_le_succ hdepth)
        exact .array fun j hj => (ih j hj).2 ⟨hstrict j hj, hitems j hj⟩
  | object members ih =>
    rw [isStrict, isStrictMembers_iff, depth]
    constructor
    · rintro (_ | _ | _ | _ | _ | ⟨hnames, h⟩)
      have hvalues := fun m hm => (ih m hm).1 (h m hm)
      exact ⟨fun m hm => ⟨Quoted.isSome_text?_iff.2 (hnames m hm), (hvalues m hm).1⟩,
        Nat.succ_le_succ (depthMembers_le_iff.2 fun m hm => (hvalues m hm).2)⟩
    · rintro ⟨hstrict, hdepth⟩
      cases n with
      | zero => exact absurd hdepth (Nat.not_succ_le_zero _)
      | succ n =>
        have hvalues := depthMembers_le_iff.1 (Nat.le_of_succ_le_succ hdepth)
        exact .object (fun m hm => Quoted.isSome_text?_iff.1 (hstrict m hm).1) fun m hm =>
          (ih m hm).2 ⟨(hstrict m hm).2, hvalues m hm⟩

theorem parseStrict?_eq_some_iff {text : String} {j : Json} :
    parseStrict? text = some j ↔ Spells text j ∧ Admissible 127 j := by
  rw [parseStrict?, Option.filter_eq_some_iff, parse?_eq_some_iff, admissible_iff,
    Bool.and_eq_true, decide_eq_true_eq]
  rfl

theorem isSome_fields?_iff {members : List (Quoted × Json)} :
    (fields? members).isSome = true ↔ ∀ m ∈ members, ∃ cs, m.1.Means cs := by
  induction members with
  | nil => simp [fields?]
  | cons m members ih =>
    have hcons : fields? (m :: members) = (m.1.text?.map (·, m.2)).bind fun field =>
        (fields? members).bind fun fields => some (field :: fields) := List.mapM_cons
    rw [List.forall_mem_cons, ← ih, ← Quoted.isSome_text?_iff, hcons]
    cases m.1.text? with
    | none => simp
    | some name => cases fields? members <;> simp

section

variable {name : String} {q : Quoted} {v : Json} {ms ns : List (Quoted × Json)}

theorem any_contains_iff : q.text?.any [name].contains = true ↔ q.Means name.toList := by
  rw [← Quoted.text?_eq_some_iff]
  cases q.text? <;> simp

theorem valuesUnder_cons_of_means (h : q.Means name.toList) :
    valuesUnder [name] (.object ((q, v) :: ms)) = v :: valuesUnder [name] (.object ms) := by
  rw [valuesUnder, members, List.filter_cons, if_pos (any_contains_iff.2 h), List.map_cons]
  rfl

theorem valuesUnder_cons_of_not_means (h : ¬q.Means name.toList) :
    valuesUnder [name] (.object ((q, v) :: ms)) = valuesUnder [name] (.object ms) := by
  rw [valuesUnder, members, List.filter_cons, if_neg (mt any_contains_iff.1 h)]
  rfl

theorem valuesUnder_eq_nil (h : ∀ m ∈ ms, ¬m.1.Means name.toList) :
    valuesUnder [name] (.object ms) = [] := by
  induction ms with
  | nil => rfl
  | cons m ms ih =>
    rw [valuesUnder_cons_of_not_means (h m List.mem_cons_self)]
    exact ih fun n hn => h n (.tail m hn)

theorem valuesUnder_perm (names : List String) (h : ms.Perm ns) :
    (valuesUnder names (.object ms)).Perm (valuesUnder names (.object ns)) :=
  (h.filter _).map _

end

end Cardroom.Json
