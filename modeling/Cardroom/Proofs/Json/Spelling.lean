import Cardroom.Proofs.Json.Doubles
import Cardroom.Proofs.Json.Grammar
import Cardroom.Proofs.Json.Records

namespace Cardroom.Json

theorem isHex_hexChar (n : Nat) : IsHex (Piece.hexChar (n % 16)) (n % 16) :=
  ⟨Nat.mod_lt n (by decide), .inl rfl⟩

theorem ofUnit_toNat {c : Char} (h : c.toNat < 32) : Piece.ofUnit c.toNat = .char c := by
  have hhigh : Quoted.isHigh c.toNat = false := by simp [Quoted.isHigh]; omega
  have hlow : Quoted.isLow c.toNat = false := by simp [Quoted.isLow]; omega
  rw [Piece.ofUnit, hhigh, hlow, Char.ofNat_toNat]
  rfl

theorem spelled_unitSpelling {n : Nat} (h : n < 65536) :
    (Piece.ofUnit n).Spelled (Piece.unitSpelling n) := by
  have hsum : ((n / 4096 % 16 * 16 + n / 256 % 16) * 16 + n / 16 % 16) * 16 + n % 16 = n := by omega
  have hunit := Piece.Spelled.unit (isHex_hexChar (n / 4096)) (isHex_hexChar (n / 256))
    (isHex_hexChar (n / 16)) (isHex_hexChar n)
  rwa [hsum] at hunit

theorem spelled_char (c : Char) : (Piece.char c).Spelled (Piece.char c).spelling := by
  simp only [Piece.spelling]
  split
  · subst_vars; exact .escape (by decide)
  split
  · subst_vars; exact .escape (by decide)
  split
  · subst_vars; exact .escape (by decide)
  split
  · subst_vars; exact .escape (by decide)
  split
  · subst_vars; exact .escape (by decide)
  split
  · subst_vars; exact .escape (by decide)
  split
  · subst_vars; exact .escape (by decide)
  split
  · rename_i hcontrol
    have hunit := spelled_unitSpelling (n := c.toNat) (by omega)
    rwa [ofUnit_toNat hcontrol] at hunit
  · rename_i hquote hslash _ _ _ _ _ hcontrol
    exact .plain hquote hslash (Nat.not_lt.1 hcontrol)

theorem spelled_ofText (s : String) : (Quoted.ofText s).Spelled (Quoted.ofText s).spelling := by
  unfold Quoted.ofText
  induction s.toList with
  | nil => exact .nil
  | cons c cs ih => exact .cons (spelled_char c) ih

theorem head?_toDigits {n : Nat} (h : 0 < n) : (Nat.toDigits 10 n).head? ≠ some '0' := by
  induction n using Nat.strongRecOn with
  | ind n ih =>
    rw [Nat.toDigits_eq_if (by decide)]
    split
    · simp only [List.head?_cons, ne_eq, Option.some.injEq, Nat.digitChar_eq_zero]
      omega
    · have hdiv := ih (n / 10) (by omega) (by omega)
      cases hds : Nat.toDigits 10 (n / 10) with
      | nil => exact absurd hds Nat.toDigits_ne_nil
      | cons d ds => rwa [hds] at hdiv

theorem whole_toDigits (n : Nat) : Number.Whole (Nat.toDigits 10 n) := by
  rcases Nat.eq_zero_or_pos n with rfl | hpos
  · exact .inl rfl
  · refine .inr ⟨⟨Nat.toDigits_ne_nil, fun d hd => ?_⟩, head?_toDigits hpos⟩
    exact Nat.isDigit_of_mem_toDigits (by decide) (by decide) hd

theorem spelling_ofInt (i : Int) :
    (Number.ofInt i).spelling =
      if i < 0 then '-' :: Nat.toDigits 10 i.natAbs else Nat.toDigits 10 i.natAbs := by
  by_cases hneg : i < 0 <;> simp [Number.spelling, Number.ofInt, hneg]

theorem spelled_ofInt (i : Int) : (Number.ofInt i).Spelled (Number.ofInt i).spelling := by
  have h := Number.Spelled.parts (n := .ofInt i) (whole_toDigits i.natAbs) .absent .absent
  rw [spelling_ofInt]
  by_cases hneg : i < 0
  · simpa [Number.ofInt, hneg] using h
  · simpa [Number.ofInt, hneg] using h

theorem mem_tokensItems {t : Token} {js : List Json} (h : t ∈ tokensItems js) :
    t.isMark = true ∨ ∃ j ∈ js, t ∈ j.tokens := by
  induction js with
  | nil => cases h
  | cons j js ih =>
    cases js with
    | nil => exact .inr ⟨j, List.mem_cons_self, h⟩
    | cons k js =>
      rcases List.mem_append.1 h with hj | hrest
      · exact .inr ⟨j, List.mem_cons_self, hj⟩
      rcases List.mem_cons.1 hrest with rfl | hks
      · exact .inl rfl
      rcases ih hks with hmark | ⟨i, hi, hmem⟩
      · exact .inl hmark
      · exact .inr ⟨i, List.mem_cons_of_mem j hi, hmem⟩

theorem mem_tokensMembers {t : Token} {ms : List (Quoted × Json)} (h : t ∈ tokensMembers ms) :
    t.isMark = true ∨ ∃ m ∈ ms, t = .text m.1 ∨ t ∈ m.2.tokens := by
  induction ms with
  | nil => cases h
  | cons m ms ih =>
    have hhead : t ∈ .text m.1 :: .colon :: m.2.tokens →
        t.isMark = true ∨ ∃ n ∈ m :: ms, t = .text n.1 ∨ t ∈ n.2.tokens := by
      intro hmem
      rcases List.mem_cons.1 hmem with rfl | hmem
      · exact .inr ⟨m, List.mem_cons_self, .inl rfl⟩
      rcases List.mem_cons.1 hmem with rfl | hmem
      · exact .inl rfl
      · exact .inr ⟨m, List.mem_cons_self, .inr hmem⟩
    cases ms with
    | nil => exact hhead h
    | cons n ms =>
      have hsplit : tokensMembers (m :: n :: ms) =
          (.text m.1 :: .colon :: m.2.tokens) ++ .comma :: tokensMembers (n :: ms) := rfl
      rw [hsplit] at h
      rcases List.mem_append.1 h with hm | hrest
      · exact hhead hm
      rcases List.mem_cons.1 hrest with rfl | hms
      · exact .inl rfl
      rcases ih hms with hmark | ⟨i, hi, hmem⟩
      · exact .inl hmark
      · exact .inr ⟨i, List.mem_cons_of_mem m hi, hmem⟩

theorem words_of_spelling {ts : List Token} (h : ∀ t ∈ ts, t.Spelled t.spelling) :
    Words ts (ts.flatMap Token.spelling) := by
  induction ts with
  | nil => exact .nil .nil
  | cons t ts ih =>
    exact .cons .nil (h t List.mem_cons_self) (ih fun u hu => h u (List.mem_cons_of_mem t hu))

def Printable (cs : List Char) : Prop := ∀ c ∈ cs, 0x20 ≤ c.toNat

instance (cs : List Char) : Decidable (Printable cs) :=
  List.decidableBAll (fun c : Char => 0x20 ≤ c.toNat) cs

namespace Printable

variable {cs ds : List Char}

theorem append (hcs : Printable cs) (hds : Printable ds) : Printable (cs ++ ds) :=
  List.forall_mem_append.2 ⟨hcs, hds⟩

theorem piece {p : Piece} (h : p.Spelled cs) : Printable cs := by
  have hhex : ∀ {c n}, IsHex c n → 0x20 ≤ c.toNat := by
    intro c n hc
    have hall : ∀ m : Fin 16, 0x20 ≤ (Nat.digitChar m).toNat ∧
        0x20 ≤ (Nat.digitChar m).toUpper.toNat := by decide
    rcases hc with ⟨hn, rfl | rfl⟩
    · exact (hall ⟨n, hn⟩).1
    · exact (hall ⟨n, hn⟩).2
  cases h with
  | plain _ _ hcontrol => exact List.forall_mem_singleton.2 hcontrol
  | escape h =>
    have hall : ∀ x ∈ Piece.escapes, 0x20 ≤ x.1.toNat := by decide
    exact List.forall_mem_cons.2 ⟨by decide, List.forall_mem_singleton.2 (hall _ h)⟩
  | unit ha hb hc hd =>
    intro c hmem
    simp only [List.mem_cons, List.not_mem_nil, or_false] at hmem
    rcases hmem with rfl | rfl | rfl | rfl | rfl | rfl
    · decide
    · decide
    · exact hhex ha
    · exact hhex hb
    · exact hhex hc
    · exact hhex hd

theorem quoted {q : Quoted} (h : q.Spelled cs) : Printable cs := by
  induction h with
  | nil => decide
  | cons hp _ ih => exact (piece hp).append ih

theorem digits (h : Number.Digits cs) : Printable cs := fun c hc =>
  Nat.le_trans (by decide) (Char.isDigit_iff_toNat.1 (h.2 c hc)).1

theorem whole (h : Number.Whole cs) : Printable cs := by
  rcases h with rfl | ⟨h, _⟩
  · decide
  · exact digits h

theorem fraction (h : Number.FractionSpelled ds cs) : Printable cs := by
  cases h with
  | absent => decide
  | point h => exact List.forall_mem_cons.2 ⟨by decide, digits h⟩

theorem exponent {e : Option Exponent} (h : Number.ExponentSpelled e cs) : Printable cs := by
  cases h with
  | absent => decide
  | present hletter hsign h =>
    refine List.forall_mem_cons.2 ⟨?_, append ?_ (digits h)⟩
    · rcases hletter with rfl | rfl <;> decide
    · cases hsign <;> decide

theorem number {n : Number} (h : n.Spelled cs) : Printable cs := by
  cases h with
  | parts hwhole hfraction hexponent =>
    refine append ?_ ((whole hwhole).append ((fraction hfraction).append (exponent hexponent)))
    cases n.negative <;> decide

theorem word {t : Token} (h : t.Spelled cs) : Printable cs := by
  match t with
  | .number n => exact number h
  | .text q =>
    obtain ⟨ds, hq, rfl⟩ := h
    exact List.forall_mem_cons.2 ⟨by decide, (quoted hq).append (by decide)⟩
  | .bool b =>
    subst h
    cases b <;> decide
  | .leftBracket | .rightBracket | .leftBrace | .rightBrace | .colon | .comma | .null =>
    subst h
    decide

end Printable

/-- Documents whose strings consist of characters and whose numbers are integers of sixty-four
bits. -/
inductive Plain : Json → Prop where
  | null : Plain .null
  | bool (b : Bool) : Plain (.bool b)
  | ofInt {i : Int} (h : i.natAbs < UInt64.size) : Plain (.ofInt i)
  | ofText (s : String) : Plain (.ofText s)
  | array {items : List Json} (h : ∀ j ∈ items, Plain j) : Plain (.array items)
  | record {fields : List (String × Json)} (h : ∀ f ∈ fields, Plain f.2) : Plain (.record fields)

namespace Plain

variable {j : Json}

theorem spelled (hj : Plain j) : ∀ t ∈ j.tokens, t.Spelled t.spelling := by
  have hsingle : ∀ {u : Token}, u.Spelled u.spelling → ∀ t ∈ [u], t.Spelled t.spelling :=
    fun hu => List.forall_mem_singleton.2 hu
  have henclosed : ∀ {l r : Token} {ts : List Token}, l.isMark = true → r.isMark = true →
      (∀ t ∈ ts, t.Spelled t.spelling) → ∀ t ∈ l :: (ts ++ [r]), t.Spelled t.spelling :=
    fun hl hr hts => List.forall_mem_cons.2
      ⟨.of_isMark hl, List.forall_mem_append.2 ⟨hts, hsingle (.of_isMark hr)⟩⟩
  induction hj with
  | null => exact hsingle rfl
  | bool b => exact hsingle rfl
  | @ofInt i h => exact hsingle (spelled_ofInt i)
  | ofText s => exact hsingle ⟨_, spelled_ofText s, rfl⟩
  | array h ih =>
    refine henclosed rfl rfl fun t ht => ?_
    rcases mem_tokensItems ht with hmark | ⟨j, hj, hmem⟩
    · exact .of_isMark hmark
    · exact ih j hj t hmem
  | record h ih =>
    refine henclosed rfl rfl fun t ht => ?_
    rcases mem_tokensMembers ht with hmark | ⟨m, hm, hmem⟩
    · exact .of_isMark hmark
    obtain ⟨f, hf, rfl⟩ := List.mem_map.1 hm
    rcases hmem with rfl | hmem
    · exact ⟨_, spelled_ofText f.1, rfl⟩
    · exact ih f hf t hmem

theorem spells_render (hj : Plain j) : Spells j.render j := by
  rw [Spells, render, String.toList_ofList]
  exact words_of_spelling hj.spelled

/-- A document that was written is read as it was. -/
theorem parse?_render (hj : Plain j) : parse? j.render = some j :=
  parse?_eq_some_iff.2 hj.spells_render

theorem isStrict (hj : Plain j) : j.isStrict = true := by
  induction hj with
  | null => rfl
  | bool b => rfl
  | ofInt h => exact Number.isFinite_ofInt h
  | ofText s => rw [Json.ofText, Json.isStrict, Quoted.text?_ofText]; rfl
  | array h ih => rwa [Json.isStrict, isStrictItems_iff]
  | record h ih =>
    rw [Json.record, Json.isStrict, isStrictMembers_iff]
    refine List.forall_mem_map.2 fun f hf => ⟨?_, ih f hf⟩
    rw [Quoted.text?_ofText]
    rfl

theorem parseStrict?_render (hj : Plain j) (hdepth : j.depth ≤ depthLimit) :
    parseStrict? j.render = some j := by
  rw [parseStrict?, hj.parse?_render, Option.filter_some, if_pos (by simp [hj.isStrict, hdepth])]

theorem le_of_mem_render (hj : Plain j) {c : Char} (hc : c ∈ j.render.toList) :
    32 ≤ c.toNat := by
  rw [render, String.toList_ofList] at hc
  obtain ⟨t, ht, hmem⟩ := List.mem_flatMap.1 hc
  exact Printable.word (hj.spelled t ht) c hmem

end Plain

end Cardroom.Json
