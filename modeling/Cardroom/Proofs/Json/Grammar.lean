import Cardroom.Json.Strict
import Mathlib.Data.List.Chain
/-!
The grammar of JSON texts, stated without a reader: how a string, a number and a word may be
spelled, and that a text spells a document if it consists of the document's words, in their order,
with blanks between them. The reader accepts just these texts (`Json.parse?_eq_some_iff`): a word
ends where the next one can begin, so there is one way to cut a text, and the stack of what is
still open holds what has been heard.
-/

namespace Cardroom.Json

/-! ### The grammar -/

def Blanks (cs : List Char) : Prop := ∀ c ∈ cs, c ∈ [' ', '\t', '\n', '\r']

def IsHex (c : Char) (n : Nat) : Prop :=
  n < 16 ∧ (c = Nat.digitChar n ∨ c = (Nat.digitChar n).toUpper)

instance (c : Char) (n : Nat) : Decidable (IsHex c n) := inferInstanceAs (Decidable (_ ∧ _))

/-- What may follow a backslash, and the character that it then stands for. -/
def Piece.escapes : List (Char × Char) :=
  [('"', '"'), ('\\', '\\'), ('/', '/'), ('b', '\x08'), ('f', '\x0c'), ('n', '\n'), ('r', '\r'),
    ('t', '\t')]

inductive Piece.Spelled : Piece → List Char → Prop where
  | plain {c : Char} (hquote : c ≠ '"') (hslash : c ≠ '\\') (hcontrol : 0x20 ≤ c.toNat) :
    Spelled (.char c) [c]
  | escape {e c : Char} (h : (e, c) ∈ escapes) : Spelled (.char c) ['\\', e]
  | unit {a b c d : Char} {k l m n : Nat} (ha : IsHex a k) (hb : IsHex b l) (hc : IsHex c m)
    (hd : IsHex d n) :
    Spelled (.ofUnit (((k * 16 + l) * 16 + m) * 16 + n)) ['\\', 'u', a, b, c, d]

inductive Quoted.Spelled : Quoted → List Char → Prop where
  | nil : Spelled [] []
  | cons {p : Piece} {q : Quoted} {cs ds : List Char} (hp : p.Spelled cs) (hq : Spelled q ds) :
    Spelled (p :: q) (cs ++ ds)

namespace Number

def Digits (ds : List Char) : Prop := ds ≠ [] ∧ ∀ d ∈ ds, d.isDigit = true

def Whole (ds : List Char) : Prop := ds = ['0'] ∨ Digits ds ∧ ds.head? ≠ some '0'

inductive FractionSpelled : List Char → List Char → Prop where
  | absent : FractionSpelled [] []
  | point {ds : List Char} (h : Digits ds) : FractionSpelled ds ('.' :: ds)

inductive SignSpelled : Bool → List Char → Prop where
  | absent : SignSpelled false []
  | plus : SignSpelled false ['+']
  | minus : SignSpelled true ['-']

inductive ExponentSpelled : Option Exponent → List Char → Prop where
  | absent : ExponentSpelled none []
  | present {letter : Char} {negative : Bool} {sign ds : List Char}
    (hletter : letter = 'e' ∨ letter = 'E') (hsign : SignSpelled negative sign) (h : Digits ds) :
    ExponentSpelled (some ⟨negative, ds⟩) (letter :: (sign ++ ds))

inductive Spelled (n : Number) : List Char → Prop where
  | parts {fraction exponent : List Char} (hwhole : Whole n.whole)
    (hfraction : FractionSpelled n.fraction fraction)
    (hexponent : ExponentSpelled n.exponent exponent) :
    Spelled n ((if n.negative then ['-'] else []) ++ (n.whole ++ (fraction ++ exponent)))

end Number

namespace Token

def Spelled : Token → List Char → Prop
  | .number n, cs => n.Spelled cs
  | .text q, cs => ∃ ds, q.Spelled ds ∧ cs = '"' :: (ds ++ ['"'])
  | t, cs => cs = t.spelling

def isMark : Token → Bool
  | .leftBracket | .rightBracket | .leftBrace | .rightBrace | .colon | .comma => true
  | _ => false

end Token

/-- A text that consists of these words, with blanks before, between and after them. -/
inductive Words : List Token → List Char → Prop where
  | nil {blanks : List Char} (h : Blanks blanks) : Words [] blanks
  | cons {t : Token} {ts : List Token} {blanks word rest : List Char} (h : Blanks blanks)
    (hword : t.Spelled word) (hrest : Words ts rest) : Words (t :: ts) (blanks ++ (word ++ rest))

def Spells (text : String) (j : Json) : Prop := Words j.tokens text.toList

/-! ### Strings -/

theorem exists_between {first last c : Char}
    (h : (decide (first ≤ c) && decide (c ≤ last)) = true) :
    ∃ k, k < last.toNat - first.toNat + 1 ∧ c.toNat - first.toNat = k ∧
      c = Char.ofNat (first.toNat + k) := by
  simp only [Bool.and_eq_true, decide_eq_true_eq] at h
  have hfirst : first.toNat ≤ c.toNat := Char.le_def.1 h.1
  have hlast : c.toNat ≤ last.toNat := Char.le_def.1 h.2
  refine ⟨c.toNat - first.toNat, by omega, rfl, ?_⟩
  rw [Nat.add_sub_of_le hfirst, Char.ofNat_toNat]

theorem isHex_of_hexDigit? {c : Char} {n : Nat} (h : hexDigit? c = some n) : IsHex c n := by
  unfold hexDigit? at h
  split at h
  · rename_i hc
    cases h
    obtain ⟨k, hk, hvalue, hchar⟩ := exists_between hc
    have hall : ∀ k : Fin 10, IsHex (Char.ofNat ('0'.toNat + k)) k := by decide
    rw [hvalue, hchar]
    exact hall ⟨k, hk⟩
  split at h
  · rename_i hc
    cases h
    obtain ⟨k, hk, hvalue, hchar⟩ := exists_between hc
    have hall : ∀ k : Fin 6, IsHex (Char.ofNat ('a'.toNat + k)) (k + 10) := by decide
    rw [hvalue, hchar]
    exact hall ⟨k, hk⟩
  split at h
  · rename_i hc
    cases h
    obtain ⟨k, hk, hvalue, hchar⟩ := exists_between hc
    have hall : ∀ k : Fin 6, IsHex (Char.ofNat ('A'.toNat + k)) (k + 10) := by decide
    rw [hvalue, hchar]
    exact hall ⟨k, hk⟩
  · cases h

theorem hexDigit?_of_isHex {c : Char} {n : Nat} (h : IsHex c n) : hexDigit? c = some n := by
  obtain ⟨hn, rfl | rfl⟩ := h
  · have hall : ∀ m : Fin 16, hexDigit? (Nat.digitChar m) = some m.val := by decide
    exact hall ⟨n, hn⟩
  · have hall : ∀ m : Fin 16, hexDigit? (Nat.digitChar m).toUpper = some m.val := by decide
    exact hall ⟨n, hn⟩

theorem hexDigit?_eq_some_iff {c : Char} {n : Nat} : hexDigit? c = some n ↔ IsHex c n :=
  ⟨isHex_of_hexDigit?, hexDigit?_of_isHex⟩

theorem hexUnit?_eq_some_iff {a b c d : Char} {u : Nat} : hexUnit? a b c d = some u ↔
    ∃ k l m n, IsHex a k ∧ IsHex b l ∧ IsHex c m ∧ IsHex d n ∧
      u = ((k * 16 + l) * 16 + m) * 16 + n := by
  simp only [hexUnit?, Option.bind_eq_bind, Option.bind_eq_some_iff, Option.pure_def,
    hexDigit?_eq_some_iff, Option.some.injEq]
  constructor
  · rintro ⟨k, ha, l, hb, m, hc, n, hd, rfl⟩
    exact ⟨k, l, m, n, ha, hb, hc, hd, rfl⟩
  · rintro ⟨k, l, m, n, ha, hb, hc, hd, rfl⟩
    exact ⟨k, ha, l, hb, m, hc, n, hd, rfl⟩

theorem Piece.ofEscape?_eq_some_iff {e : Char} {p : Piece} :
    ofEscape? e = some p ↔ ∃ c, (e, c) ∈ escapes ∧ p = .char c := by
  constructor
  · intro h
    unfold ofEscape? at h
    split at h <;> cases h <;> exact ⟨_, by decide, rfl⟩
  · rintro ⟨c, hmem, rfl⟩
    have hall : ∀ x ∈ escapes, ofEscape? x.1 = some (.char x.2) := by decide
    exact hall _ hmem

/-- A piece is taken off the front whatever comes after it. -/
theorem Quoted.read?_piece {p : Piece} {cs : List Char} (h : p.Spelled cs) (r : List Char) :
    read? (cs ++ r) = (read? r).map fun x => (p :: x.1, x.2) := by
  have hbind : ∀ p : Piece, ((read? r).bind fun x => some (p :: x.1, x.2)) =
      (read? r).map fun x => (p :: x.1, x.2) := fun p => by
    cases read? r <;> rfl
  cases h with
  | @plain c hquote hslash hcontrol =>
    have hplain : ¬(c = '\\' || decide (c.toNat < 32)) = true := by
      simp [hslash, Nat.not_lt.2 hcontrol]
    rw [List.singleton_append, read?]
    · exact (if_neg hplain).trans (hbind _)
    all_goals simp [hquote, hslash]
  | @escape e c h =>
    have hletter : e ≠ 'u' := by
      rintro rfl
      simp [Piece.escapes] at h
    have hquote : ('\\' : Char) ≠ '"' := by decide
    rw [List.cons_append, List.singleton_append, read?]
    · rw [Piece.ofEscape?_eq_some_iff.2 ⟨c, h, rfl⟩]
      exact hbind _
    · simp [hletter]
  | unit ha hb hc hd =>
    have hunit := hexUnit?_eq_some_iff.2 ⟨_, _, _, _, ha, hb, hc, hd, rfl⟩
    simp only [List.cons_append, List.nil_append]
    rw [read?, hunit]
    exact hbind _

theorem Quoted.Spelled.read? {q : Quoted} {cs : List Char} (h : q.Spelled cs) (r : List Char) :
    Quoted.read? (cs ++ '"' :: r) = some (q, r) := by
  induction h with
  | nil => rfl
  | cons hp _ ih =>
    rw [List.append_assoc, read?_piece hp, ih]
    rfl

/-- What the reader has taken off a text is spelled there, up to the closing quotation mark. -/
theorem Quoted.spelled_of_read? {cs r : List Char} {q : Quoted} (h : read? cs = some (q, r)) :
    ∃ ds, q.Spelled ds ∧ cs = ds ++ '"' :: r := by
  fun_induction read? cs generalizing q r with
  | case1 => cases h
  | case2 t =>
    cases h
    exact ⟨[], .nil, rfl⟩
  | case3 a b c d t ih =>
    simp only [Option.bind_eq_bind, Option.bind_eq_some_iff, Option.pure_def] at h
    obtain ⟨unit, hunit, ⟨q', r'⟩, hread, h⟩ := h
    cases h
    obtain ⟨k, l, m, n, ha, hb, hc, hd, rfl⟩ := hexUnit?_eq_some_iff.1 hunit
    obtain ⟨ds, hq, rfl⟩ := ih hread
    exact ⟨_, .cons (.unit ha hb hc hd) hq, rfl⟩
  | case4 e t _ ih =>
    simp only [Option.bind_eq_bind, Option.bind_eq_some_iff, Option.pure_def] at h
    obtain ⟨p, hp, ⟨q', r'⟩, hread, h⟩ := h
    cases h
    obtain ⟨c, hc, rfl⟩ := Piece.ofEscape?_eq_some_iff.1 hp
    obtain ⟨ds, hq, rfl⟩ := ih hread
    exact ⟨_, .cons (.escape hc) hq, rfl⟩
  | case5 => cases h
  | case6 c t hquote _ _ hplain ih =>
    simp only [Option.bind_eq_bind, Option.bind_eq_some_iff, Option.pure_def] at h
    obtain ⟨⟨q', r'⟩, hread, h⟩ := h
    cases h
    obtain ⟨ds, hq, rfl⟩ := ih hread
    simp only [Bool.or_eq_true, decide_eq_true_eq, not_or, Nat.not_lt] at hplain
    exact ⟨_, .cons (.plain hquote hplain.1 hplain.2) hq, rfl⟩

/-! ### Numbers -/

def NoDigit (r : List Char) : Prop := ∀ c ∈ r.head?, c.isDigit = false

def Ends (r : List Char) : Prop :=
  ∀ c ∈ r.head?, c.isDigit = false ∧ c ≠ '.' ∧ c ≠ 'e' ∧ c ≠ 'E'

theorem Ends.nil : Ends [] := by
  intro c h
  cases h

theorem Ends.noDigit {r : List Char} (h : Ends r) : NoDigit r := fun c hc => (h c hc).1

theorem ne_of_isDigit {c d : Char} (hc : c.isDigit = true) (hd : d.isDigit = false) : c ≠ d := by
  intro h
  rw [h, hd] at hc
  cases hc

namespace Number

variable {cs ds r : List Char}

theorem takeWhile_digits (hds : ∀ d ∈ ds, d.isDigit = true) (hr : NoDigit r) :
    (ds ++ r).takeWhile Char.isDigit = ds ∧ (ds ++ r).dropWhile Char.isDigit = r := by
  have hnone : r.takeWhile Char.isDigit = [] ∧ r.dropWhile Char.isDigit = r := by
    cases r with
    | nil => exact ⟨rfl, rfl⟩
    | cons c r =>
      have hc := hr c rfl
      simp [hc]
  rw [List.takeWhile_append_of_pos hds, List.dropWhile_append_of_pos hds, hnone.1, hnone.2]
  exact ⟨List.append_nil ds, rfl⟩

theorem Digits.read? (h : Digits ds) (hr : NoDigit r) : readDigits? (ds ++ r) = some (ds, r) := by
  obtain ⟨htake, hdrop⟩ := takeWhile_digits h.2 hr
  rw [readDigits?, htake, hdrop]
  cases ds with
  | nil => exact absurd rfl h.1
  | cons d ds => rfl

theorem digits_of_readDigits? (h : readDigits? cs = some (ds, r)) : Digits ds ∧ cs = ds ++ r := by
  unfold readDigits? at h
  split at h
  · cases h
  · rename_i d ds htake
    cases h
    refine ⟨⟨List.cons_ne_nil d ds, fun e he => ?_⟩, ?_⟩
    · rw [← htake] at he
      exact List.all_eq_true.1 List.all_takeWhile e he
    · rw [← htake, List.takeWhile_append_dropWhile]

theorem Whole.read? (h : Whole ds) (hr : NoDigit r) : readWhole? (ds ++ r) = some (ds, r) := by
  rcases h with rfl | ⟨⟨hne, hdigits⟩, hzero⟩
  · rfl
  · cases ds with
    | nil => exact absurd rfl hne
    | cons d ds =>
      obtain ⟨htake, hdrop⟩ := takeWhile_digits (fun e he => hdigits e (.tail d he)) hr
      rw [List.cons_append, readWhole?]
      · rw [if_pos (hdigits d List.mem_cons_self), htake, hdrop]
      · rintro rfl
        exact hzero rfl

theorem whole_of_readWhole? (h : readWhole? cs = some (ds, r)) : Whole ds ∧ cs = ds ++ r := by
  unfold readWhole? at h
  split at h
  · cases h
    exact ⟨.inl rfl, rfl⟩
  · rename_i d t hzero
    split at h
    · rename_i hd
      cases h
      refine ⟨.inr ⟨⟨List.cons_ne_nil d _, fun e he => ?_⟩, ?_⟩, ?_⟩
      · rcases List.mem_cons.1 he with rfl | he
        · exact hd
        · exact List.all_eq_true.1 List.all_takeWhile e he
      · rintro ⟨rfl⟩
        exact hzero rfl
      · rw [List.cons_append, List.takeWhile_append_dropWhile]
    · cases h
  · cases h

theorem FractionSpelled.read? {fraction : List Char} (h : FractionSpelled ds fraction)
    (hr : NoDigit r) (hpoint : r.head? ≠ some '.') :
    readFraction? (fraction ++ r) = some (ds, r) := by
  cases h with
  | absent =>
    rw [List.nil_append, readFraction?]
    rintro t rfl
    exact hpoint rfl
  | point h => exact h.read? hr

theorem fractionSpelled_of_read? (h : readFraction? cs = some (ds, r)) :
    ∃ fraction, FractionSpelled ds fraction ∧ cs = fraction ++ r := by
  unfold readFraction? at h
  split at h
  · obtain ⟨hdigits, rfl⟩ := digits_of_readDigits? h
    exact ⟨_, .point hdigits, rfl⟩
  · cases h
    exact ⟨[], .absent, rfl⟩

theorem SignSpelled.read {negative : Bool} {sign : List Char} (h : SignSpelled negative sign)
    (hds : Digits ds) : readSign (sign ++ (ds ++ r)) = (negative, ds ++ r) := by
  cases h with
  | plus | minus => rfl
  | absent =>
    cases ds with
    | nil => exact absurd rfl hds.1
    | cons d ds =>
      have hd := hds.2 d List.mem_cons_self
      rw [List.nil_append, List.cons_append, readSign]
      all_goals
        rintro t ⟨rfl⟩
        exact absurd hd (by decide)

theorem signSpelled_readSign (cs : List Char) :
    ∃ sign, SignSpelled (readSign cs).1 sign ∧ cs = sign ++ (readSign cs).2 := by
  unfold readSign
  split
  · exact ⟨_, .minus, rfl⟩
  · exact ⟨_, .plus, rfl⟩
  · exact ⟨_, .absent, rfl⟩

theorem ExponentSpelled.read? {e : Option Exponent} {exponent : List Char}
    (h : ExponentSpelled e exponent) (hr : Ends r) :
    readExponent? (exponent ++ r) = some (e, r) := by
  cases h with
  | absent =>
    cases r with
    | nil => rfl
    | cons c r =>
      obtain ⟨_, _, hlower, hupper⟩ := hr c rfl
      rw [List.nil_append, readExponent?, if_neg (by simp [hlower, hupper])]
  | present hletter hsign hdigits =>
    rw [List.cons_append, List.append_assoc, readExponent?, if_pos (by simpa using hletter),
      hsign.read hdigits]
    simp only [hdigits.read? hr.noDigit, Option.bind_eq_bind, Option.bind_some, Option.pure_def]

theorem exponentSpelled_of_read? {e : Option Exponent} (h : readExponent? cs = some (e, r)) :
    ∃ exponent, ExponentSpelled e exponent ∧ cs = exponent ++ r := by
  unfold readExponent? at h
  split at h
  · rename_i c t
    split at h
    · rename_i hletter
      simp only [Option.bind_eq_bind, Option.bind_eq_some_iff, Option.pure_def] at h
      obtain ⟨⟨ds, u⟩, hread, h⟩ := h
      cases h
      obtain ⟨sign, hsign, hsplit⟩ := signSpelled_readSign t
      obtain ⟨hdigits, hrest⟩ := digits_of_readDigits? hread
      refine ⟨c :: (sign ++ ds), .present (by simpa using hletter) hsign hdigits, ?_⟩
      rw [hsplit, hrest, List.cons_append, List.append_assoc]
    · cases h
      exact ⟨[], .absent, rfl⟩
  · cases h
    exact ⟨[], .absent, rfl⟩

theorem ExponentSpelled.head? {e : Option Exponent} {exponent : List Char}
    (h : ExponentSpelled e exponent) (hr : Ends r) :
    NoDigit (exponent ++ r) ∧ (exponent ++ r).head? ≠ some '.' := by
  cases h with
  | absent => exact ⟨hr.noDigit, fun hpoint => (hr '.' hpoint).2.1 rfl⟩
  | present hletter =>
    refine ⟨?_, ?_⟩
    · rintro c ⟨rfl⟩
      rcases hletter with rfl | rfl <;> rfl
    · rintro ⟨rfl⟩
      rcases hletter with h | h <;> exact absurd h (by decide)

theorem FractionSpelled.noDigit {fraction : List Char} (h : FractionSpelled ds fraction)
    (hr : NoDigit r) : NoDigit (fraction ++ r) := by
  cases h with
  | absent => exact hr
  | point =>
    rintro c ⟨rfl⟩
    rfl

theorem Whole.head? (h : Whole ds) : ∃ d t, ds = d :: t ∧ d.isDigit = true := by
  rcases h with rfl | ⟨⟨hne, hdigits⟩, _⟩
  · exact ⟨'0', [], rfl, rfl⟩
  · obtain ⟨d, t, rfl⟩ := List.exists_cons_of_ne_nil hne
    exact ⟨d, t, rfl, hdigits d List.mem_cons_self⟩

theorem Spelled.read? {n : Number} (h : n.Spelled cs) (hr : Ends r) :
    Number.read? (cs ++ r) = some (n, r) := by
  obtain ⟨negative, whole, ds, e⟩ := n
  cases h with
  | @parts fraction exponent hwhole hfraction hexponent =>
    obtain ⟨hdigit, hpoint⟩ := hexponent.head? hr
    have hunsigned : readUnsigned? negative (whole ++ (fraction ++ (exponent ++ r))) =
        some (⟨negative, whole, ds, e⟩, r) := by
      simp only [readUnsigned?, hwhole.read? (hfraction.noDigit hdigit),
        hfraction.read? hdigit hpoint, hexponent.read? hr, Option.bind_eq_bind, Option.bind_some,
        Option.pure_def]
    cases negative with
    | true => simpa [Number.read?] using hunsigned
    | false =>
      obtain ⟨d, t, rfl, hd⟩ := hwhole.head?
      simp only [Bool.false_eq_true, if_false, List.nil_append, List.append_assoc]
      rw [Number.read?, hunsigned]
      rintro u ⟨rfl⟩
      exact absurd hd (by decide)

theorem spelled_of_read? {n : Number} (h : read? cs = some (n, r)) :
    ∃ ds, n.Spelled ds ∧ cs = ds ++ r := by
  have hunsigned : ∀ {negative t}, readUnsigned? negative t = some (n, r) →
      n.negative = negative ∧ ∃ fraction exponent, Whole n.whole ∧
        FractionSpelled n.fraction fraction ∧ ExponentSpelled n.exponent exponent ∧
        t = n.whole ++ (fraction ++ exponent) ++ r := by
    intro negative t h
    simp only [readUnsigned?, Option.bind_eq_bind, Option.bind_eq_some_iff, Option.pure_def] at h
    obtain ⟨⟨w, t'⟩, hw, ⟨f, u⟩, hf, ⟨e, v⟩, he, h⟩ := h
    cases h
    obtain ⟨hwhole, rfl⟩ := whole_of_readWhole? hw
    obtain ⟨fraction, hfraction, hu⟩ := fractionSpelled_of_read? hf
    obtain ⟨exponent, hexponent, hr⟩ := exponentSpelled_of_read? he
    exact ⟨rfl, fraction, exponent, hwhole, hfraction, hexponent, by simp_all⟩
  unfold read? at h
  split at h
  · obtain ⟨hsign, fraction, exponent, hwhole, hfraction, hexponent, rfl⟩ := hunsigned h
    exact ⟨_, .parts hwhole hfraction hexponent, by simp [hsign]⟩
  · obtain ⟨hsign, fraction, exponent, hwhole, hfraction, hexponent, rfl⟩ := hunsigned h
    exact ⟨_, .parts hwhole hfraction hexponent, by simp [hsign]⟩

end Number

/-! ### Words -/

namespace Token

variable {t : Token} {ts : List Token} {cs r : List Char}

theorem Spelled.of_isMark (ht : t.isMark = true) : t.Spelled t.spelling := by
  cases t <;> cases ht <;> rfl

theorem Spelled.eq_of_isMark (h : t.Spelled cs) (ht : t.isMark = true) : cs = t.spelling := by
  cases t <;> cases ht <;> exact h

theorem Spelled.head? (h : t.Spelled cs) : ∃ c ds, cs = c :: ds ∧ isBlank c = false := by
  match t with
  | .number n =>
    cases h with
    | @parts fraction exponent hwhole =>
      obtain ⟨d, ds, hd, hdigit⟩ := hwhole.head?
      rw [hd]
      cases n.negative with
      | true => exact ⟨'-', _, rfl, rfl⟩
      | false => exact ⟨d, _, rfl, by simp [isBlank, ne_of_isDigit hdigit]⟩
  | .text q =>
    obtain ⟨ds, _, rfl⟩ := h
    exact ⟨'"', _, rfl, rfl⟩
  | .bool b =>
    subst h
    cases b <;> exact ⟨_, _, rfl, rfl⟩
  | .leftBracket | .rightBracket | .leftBrace | .rightBrace | .colon | .comma | .null =>
    subst h
    exact ⟨_, _, rfl, rfl⟩

theorem Spelled.ends (h : t.Spelled cs) (ht : t.isMark = true) (r : List Char) :
    Ends (cs ++ r) := by
  rw [h.eq_of_isMark ht]
  intro c hc
  cases t <;> cases ht <;> cases hc <;> decide

theorem read?_of_digit {c : Char} (cs : List Char) (hc : c = '-' ∨ c.isDigit = true) :
    read? (c :: cs) = (Number.read? (c :: cs)).map fun p => (.number p.1, p.2) := by
  have hne : ∀ d : Char, d ≠ '-' → d.isDigit = false → c ≠ d := by
    intro d hminus hd
    rcases hc with rfl | hc
    · exact hminus.symm
    · exact ne_of_isDigit hc hd
  rw [read?]
  all_goals
    intros
    rename_i h
    injection h with hhead _
    exact hne _ (by decide) (by decide) hhead

/-- A word is read to its end, a number only where it does not go on. -/
theorem Spelled.read? (h : t.Spelled cs) (hr : (∀ n, t = .number n → Ends r)) :
    Token.read? (cs ++ r) = some (t, r) := by
  match t with
  | .number n =>
    have hread := Number.Spelled.read? h (hr n rfl)
    obtain ⟨c, ds, rfl, hc⟩ : ∃ c ds, cs = c :: ds ∧ (c = '-' ∨ c.isDigit = true) := by
      cases h with
      | @parts fraction exponent hwhole =>
        obtain ⟨d, ds, hd, hdigit⟩ := hwhole.head?
        rw [hd]
        cases n.negative with
        | true => exact ⟨'-', _, rfl, .inl rfl⟩
        | false => exact ⟨d, _, rfl, .inr hdigit⟩
    rw [List.cons_append] at hread ⊢
    rw [read?_of_digit _ hc, hread]
    rfl
  | .text q =>
    obtain ⟨ds, hq, rfl⟩ := h
    have hread := hq.read? r
    rw [List.cons_append, List.append_assoc, Token.read?, List.singleton_append, hread]
    rfl
  | .bool b =>
    subst h
    cases b <;> rfl
  | .leftBracket | .rightBracket | .leftBrace | .rightBrace | .colon | .comma | .null =>
    subst h
    rfl

theorem spelled_of_read? (h : read? cs = some (t, r)) : ∃ word, t.Spelled word ∧ cs = word ++ r := by
  unfold read? at h
  split at h
  case h_10 =>
    obtain ⟨⟨q, u⟩, hread, h⟩ := Option.map_eq_some_iff.1 h
    cases h
    obtain ⟨ds, hq, rfl⟩ := Quoted.spelled_of_read? hread
    exact ⟨_, ⟨ds, hq, rfl⟩, by simp⟩
  case h_11 =>
    obtain ⟨⟨n, u⟩, hread, h⟩ := Option.map_eq_some_iff.1 h
    cases h
    exact Number.spelled_of_read? hread
  all_goals
    cases h
    exact ⟨_, rfl, rfl⟩

end Token

/-! ### Texts as words -/

theorem isBlank_iff {c : Char} : isBlank c = true ↔ c ∈ [' ', '\t', '\n', '\r'] := by
  simp [isBlank, or_assoc]

theorem Blanks.nil : Blanks [] := fun _ hc => nomatch hc

theorem Words.blank {c : Char} {ts : List Token} {cs : List Char} (hc : isBlank c = true)
    (h : Words ts cs) : Words ts (c :: cs) := by
  have hblanks : ∀ {blanks}, Blanks blanks → Blanks (c :: blanks) := fun hb =>
    List.forall_mem_cons.2 ⟨isBlank_iff.1 hc, hb⟩
  cases h with
  | nil hb => exact .nil (hblanks hb)
  | cons hb hword hrest => exact .cons (hblanks hb) hword hrest

theorem words_of_ofChars? {cs : List Char} {ts : List Token} (h : Token.ofChars? cs = some ts) :
    Words ts cs := by
  fun_induction Token.ofChars? cs generalizing ts with
  | case1 =>
    cases h
    exact .nil .nil
  | case2 c cs hc ih => exact (ih h).blank hc
  | case3 => cases h
  | case4 c cs _ t rest hread ih =>
    obtain ⟨us, hus, rfl⟩ := Option.map_eq_some_iff.1 h
    obtain ⟨word, hword, hsplit⟩ := Token.spelled_of_read? hread
    rw [hsplit]
    exact .cons .nil hword (ih hus)

theorem ofChars?_append_blanks {blanks : List Char} (h : Blanks blanks) (cs : List Char) :
    Token.ofChars? (blanks ++ cs) = Token.ofChars? cs := by
  induction blanks with
  | nil => rfl
  | cons c blanks ih =>
    rw [List.cons_append, Token.ofChars?, if_pos (isBlank_iff.2 (h c List.mem_cons_self)),
      ih fun d hd => h d (.tail c hd)]

theorem ofChars?_append_word {t : Token} {word r : List Char} (hword : t.Spelled word)
    (hr : ∀ n, t = .number n → Ends r) :
    Token.ofChars? (word ++ r) = (Token.ofChars? r).map (t :: ·) := by
  have hread := hword.read? hr
  obtain ⟨c, ds, rfl, hc⟩ := hword.head?
  rw [List.cons_append] at hread ⊢
  rw [Token.ofChars?, hc, if_neg (by decide)]
  split
  · rename_i hnone
    rw [hread] at hnone
    cases hnone
  · rename_i hsome
    rw [hread] at hsome
    cases hsome
    rfl

def Spaced (ts : List Token) : Prop :=
  ts.IsChain fun t u => t.isMark = true ∨ u.isMark = true

theorem Words.ends {ts : List Token} {cs : List Char} (h : Words ts cs)
    (hts : ∀ t ∈ ts.head?, t.isMark = true) : Ends cs := by
  have hblanks : ∀ {blanks r}, Blanks blanks → Ends r → Ends (blanks ++ r) := by
    intro blanks r hb hr
    cases blanks with
    | nil => exact hr
    | cons b blanks =>
      rintro c ⟨rfl⟩
      have hblank := hb b List.mem_cons_self
      simp only [List.mem_cons, List.not_mem_nil, or_false] at hblank
      rcases hblank with rfl | rfl | rfl | rfl <;> decide
  cases h with
  | @nil blanks hb =>
    have h := hblanks hb .nil
    rwa [List.append_nil] at h
  | cons hb hword => exact hblanks hb (hword.ends (hts _ rfl) _)

theorem Words.ofChars? {ts : List Token} {cs : List Char} (h : Words ts cs) (hts : Spaced ts) :
    Token.ofChars? cs = some ts := by
  induction h with
  | @nil blanks hb =>
    have h := ofChars?_append_blanks hb []
    rw [List.append_nil] at h
    rw [h, Token.ofChars?]
  | @cons t ts blanks word rest hb hword hrest ih =>
    -- a number is no mark, so the word after it is one
    have hends : ∀ n, t = .number n → Ends rest := by
      rintro n rfl
      refine hrest.ends fun u hu => ?_
      exact ((List.isChain_cons.1 hts).1 u hu).resolve_left Bool.false_ne_true
    rw [ofChars?_append_blanks hb, ofChars?_append_word hword hends, ih hts.tail]
    rfl

namespace Spaced

variable {ts us : List Token} {t : Token}

theorem append_mark (hts : Spaced ts) (ht : t.isMark = true) (hus : Spaced us) :
    Spaced (ts ++ t :: us) := by
  refine List.isChain_append.2 ⟨hts, List.isChain_cons.2 ⟨fun u _ => .inl ht, hus⟩, ?_⟩
  rintro u _ v ⟨rfl⟩
  exact .inr ht

theorem enclosed {l r : Token} (hl : l.isMark = true) (hts : Spaced ts) (hr : r.isMark = true) :
    Spaced (l :: (ts ++ [r])) :=
  List.isChain_cons.2 ⟨fun _ _ => .inl hl, hts.append_mark hr .nil⟩

theorem items {js : List Json} (h : ∀ j ∈ js, Spaced j.tokens) : Spaced (tokensItems js) := by
  induction js with
  | nil => exact .nil
  | cons j js ih =>
    have hj := h j List.mem_cons_self
    have hjs := ih fun i hi => h i (.tail j hi)
    cases js with
    | nil => exact hj
    | cons k js => exact hj.append_mark rfl hjs

theorem members {ms : List (Quoted × Json)} (h : ∀ m ∈ ms, Spaced m.2.tokens) :
    Spaced (tokensMembers ms) := by
  induction ms with
  | nil => exact .nil
  | cons m ms ih =>
    have hname : Spaced [.text m.1] := List.isChain_singleton _
    have hj := h m List.mem_cons_self
    have hms := ih fun n hn => h n (.tail m hn)
    cases ms with
    | nil => exact hname.append_mark rfl hj
    | cons n ms => exact hname.append_mark rfl (hj.append_mark rfl hms)

end Spaced

/-- Induction over a document: what every item and every value of a member has, the whole has. -/
theorem forall_of_parts {P : Json → Prop} (null : P .null) (bool : ∀ b, P (.bool b))
    (number : ∀ n, P (.number n)) (text : ∀ q, P (.text q))
    (array : ∀ items, (∀ j ∈ items, P j) → P (.array items))
    (object : ∀ members, (∀ m ∈ members, P m.2) → P (.object members)) (j : Json) : P j := by
  match j with
  | .null => exact null
  | .bool b => exact bool b
  | .number n => exact number n
  | .text q => exact text q
  | .array items =>
    exact array items fun j _ => forall_of_parts null bool number text array object j
  | .object members =>
    exact object members fun m _ => forall_of_parts null bool number text array object m.2
termination_by sizeOf j
decreasing_by
  · rename_i hj
    have := List.sizeOf_lt_of_mem hj
    rw [Json.array.sizeOf_spec]
    omega
  · rename_i hm
    have := List.sizeOf_lt_of_mem hm
    rw [Json.object.sizeOf_spec]
    cases m
    simp only [Prod.mk.sizeOf_spec] at this ⊢
    omega

theorem spaced_tokens (j : Json) : Spaced j.tokens := by
  induction j using forall_of_parts with
  | null | bool | number | text => exact List.isChain_singleton _
  | array items ih => exact Spaced.enclosed rfl (.items ih) rfl
  | object members ih => exact Spaced.enclosed rfl (.members ih) rfl

/-! ### Documents -/

theorem tokensItems_concat (js : List Json) (j : Json) :
    tokensItems (js ++ [j]) = js.flatMap (fun k => k.tokens ++ [.comma]) ++ j.tokens := by
  induction js with
  | nil => rfl
  | cons k js ih =>
    have hcons : tokensItems (k :: (js ++ [j])) =
        k.tokens ++ .comma :: tokensItems (js ++ [j]) := by
      cases js <;> rfl
    rw [List.cons_append, hcons, ih, List.flatMap_cons, List.append_assoc, List.append_assoc]
    rfl

theorem tokensMembers_concat (ms : List (Quoted × Json)) (q : Quoted) (j : Json) :
    tokensMembers (ms ++ [(q, j)]) =
      ms.flatMap (fun m => .text m.1 :: .colon :: (m.2.tokens ++ [.comma])) ++
        .text q :: .colon :: j.tokens := by
  induction ms with
  | nil => rfl
  | cons m ms ih =>
    have hcons : tokensMembers (m :: (ms ++ [(q, j)])) =
        .text m.1 :: .colon :: (m.2.tokens ++ .comma :: tokensMembers (ms ++ [(q, j)])) := by
      cases ms <;> rfl
    rw [List.cons_append, hcons, ih, List.flatMap_cons, List.append_assoc]
    simp only [List.cons_append, List.append_assoc, List.nil_append]

def heard : List Opening → List Token
  | [] => []
  | .array items :: o =>
    heard o ++ .leftBracket :: items.reverse.flatMap fun j => j.tokens ++ [.comma]
  | .object members q :: o =>
    heard o ++ .leftBrace ::
      (members.reverse.flatMap fun m => .text m.1 :: .colon :: (m.2.tokens ++ [.comma])) ++
        [.text q, .colon]

/-- However the reading ends, what was heard and what came then are the words of the result. -/
theorem heard_append_eq_tokens :
    (∀ o ts, ∀ r ∈ beginValue? o ts, heard o ++ ts = r.tokens) ∧
      ∀ j o ts, ∀ r ∈ endValue? j o ts, heard o ++ (j.tokens ++ ts) = r.tokens := by
  -- one case for each equation of the two readers; an opening passes from the rest to what is heard
  refine beginValue?.mutual_induct _ _ ?null ?bool ?number ?text ?emptyArray ?array ?emptyObject
    ?object ?otherwise ?done ?nextItem ?closeArray ?nextMember ?closeObject ?stray
  case null | bool | number | text | emptyArray | emptyObject =>
    intros
    rename_i ih r hr
    rw [beginValue?] at hr
    exact ih r hr
  case array =>
    intro o ts hne ih r hr
    rw [beginValue?] at hr
    · have h := ih r hr
      simpa [heard] using h
    · exact hne
  case object =>
    intro o q ts ih r hr
    rw [beginValue?] at hr
    have h := ih r hr
    simpa [heard] using h
  case done =>
    intro j r hr
    rw [endValue?] at hr
    cases hr
    simp [heard]
  case nextItem =>
    intro j items o ts ih r hr
    rw [endValue?] at hr
    have h := ih r hr
    simpa [heard] using h
  case closeArray =>
    intro j items o ts ih r hr
    rw [endValue?] at hr
    have h := ih r hr
    rw [List.reverse_cons, tokens, tokensItems_concat] at h
    simpa [heard] using h
  case nextMember =>
    intro j members q o q' ts ih r hr
    rw [endValue?] at hr
    have h := ih r hr
    simpa [heard] using h
  case closeObject =>
    intro j members q o ts ih r hr
    rw [endValue?] at hr
    have h := ih r hr
    rw [List.reverse_cons, tokens, tokensMembers_concat] at h
    simpa [heard] using h
  case otherwise =>
    intros
    rename_i r hr
    rw [beginValue?] at hr
    · cases hr
    all_goals assumption
  case stray =>
    intros
    rename_i r hr
    rw [endValue?] at hr
    · cases hr
    all_goals assumption

theorem ofTokens?_eq_some_iff {ts : List Token} {j : Json} :
    ofTokens? ts = some j ↔ ts = j.tokens := by
  constructor
  · exact heard_append_eq_tokens.1 [] ts j
  · rintro rfl
    exact ofTokens?_tokens j

theorem ofChars?_eq_some_iff {cs : List Char} {j : Json} :
    ofChars? cs = some j ↔ Words j.tokens cs := by
  constructor
  · intro h
    obtain ⟨ts, hts, hj⟩ := Option.bind_eq_some_iff.1 h
    rw [← ofTokens?_eq_some_iff.1 hj]
    exact words_of_ofChars? hts
  · intro h
    rw [ofChars?, h.ofChars? (spaced_tokens j), Option.bind_some, ofTokens?_tokens]

/-- The reader accepts the texts of the grammar and no other, and gives the document they spell. -/
theorem parse?_eq_some_iff {text : String} {j : Json} : parse? text = some j ↔ Spells text j :=
  ofChars?_eq_some_iff

/-- No text can be cut and nested in two ways. -/
theorem Spells.unique {text : String} {j k : Json} (h : Spells text j) (h' : Spells text k) :
    j = k :=
  Option.some.inj ((parse?_eq_some_iff.2 h).symm.trans (parse?_eq_some_iff.2 h'))

end Cardroom.Json
