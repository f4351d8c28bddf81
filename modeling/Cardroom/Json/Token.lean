import Cardroom.Json.Basic

namespace Cardroom.Json

def isBlank (c : Char) : Bool := c == ' ' || c == '\t' || c == '\n' || c == '\r'

def hexDigit? (c : Char) : Option Nat :=
  if '0' ≤ c && c ≤ '9' then some (c.toNat - '0'.toNat)
  else if 'a' ≤ c && c ≤ 'f' then some (c.toNat - 'a'.toNat + 10)
  else if 'A' ≤ c && c ≤ 'F' then some (c.toNat - 'A'.toNat + 10)
  else none

def hexUnit? (a b c d : Char) : Option Nat := do
  let a ← hexDigit? a
  let b ← hexDigit? b
  let c ← hexDigit? c
  let d ← hexDigit? d
  return ((a * 16 + b) * 16 + c) * 16 + d

namespace Piece

def ofUnit (unit : Nat) : Piece :=
  if Quoted.isHigh unit || Quoted.isLow unit then .surrogate unit else .char (Char.ofNat unit)

def ofEscape? : Char → Option Piece
  | '"' => some (.char '"')
  | '\\' => some (.char '\\')
  | '/' => some (.char '/')
  | 'b' => some (.char '\x08')
  | 'f' => some (.char '\x0c')
  | 'n' => some (.char '\n')
  | 'r' => some (.char '\r')
  | 't' => some (.char '\t')
  | _ => none

def hexChar (n : Nat) : Char := Nat.digitChar n

def unitSpelling (unit : Nat) : List Char :=
  ['\\', 'u', hexChar (unit / 4096 % 16), hexChar (unit / 256 % 16), hexChar (unit / 16 % 16),
    hexChar (unit % 16)]

/-- Only the quotation mark, the backslash and the control characters below the blank are
escaped, with a letter where there is one. -/
def spelling : Piece → List Char
  | .char c =>
    if c = '"' then ['\\', '"']
    else if c = '\\' then ['\\', '\\']
    else if c = '\x08' then ['\\', 'b']
    else if c = '\x0c' then ['\\', 'f']
    else if c = '\n' then ['\\', 'n']
    else if c = '\r' then ['\\', 'r']
    else if c = '\t' then ['\\', 't']
    else if c.toNat < 32 then unitSpelling c.toNat
    else [c]
  | .surrogate unit => unitSpelling unit

end Piece

namespace Quoted

def read? : List Char → Option (Quoted × List Char)
  | [] => none
  | '"' :: r => some ([], r)
  | '\\' :: 'u' :: a :: b :: c :: d :: r => do
    let unit ← hexUnit? a b c d
    let (q, r) ← read? r
    return (.ofUnit unit :: q, r)
  | '\\' :: e :: r => do
    let p ← Piece.ofEscape? e
    let (q, r) ← read? r
    return (p :: q, r)
  | c :: r =>
    if c = '\\' || c.toNat < 32 then none
    else do
      let (q, r) ← read? r
      return (.char c :: q, r)

def spelling (q : Quoted) : List Char := q.flatMap Piece.spelling

theorem length_lt_of_read? {cs r : List Char} {q : Quoted} (h : read? cs = some (q, r)) :
    r.length < cs.length := by
  fun_induction read? cs generalizing q r with
  | case1 => simp at h
  | case2 => simp at h; simp [h.2]
  | case3 a b c d t ih =>
    simp only [Option.bind_eq_bind, Option.bind_eq_some_iff, Option.pure_def] at h
    obtain ⟨_, _, ⟨q', r'⟩, h', e⟩ := h
    simp only [Option.some.injEq, Prod.mk.injEq] at e
    obtain ⟨rfl, rfl⟩ := e
    have := ih h'
    simp only [List.length_cons]
    omega
  | case4 e t _ ih =>
    simp only [Option.bind_eq_bind, Option.bind_eq_some_iff, Option.pure_def] at h
    obtain ⟨_, _, ⟨q', r'⟩, h', e⟩ := h
    simp only [Option.some.injEq, Prod.mk.injEq] at e
    obtain ⟨rfl, rfl⟩ := e
    have := ih h'
    simp only [List.length_cons]
    omega
  | case5 => simp at h
  | case6 c t _ _ _ _ ih =>
    simp only [Option.bind_eq_bind, Option.bind_eq_some_iff, Option.pure_def] at h
    obtain ⟨⟨q', r'⟩, h', e⟩ := h
    simp only [Option.some.injEq, Prod.mk.injEq] at e
    obtain ⟨rfl, rfl⟩ := e
    have := ih h'
    simp only [List.length_cons]
    omega

end Quoted

namespace Number

/-- The digits before the point: a single zero, or a run that starts with none. -/
def readWhole? (cs : List Char) : Option (List Char × List Char) :=
  match cs with
  | '0' :: r => some (['0'], r)
  | c :: r => if c.isDigit then some (c :: r.takeWhile Char.isDigit, r.dropWhile Char.isDigit) else none
  | [] => none

def readDigits? (cs : List Char) : Option (List Char × List Char) :=
  match cs.takeWhile Char.isDigit with
  | [] => none
  | d :: ds => some (d :: ds, cs.dropWhile Char.isDigit)

def readFraction? : List Char → Option (List Char × List Char)
  | '.' :: r => readDigits? r
  | cs => some ([], cs)

def readSign : List Char → Bool × List Char
  | '-' :: r => (true, r)
  | '+' :: r => (false, r)
  | cs => (false, cs)

def readExponent? : List Char → Option (Option Exponent × List Char)
  | c :: r =>
    if c = 'e' || c = 'E' then do
      let (negative, r) := readSign r
      let (digits, r) ← readDigits? r
      return (some ⟨negative, digits⟩, r)
    else some (none, c :: r)
  | [] => some (none, [])

def readUnsigned? (negative : Bool) (cs : List Char) : Option (Number × List Char) := do
  let (whole, cs) ← readWhole? cs
  let (fraction, cs) ← readFraction? cs
  let (exponent, cs) ← readExponent? cs
  return (⟨negative, whole, fraction, exponent⟩, cs)

def read? : List Char → Option (Number × List Char)
  | '-' :: r => readUnsigned? true r
  | cs => readUnsigned? false cs

def spelling (n : Number) : List Char :=
  (if n.negative then ['-'] else []) ++ n.whole ++
    (if n.fraction.isEmpty then [] else '.' :: n.fraction) ++
    match n.exponent with
    | none => []
    | some e => 'e' :: (if e.negative then '-' else '+') :: e.digits

theorem length_dropWhile_le (p : Char → Bool) (cs : List Char) :
    (cs.dropWhile p).length ≤ cs.length :=
  (List.dropWhile_sublist p).length_le

theorem length_lt_of_readWhole? {cs r ds : List Char} (h : readWhole? cs = some (ds, r)) :
    r.length < cs.length := by
  unfold readWhole? at h
  split at h
  · simp at h; simp [h.2]
  · rename_i c t _
    split at h
    · simp only [Option.some.injEq, Prod.mk.injEq] at h
      have := length_dropWhile_le Char.isDigit t
      rw [← h.2, List.length_cons]
      omega
    · simp at h
  · simp at h

theorem length_le_of_readDigits? {cs r ds : List Char} (h : readDigits? cs = some (ds, r)) :
    r.length ≤ cs.length := by
  unfold readDigits? at h
  split at h
  · simp at h
  · simp only [Option.some.injEq, Prod.mk.injEq] at h
    rw [← h.2]
    exact length_dropWhile_le Char.isDigit cs

theorem length_le_of_readFraction? {cs r ds : List Char} (h : readFraction? cs = some (ds, r)) :
    r.length ≤ cs.length := by
  unfold readFraction? at h
  split at h
  · have := length_le_of_readDigits? h
    simp only [List.length_cons]
    omega
  · simp only [Option.some.injEq, Prod.mk.injEq] at h
    exact Nat.le_of_eq (by rw [h.2])

theorem length_readSign_le (cs : List Char) : (readSign cs).2.length ≤ cs.length := by
  unfold readSign
  split <;> simp

theorem length_le_of_readExponent? {cs r : List Char} {e : Option Exponent}
    (h : readExponent? cs = some (e, r)) : r.length ≤ cs.length := by
  unfold readExponent? at h
  split at h
  · rename_i c t
    split at h
    · simp only [Option.bind_eq_bind, Option.bind_eq_some_iff, Option.pure_def] at h
      obtain ⟨⟨ds, r'⟩, h', e⟩ := h
      simp only [Option.some.injEq, Prod.mk.injEq] at e
      have a := length_le_of_readDigits? h'
      have b := length_readSign_le t
      rw [← e.2, List.length_cons]
      omega
    · simp only [Option.some.injEq, Prod.mk.injEq] at h
      exact Nat.le_of_eq (by rw [h.2])
  · simp only [Option.some.injEq, Prod.mk.injEq] at h
    exact Nat.le_of_eq (by rw [h.2])

theorem length_lt_of_readUnsigned? {b : Bool} {cs r : List Char} {n : Number}
    (h : readUnsigned? b cs = some (n, r)) : r.length < cs.length := by
  simp only [readUnsigned?, Option.bind_eq_bind, Option.bind_eq_some_iff, Option.pure_def] at h
  obtain ⟨⟨w, t⟩, hw, ⟨f, u⟩, hf, ⟨e, v⟩, he, h⟩ := h
  simp only [Option.some.injEq, Prod.mk.injEq] at h
  have a := length_lt_of_readWhole? hw
  have b := length_le_of_readFraction? hf
  have c := length_le_of_readExponent? he
  obtain ⟨rfl, rfl⟩ := h
  simp only at b c
  omega

theorem length_lt_of_read? {cs r : List Char} {n : Number} (h : read? cs = some (n, r)) :
    r.length < cs.length := by
  unfold read? at h
  split at h
  · have := length_lt_of_readUnsigned? h
    simp only [List.length_cons]
    omega
  · exact length_lt_of_readUnsigned? h

end Number

inductive Token where
  | leftBracket | rightBracket | leftBrace | rightBrace | colon | comma
  | null
  | bool (b : Bool)
  | number (n : Number)
  | text (q : Quoted)
  deriving DecidableEq, Repr

namespace Token

def read? : List Char → Option (Token × List Char)
  | '[' :: r => some (.leftBracket, r)
  | ']' :: r => some (.rightBracket, r)
  | '{' :: r => some (.leftBrace, r)
  | '}' :: r => some (.rightBrace, r)
  | ':' :: r => some (.colon, r)
  | ',' :: r => some (.comma, r)
  | 'n' :: 'u' :: 'l' :: 'l' :: r => some (.null, r)
  | 't' :: 'r' :: 'u' :: 'e' :: r => some (.bool true, r)
  | 'f' :: 'a' :: 'l' :: 's' :: 'e' :: r => some (.bool false, r)
  | '"' :: r => (Quoted.read? r).map fun (q, r) => (.text q, r)
  | cs => (Number.read? cs).map fun (n, r) => (.number n, r)

theorem length_lt_of_read? {cs r : List Char} {t : Token} (h : read? cs = some (t, r)) :
    r.length < cs.length := by
  unfold read? at h
  split at h
  case h_10 =>
    simp only [Option.map_eq_some_iff, Prod.mk.injEq] at h
    obtain ⟨⟨q, u⟩, h, _, rfl⟩ := h
    have := Quoted.length_lt_of_read? h
    simp only [List.length_cons]
    omega
  case h_11 =>
    simp only [Option.map_eq_some_iff, Prod.mk.injEq] at h
    obtain ⟨⟨n, u⟩, h, _, rfl⟩ := h
    exact Number.length_lt_of_read? h
  all_goals
    simp only [Option.some.injEq, Prod.mk.injEq] at h
    rw [← h.2]
    simp only [List.length_cons]
    omega

def ofChars? (cs : List Char) : Option (List Token) :=
  match cs with
  | [] => some []
  | c :: r =>
    if isBlank c then ofChars? r
    else
      match _h : read? (c :: r) with
      | none => none
      | some (t, rest) => (ofChars? rest).map (t :: ·)
termination_by cs.length
decreasing_by
  · simp
  · exact length_lt_of_read? _h

def spelling : Token → List Char
  | .leftBracket => ['[']
  | .rightBracket => [']']
  | .leftBrace => ['{']
  | .rightBrace => ['}']
  | .colon => [':']
  | .comma => [',']
  | .null => ['n', 'u', 'l', 'l']
  | .bool true => ['t', 'r', 'u', 'e']
  | .bool false => ['f', 'a', 'l', 's', 'e']
  | .number n => n.spelling
  | .text q => '"' :: (q.spelling ++ ['"'])

end Token

end Cardroom.Json
