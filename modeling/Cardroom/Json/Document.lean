import Cardroom.Json.Token

namespace Cardroom.Json

inductive Opening where
  | array (items : List Json)
  | object (members : List (Quoted × Json)) (name : Quoted)

mutual

def beginValue? : List Opening → List Token → Option Json
  | o, .null :: ts => endValue? .null o ts
  | o, .bool b :: ts => endValue? (.bool b) o ts
  | o, .number n :: ts => endValue? (.number n) o ts
  | o, .text q :: ts => endValue? (.text q) o ts
  | o, .leftBracket :: .rightBracket :: ts => endValue? (.array []) o ts
  | o, .leftBracket :: ts => beginValue? (.array [] :: o) ts
  | o, .leftBrace :: .rightBrace :: ts => endValue? (.object []) o ts
  | o, .leftBrace :: .text q :: .colon :: ts => beginValue? (.object [] q :: o) ts
  | _, _ => none

def endValue? (j : Json) : List Opening → List Token → Option Json
  | [], [] => some j
  | .array items :: o, .comma :: ts => beginValue? (.array (j :: items) :: o) ts
  | .array items :: o, .rightBracket :: ts => endValue? (.array (j :: items).reverse) o ts
  | .object members q :: o, .comma :: .text q' :: .colon :: ts =>
    beginValue? (.object ((q, j) :: members) q' :: o) ts
  | .object members q :: o, .rightBrace :: ts =>
    endValue? (.object ((q, j) :: members).reverse) o ts
  | _, _ => none

end

def ofTokens? (ts : List Token) : Option Json := beginValue? [] ts

def ofChars? (cs : List Char) : Option Json := (Token.ofChars? cs).bind ofTokens?

def parse? (s : String) : Option Json := ofChars? s.toList

mutual

def tokens : Json → List Token
  | .null => [.null]
  | .bool b => [.bool b]
  | .number n => [.number n]
  | .text q => [.text q]
  | .array items => .leftBracket :: (tokensItems items ++ [.rightBracket])
  | .object members => .leftBrace :: (tokensMembers members ++ [.rightBrace])

def tokensItems : List Json → List Token
  | [] => []
  | [j] => tokens j
  | j :: k :: js => tokens j ++ .comma :: tokensItems (k :: js)

def tokensMembers : List (Quoted × Json) → List Token
  | [] => []
  | [(q, j)] => .text q :: .colon :: tokens j
  | (q, j) :: m :: ms => .text q :: .colon :: (tokens j ++ .comma :: tokensMembers (m :: ms))

end

def spelling (j : Json) : List Char := j.tokens.flatMap Token.spelling

def render (j : Json) : String := String.ofList j.spelling

theorem head?_tokens (j : Json) (ts : List Token) :
    (j.tokens ++ ts).head? ≠ some .rightBracket := by
  match j with
  | .null | .bool _ | .number _ | .text _ | .array _ | .object _ => simp [tokens]

theorem head?_tokensItems (j : Json) (js : List Json) (ts : List Token) :
    (tokensItems (j :: js) ++ ts).head? ≠ some .rightBracket := by
  cases js with
  | nil => exact head?_tokens j ts
  | cons k js =>
    rw [tokensItems, List.append_assoc]
    exact head?_tokens j _

mutual

theorem beginValue?_tokens (j : Json) (o : List Opening) (ts : List Token) :
    beginValue? o (j.tokens ++ ts) = endValue? j o ts := by
  match j with
  | .null | .bool _ | .number _ | .text _ => simp [tokens, beginValue?]
  | .array [] => simp [tokens, tokensItems, beginValue?]
  | .array (j :: js) =>
    have h := beginValue?_tokensItems j js [] o ts
    rw [tokens, List.cons_append, List.append_assoc]
    have e : beginValue? o (.leftBracket :: (tokensItems (j :: js) ++ ([.rightBracket] ++ ts))) =
        beginValue? (.array [] :: o) (tokensItems (j :: js) ++ .rightBracket :: ts) := by
      rw [beginValue?]
      · rfl
      · intro u hu
        have := head?_tokensItems j js ([.rightBracket] ++ ts)
        rw [hu] at this
        simp at this
    rw [e, h, List.reverse_nil, List.nil_append]
  | .object [] => simp [tokens, tokensMembers, beginValue?]
  | .object ((q, j) :: ms) =>
    have h := beginValue?_tokensMembers q j ms [] o ts
    rw [tokens]
    cases ms with
    | nil =>
      simp only [tokensMembers, List.cons_append, beginValue?] at h ⊢
      simpa using h
    | cons m ms =>
      simp only [tokensMembers, List.cons_append, beginValue?] at h ⊢
      simpa using h
termination_by sizeOf j

theorem beginValue?_tokensItems (j : Json) (js items : List Json) (o : List Opening)
    (ts : List Token) :
    beginValue? (.array items :: o) (tokensItems (j :: js) ++ .rightBracket :: ts) =
      endValue? (.array (items.reverse ++ j :: js)) o ts := by
  match js with
  | [] =>
    rw [tokensItems, beginValue?_tokens, endValue?]
    simp
  | k :: js =>
    rw [tokensItems, List.append_assoc, beginValue?_tokens, List.cons_append, endValue?,
      beginValue?_tokensItems k js]
    simp
termination_by sizeOf (j :: js)

theorem beginValue?_tokensMembers (q : Quoted) (j : Json) (ms members : List (Quoted × Json))
    (o : List Opening) (ts : List Token) :
    beginValue? (.object members q :: o)
        (((tokensMembers ((q, j) :: ms)).drop 2) ++ .rightBrace :: ts) =
      endValue? (.object (members.reverse ++ (q, j) :: ms)) o ts := by
  match ms with
  | [] =>
    simp only [tokensMembers, List.drop_succ_cons, List.drop_zero]
    rw [beginValue?_tokens, endValue?]
    simp
  | (q', j') :: ms =>
    have h := beginValue?_tokensMembers q' j' ms ((q, j) :: members) o ts
    simp only [tokensMembers, List.drop_succ_cons, List.drop_zero, List.append_assoc,
      List.cons_append]
    rw [beginValue?_tokens]
    cases ms with
    | nil =>
      simp only [tokensMembers, List.drop_succ_cons, List.drop_zero, List.cons_append] at h ⊢
      rw [endValue?, h]
      simp
    | cons m ms =>
      simp only [tokensMembers, List.drop_succ_cons, List.drop_zero, List.cons_append,
        List.append_assoc] at h ⊢
      rw [endValue?, h]
      simp
termination_by sizeOf ((q, j) :: ms)

end

theorem ofTokens?_tokens (j : Json) : ofTokens? j.tokens = some j := by
  have h := beginValue?_tokens j [] []
  rw [List.append_nil] at h
  rw [ofTokens?, h, endValue?]

end Cardroom.Json
