
namespace Cardroom

namespace Json

inductive Piece where
  | char (c : Char)
  | surrogate (unit : Nat)
  deriving DecidableEq, Repr

abbrev Quoted := List Piece

namespace Quoted

def isHigh (unit : Nat) : Bool := 0xD800 ≤ unit && unit < 0xDC00
def isLow (unit : Nat) : Bool := 0xDC00 ≤ unit && unit < 0xE000

def join (high low : Nat) : Char :=
  Char.ofNat (0x10000 + (high - 0xD800) * 0x400 + (low - 0xDC00))

def chars? : Quoted → Option (List Char)
  | [] => some []
  | .char c :: r => (chars? r).map (c :: ·)
  | .surrogate high :: .surrogate low :: r =>
    if isHigh high && isLow low then (chars? r).map (join high low :: ·) else none
  | .surrogate _ :: _ => none

def text? (q : Quoted) : Option String := (chars? q).map String.ofList

def ofText (s : String) : Quoted := s.toList.map .char

theorem chars?_map_char (cs : List Char) : chars? (cs.map .char) = some cs := by
  induction cs with
  | nil => rfl
  | cons c cs ih => simp [chars?, ih]

theorem text?_ofText (s : String) : text? (ofText s) = some s := by
  simp [text?, ofText, chars?_map_char]

end Quoted

structure Exponent where
  negative : Bool
  digits : List Char
  deriving DecidableEq, Repr

/-- A number as it is written; no digit of it is lost. An empty fraction is one that is absent. -/
structure Number where
  negative : Bool
  whole : List Char
  fraction : List Char
  exponent : Option Exponent
  deriving DecidableEq, Repr

namespace Number

def value (digits : List Char) : Nat := Nat.ofDigitChars 10 digits 0

/-- An integer is written without fraction and exponent; `-0` is none, for it keeps its sign. -/
def integer? (n : Number) : Option Int :=
  if n.fraction.isEmpty && n.exponent.isNone then
    if n.negative then
      if value n.whole = 0 then none else some (-(value n.whole : Int))
    else some (value n.whole)
  else none

def ofNat (n : Nat) : Number := ⟨false, Nat.toDigits 10 n, [], none⟩

def ofInt (i : Int) : Number := ⟨i < 0, Nat.toDigits 10 i.natAbs, [], none⟩

theorem value_toDigits (n : Nat) : value (Nat.toDigits 10 n) = n :=
  Nat.ofDigitChars_toDigits (by decide) (by decide)

theorem integer?_ofInt (i : Int) : (ofInt i).integer? = some i := by
  have e : (ofInt i).integer? =
      if i < 0 then if i.natAbs = 0 then none else some (-(i.natAbs : Int))
      else some (i.natAbs : Int) := by
    simp only [integer?, ofInt, value_toDigits, List.isEmpty_nil, Option.isNone_none,
      Bool.and_self, if_true, decide_eq_true_eq]
  rw [e]
  by_cases h : i < 0
  · rw [if_pos h, if_neg (by omega)]
    exact congrArg some (by omega)
  · rw [if_neg h]
    exact congrArg some (by omega)

theorem integer?_ofNat (n : Nat) : (ofNat n).integer? = some (n : Int) := by
  simp [integer?, ofNat, value_toDigits]

end Number

end Json

open Json in
/-- A JSON document. Members keep their order and may repeat a name. -/
inductive Json where
  | null
  | bool (b : Bool)
  | number (n : Number)
  | text (q : Quoted)
  | array (items : List Json)
  | object (members : List (Quoted × Json))

namespace Json

def ofText (s : String) : Json := .text (Quoted.ofText s)
def ofInt (i : Int) : Json := .number (.ofInt i)
def ofNat (n : Nat) : Json := .number (.ofNat n)

def record (fields : List (String × Json)) : Json :=
  .object (fields.map fun (name, j) => (Quoted.ofText name, j))

mutual

def depth : Json → Nat
  | .array items => depthItems items + 1
  | .object members => depthMembers members + 1
  | _ => 0

def depthItems : List Json → Nat
  | [] => 0
  | j :: js => max (depth j) (depthItems js)

def depthMembers : List (Quoted × Json) → Nat
  | [] => 0
  | (_, j) :: ms => max (depth j) (depthMembers ms)

end

def isNull : Json → Bool
  | .null => true
  | _ => false

def bool? : Json → Option Bool
  | .bool b => some b
  | _ => none

def integer? : Json → Option Int
  | .number n => n.integer?
  | _ => none

def text? : Json → Option String
  | .text q => q.text?
  | _ => none

@[simp] theorem text?_ofText (s : String) : (ofText s).text? = some s := Quoted.text?_ofText s
@[simp] theorem integer?_ofInt (i : Int) : (ofInt i).integer? = some i := Number.integer?_ofInt i
@[simp] theorem integer?_ofNat (n : Nat) : (ofNat n).integer? = some (n : Int) :=
  Number.integer?_ofNat n

end Json

end Cardroom
