import Cardroom.Text.Utf8

namespace Cardroom.Text.Percent

def hexValue? (b : UInt8) : Option UInt8 :=
  if 0x30 ≤ b ∧ b ≤ 0x39 then some (b - 0x30)
  else if 0x41 ≤ b ∧ b ≤ 0x46 then some (b - 0x41 + 10)
  else if 0x61 ≤ b ∧ b ≤ 0x66 then some (b - 0x61 + 10)
  else none

def hexByte? (high low : UInt8) : Option UInt8 := do
  return (← hexValue? high) * 16 + (← hexValue? low)

def decode : List UInt8 → List UInt8
  | 0x25 :: high :: low :: r =>
    match hexByte? high low with
    | some b => b :: decode r
    | none => 0x25 :: decode (high :: low :: r)
  | b :: r => b :: decode r
  | [] => []

def splitAll (separator : UInt8) : List UInt8 → List (List UInt8)
  | [] => [[]]
  | b :: r =>
    if b = separator then [] :: splitAll separator r
    else
      match splitAll separator r with
      | part :: parts => (b :: part) :: parts
      | [] => [[b]]

/-- What stands before and behind the first occurrence of `separator`. -/
def splitFirst (separator : UInt8) (bytes : List UInt8) : List UInt8 × List UInt8 :=
  (bytes.takeWhile (· != separator), (bytes.dropWhile (· != separator)).drop 1)

def formText (bytes : List UInt8) : String :=
  Utf8.lossyText (decode (bytes.map fun b => if b = 0x2B then 0x20 else b))

/-- The pairs of a query; a part without an equals sign has the empty value. -/
def pairs (query : List UInt8) : List (String × String) :=
  ((splitAll 0x26 query).filter (!·.isEmpty)).map fun part =>
    let (name, value) := splitFirst 0x3D part
    (formText name, formText value)

end Cardroom.Text.Percent
