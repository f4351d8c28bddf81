import Cardroom.Frame.Reading
import Cardroom.Json.Real

namespace Cardroom.Json

def placeMember (name : String) (j : Json) : List (String × Json) → List (String × Json)
  | [] => [(name, j)]
  | (other, k) :: r =>
    if name < other then (name, j) :: (other, k) :: r
    else if name = other then (name, j) :: r
    else (other, k) :: placeMember name j r

def canonicalNumber (n : Number) : Json :=
  match n.integer? with
  | some i => if isInt64 i || isWord64 i then .ofInt i else (n.real?.map ofFloat).getD .null
  | none => (n.real?.map ofFloat).getD .null

mutual

def canonical : Json → Json
  | .null => .null
  | .bool b => .bool b
  | .number n => canonicalNumber n
  | .text q => .text q
  | .array items => .array (canonicalItems items)
  | .object members => .record (canonicalMembers members [])

def canonicalItems : List Json → List Json
  | [] => []
  | j :: js => canonical j :: canonicalItems js

def canonicalMembers : List (Quoted × Json) → List (String × Json) → List (String × Json)
  | [], placed => placed
  | (q, j) :: ms, placed => canonicalMembers ms (placeMember (q.text?.getD "") (canonical j) placed)

end

end Cardroom.Json
