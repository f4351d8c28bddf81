import Cardroom.Json.Document

namespace Cardroom.Json

namespace Number

/-- Appends digits to `n` as long as the result fits sixty-four bits; also says how many fitted. -/
def gather (n : Nat) : List Char → Nat × Nat
  | [] => (n, 0)
  | d :: ds =>
    let m := n * 10 + (d.toNat - '0'.toNat)
    if m < UInt64.size then
      let (m, taken) := gather m ds
      (m, taken + 1)
    else (n, 0)

def tenTo (n : Nat) : Float := Float.ofScientific 1 false n

/-- Scales by a power of ten with one rounding per step of at most 308 places; none is infinity. -/
def scale (f : Float) (e : Int) : Option Float :=
  if 0 ≤ e then
    if e ≤ 308 then
      let g := f * tenTo e.toNat
      if g.isInf then none else some g
    else if f == 0 then some f else none
  else if -308 ≤ e then some (f / tenTo (-e).toNat)
  else if f == 0 then some f
  else scale (f / tenTo 308) (e + 308)
termination_by (-e).toNat
decreasing_by omega

def exponentLimit : Nat := 0x7FFFFFFF

/-- The size of a number as a double; none if that is infinite. Digits past the sixty-four bits of
the significand are dropped: those before the point keep their place, those after it are lost. -/
def magnitude? (n : Number) : Option Float :=
  let (significand, taken) := gather 0 n.whole
  let (significand, places) := gather significand n.fraction
  let e : Int := (n.whole.length - taken : Nat) - (places : Int)
  let f := Float.ofNat significand
  match n.exponent with
  | none => scale f e
  | some x =>
    let shift := value x.digits
    if shift ≤ exponentLimit then scale f (if x.negative then e - shift else e + shift)
    else if significand ≠ 0 ∧ !x.negative then none
    else some 0

def real? (n : Number) : Option Float :=
  n.magnitude?.map fun f => if n.negative then -f else f

def isFinite (n : Number) : Bool := n.real?.isSome

end Number

mutual

/-- Every string in the document, names included, consists of characters, and every number is
finite. -/
def isStrict : Json → Bool
  | .null | .bool _ => true
  | .number n => n.isFinite
  | .text q => q.text?.isSome
  | .array items => isStrictItems items
  | .object members => isStrictMembers members

def isStrictItems : List Json → Bool
  | [] => true
  | j :: js => isStrict j && isStrictItems js

def isStrictMembers : List (Quoted × Json) → Bool
  | [] => true
  | (q, j) :: ms => q.text?.isSome && isStrict j && isStrictMembers ms

end

def depthLimit : Nat := 127

def parseStrict? (s : String) : Option Json :=
  (parse? s).filter fun j => j.isStrict && j.depth ≤ depthLimit

def fields? (members : List (Quoted × Json)) : Option (List (String × Json)) :=
  members.mapM fun (q, j) => q.text?.map (·, j)

def named (names : List String) (fields : List (String × Json)) : List Json :=
  (fields.filter fun (name, _) => names.contains name).map Prod.snd

def atMostOnce? (names : List String) (fields : List (String × Json)) : Option (Option Json) :=
  match named names fields with
  | [] => some none
  | [j] => some (some j)
  | _ => none

def once? (name : String) (fields : List (String × Json)) : Option Json :=
  (atMostOnce? [name] fields).join

def last? (name : String) (fields : List (String × Json)) : Option Json :=
  (named [name] fields).getLast?

def optionalText? : Json → Option (Option String)
  | .null => some none
  | j => j.text?.map some

end Cardroom.Json
