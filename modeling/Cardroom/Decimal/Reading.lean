
namespace Cardroom.Decimal

def splitSign : List Char → Bool × List Char
  | '-' :: r => (true, r)
  | '+' :: r => (false, r)
  | cs => (false, cs)

def natural? (cs : List Char) : Option Nat :=
  if cs.isEmpty || !cs.all Char.isDigit then none else some (Nat.ofDigitChars 10 cs 0)

/-- An integer from `low` to `high`. Where no negative number is admitted a minus sign is
refused even before a zero. -/
def integer? (low high : Int) (s : String) : Option Int :=
  match s.toList with
  | '-' :: r =>
    if low < 0 then
      (natural? r).bind fun n => if low ≤ -(n : Int) then some (-(n : Int)) else none
    else none
  | cs => (natural? (splitSign cs).2).bind fun n => if (n : Int) ≤ high then some (n : Int) else none

def int64? (s : String) : Option Int := integer? (-0x8000000000000000) 0x7FFFFFFFFFFFFFFF s
def word64? (s : String) : Option Nat := (integer? 0 0xFFFFFFFFFFFFFFFF s).map Int.toNat
def word32? (s : String) : Option Nat := (integer? 0 0xFFFFFFFF s).map Int.toNat

def bool? : String → Option Bool
  | "true" => some true
  | "false" => some false
  | _ => none

/-- Powers of ten beyond this number of places are infinite or zero whatever the digits. -/
def placeLimit : Int := 400

/-- `n * 10 ^ e`, rounded to the nearest double; `places` is the number of digits of `n`. -/
def scaled (n : Nat) (places : Nat) (e : Int) : Float :=
  if n = 0 ∨ e + places < -placeLimit then 0
  else if e + places > placeLimit then 1.0 / 0.0
  else if 0 ≤ e then Float.ofScientific n false e.toNat
  else Float.ofScientific n true (-e).toNat

def exponent? : List Char → Option Int
  | [] => some 0
  | c :: r =>
    if c = 'e' ∨ c = 'E' then
      let (negative, ds) := splitSign r
      (natural? ds).map fun n => if negative then -(n : Int) else n
    else none

def unsignedReal? (cs : List Char) : Option Float :=
  match cs.map Char.toLower with
  | ['i', 'n', 'f'] | ['i', 'n', 'f', 'i', 'n', 'i', 't', 'y'] => some (1.0 / 0.0)
  | ['n', 'a', 'n'] => some (0.0 / 0.0)
  | _ =>
    let whole := cs.takeWhile Char.isDigit
    let rest := cs.dropWhile Char.isDigit
    let (fraction, rest) :=
      match rest with
      | '.' :: r => (r.takeWhile Char.isDigit, r.dropWhile Char.isDigit)
      | _ => ([], rest)
    let digits := whole ++ fraction
    if digits.isEmpty then none
    else
      (exponent? rest).map fun e =>
        scaled (Nat.ofDigitChars 10 digits 0) (digits.dropWhile (· = '0')).length
          (e - fraction.length)

def real? (s : String) : Option Float :=
  let (negative, cs) := splitSign s.toList
  (unsignedReal? cs).map fun f => if negative then -f else f

end Cardroom.Decimal
