import Cardroom.Json.Strict
import Cardroom.Decimal.Shortest

namespace Cardroom.Json

structure Layout where
  lowest : Int
  highest : Int

def Layout.standard : Layout := ⟨-5, 15⟩

namespace Number

/-- The digits written in positions, with a zero where a part would be empty. -/
def positional (negative : Bool) (d : Decimal.Digits) : Number :=
  if d.exponent < 0 then
    ⟨negative, ['0'], List.replicate ((-d.exponent).toNat - 1) '0' ++ d.digits, none⟩
  else
    let n := d.exponent.toNat + 1
    let whole := d.digits.take n ++ List.replicate (n - d.digits.length) '0'
    let fraction := d.digits.drop n
    ⟨negative, whole, if fraction.isEmpty then ['0'] else fraction, none⟩

def scientific (negative : Bool) (d : Decimal.Digits) : Number :=
  ⟨negative, d.digits.take 1, d.digits.drop 1,
    some ⟨d.exponent < 0, Nat.toDigits 10 d.exponent.natAbs⟩⟩

def ofDigits (l : Layout) (negative : Bool) (d : Decimal.Digits) : Number :=
  if l.lowest ≤ d.exponent ∧ d.exponent ≤ l.highest then positional negative d
  else scientific negative d

/-- The written form of a finite double; zero keeps its sign. -/
def ofFloat? (f : Float) : Option Number :=
  match Decimal.Double.ofFloat f with
  | .finite negative 0 _ => some ⟨negative, ['0'], ['0'], none⟩
  | .finite negative m q => some (ofDigits .standard negative (Decimal.shortest m q))
  | _ => none

end Number

def ofFloat (f : Float) : Json :=
  match Number.ofFloat? f with
  | some n => .number n
  | none => .null

def floatText (f : Float) : String :=
  match Number.ofFloat? f with
  | some n => String.ofList n.spelling
  | none => if f.isNaN then "NaN" else if f < 0 then "-inf" else "inf"

end Cardroom.Json
