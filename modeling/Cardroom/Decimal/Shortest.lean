/-!
The fewest decimal digits that read back as a given double. A positive double is `m * 2 ^ q`; the
numbers that round to it form an interval whose ends belong to it when `m` is even. On the grids of
one, two, three digits and so on the two neighbours of the double are tried, and the first grid with
a neighbour in the interval gives the digits. All arithmetic is on natural numbers.
-/

namespace Cardroom.Decimal

inductive Double where
  | nan
  | infinite (negative : Bool)
  | finite (negative : Bool) (m : Nat) (q : Int)
  deriving DecidableEq, Repr

def leadingBit : Nat := 0x10000000000000

/-- A double of the lowest exponent keeps it with fewer bits; all others have a leading one. -/
def Double.ofBits (bits : UInt64) : Double :=
  let negative := bits >>> 63 == 1
  let e := ((bits >>> 52) &&& 0x7FF).toNat
  let f := (bits &&& 0xFFFFFFFFFFFFF).toNat
  if e = 0x7FF then (if f = 0 then .infinite negative else .nan)
  else if e = 0 then .finite negative f (-1074)
  else .finite negative (f + leadingBit) ((e : Int) - 1075)

def Double.ofFloat (f : Float) : Double := .ofBits f.toBits

structure Interval where
  low : Nat
  mid : Nat
  high : Nat
  scale : Nat
  closed : Bool

/-- The numbers that round to `m * 2 ^ q`: half the gap to each neighbour, and the gap below a
power of two is half as wide. -/
def Interval.around (m : Nat) (q : Int) : Interval :=
  let below := if m = leadingBit ∧ q ≠ -1074 then 1 else 2
  let up := Nat.pow 2 q.toNat
  let down := Nat.pow 2 (-q).toNat
  ⟨(4 * m - below) * up, 4 * m * up, (4 * m + 2) * up, 4 * down, m % 2 = 0⟩

def Interval.holds (i : Interval) (n d : Nat) : Bool :=
  let l := i.low * d
  let h := i.high * d
  let x := n * i.scale
  if i.closed then l ≤ x && x ≤ h else l < x && x < h

def Interval.distance (i : Interval) (n d : Nat) : Nat :=
  let x := n * i.scale
  let y := i.mid * d
  (x - y) + (y - x)

structure Grid where
  up : Nat
  down : Nat

def Grid.tenTo (e : Int) : Grid := ⟨Nat.pow 10 e.toNat, Nat.pow 10 (-e).toNat⟩

/-- The point of the grid in the interval that is nearest to its middle, an even one of two. -/
def Interval.point? (i : Interval) (g : Grid) : Option Nat :=
  let n := i.mid * g.down / (i.scale * g.up)
  let low := i.holds (n * g.up) g.down
  let high := i.holds ((n + 1) * g.up) g.down
  match low, high with
  | false, false => none
  | true, false => some n
  | false, true => some (n + 1)
  | true, true =>
    let a := i.distance (n * g.up) g.down
    let b := i.distance ((n + 1) * g.up) g.down
    if a < b then some n
    else if b < a then some (n + 1)
    else some (if n % 2 = 0 then n else n + 1)

def leadingExponent (n d : Nat) : Int :=
  if d ≤ n then ((Nat.toDigits 10 (n / d)).length : Int) - 1
  else
    let k := (Nat.toDigits 10 (d / n)).length
    if d ≤ n * Nat.pow 10 (k - 1) then -((k : Int) - 1) else -(k : Int)

structure Digits where
  digits : List Char
  exponent : Int
  deriving DecidableEq, Repr

def Digits.ofNat (n : Nat) (e : Int) : Digits :=
  let ds := Nat.toDigits 10 n
  ⟨(ds.reverse.dropWhile (· = '0')).reverse, e + ds.length - 1⟩

def searchDigits (i : Interval) (lead : Int) : (places more : Nat) → Digits
  | places, 0 =>
    let e := lead + 1 - places
    let g := Grid.tenTo e
    .ofNat (i.mid * g.down / (i.scale * g.up)) e
  | places, more + 1 =>
    let e := lead + 1 - places
    match i.point? (.tenTo e) with
    | some n => .ofNat n e
    | none => searchDigits i lead (places + 1) more

/-- The digits of the positive double `m * 2 ^ q`; seventeen always suffice. -/
def shortest (m : Nat) (q : Int) : Digits :=
  let i := Interval.around m q
  searchDigits i (leadingExponent i.mid i.scale) 1 17

end Cardroom.Decimal
