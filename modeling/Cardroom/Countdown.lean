import Cardroom.Frame.Basic

namespace Cardroom

/-- A total and a step in seconds, and the time between two values in milliseconds. -/
structure Countdown where
  total : Float
  step : Float
  tick : Nat

namespace Countdown

/-- To the nearest whole number; halves go away from zero. -/
def roundWhole (x : Float) : Float :=
  if x.abs < 4503599627370496 then
    -- next to `2 ^ 52` only whole numbers are left, and halves have gone to the even one
    let even := x.abs + 4503599627370496 - 4503599627370496
    let whole := if x.abs - even ≥ 0.5 then even + 1 else even
    if x < 0 then -whole else whole
  else x

def roundMicros (x : Float) : Float := roundWhole (x * 1000000) / 1000000

def remaining (c : Countdown) (n : Nat) : Float := roundMicros (c.total - n.toFloat * c.step)

/-- A step that does not lead down leaves the total as the only value before zero. -/
def lasts (c : Countdown) (n : Nat) : Bool := (n == 0 || c.step > 0) && c.remaining n > 0

/-- The value after `n` steps, if all before it were positive, and whether another one follows. -/
def valueAt (c : Countdown) (n : Nat) : Float × Bool :=
  if c.lasts n then (c.remaining n, true) else (0, false)

def valuesFrom (c : Countdown) (n : Nat) : Nat → List Float × Bool
  | 0 => ([], true)
  | limit + 1 =>
    match c.valueAt n with
    | (value, false) => ([value], false)
    | (value, true) =>
      let (values, more) := c.valuesFrom (n + 1) limit
      (value :: values, more)

def values (c : Countdown) (limit : Nat) : List Float × Bool := c.valuesFrom 0 limit

def frame (c : Countdown) (n : Nat) : Frame := .timer (c.valueAt n).1

end Countdown

end Cardroom
