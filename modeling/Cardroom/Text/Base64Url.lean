
namespace Cardroom.Text.Base64Url

def digit (n : Nat) : Char :=
  if n < 26 then Char.ofNat ('A'.toNat + n)
  else if n < 52 then Char.ofNat ('a'.toNat + (n - 26))
  else if n < 62 then Char.ofNat ('0'.toNat + (n - 52))
  else if n = 62 then '-'
  else '_'

def value? (c : Char) : Option Nat :=
  if 'A' ≤ c ∧ c ≤ 'Z' then some (c.toNat - 'A'.toNat)
  else if 'a' ≤ c ∧ c ≤ 'z' then some (c.toNat - 'a'.toNat + 26)
  else if '0' ≤ c ∧ c ≤ '9' then some (c.toNat - '0'.toNat + 52)
  else if c = '-' then some 62
  else if c = '_' then some 63
  else none

/-- Three bytes make four characters; one or two at the end make two or three. -/
def encode : List UInt8 → List Char
  | [] => []
  | [a] => [digit (a.toNat / 4), digit (a.toNat % 4 * 16)]
  | [a, b] =>
    [digit (a.toNat / 4), digit (a.toNat % 4 * 16 + b.toNat / 16), digit (b.toNat % 16 * 4)]
  | a :: b :: c :: r =>
    digit (a.toNat / 4) :: digit (a.toNat % 4 * 16 + b.toNat / 16) ::
      digit (b.toNat % 16 * 4 + c.toNat / 64) :: digit (c.toNat % 64) :: encode r

def byte (high low : Nat) : UInt8 := (high + low).toUInt8

def join? : List Nat → Option (List UInt8)
  | [] => some []
  | [_] => none
  | [w, x] => if x % 16 = 0 then some [byte (w * 4) (x / 16)] else none
  | [w, x, y] =>
    if y % 4 = 0 then some [byte (w * 4) (x / 16), byte (x % 16 * 16) (y / 4)] else none
  | w :: x :: y :: z :: r =>
    (join? r).map fun bytes =>
      byte (w * 4) (x / 16) :: byte (x % 16 * 16) (y / 4) :: byte (y % 4 * 64) z :: bytes

def decode? (cs : List Char) : Option (List UInt8) := (cs.mapM value?).bind join?

theorem value?_digit {n : Nat} (h : n < 64) : value? (digit n) = some n := by
  have : ∀ m : Fin 64, value? (digit m.val) = some m.val := by decide
  exact this ⟨n, h⟩

theorem byte_eq (b : UInt8) {n m : Nat} (h : n + m = b.toNat) : byte n m = b := by
  rw [byte, h]
  simp

def values : List UInt8 → List Nat
  | [] => []
  | [a] => [a.toNat / 4, a.toNat % 4 * 16]
  | [a, b] => [a.toNat / 4, a.toNat % 4 * 16 + b.toNat / 16, b.toNat % 16 * 4]
  | a :: b :: c :: r =>
    a.toNat / 4 :: (a.toNat % 4 * 16 + b.toNat / 16) ::
      (b.toNat % 16 * 4 + c.toNat / 64) :: c.toNat % 64 :: values r

theorem mapM_value?_encode (bytes : List UInt8) :
    (encode bytes).mapM value? = some (values bytes) := by
  fun_induction encode bytes with
  | case1 => rfl
  | case2 a =>
    have := a.toNat_lt
    simp [values, value?_digit (n := a.toNat / 4) (by omega),
      value?_digit (n := a.toNat % 4 * 16) (by omega)]
  | case3 a b =>
    have := a.toNat_lt
    have := b.toNat_lt
    simp [values, value?_digit (n := a.toNat / 4) (by omega),
      value?_digit (n := a.toNat % 4 * 16 + b.toNat / 16) (by omega),
      value?_digit (n := b.toNat % 16 * 4) (by omega)]
  | case4 a b c r ih =>
    have := a.toNat_lt
    have := b.toNat_lt
    have := c.toNat_lt
    simp [values, ih, value?_digit (n := a.toNat / 4) (by omega),
      value?_digit (n := a.toNat % 4 * 16 + b.toNat / 16) (by omega),
      value?_digit (n := b.toNat % 16 * 4 + c.toNat / 64) (by omega),
      value?_digit (n := c.toNat % 64) (by omega)]

theorem join?_values (bytes : List UInt8) : join? (values bytes) = some bytes := by
  fun_induction values bytes with
  | case1 => rfl
  | case2 a =>
    have ha : byte (a.toNat / 4 * 4) (a.toNat % 4 * 16 / 16) = a := byte_eq a (by omega)
    rw [join?, if_pos (by omega), ha]
  | case3 a b =>
    have := b.toNat_lt
    have ha : byte (a.toNat / 4 * 4) ((a.toNat % 4 * 16 + b.toNat / 16) / 16) = a :=
      byte_eq a (by omega)
    have hb : byte ((a.toNat % 4 * 16 + b.toNat / 16) % 16 * 16) (b.toNat % 16 * 4 / 4) = b :=
      byte_eq b (by omega)
    rw [join?, if_pos (by omega), ha, hb]
  | case4 a b c r ih =>
    have := b.toNat_lt
    have := c.toNat_lt
    have ha : byte (a.toNat / 4 * 4) ((a.toNat % 4 * 16 + b.toNat / 16) / 16) = a :=
      byte_eq a (by omega)
    have hb : byte ((a.toNat % 4 * 16 + b.toNat / 16) % 16 * 16)
        ((b.toNat % 16 * 4 + c.toNat / 64) / 4) = b := byte_eq b (by omega)
    have hc : byte ((b.toNat % 16 * 4 + c.toNat / 64) % 4 * 64) (c.toNat % 64) = c :=
      byte_eq c (by omega)
    rw [join?, ih, Option.map_some, ha, hb, hc]

theorem decode?_encode (bytes : List UInt8) : decode? (encode bytes) = some bytes := by
  simp [decode?, mapM_value?_encode, join?_values]

end Cardroom.Text.Base64Url
