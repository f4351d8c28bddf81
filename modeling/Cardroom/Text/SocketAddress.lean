
namespace Cardroom.Text

/-- An address of version four has four bytes, one of version six eight groups of sixteen bits and a
scope. -/
inductive IpAddress where
  | v4 (bytes : List Nat)
  | v6 (groups : List Nat) (scope : Nat)
  deriving DecidableEq, Repr

structure SocketAddress where
  ip : IpAddress
  port : Nat
  deriving DecidableEq, Repr

namespace SocketAddress

def digitValue? (radix : Nat) (c : Char) : Option Nat :=
  let value? :=
    if '0' ≤ c ∧ c ≤ '9' then some (c.toNat - '0'.toNat)
    else if 'a' ≤ c ∧ c ≤ 'z' then some (c.toNat - 'a'.toNat + 10)
    else if 'A' ≤ c ∧ c ≤ 'Z' then some (c.toNat - 'A'.toNat + 10)
    else none
  value?.filter (· < radix)

def readDigits? (radix : Nat) (cs : List Char) : Option (Nat × Nat × List Char) :=
  let isDigit (c : Char) : Bool := (digitValue? radix c).isSome
  let ds := cs.takeWhile isDigit
  if ds.isEmpty then none
  else
    some (ds.foldl (fun n c => n * radix + (digitValue? radix c).getD 0) 0, ds.length,
      cs.dropWhile isDigit)

def readChar? (c : Char) : List Char → Option (List Char)
  | d :: r => if d = c then some r else none
  | [] => none

/-- A decimal byte of at most three digits that does not start with a needless zero. -/
def readByte? (cs : List Char) : Option (Nat × List Char) := do
  let (n, length, r) ← readDigits? 10 cs
  if length ≤ 3 ∧ n < 256 ∧ (length = 1 ∨ cs.head? ≠ some '0') then some (n, r) else none

def readV4? (cs : List Char) : Option (List Nat × List Char) := do
  let (a, cs) ← readByte? cs
  let (b, cs) ← readByte? (← readChar? '.' cs)
  let (c, cs) ← readByte? (← readChar? '.' cs)
  let (d, cs) ← readByte? (← readChar? '.' cs)
  return ([a, b, c, d], cs)

def readGroup? (cs : List Char) : Option (Nat × List Char) := do
  let (n, length, r) ← readDigits? 16 cs
  if length ≤ 4 then some (n, r) else none

def readSeparator? (isFirst : Bool) (cs : List Char) : Option (List Char) :=
  if isFirst then some cs else readChar? ':' cs

/-- Reads up to `limit` groups and says whether the last two of them were written as an address of
version four. -/
def readGroups (isFirst : Bool) (cs : List Char) : Nat → List Nat × Bool × List Char
  | 0 => ([], false, cs)
  | limit + 1 =>
    let v4? := if limit = 0 then none else (readSeparator? isFirst cs).bind readV4?
    match v4? with
    | some ([a, b, c, d], r) => ([a * 256 + b, c * 256 + d], true, r)
    | _ =>
      match (readSeparator? isFirst cs).bind readGroup? with
      | some (g, r) =>
        let (gs, isV4, r) := readGroups false r limit
        (g :: gs, isV4, r)
      | none => ([], false, cs)

/-- Two colons stand for one or more zero groups. -/
def readV6? (cs : List Char) : Option (List Nat × List Char) :=
  match readGroups true cs 8 with
  | (front, isV4, r) =>
    if front.length = 8 then some (front, r)
    else if isV4 then none
    else do
      let r ← readChar? ':' r
      let r ← readChar? ':' r
      let (back, _, r) := readGroups true r (7 - front.length)
      return (front ++ List.replicate (8 - front.length - back.length) 0 ++ back, r)

def readPort? (cs : List Char) : Option Nat := do
  let (n, _, r) ← readDigits? 10 (← readChar? ':' cs)
  if n < UInt16.size ∧ r.isEmpty then some n else none

def readScope (cs : List Char) : Nat × List Char :=
  let scope? := do
    let (n, _, r) ← readDigits? 10 (← readChar? '%' cs)
    if n < UInt32.size then some (n, r) else none
  scope?.getD (0, cs)

def ofV4? (cs : List Char) : Option SocketAddress := do
  let (bytes, r) ← readV4? cs
  return ⟨.v4 bytes, ← readPort? r⟩

def ofV6? (cs : List Char) : Option SocketAddress := do
  let (groups, r) ← readV6? (← readChar? '[' cs)
  let (scope, r) := readScope r
  return ⟨.v6 groups scope, ← readPort? (← readChar? ']' r)⟩

def parse? (s : String) : Option SocketAddress := (ofV4? s.toList).orElse fun _ => ofV6? s.toList

def v4Text (bytes : List Nat) : String := ".".intercalate (bytes.map toString)

def groupText (n : Nat) : String := String.ofList (Nat.toDigits 16 n)

def groupsText (groups : List Nat) : String := ":".intercalate (groups.map groupText)

def zeros (groups : List Nat) : Nat := (groups.takeWhile (· = 0)).length

def longestRun : List Nat → Nat × Nat
  | [] => (0, 0)
  | g :: gs =>
    let (start, length) := longestRun gs
    if zeros (g :: gs) ≥ length then (0, zeros (g :: gs)) else (start + 1, length)

def v6Text (groups : List Nat) : String :=
  match groups with
  | [0, 0, 0, 0, 0, 0xffff, a, b] => "::ffff:" ++ v4Text [a / 256, a % 256, b / 256, b % 256]
  | _ =>
    let (start, length) := longestRun groups
    if length > 1 then
      groupsText (groups.take start) ++ "::" ++ groupsText (groups.drop (start + length))
    else groupsText groups

def text (a : SocketAddress) : String :=
  match a.ip with
  | .v4 bytes => v4Text bytes ++ ":" ++ toString a.port
  | .v6 groups scope =>
    "[" ++ v6Text groups ++ (if scope = 0 then "" else "%" ++ toString scope) ++ "]:" ++
      toString a.port

end SocketAddress

end Cardroom.Text
