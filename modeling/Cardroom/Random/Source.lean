/-!
A reproducible source of random words: the ChaCha stream with twelve rounds under a key that is
spread from a seed of sixty-four bits. `Source.pick` draws an index below a bound by a widening
multiplication whose low half is corrected with a second word.
-/

namespace Cardroom.Random

def rotateLeft (x n : UInt32) : UInt32 := (x <<< n) ||| (x >>> (32 - n))
def rotateRight (x n : UInt32) : UInt32 := (x >>> (n % 32)) ||| (x <<< ((32 - n) % 32))

def spread (s : UInt64) : UInt64 × UInt32 :=
  let s := s * 6364136223846793005 + 11634580027462260723
  let x := (((s >>> 18) ^^^ s) >>> 27).toUInt32
  (s, rotateRight x (s >>> 59).toUInt32)

def spreadWords (s : UInt64) : Nat → List UInt32
  | 0 => []
  | n + 1 =>
    let (s, w) := spread s
    w :: spreadWords s n

abbrev Block := Vector UInt32 16

def quarter (b : Block) (i j k l : Fin 16) : Block :=
  let a := b[i] + b[j]
  let d := rotateLeft (b[l] ^^^ a) 16
  let c := b[k] + d
  let e := rotateLeft (b[j] ^^^ c) 12
  let a := a + e
  let d := rotateLeft (d ^^^ a) 8
  let c := c + d
  let e := rotateLeft (e ^^^ c) 7
  (((b.set i a).set j e).set k c).set l d

/-- A round on the columns and one on the diagonals. -/
def doubleRound (b : Block) : Block :=
  let b := quarter b 0 4 8 12
  let b := quarter b 1 5 9 13
  let b := quarter b 2 6 10 14
  let b := quarter b 3 7 11 15
  let b := quarter b 0 5 10 15
  let b := quarter b 1 6 11 12
  let b := quarter b 2 7 8 13
  quarter b 3 4 9 14

def rounds (b : Block) : Nat → Block
  | 0 => b
  | n + 1 => rounds (doubleRound b) n

def openingBlock (key : List UInt32) (counter : Nat) : Block :=
  let k (i : Nat) : UInt32 := key.getD i 0
  #v[0x61707865, 0x3320646e, 0x79622d32, 0x6b206574, k 0, k 1, k 2, k 3, k 4, k 5, k 6, k 7,
    counter.toUInt32, (counter / UInt32.size).toUInt32, 0, 0]

def streamBlock (key : List UInt32) (counter : Nat) : Block :=
  let b := openingBlock key counter
  Vector.zipWith (· + ·) (rounds b 6) b

/-- A seed and how many words of its stream have been taken. -/
structure Source where
  seed : UInt64
  taken : Nat
  deriving DecidableEq, Repr

namespace Source

def ofSeed (seed : UInt64) : Source := ⟨seed, 0⟩

def word (seed : UInt64) (i : Nat) : UInt32 :=
  (streamBlock (spreadWords seed 8) (i / 16)).get ⟨i % 16, Nat.mod_lt i (by decide)⟩

def next (s : Source) : UInt32 × Source := (word s.seed s.taken, { s with taken := s.taken + 1 })

/-- Draws an index below `n` from two words. The first, as a fraction of its range, is scaled to
`n`; where the part behind the point is so large that a finer fraction might carry over, the second
word decides. -/
def scaledIndex (n : Nat) (first second : UInt32) : Nat :=
  let p := first.toNat * n
  let high := p / UInt32.size
  let low := p % UInt32.size
  if low + (second.toNat * n) / UInt32.size ≥ UInt32.size then high + 1 else high

/-- The second word is taken only where it can matter. -/
def pick (n : Nat) (s : Source) : Nat × Source :=
  let (first, s) := s.next
  if first.toNat * n % UInt32.size + n > UInt32.size then
    let (second, s) := s.next
    (scaledIndex n first second, s)
  else (first.toNat * n / UInt32.size, s)

/-- Both words scaled stay below the bound: they fall short of their range by at least one. -/
theorem scaledIndex_lt {n : Nat} (hn : 0 < n) (first second : UInt32) :
    scaledIndex n first second < n := by
  have h1 : first.toNat * n ≤ 0xFFFFFFFF * n :=
    Nat.mul_le_mul_right n (by have := first.toNat_lt; omega)
  have h2 : second.toNat * n ≤ 0xFFFFFFFF * n :=
    Nat.mul_le_mul_right n (by have := second.toNat_lt; omega)
  simp only [scaledIndex, UInt32.size]
  split <;> omega

theorem pick_lt {n : Nat} (hn : 0 < n) (s : Source) : (s.pick n).1 < n := by
  simp only [pick, UInt32.size]
  split
  · exact scaledIndex_lt hn _ _
  · have h : s.next.1.toNat * n ≤ 0xFFFFFFFF * n :=
      Nat.mul_le_mul_right n (by have := s.next.1.toNat_lt; omega)
    exact Nat.div_lt_of_lt_mul (by omega)

end Source

end Cardroom.Random
