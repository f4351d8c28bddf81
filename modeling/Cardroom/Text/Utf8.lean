
namespace Cardroom.Text.Utf8

/-- How far the sequence at hand has come: how many bytes it still needs, the bits read so far, and
the range of the next byte. -/
inductive Progress where
  | idle
  | within (missing : Nat) (bits : Nat) (low high : UInt8)

/-- What the first byte of a sequence leads to. The ranges keep out spellings that are longer than
needed, surrogates, and numbers past the last character. -/
def start (b : UInt8) : List (Option Char) × Progress :=
  if b < 0x80 then ([some (Char.ofNat b.toNat)], .idle)
  else if b < 0xC2 then ([none], .idle)
  else if b < 0xE0 then ([], .within 0 (b.toNat - 0xC0) 0x80 0xBF)
  else if b < 0xF0 then
    ([], .within 1 (b.toNat - 0xE0) (if b = 0xE0 then 0xA0 else 0x80)
      (if b = 0xED then 0x9F else 0xBF))
  else if b < 0xF5 then
    ([], .within 2 (b.toNat - 0xF0) (if b = 0xF0 then 0x90 else 0x80)
      (if b = 0xF4 then 0x8F else 0xBF))
  else ([none], .idle)

/-- A byte that does not continue the sequence at hand begins the next one. -/
def step (p : Progress) (b : UInt8) : List (Option Char) × Progress :=
  match p with
  | .idle => start b
  | .within missing bits low high =>
    if low ≤ b ∧ b ≤ high then
      let bits := bits * 64 + (b.toNat - 0x80)
      match missing with
      | 0 => ([some (Char.ofNat bits)], .idle)
      | n + 1 => ([], .within n bits 0x80 0xBF)
    else
      let (out, p) := start b
      (none :: out, p)

def decodeFrom : Progress → List UInt8 → List (Option Char)
  | .idle, [] => []
  | .within .., [] => [none]
  | p, b :: bs =>
    let (out, p) := step p b
    out ++ decodeFrom p bs

def decode (bytes : List UInt8) : List (Option Char) := decodeFrom .idle bytes

def text? (bytes : List UInt8) : Option String := ((decode bytes).mapM id).map String.ofList

def replacement : Char := Char.ofNat 0xFFFD

def lossyText (bytes : List UInt8) : String :=
  String.ofList ((decode bytes).map (·.getD replacement))

def encode (s : String) : List UInt8 := s.toList.flatMap String.utf8EncodeChar

theorem decodeFrom_idle_cons (b : UInt8) (bs : List UInt8) :
    decodeFrom .idle (b :: bs) = (start b).1 ++ decodeFrom (start b).2 bs := rfl

theorem decode_ascii (bs : List UInt8) (h : ∀ b ∈ bs, b < 0x80) :
    decode bs = bs.map fun b => some (Char.ofNat b.toNat) := by
  unfold decode
  induction bs with
  | nil => rfl
  | cons b bs ih =>
    have hb : b < 0x80 := h b (by simp)
    rw [decodeFrom_idle_cons, start, if_pos hb]
    simp only [List.cons_append, List.nil_append, List.map_cons]
    rw [ih fun b hb => h b (by simp [hb])]

end Cardroom.Text.Utf8
