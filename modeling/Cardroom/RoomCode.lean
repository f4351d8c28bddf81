
namespace Cardroom

namespace RoomCode

def maxLength : Nat := 32

def isCodeChar (c : Char) : Bool := c.isAlphanum || c == '-' || c == '_'

def isCode (s : String) : Bool :=
  !s.isEmpty && s.utf8ByteSize ≤ maxLength && s.toList.all isCodeChar

end RoomCode

structure RoomCode where
  text : String
  isCode_text : RoomCode.isCode text = true
  deriving DecidableEq

namespace RoomCode

inductive Fault where
  | empty
  | tooLong
  | badCharacter (raw : String)
  deriving DecidableEq, Repr

def Fault.message : Fault → String
  | .empty => "room code is empty"
  | .tooLong => "room code longer than 32 characters"
  | .badCharacter raw => "room code contains invalid characters: " ++ raw

/-- Length is looked at before the characters. -/
def parse (raw : String) : Except Fault RoomCode :=
  if raw.isEmpty then .error .empty
  else if raw.utf8ByteSize > maxLength then .error .tooLong
  else if h : isCode raw = true then .ok ⟨raw, h⟩
  else .error (.badCharacter raw)

theorem parse_text (r : RoomCode) : parse r.text = .ok r := by
  have h := r.isCode_text
  simp only [isCode, Bool.and_eq_true, Bool.not_eq_true', decide_eq_true_eq] at h
  obtain ⟨⟨a, b⟩, c⟩ := h
  have : ¬ r.text.utf8ByteSize > maxLength := by omega
  simp [parse, a, this, r.isCode_text]

theorem text_of_parse {raw : String} {r : RoomCode} (h : parse raw = .ok r) : r.text = raw := by
  unfold parse at h
  split at h
  · cases h
  · split at h
    · cases h
    · split at h
      · cases h; rfl
      · cases h

end RoomCode

end Cardroom
