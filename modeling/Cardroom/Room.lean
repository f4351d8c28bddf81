import Cardroom.RoomCode

namespace Cardroom

abbrev UserId := Int

inductive RoomStatus where
  | waiting
  | playing
  | closed
  deriving DecidableEq, Repr

namespace RoomStatus

def text : RoomStatus → String
  | .waiting => "waiting"
  | .playing => "playing"
  | .closed => "closed"

def parse? : String → Option RoomStatus
  | "waiting" => some .waiting
  | "playing" => some .playing
  | "closed" => some .closed
  | _ => none

/-- Reads a stored status; a status that is not known is that of a waiting room. -/
def ofStored (s : String) : RoomStatus := (parse? s).getD .waiting

theorem parse?_text (s : RoomStatus) : parse? s.text = some s := by
  cases s <;> simp [text, parse?]

end RoomStatus

structure Room where
  code : RoomCode
  status : RoomStatus
  maxPlayers : Nat
  owner : UserId
  deriving DecidableEq

structure Member where
  user : UserId
  name : String
  isReady : Bool
  isHost : Bool
  deriving DecidableEq, Repr

end Cardroom
