import Cardroom.AccessToken
import Cardroom.Floor.Lobby
import Cardroom.Floor.Tableside

namespace Cardroom.Door

variable {σ : Type} [RoomStore σ]

def openRoom (code : RoomCode) (f : Floor σ) : Except RoomError Room :=
  match RoomStore.room f.store code with
  | .error e => .error (.store e)
  | .ok none => .error (.notFound code)
  | .ok (some room) => if room.status = .closed then .error (.notFound code) else .ok room

/-- Lets the user of a token into a room: the token is looked at first, then the code, the room and
the membership. Nothing is changed. The time is in seconds. -/
def letIn (f : Floor σ) (now : Int) (token : Option String) (room : String) :
    Except RoomError (UserId × Room) := do
  let user ← (AccessToken.verify f.tokenSecret now (token.getD "")).mapError RoomError.auth
  let code ← (RoomCode.parse room).mapError RoomError.ofFault
  let room ← openRoom code f
  match RoomStore.isMember f.store code user with
  | .error e => .error (.store e)
  | .ok true => .ok (user, room)
  | .ok false => .error (.notMember code user)

def roomChanged (code : RoomCode) : Script σ Unit := Lobby.refresh code

def gameStarted (code : RoomCode) (game : Int) : Script σ Unit :=
  discard (Lobby.announceGame code game)

def userLeft (code : RoomCode) (user : UserId) : Script σ Unit := do
  discard (Lobby.closeUser code user)
  Lobby.refresh code

def roomClosed (code : RoomCode) : Script σ Unit := do
  discard (Lobby.closeRoom code)
  Tableside.closeRoom code

end Cardroom.Door
