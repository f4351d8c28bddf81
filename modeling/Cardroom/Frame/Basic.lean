import Cardroom.Json.Real
import Cardroom.Room

namespace Cardroom

structure PlayerEntry where
  user : UserId
  name : String
  isReady : Bool
  isHost : Bool
  isDealer : Bool
  deriving DecidableEq, Repr

structure BetEntry where
  user : UserId
  name : String
  bet : Int
  confirmed : Bool
  chips : Int
  deriving DecidableEq, Repr

/-- The code of a room stands as text here, for a frame that is read may name any room. -/
inductive Frame where
  | roomStatus (room : String) (players : List PlayerEntry) (maxPlayers : Nat)
  | allReady (room : String) (ready : Bool)
  | startGame (room : String) (game : Int)
  | playerOrder (players : List PlayerEntry)
  | betState (room : String) (players : List BetEntry) (allConfirmed : Bool)
  | timer (remaining : Float)
  deriving DecidableEq

def PlayerEntry.json (p : PlayerEntry) : Json :=
  .record [("user_id", .ofInt p.user), ("name", .ofText p.name), ("is_ready", .bool p.isReady),
    ("is_host", .bool p.isHost), ("is_dealer", .bool p.isDealer)]

def BetEntry.json (p : BetEntry) : Json :=
  .record [("user_id", .ofInt p.user), ("name", .ofText p.name), ("bet", .ofInt p.bet),
    ("confirmed", .bool p.confirmed), ("total_chips", .ofInt p.chips)]

namespace Frame

def tag : Frame → String
  | .roomStatus .. => "room_status"
  | .allReady .. => "all_ready"
  | .startGame .. => "start_game"
  | .playerOrder .. => "player_order"
  | .betState .. => "bet_state"
  | .timer .. => "timer"

def fields : Frame → List (String × Json)
  | .roomStatus room players maxPlayers =>
    [("room_code", .ofText room), ("players", .array (players.map PlayerEntry.json)),
      ("max_players", .ofNat maxPlayers)]
  | .allReady room ready => [("room_code", .ofText room), ("all_ready", .bool ready)]
  | .startGame room game => [("room_code", .ofText room), ("game_id", .ofInt game)]
  | .playerOrder players => [("players", .array (players.map PlayerEntry.json))]
  | .betState room players allConfirmed =>
    [("room_code", .ofText room), ("players", .array (players.map BetEntry.json)),
      ("all_confirmed", .bool allConfirmed)]
  | .timer remaining => [("remaining", .ofFloat remaining)]

def json (f : Frame) : Json := .record (("type", .ofText f.tag) :: f.fields)

def text (f : Frame) : String := f.json.render

end Frame

end Cardroom
