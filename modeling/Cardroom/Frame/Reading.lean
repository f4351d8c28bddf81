import Cardroom.Frame.Basic

namespace Cardroom

def isInt64 (i : Int) : Bool := -0x8000000000000000 ≤ i && i < 0x8000000000000000

def isWord64 (i : Int) : Bool := 0 ≤ i && i < 0x10000000000000000

namespace Json

def int64? (j : Json) : Option Int := j.integer?.filter isInt64
def word64? (j : Json) : Option Nat := (j.integer?.filter isWord64).map Int.toNat

def real? : Json → Option Float
  | .number n => n.real?
  | _ => none

/-- The values of the fields called `names`: of an object each exactly once, whatever other fields
it has, of an array just as many, in this order. -/
def components? (names : List String) : Json → Option (List Json)
  | .object members => do
    let fields ← fields? members
    names.mapM fun name => once? name fields
  | .array items => if items.length = names.length then some items else none
  | _ => none

def items? : Json → Option (List Json)
  | .array items => some items
  | _ => none

end Json

def PlayerEntry.ofJson? (j : Json) : Option PlayerEntry := do
  match ← j.components? ["user_id", "name", "is_ready", "is_host", "is_dealer"] with
  | [user, name, ready, host, dealer] =>
    return ⟨← user.int64?, ← name.text?, ← ready.bool?, ← host.bool?, ← dealer.bool?⟩
  | _ => none

def BetEntry.ofJson? (j : Json) : Option BetEntry := do
  match ← j.components? ["user_id", "name", "bet", "confirmed", "total_chips"] with
  | [user, name, bet, confirmed, chips] =>
    return ⟨← user.int64?, ← name.text?, ← bet.int64?, ← confirmed.bool?, ← chips.int64?⟩
  | _ => none

namespace Frame

def tagged? : Json → Option (String × Json)
  | .object members => do
    let fields ← Json.fields? members
    let tag ← (← Json.once? "type" fields).text?
    return (tag, .object members)
  | .array (tag :: items) => return (← tag.text?, .array items)
  | _ => none

def ofTagged? (tag : String) (j : Json) : Option Frame :=
  match tag with
  | "room_status" => do
    match ← j.components? ["room_code", "players", "max_players"] with
    | [room, players, maxPlayers] =>
      return .roomStatus (← room.text?) (← (← players.items?).mapM PlayerEntry.ofJson?)
        (← maxPlayers.word64?)
    | _ => none
  | "all_ready" => do
    match ← j.components? ["room_code", "all_ready"] with
    | [room, ready] => return .allReady (← room.text?) (← ready.bool?)
    | _ => none
  | "start_game" => do
    match ← j.components? ["room_code", "game_id"] with
    | [room, game] => return .startGame (← room.text?) (← game.int64?)
    | _ => none
  | "player_order" => do
    match ← j.components? ["players"] with
    | [players] => return .playerOrder (← (← players.items?).mapM PlayerEntry.ofJson?)
    | _ => none
  | "bet_state" => do
    match ← j.components? ["room_code", "players", "all_confirmed"] with
    | [room, players, confirmed] =>
      return .betState (← room.text?) (← (← players.items?).mapM BetEntry.ofJson?)
        (← confirmed.bool?)
    | _ => none
  | "timer" => do
    match ← j.components? ["remaining"] with
    | [remaining] => return .timer (← remaining.real?)
    | _ => none
  | _ => none

def ofJson? (j : Json) : Option Frame := do
  let (tag, j) ← tagged? j
  ofTagged? tag j

def parse? (s : String) : Option Frame := (Json.parseStrict? s).bind ofJson?

end Frame

end Cardroom
