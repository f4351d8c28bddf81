import Cardroom.Frame.Reading

namespace Cardroom

inductive IgnoreReason where
  | malformed
  | unknownType
  | dealerBet
  | negativeBet
  | insufficientChips
  | unknownPlayer
  | noTable
  | storeFailure
  | rateLimited
  deriving DecidableEq, Repr

def IgnoreReason.label : IgnoreReason → String
  | .malformed => "malformed"
  | .unknownType => "unknown_type"
  | .dealerBet => "dealer_bet"
  | .negativeBet => "negative_bet"
  | .insufficientChips => "insufficient_chips"
  | .unknownPlayer => "unknown_player"
  | .noTable => "no_table"
  | .storeFailure => "store_failure"
  | .rateLimited => "rate_limited"

inductive Outcome where
  | applied
  | ignored (reason : IgnoreReason)
  deriving DecidableEq, Repr

/-- A lobby frame. The room it names is read and then not used. -/
structure ReadyUpdate where
  room : Option String
  isReady : Bool
  deriving DecidableEq, Repr

namespace ReadyUpdate

def ofJson? : Json → Option ReadyUpdate
  | .object members => do
    let fields ← Json.fields? members
    let room ← Json.atMostOnce? ["room_code"] fields
    let ready ← Json.once? "is_ready" fields
    return ⟨← (room.getD .null).optionalText?, ← ready.bool?⟩
  | .array [room, ready] => return ⟨← room.optionalText?, ← ready.bool?⟩
  | _ => none

def parse (raw : String) : Except IgnoreReason ReadyUpdate :=
  match (Json.parse? raw).bind ofJson? with
  | some update => .ok update
  | none => .error .malformed

end ReadyUpdate

/-- A table frame: a bet of so many chips, confirmed or not. -/
structure BetCommand where
  bet : Int
  confirm : Bool
  deriving DecidableEq, Repr

namespace BetCommand

/-- A bet that is not confirmed need not say so. -/
def ofFields? (fields : List (String × Json)) : Option BetCommand := do
  let bet ← (← Json.last? "bet" fields).int64?
  match Json.last? "confirm" fields with
  | none => return ⟨bet, false⟩
  | some confirm => return ⟨bet, ← confirm.bool?⟩

/-- Of a field that is repeated the last one counts. A text that is readable and has a type that is
not known is told apart from one that is no command at all. -/
def parse (raw : String) : Except IgnoreReason BetCommand :=
  match Json.parseStrict? raw with
  | some (.object members) =>
    let fields := (Json.fields? members).getD []
    match (Json.last? "type" fields).bind Json.text? with
    | none => .error .malformed
    | some tag =>
      if tag = "bet_update" then
        match ofFields? fields with
        | some command => .ok command
        | none => .error .malformed
      else .error .unknownType
  | _ => .error .malformed

end BetCommand

end Cardroom
