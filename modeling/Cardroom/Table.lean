import Cardroom.Command
import Cardroom.Digest.Fnv
import Cardroom.Random.Source
import Cardroom.Text.Utf8
/-!
The betting table of one room. Seats are taken in the order in which players are first seen and are
never given up; the dealer is drawn once among those seated. A bet moves chips between a player's
stack and the pot; a bet that is not possible is ignored.
-/

namespace Cardroom

structure Seat where
  user : UserId
  name : String
  bet : Int
  confirmed : Bool
  chips : Int
  deriving DecidableEq, Repr

namespace Seat

def take (user : UserId) (name : String) (chips : Int) : Seat := ⟨user, name, 0, false, chips⟩

/-- The dealer bets nothing and need not confirm it. -/
def deal (s : Seat) : Seat := { s with bet := 0, confirmed := true }

def place (s : Seat) (bet : Int) (confirm : Bool) : Seat :=
  { s with bet := bet, confirmed := confirm, chips := s.chips - (bet - s.bet) }

def betEntry (s : Seat) : BetEntry := ⟨s.user, s.name, s.bet, s.confirmed, s.chips⟩

end Seat

/-- What became of a bet. The difference to the bet before it is negative where chips went back. -/
inductive BetOutcome where
  | applied (delta : Int)
  | ignored (reason : IgnoreReason)
  deriving DecidableEq, Repr

def BetOutcome.outcome : BetOutcome → Outcome
  | .applied _ => .applied
  | .ignored reason => .ignored reason

structure Table where
  room : RoomCode
  seats : List Seat
  dealer : Option UserId
  source : Random.Source
  deriving DecidableEq

namespace Table

def new (room : RoomCode) (source : Random.Source) : Table := ⟨room, [], none, source⟩

/-- The seed of a room's table on a server with the given seed: different rooms draw
independently. -/
def seed (serverSeed : UInt64) (room : RoomCode) : UInt64 :=
  serverSeed ^^^ Digest.fnv1a (Text.Utf8.encode room.text)

def seat? (t : Table) (user : UserId) : Option Seat := t.seats.find? (·.user = user)

def players (t : Table) : List UserId := t.seats.map Seat.user

def isSeated (t : Table) (user : UserId) : Bool := t.players.contains user

def seat (t : Table) (user : UserId) (name : String) (chips : Int) : Table :=
  if t.isSeated user then t else { t with seats := t.seats ++ [.take user name chips] }

def seatMembers (t : Table) (members : List Member) (chips : Int) : Nat × Table :=
  match members with
  | [] => (0, t)
  | m :: ms =>
    let (added, u) := (t.seat m.user m.name chips).seatMembers ms chips
    (if t.isSeated m.user then added else added + 1, u)

/-- Draws the dealer unless there is one or nobody is seated. -/
def ensureDealer (t : Table) : Table :=
  if t.dealer.isSome then t
  else
    match t.source.pick t.seats.length with
    | (i, source) =>
      match t.seats[i]? with
      | none => t
      | some s => { t with seats := t.seats.set i s.deal, dealer := some s.user, source := source }

/-- What a bet would come to. A raise needs the chips for the difference. -/
def judge (t : Table) (user : UserId) (bet : Int) : BetOutcome :=
  if t.dealer = some user then .ignored .dealerBet
  else if bet < 0 then .ignored .negativeBet
  else
    match t.seat? user with
    | none => .ignored .unknownPlayer
    | some s => if s.chips < bet - s.bet ∧ 0 < bet - s.bet then .ignored .insufficientChips
      else .applied (bet - s.bet)

def modifySeat (t : Table) (user : UserId) (f : Seat → Seat) : Table :=
  { t with seats := t.seats.map fun s => if s.user = user then f s else s }

def bet (t : Table) (user : UserId) (c : BetCommand) : BetOutcome × Table :=
  match t.judge user c.bet with
  | .applied delta => (.applied delta, t.modifySeat user (·.place c.bet c.confirm))
  | .ignored reason => (.ignored reason, t)

def allConfirmed (t : Table) : Bool :=
  t.seats.all fun s => t.dealer = some s.user || s.confirmed

def betState (t : Table) : Frame :=
  .betState t.room.text (t.seats.map Seat.betEntry) t.allConfirmed

/-- A seat whose player is no longer a member is neither ready nor the host's. -/
def orderEntry (t : Table) (members : List Member) (s : Seat) : PlayerEntry :=
  let member := members.find? (·.user = s.user)
  ⟨s.user, s.name, member.any (·.isReady), member.any (·.isHost), t.dealer = some s.user⟩

def playerOrder (t : Table) (members : List Member) : Frame :=
  .playerOrder (t.seats.map (t.orderEntry members))

end Table

end Cardroom
