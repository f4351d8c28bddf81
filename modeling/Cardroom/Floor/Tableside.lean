import Cardroom.Floor.Delivery

namespace Cardroom.Tableside

variable {σ : Type} [RoomStore σ]

/-- Sets up and fills the room's table, and says what the one who joins is to be shown. -/
def seatMembers (code : RoomCode) (members : List Member) (f : Floor σ) :
    (Frame × Frame) × Floor σ :=
  let (t, f) := f.ensureTable code
  let t := (t.seatMembers members f.config.startingChips).2.ensureDealer
  ((t.playerOrder members, t.betState), f.setTable t)

def showBets (code : RoomCode) (bets : Frame) : Script σ Nat :=
  Delivery.broadcast .table code (.frame bets)

/-- Seats everyone and lets the connection in; who cannot be shown the order is let out again. -/
def letIn (code : RoomCode) (id : ConnId) (members : List Member) :
    Script σ (Except RoomError Unit) := do
  let (order, bets) ← Script.update (seatMembers code members)
  Script.change (Delivery.enter .table code id)
  match ← Script.writeTo id (.frame order) with
  | .error e =>
    discard (Delivery.unregister .table code id)
    Script.closeOne id
    return .error (.transport e)
  | .ok _ =>
    discard (showBets code bets)
    return .ok ()

def join (code : RoomCode) (id : ConnId) : Script σ (Except RoomError Unit) := do
  match ← Script.look fun f => RoomStore.members f.store code with
  | .error e => return .error (.store e)
  | .ok [] => return .error (.notFound code)
  | .ok members => letIn code id members

def placeBet (code : RoomCode) (user : UserId) (c : BetCommand) (f : Floor σ) :
    (Outcome × Option Frame) × Floor σ :=
  match f.table? code with
  | none => ((.ignored .noTable, none), f)
  | some t =>
    match t.bet user c with
    | (.applied _, t) => ((.applied, some t.betState), f.setTable t)
    | (.ignored reason, _) => ((.ignored reason, none), f)

def receive (code : RoomCode) (user : UserId) (raw : String) : Script σ Outcome :=
  match BetCommand.parse raw with
  | .error reason => pure (.ignored reason)
  | .ok c => do
    let (outcome, bets) ← Script.update (placeBet code user c)
    match bets with
    | some bets => discard (showBets code bets)
    | none => pure ()
    return outcome

/-- Lets a connection out; its user keeps the seat. -/
def leave (code : RoomCode) (id : ConnId) : Script σ Unit :=
  discard (Delivery.unregister .table code id)

def closeRoom (code : RoomCode) : Script σ Unit := do
  discard (Delivery.dropRoom .table code)
  Script.change (·.removeTable code)

end Cardroom.Tableside
