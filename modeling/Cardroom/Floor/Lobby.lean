import Cardroom.Floor.Delivery

namespace Cardroom.Lobby

variable {σ : Type} [RoomStore σ]

structure Shown where
  delivered : Nat
  allReadySent : Nat
  deriving DecidableEq, Repr

def entry (m : Member) : PlayerEntry := ⟨m.user, m.name, m.isReady, m.isHost, false⟩

def statusFrame (room : Room) (code : RoomCode) (members : List Member) : Frame :=
  .roomStatus code.text (members.map entry) room.maxPlayers

def allReadyFrame (code : RoomCode) : Frame := .allReady code.text true

def startFrame (code : RoomCode) (game : Int) : Frame := .startGame code.text game

def readyHost? (members : List Member) : Option UserId :=
  if !members.isEmpty && members.all (·.isReady) then
    (members.find? (·.isHost)).map (·.user)
  else none

def readRoom (code : RoomCode) (f : Floor σ) : Except RoomError (Room × List Member) :=
  match RoomStore.room f.store code with
  | .error e => .error (.store e)
  | .ok none => .error (.notFound code)
  | .ok (some room) =>
    match RoomStore.members f.store code with
    | .error e => .error (.store e)
    | .ok members => .ok (room, members)

def openConnections (ids : List ConnId) (user : UserId) (f : Floor σ) : List ConnId :=
  ids.filter fun id => f.user? id = some user && !f.isClosed id

def tellHost (code : RoomCode) (ids : List ConnId) (members : List Member) : Script σ Nat :=
  match readyHost? members with
  | none => pure 0
  | some host => do
    let hosts ← Script.look (openConnections ids host)
    Delivery.send .lobby code hosts (.frame (allReadyFrame code))

/-- Shows the room to everyone in its lobby. The store is not asked if nobody is there. -/
def showRoom (code : RoomCode) : Script σ (Except RoomError Shown) := do
  let targets ← Script.look fun f => f.lobby.present code
  if targets.isEmpty then return .ok ⟨0, 0⟩
  match ← Script.look (readRoom code) with
  | .error e => return .error e
  | .ok (room, members) =>
    let delivered ← Delivery.send .lobby code targets (.frame (statusFrame room code members))
    let allReadySent ← tellHost code targets members
    return .ok ⟨delivered, allReadySent⟩

def refresh (code : RoomCode) : Script σ Unit := discard (showRoom code)

def enter (code : RoomCode) (id : ConnId) : Script σ Unit := do
  Script.change (Delivery.enter .lobby code id)
  refresh code

def setReady (code : RoomCode) (user : UserId) (ready : Bool) (f : Floor σ) :
    Except StoreError Unit × Floor σ :=
  match RoomStore.setReady f.store code user ready with
  | .ok store => (.ok (), { f with store := store })
  | .error e => (.error e, f)

/-- Lets a connection out. Its user is no longer ready, which the others are shown; it goes even if
the store fails. -/
def leave (code : RoomCode) (id : ConnId) : Script σ Unit := do
  let user ← Script.look (·.user? id)
  match user with
  | some user => discard (Script.update (setReady code user false))
  | none => pure ()
  discard (Delivery.unregister .lobby code id)
  refresh code

/-- Takes a frame from a user. The room is the one of the socket, whatever the frame says. -/
def receive (code : RoomCode) (user : UserId) (raw : String) : Script σ Outcome :=
  match ReadyUpdate.parse raw with
  | .error reason => pure (.ignored reason)
  | .ok update => do
    match ← Script.update (setReady code user update.isReady) with
    | .error _ => return .ignored .storeFailure
    | .ok _ =>
      refresh code
      return .applied

def announceGame (code : RoomCode) (game : Int) : Script σ Nat :=
  Delivery.broadcast .lobby code (.frame (startFrame code game))

def closeUser (code : RoomCode) (user : UserId) : Script σ Nat := Delivery.closeUser .lobby code user

def closeRoom (code : RoomCode) : Script σ Nat := Delivery.dropRoom .lobby code

end Cardroom.Lobby
