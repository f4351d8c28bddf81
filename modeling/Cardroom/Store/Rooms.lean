import Cardroom.KeyMap
import Cardroom.Store.Basic

namespace Cardroom

structure Membership where
  user : UserId
  name : String
  isReady : Bool
  deriving DecidableEq, Repr

structure RoomEntry where
  room : Room
  joined : List Membership
  deriving DecidableEq

namespace RoomEntry

def has (e : RoomEntry) (user : UserId) : Bool := e.joined.any (·.user = user)

def member (e : RoomEntry) (m : Membership) : Member :=
  ⟨m.user, m.name, m.isReady, m.user = e.room.owner⟩

def members (e : RoomEntry) : List Member :=
  let all := e.joined.map e.member
  all.filter (·.isHost) ++ all.filter (!·.isHost)

def join (e : RoomEntry) (user : UserId) (name : String) : RoomEntry :=
  if e.has user then e else { e with joined := e.joined ++ [⟨user, name, false⟩] }

def leave (e : RoomEntry) (user : UserId) : RoomEntry :=
  { e with joined := e.joined.filter (·.user ≠ user) }

def setReady (e : RoomEntry) (user : UserId) (ready : Bool) : RoomEntry :=
  { e with joined := e.joined.map fun m => if m.user = user then { m with isReady := ready } else m }

end RoomEntry

structure Rooms where
  rooms : KeyMap RoomCode RoomEntry

namespace Rooms

def empty : Rooms := ⟨.empty⟩

def entry? (s : Rooms) (code : RoomCode) : Option RoomEntry := s.rooms.get? code

def update (s : Rooms) (code : RoomCode) (f : RoomEntry → RoomEntry) : Except StoreError Rooms :=
  match s.entry? code with
  | some e => .ok ⟨s.rooms.insert code (f e)⟩
  | none => .error (.roomNotFound code)

def create (s : Rooms) (room : Room) : Rooms := ⟨s.rooms.insert room.code ⟨room, []⟩⟩

def addMember (s : Rooms) (code : RoomCode) (user : UserId) (name : String) :
    Except StoreError Rooms :=
  s.update code (·.join user name)

def removeMember (s : Rooms) (code : RoomCode) (user : UserId) : Except StoreError (Bool × Rooms) :=
  (s.update code (·.leave user)).map fun t => ((s.entry? code).any (·.has user), t)

def setOwner (s : Rooms) (code : RoomCode) (owner : UserId) : Except StoreError Rooms :=
  s.update code fun e => { e with room := { e.room with owner := owner } }

def setStatus (s : Rooms) (code : RoomCode) (status : RoomStatus) : Except StoreError Rooms :=
  s.update code fun e => { e with room := { e.room with status := status } }

/-- Readiness of who is not a member is not kept. -/
def setReady (s : Rooms) (code : RoomCode) (user : UserId) (ready : Bool) :
    Except StoreError Rooms :=
  s.update code (·.setReady user ready)

def members (s : Rooms) (code : RoomCode) : List Member :=
  (s.entry? code).elim [] RoomEntry.members

def isMember (s : Rooms) (code : RoomCode) (user : UserId) : Bool :=
  (s.entry? code).any (·.has user)

instance : RoomStore Rooms where
  room s code := .ok ((s.entry? code).map RoomEntry.room)
  members s code := .ok (s.members code)
  setReady := setReady
  isMember s code user := .ok (s.isMember code user)

end Rooms

end Cardroom
