import Cardroom.Floor.Connection
import Cardroom.KeyMap

namespace Cardroom

structure Attendance where
  rooms : KeyMap RoomCode (List ConnId)

namespace Attendance

def empty : Attendance := ⟨.empty⟩

def present (a : Attendance) (room : RoomCode) : List ConnId := (a.rooms.get? room).getD []

def has (a : Attendance) (room : RoomCode) (id : ConnId) : Bool := (a.present room).contains id

def count (a : Attendance) (room : RoomCode) : Nat := (a.present room).length

def isEmpty (a : Attendance) : Bool := a.rooms.isEmpty

def roomCount (a : Attendance) : Nat := a.rooms.size

/-- A room that nobody attends any more is no longer listed. -/
def put (a : Attendance) (room : RoomCode) (ids : List ConnId) : Attendance :=
  ⟨if ids.isEmpty then a.rooms.erase room else a.rooms.insert room ids⟩

def enter (a : Attendance) (room : RoomCode) (id : ConnId) : Attendance :=
  if a.has room id then a else a.put room (a.present room ++ [id])

def leave (a : Attendance) (room : RoomCode) (id : ConnId) : Attendance :=
  if a.has room id then a.put room ((a.present room).erase id) else a

def withdraw (a : Attendance) (room : RoomCode) : List ConnId → List ConnId × Attendance
  | [] => ([], a)
  | id :: ids =>
    if a.has room id then
      let (removed, b) := (a.leave room id).withdraw room ids
      (id :: removed, b)
    else a.withdraw room ids

end Attendance

end Cardroom
