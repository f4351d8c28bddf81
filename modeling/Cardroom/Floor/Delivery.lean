import Cardroom.Floor.Script

namespace Cardroom.Delivery

variable {σ : Type}

def writeEach (p : Payload) : List ConnId → Script σ (List ConnId)
  | [] => pure []
  | id :: ids => do
    match ← Script.writeTo id p with
    | .ok _ => writeEach p ids
    | .error _ => return id :: (← writeEach p ids)

def closeEach : List ConnId → Script σ Unit
  | [] => pure ()
  | id :: ids => do
    Script.closeOne id
    closeEach ids

def withdraw (side : Side) (room : RoomCode) (ids : List ConnId) (f : Floor σ) :
    List ConnId × Floor σ :=
  let (removed, a) := (f.attendance side).withdraw room ids
  (removed, f.setAttendance side a)

def enter (side : Side) (room : RoomCode) (id : ConnId) (f : Floor σ) : Floor σ :=
  f.setAttendance side ((f.attendance side).enter room id)

def remove (side : Side) (room : RoomCode) (ids : List ConnId) : Script σ Nat := do
  let removed ← Script.update (withdraw side room ids)
  closeEach removed
  return removed.length

def prune (side : Side) (room : RoomCode) (failed : List ConnId) : Script σ Nat := do
  let n ← remove side room failed
  if n > 0 then Script.change (·.count (.pruned side) n)
  return n

/-- Writes to the given connections, prunes those that failed and counts the deliveries. -/
def send (side : Side) (room : RoomCode) (targets : List ConnId) (p : Payload) : Script σ Nat := do
  let failed ← writeEach p targets
  discard (prune side room failed)
  return targets.length - failed.length

def broadcast (side : Side) (room : RoomCode) (p : Payload) : Script σ Nat := do
  let targets ← Script.look fun f => (f.attendance side).present room
  send side room targets p

def connectionsOf (side : Side) (room : RoomCode) (user : UserId) (f : Floor σ) : List ConnId :=
  ((f.attendance side).present room).filter fun id => f.user? id = some user

def closeUser (side : Side) (room : RoomCode) (user : UserId) : Script σ Nat := do
  let removed ← Script.update fun f => withdraw side room (connectionsOf side room user f) f
  closeEach removed
  return removed.length

def dropRoom (side : Side) (room : RoomCode) : Script σ Nat := do
  let removed ← Script.update fun f => withdraw side room ((f.attendance side).present room) f
  closeEach removed
  return removed.length

/-- Takes a connection off without closing it; yields its user if it attended. -/
def unregister (side : Side) (room : RoomCode) (id : ConnId) : Script σ (Option UserId) :=
  Script.update fun f =>
    (if (f.attendance side).has room id then f.user? id else none,
      f.setAttendance side ((f.attendance side).leave room id))

end Cardroom.Delivery
