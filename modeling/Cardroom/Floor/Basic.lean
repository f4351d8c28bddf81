import Cardroom.Config.Basic
import Cardroom.Countdown
import Cardroom.Floor.Attendance
import Cardroom.Store.Basic
import Cardroom.Table
/-!
The floor of the card room: the store, every connection that was ever opened, who attends the lobby
and the table of each room, the tables, and the counts that are kept of it all.
-/

namespace Cardroom

/-- Each room has a lobby and a table, and clients attend one of them. -/
inductive Side where
  | lobby
  | table
  deriving DecidableEq, Repr

def Side.label : Side → String
  | .lobby => "lobby"
  | .table => "table"

inductive Metric where
  | active (side : Side)
  | opened (side : Side)
  | received (side : Side)
  | ignored (side : Side) (reason : IgnoreReason)
  | pruned (side : Side)
  | bets
  deriving DecidableEq, Repr

namespace Metric

def name : Metric → String
  | .active _ => "ws_connections_active"
  | .opened _ => "ws_connections_total"
  | .received _ => "ws_frames_received_total"
  | .ignored _ _ => "frames_ignored_total"
  | .pruned _ => "connections_pruned_total"
  | .bets => "bets_applied_total"

def labels : Metric → List (String × String)
  | .active side | .opened side | .received side | .pruned side => [("socket", side.label)]
  | .ignored side reason => [("reason", reason.label), ("socket", side.label)]
  | .bets => []

def text (m : Metric) : String :=
  m.name ++ "\x7b" ++ ",".intercalate (m.labels.map fun (k, v) => k ++ "=\"" ++ v ++ "\"") ++ "\x7d"

end Metric

/-- The entropy is drawn on for tables of a server without a dealer seed. -/
structure Floor (σ : Type) where
  config : Config
  tokenSecret : String
  store : σ
  connections : KeyMap ConnId Connection
  lobby : Attendance
  table : Attendance
  tables : KeyMap RoomCode Table
  entropy : Random.Source
  metrics : KeyMap Metric Int

namespace Floor

variable {σ : Type}

def new (config : Config) (tokenSecret : String) (store : σ) (entropy : Random.Source) : Floor σ where
  config := config
  tokenSecret := tokenSecret
  store := store
  connections := .empty
  lobby := .empty
  table := .empty
  tables := .empty
  entropy := entropy
  metrics := .empty

def attendance (f : Floor σ) : Side → Attendance
  | .lobby => f.lobby
  | .table => f.table

def setAttendance (f : Floor σ) (side : Side) (a : Attendance) : Floor σ :=
  match side with
  | .lobby => { f with lobby := a }
  | .table => { f with table := a }

def connection? (f : Floor σ) (id : ConnId) : Option Connection := f.connections.get? id

def setConnection (f : Floor σ) (id : ConnId) (c : Connection) : Floor σ :=
  { f with connections := f.connections.insert id c }

def modifyConnection (f : Floor σ) (id : ConnId) (g : Connection → Connection) : Floor σ :=
  { f with connections := f.connections.modify id g }

/-- The first number that no connection has, as numbers are given in order. -/
def nextId (f : Floor σ) : ConnId := f.connections.size

def openConnection (f : Floor σ) (id : ConnId) (user : UserId) (sink : Sink) : Floor σ :=
  f.setConnection id (.fresh user sink f.config.writeTimeout)

/-- Who is not known counts as closed. -/
def isClosed (f : Floor σ) (id : ConnId) : Bool := (f.connection? id).all (·.closed)

def user? (f : Floor σ) (id : ConnId) : Option UserId := (f.connection? id).map (·.user)

def received (f : Floor σ) (id : ConnId) : List Payload := (f.connection? id).elim [] (·.received)

def write (f : Floor σ) (id : ConnId) (p : Payload) : Except TransportError Unit × Floor σ :=
  match f.connection? id with
  | none => (.error .closed, f)
  | some c =>
    let (result, c) := c.write p
    (result, f.setConnection id c)

def close (f : Floor σ) (id : ConnId) : Floor σ := f.modifyConnection id Connection.close

def count (f : Floor σ) (m : Metric) (n : Int) : Floor σ :=
  { f with metrics := f.metrics.insert m ((f.metrics.get? m).getD 0 + n) }

def table? (f : Floor σ) (room : RoomCode) : Option Table := f.tables.get? room

def setTable (f : Floor σ) (t : Table) : Floor σ := { f with tables := f.tables.insert t.room t }

/-- A table that nobody sits at yet. Its draws depend on the room and, if there is one, on the
dealer seed alone. -/
def newTable (f : Floor σ) (room : RoomCode) : Table × Random.Source :=
  match f.config.dealerSeed with
  | some seed => (.new room (.ofSeed (Table.seed seed room)), f.entropy)
  | none =>
    let (high, source) := f.entropy.next
    let (low, source) := source.next
    (.new room (.ofSeed (high.toUInt64 <<< 32 ||| low.toUInt64)), source)

/-- Sets up a table for the room unless there is one. -/
def ensureTable (f : Floor σ) (room : RoomCode) : Table × Floor σ :=
  match f.table? room with
  | some t => (t, f)
  | none =>
    let (t, entropy) := f.newTable room
    (t, { f with tables := f.tables.insert room t, entropy := entropy })

def removeTable (f : Floor σ) (room : RoomCode) : Floor σ :=
  { f with tables := f.tables.erase room }

end Floor

end Cardroom
