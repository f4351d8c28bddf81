import Cardroom.Proofs.Server.Pass
/-!
A server at the disposal of many rooms. Operations are begun in any order and at any time, while
earlier ones wait for their writes, and when time goes by, when the server works and when a waiting
operation goes on is up to the run.
-/

namespace Cardroom

inductive Operation where
  | enterLobby (id : ConnId)
  | leaveLobby (id : ConnId)
  | receiveInLobby (user : UserId) (raw : String)
  | showRoom
  | announceGame (game : Int)
  | joinTable (id : ConnId)
  | leaveTable (id : ConnId)
  | receiveAtTable (user : UserId) (raw : String)
  | closeTable
  | ensureTable
  | removeTable
  | roomChanged
  | gameStarted (game : Int)
  | userLeft (user : UserId)
  | roomClosed
  | register (side : Side) (id : ConnId)
  | unregister (side : Side) (id : ConnId)
  | prune (side : Side) (failed : List ConnId)
  | broadcast (side : Side) (text : String)
  | send (side : Side) (targets : List ConnId) (text : String)
  | closeUser (side : Side) (user : UserId)
  | dropRoom (side : Side)
  | write (id : ConnId) (p : Payload)
  | close (id : ConnId)

inductive Answer where
  | done
  | count (n : Nat)
  | outcome (o : Outcome)
  | shown (r : Except RoomError Lobby.Shown)
  | joined (id : ConnId) (r : Except RoomError Unit)
  | user (u : Option UserId)
  | table (t : Table)
  | found (b : Bool)
  | written (r : Except TransportError Unit)
  | stored (r : Except StoreError Bool)
  | admitted (r : Except RoomError (UserId × Room))

namespace Operation

def script (code : RoomCode) : Operation → Script Rooms Answer
  | enterLobby id => (fun _ => .done) <$> Lobby.enter code id
  | leaveLobby id => (fun _ => .done) <$> Lobby.leave code id
  | receiveInLobby user raw => .outcome <$> Lobby.receive code user raw
  | showRoom => .shown <$> Lobby.showRoom code
  | announceGame game => .count <$> Lobby.announceGame code game
  | joinTable id => .joined id <$> Tableside.join code id
  | leaveTable id => (fun _ => .done) <$> Tableside.leave code id
  | receiveAtTable user raw => .outcome <$> Tableside.receive code user raw
  | closeTable => (fun _ => .done) <$> Tableside.closeRoom code
  | ensureTable => .table <$> Script.update (·.ensureTable code)
  | removeTable =>
    .found <$> Script.update fun f => ((f.table? code).isSome, f.removeTable code)
  | roomChanged => (fun _ => .done) <$> Door.roomChanged code
  | gameStarted game => (fun _ => .done) <$> Door.gameStarted code game
  | userLeft user => (fun _ => .done) <$> Door.userLeft code user
  | roomClosed => (fun _ => .done) <$> Door.roomClosed code
  | register side id => (fun _ => .done) <$> Script.change (Delivery.enter side code id)
  | unregister side id => .user <$> Delivery.unregister side code id
  | prune side failed => .count <$> Delivery.prune side code failed
  | broadcast side text => .count <$> Delivery.broadcast side code (.text text)
  | send side targets text => .count <$> Delivery.send side code targets (.text text)
  | closeUser side user => .count <$> Delivery.closeUser side code user
  | dropRoom side => .count <$> Delivery.dropRoom side code
  | write id p => .written <$> Script.writeTo id p
  | close id => (fun _ => .done) <$> Script.closeOne id

def ids : Operation → List ConnId
  | enterLobby id | leaveLobby id | joinTable id | leaveTable id | register _ id | unregister _ id
  | write id _ | close id => [id]
  | prune _ ids | send _ ids _ => ids
  | _ => []

end Operation

/-- An operation that has been begun. It is settled when nothing more follows from its end. -/
structure Errand where
  room? : Option RoomCode
  stage : Stage Rooms Answer
  settled : Bool

structure Venue where
  server : Server Rooms
  errands : List Errand

/-- What happens next. The room is the one that it is addressed to. -/
inductive Step where
  | begins (code : RoomCode) (op : Operation)
  | edits (e : Edit)
  | admits (room : String) (token : Option String)
  | opens (code : RoomCode) (id : ConnId) (user : UserId) (sink : Sink)
  | turns (code : RoomCode) (id : ConnId) (sink : Sink)
  | countsDown (code : RoomCode) (id : ConnId)
  | pings (code : RoomCode) (id : ConnId) (interval : Nat)
  | waits (n : Nat)
  | works
  | goesOn

namespace Step

def room? : Step → Option RoomCode
  | begins code _ | opens code _ _ _ | turns code _ _ | countsDown code _ | pings code _ _ =>
    some code
  | edits e => some e.code
  | admits room _ => (RoomCode.parse room).toOption
  | waits _ | works | goesOn => none

def ids : Step → List ConnId
  | begins _ op => op.ids
  | opens _ id _ _ | turns _ id _ | countsDown _ id | pings _ id _ => [id]
  | _ => []

/-- Whether a step is left when all that is addressed to other rooms is taken out. -/
def concerns (room : RoomCode) (x : Step) : Bool := x.room?.all (· = room)

end Step

namespace Errand

def concerns (room : RoomCode) (e : Errand) : Bool := e.room?.all (· = room)

def answer? (e : Errand) : Option Answer :=
  match e.stage with
  | .finished a => some a
  | .blocked .. => none

end Errand

/-- What follows from the end of an operation: who has joined a table is shown a countdown. -/
def Answer.start (a : Answer) (s : Server Rooms) : Server Rooms :=
  match a with
  | .joined id (.ok _) => s.startCountdown id (Server.countdownShape s.floor.config)
  | _ => s

def Errand.goOn (e : Errand) (s : Server Rooms) : Errand × Server Rooms :=
  match e.stage with
  | .finished a => if e.settled then (e, s) else ({ e with settled := true }, a.start s)
  | .blocked .. => ({ e with stage := (e.stage.goOn s).1 }, (e.stage.goOn s).2)

namespace Venue

def new (config : Config) (secret : String) (store : Rooms) (entropy : Random.Source)
    (started : Int) : Venue :=
  ⟨.new (.new config secret store entropy) started, []⟩

def onServer (v : Venue) (c : Server Rooms → Server Rooms) : Venue :=
  { v with server := c v.server }

def enlist (v : Venue) (room? : Option RoomCode) (stage : Stage Rooms Answer) (s : Server Rooms) :
    Venue :=
  ⟨s, v.errands ++ [⟨room?, stage, false⟩]⟩

def goOnEach : List Errand → Server Rooms → List Errand × Server Rooms
  | [], s => ([], s)
  | e :: es, s =>
    let (e, s) := e.goOn s
    let (es, s) := goOnEach es s
    (e :: es, s)

def step (v : Venue) (x : Step) : Venue :=
  let s := v.server
  match x with
  | .begins code op =>
    let (stage, s) := Server.drive (op.script code) s
    v.enlist (some code) stage s
  | .edits e =>
    v.enlist (some e.code) (.finished (.stored (e.answer s.floor.store)))
      (s.onFloor fun f => { f with store := e.apply f.store })
  | .admits room token =>
    v.enlist x.room? (.finished (.admitted (Door.letIn s.floor s.timeOfDay token room))) s
  | .opens _ id user sink => v.onServer (·.onFloor (·.connect id user sink))
  | .turns _ id sink => v.onServer (·.onFloor (·.turn id sink))
  | .countsDown _ id => v.onServer (·.startCountdown id (Server.countdownShape s.floor.config))
  | .pings _ id interval => v.onServer (·.startPinger id interval)
  | .waits n => v.onServer fun s => { s with now := s.now + n }
  | .works => v.onServer (·.pass.2)
  | .goesOn =>
    let (errands, s) := goOnEach v.errands s
    ⟨s, errands⟩

/-- What there is to see of a room: its entry in the store, its table, who attends its lobby and its
table, which of its connections are closed and what each of them has received, and what has come of
the operations on it. -/
structure View where
  entry : Option RoomEntry
  table : Option Table
  present : Side → List ConnId
  closed : ConnId → Option Bool
  received : ConnId → Option (List Payload)
  answers : List (Option Answer)

def view (home : ConnId → RoomCode) (room : RoomCode) (v : Venue) : View where
  entry := v.server.floor.store.entry? room
  table := v.server.floor.table? room
  present side := (v.server.floor.attendance side).present room
  closed id := if home id = room then some (v.server.floor.isClosed id) else none
  received id := if home id = room then some (v.server.floor.received id) else none
  answers := (v.errands.filter (Errand.concerns room)).map Errand.answer?

def views (home : ConnId → RoomCode) (room : RoomCode) (v : Venue) : List Step → List View
  | [] => []
  | x :: xs =>
    if x.concerns room then (v.step x).view home room :: (v.step x).views home room xs
    else (v.step x).views home room xs

end Venue

end Cardroom
