import Cardroom.Server.Writing
/-!
The tasks that run beside everything else. A task that is ready and has something to do at this
moment starts a script; when that ends, the task goes on, changes its phase or ends. Whoever looks
after a web socket stops its countdown and its pings when it leaves.
-/

namespace Cardroom.Server

variable {σ : Type} [RoomStore σ]

def pingData : String := "ping"

/-- The last writes of a task end it when they fail. -/
def writeOrFinish (id : ConnId) (p : Payload) (next : Next) : Script σ Next := do
  match ← Script.writeTo id p with
  | .ok _ => return next
  | .error _ => return .finish

def addTask (s : Server σ) (work : Work) (progress : Progress σ) : Server σ :=
  { s with tasks := s.tasks ++ [⟨work, progress⟩] }

/-- A task that works at an interval; at none it ends at once. -/
def startingProgress (interval : Nat) : Progress σ := if interval = 0 then .ended else .ready

def startCountdown (s : Server σ) (id : ConnId) (shape : Countdown) : Server σ :=
  s.addTask (.countdown id shape s.now 0) (startingProgress shape.tick)

def startPinger (s : Server σ) (id : ConnId) (interval : Nat) : Server σ :=
  s.addTask (.ping id interval (s.now + interval)) (startingProgress interval)

def countdownShape (c : Config) : Countdown := ⟨c.countdownTotal, c.countdownStep, c.countdownTick⟩

def isCountdownOf (id : ConnId) : Work → Bool
  | .countdown other .. => other = id
  | _ => false

def isPingerOf (id : ConnId) : Work → Bool
  | .ping other .. => other = id
  | _ => false

def lastTask? (s : Server σ) (p : Work → Bool) : Option Nat :=
  (s.tasks.zipIdx.filter fun (t, _) => p t.work).getLast?.map Prod.snd

def isEnded : Progress σ → Bool
  | .ended => true
  | _ => false

def taskDone? (s : Server σ) (p : Work → Bool) : Option Bool :=
  ((s.lastTask? p).bind (s.tasks[·]?)).map fun t => isEnded t.progress

def endTask (s : Server σ) (i : Nat) : Server σ :=
  match s.tasks[i]? with
  | none => s
  | some t =>
    let s := { s with tasks := s.tasks.set i { t with progress := .ended } }
    match t.progress with
    | .writing ticket _ => s.cancel ticket
    | _ => s

def endLast (s : Server σ) (p : Work → Bool) : Server σ :=
  match s.lastTask? p with
  | some i => s.endTask i
  | none => s

def abort (s : Server σ) (id : ConnId) : Server σ :=
  (s.endLast (isPingerOf id)).endLast (isCountdownOf id)

def modifyClient (s : Server σ) (i : Nat) (g : Client → Client) : Server σ :=
  { s with clients := s.clients.modify i g }

def joinScript (c : Client) : Script σ Next := do
  Script.change (·.count (.opened c.side) 1)
  Script.change (·.count (.active c.side) 1)
  match c.side with
  | .lobby =>
    Lobby.enter c.room c.id
    return .again
  | .table =>
    match ← Tableside.join c.room c.id with
    | .ok _ => return .again
    | .error _ =>
      Script.closeOne c.id
      Script.change (·.count (.active c.side) (-1))
      return .finish

def leaveScript (c : Client) : Script σ Next := do
  match c.side with
  | .lobby => Lobby.leave c.room c.id
  | .table => Tableside.leave c.room c.id
  Script.closeOne c.id
  Script.change (·.count (.active c.side) (-1))
  return .finish

def countOutcome (side : Side) (o : Outcome) (f : Floor σ) : Floor σ :=
  match o with
  | .ignored reason => f.count (.ignored side reason) 1
  | .applied => if side = .table then f.count .bets 1 else f

def receive (c : Client) (raw : String) : Script σ Outcome :=
  match c.side with
  | .lobby => Lobby.receive c.room c.user raw
  | .table => Tableside.receive c.room c.user raw

/-- Takes a frame that the limiter has let pass or not. -/
def frameScript (c : Client) (raw : String) (admitted : Bool) : Script σ Next := do
  Script.change (·.count (.received c.side) 1)
  if admitted then
    let outcome ← receive c raw
    Script.change (countOutcome c.side outcome)
    if ← Script.look (·.isClosed c.id) then return .leave else return .again
  else
    Script.change (countOutcome c.side (.ignored .rateLimited))
    return .again

def malformedScript (c : Client) : Script σ Next := do
  Script.change (countOutcome c.side (.ignored .malformed))
  return .again

def takeFrame (s : Server σ) (i : Nat) (c : Client) (raw : String) : Server σ × Script σ Next :=
  let (admitted, limiter) := c.limiter.check s.now
  (s.modifyClient i ({ · with limiter := limiter }), frameScript c raw admitted)

/-- The answer to a ping goes past the line of the connection. -/
def answerPing (s : Server σ) (id : ConnId) (data : String) : Server σ :=
  s.onFloor (·.modifyConnection id fun c => (c.attempt (.pong data)).2)

/-- What a message leads to. One that is too long ends the socket; pings and pongs only show that the
client is there. -/
def messageScript (s : Server σ) (i : Nat) (c : Client) (m : Message) : Server σ × Script σ Next :=
  match m with
  | .text raw =>
    if raw.utf8ByteSize > s.floor.config.maxFrameBytes then (s, pure .leave)
    else s.takeFrame i c raw
  | .binary bytes =>
    if bytes.length > s.floor.config.maxFrameBytes then (s, pure .leave)
    else
      match Text.Utf8.text? bytes with
      | some raw => s.takeFrame i c raw
      | none => (s, malformedScript c)
  | .ping data => (s.answerPing c.id data, pure .again)
  | .pong _ => (s, pure .again)
  | .close | .hangUp => (s, pure .leave)

def attendScript? (s : Server σ) (i : Nat) (c : Client) : Attending → Option (Server σ × Script σ Next)
  | .joining => some (s, joinScript c)
  | .leaving => some (s, leaveScript c)
  | .listening deadline =>
    match c.inbox with
    | m :: rest => some ((s.modifyClient i ({ · with inbox := rest })).messageScript i c m)
    | [] => if deadline ≤ s.now then some (s, pure .leave) else none

def script? (s : Server σ) : Work → Option (Server σ × Script σ Next)
  | .countdown id shape start index =>
    if start + index * shape.tick ≤ s.now then
      some (s, writeOrFinish id (.frame (shape.frame index))
        (if (shape.valueAt index).2 then .again else .finish))
    else none
  | .ping id _ due => if due ≤ s.now then some (s, writeOrFinish id (.ping pingData) .again) else none
  | .attend i phase => (s.clients[i]?).bind fun c => s.attendScript? i c phase

def setTask (s : Server σ) (i : Nat) (t : Task σ) : Server σ := { s with tasks := s.tasks.set i t }

def startListening (s : Server σ) (i client : Nat) (c : Client) : Server σ :=
  let s := s.setTask i ⟨.attend client (.listening (s.now + s.floor.config.readTimeout)), .ready⟩
  let s := if c.side = .table then s.startCountdown c.id (countdownShape s.floor.config) else s
  s.startPinger c.id s.floor.config.pingInterval

def afterAttending (s : Server σ) (i client : Nat) (phase : Attending) (next : Next) : Server σ :=
  match s.clients[client]?, phase, next with
  | some c, .joining, .again => s.startListening i client c
  | some c, .listening _, .leave =>
    (s.setTask i ⟨.attend client .leaving, .ready⟩).abort c.id
  | _, .listening _, .again =>
    s.setTask i ⟨.attend client (.listening (s.now + s.floor.config.readTimeout)), .ready⟩
  | _, _, _ =>
    (s.setTask i ⟨.attend client phase, .ended⟩).modifyClient client ({ · with ended := true })

def afterScript (s : Server σ) (i : Nat) (work : Work) (next : Next) : Server σ :=
  match work, next with
  | .countdown id shape start index, .again =>
    s.setTask i ⟨.countdown id shape start (index + 1), .ready⟩
  | .ping id interval due, .again => s.setTask i ⟨.ping id interval (due + interval), .ready⟩
  | .attend client phase, next => s.afterAttending i client phase next
  | work, _ => s.setTask i ⟨work, .ended⟩

def goOn (s : Server σ) (i : Nat) (work : Work) (script : Script σ Next) : Server σ :=
  match drive script s with
  | (.finished next, s) => s.afterScript i work next
  | (.blocked ticket resume, s) => s.setTask i ⟨work, .writing ticket resume⟩

def runTask (s : Server σ) (i : Nat) : Bool × Server σ :=
  match s.tasks[i]? with
  | none => (false, s)
  | some t =>
    match t.progress with
    | .ended => (false, s)
    | .ready =>
      match s.script? t.work with
      | none => (false, s)
      | some (s, script) => (true, s.goOn i t.work script)
    | .writing ticket resume =>
      match s.takeResult? ticket with
      | none => (false, s)
      | some (r, s) => (true, s.goOn i t.work (resume r))

def runTasks (s : Server σ) (i : Nat) : Nat → Bool × Server σ
  | 0 => (false, s)
  | n + 1 =>
    let (a, s) := s.runTask i
    let (b, s) := s.runTasks (i + 1) n
    (a || b, s)

end Cardroom.Server
