import Cardroom.Server.Tasks

namespace Cardroom

inductive Sight where
  | payload (p : Payload)
  | ended

namespace Client

def reply? : Payload → Option Message
  | .ping data => some (.pong data)
  | .close => some .close
  | _ => none

def isGoodbye : Payload → Bool
  | .close => true
  | _ => false

def react (c : Client) (own : Connection) : Client :=
  let news := own.receivedSince c.reacted
  let replies := if c.silent || c.ended then [] else news.filterMap reply?
  { c with
    inbox := c.inbox ++ replies
    reacted := own.attempts.length
    silent := c.silent || news.any isGoodbye }

def hasNews (c : Client) (own : Connection) : Bool :=
  c.seen.isNone && c.reacted < own.attempts.length

def send (c : Client) (m : Message) : Client := { c with inbox := c.inbox ++ [m] }

def canSend (c : Client) : Bool := !c.silent && !c.ended

def lookAway (c : Client) (count : Nat) : Client :=
  { c with seen := some (c.seen.getD count) }

def sights (c : Client) (received : List Payload) : List Sight :=
  match c.seen with
  | some n => (received.take n).map .payload
  | none => received.map .payload ++ if c.ended then [.ended] else []

end Client

namespace Server

variable {σ : Type} [RoomStore σ]

def reactClient (s : Server σ) (i : Nat) : Bool × Server σ :=
  match s.clients[i]? with
  | none => (false, s)
  | some c =>
    match s.floor.connection? c.id with
    | none => (false, s)
    | some own => if c.hasNews own then (true, s.modifyClient i (·.react own)) else (false, s)

def reactClients (s : Server σ) (i : Nat) : Nat → Bool × Server σ
  | 0 => (false, s)
  | n + 1 =>
    let (a, s) := s.reactClient i
    let (b, s) := s.reactClients (i + 1) n
    (a || b, s)

/-- Takes a client in whose socket has been opened; it joins as soon as the server comes to it. -/
def openClient (s : Server σ) (side : Side) (room : RoomCode) (user : UserId) : Server σ :=
  let id := s.floor.nextId
  let s := s.onFloor (·.openConnection id user (.steady (.takes 0)))
  let client : Client := ⟨side, room, user, id, [], .perConnection, 0, none, false, false⟩
  { s with clients := s.clients ++ [client] }.addTask (.attend s.clients.length .joining) .ready

def sendMessage (s : Server σ) (i : Nat) (m : Message) : Bool × Server σ :=
  if (s.clients[i]?).any Client.canSend then (true, s.modifyClient i (·.send m)) else (false, s)

def sendGoodbye (s : Server σ) (i : Nat) : Bool × Server σ :=
  let (sent, s) := s.sendMessage i .close
  (sent, s.modifyClient i ({ · with silent := true }))

def receivedBy (s : Server σ) (c : Client) : List Payload := s.floor.received c.id

def mute (s : Server σ) (i : Nat) : Server σ :=
  match s.clients[i]? with
  | none => s
  | some c => s.modifyClient i (·.lookAway (s.receivedBy c).length)

def cut (s : Server σ) (i : Nat) : Server σ :=
  match s.clients[i]? with
  | none => s
  | some c =>
    let s := s.mute i
    let s := s.modifyClient i fun c => { c.send .hangUp with silent := true }
    s.onFloor (·.modifyConnection c.id fun c => { c with sink := c.sink.change .gone })

def sights (s : Server σ) (i : Nat) : List Sight :=
  match s.clients[i]? with
  | none => []
  | some c => c.sights (s.receivedBy c)

end Server

end Cardroom
