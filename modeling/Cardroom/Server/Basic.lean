import Cardroom.Floor.Door
import Cardroom.Limiter
/-!
A server at work: the floor, a clock in milliseconds, the writes that are under way or wait for their
turn, the tasks that run beside whatever is being done, and the clients on web sockets. Writes to one
connection take turns in the order in which they were asked for.
-/

namespace Cardroom

/-- Stands for the result of a write that had to wait; each connection numbers its own. -/
structure Ticket where
  id : ConnId
  number : Nat
  deriving DecidableEq, Repr

structure Request where
  ticket : Ticket
  payload : Payload

structure UnderWay where
  request : Request
  due : Nat
  reaction : Reaction

structure Line where
  current : UnderWay
  waiting : List Request

inductive Next where
  | again
  | leave
  | finish
  deriving DecidableEq, Repr

inductive Stage (σ α : Type) where
  | finished (a : α)
  | blocked (ticket : Ticket) (resume : Except TransportError Unit → Script σ α)

inductive Message where
  | text (s : String)
  | binary (bytes : List UInt8)
  | ping (data : String)
  | pong (data : String)
  | close
  | hangUp

/-- Where the server's side of a web socket stands: it joins, listens until a deadline, or leaves. -/
inductive Attending where
  | joining
  | listening (deadline : Nat)
  | leaving
  deriving DecidableEq, Repr

/-- What a task does: it counts down at the times `start + n * tick`, pings at intervals, or looks
after a web socket. -/
inductive Work where
  | countdown (id : ConnId) (shape : Countdown) (start : Nat) (index : Nat)
  | ping (id : ConnId) (interval : Nat) (due : Nat)
  | attend (client : Nat) (phase : Attending)

inductive Progress (σ : Type) where
  | ready
  | writing (ticket : Ticket) (resume : Except TransportError Unit → Script σ Next)
  | ended

structure Task (σ : Type) where
  work : Work
  progress : Progress σ

/-- A client on a web socket. What it has been sent is what its connection has received; it has
reacted to the first `reacted` attempts. After `seen` it no longer looks, and once it has said
goodbye, or its line is cut, it sends nothing more. -/
structure Client where
  side : Side
  room : RoomCode
  user : UserId
  id : ConnId
  inbox : List Message
  limiter : FrameLimiter
  reacted : Nat
  seen : Option Nat
  silent : Bool
  ended : Bool

/-- Clients are numbered in the order in which they came; `issued` counts the tickets of each
connection. The time when the clock started is in seconds. -/
structure Server (σ : Type) where
  floor : Floor σ
  now : Nat
  started : Int
  lines : KeyMap ConnId Line
  results : KeyMap Ticket (Except TransportError Unit)
  issued : KeyMap ConnId Nat
  tasks : List (Task σ)
  clients : List Client

namespace Server

variable {σ : Type}

def new (floor : Floor σ) (started : Int) : Server σ where
  floor := floor
  now := 0
  started := started
  lines := .empty
  results := .empty
  issued := .empty
  tasks := []
  clients := []

def timeOfDay (s : Server σ) : Int := s.started + (s.now / 1000 : Nat)

def onFloor (s : Server σ) (c : Floor σ → Floor σ) : Server σ := { s with floor := c s.floor }

end Server

end Cardroom
