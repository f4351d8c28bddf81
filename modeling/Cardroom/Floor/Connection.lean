import Cardroom.Error
import Cardroom.Frame.Basic
/-!
Live connections to clients. A connection writes to a sink whose reactions are part of its state, and
keeps a record of every attempt. After it is closed it attempts nothing more; closing itself is
attempted once, and the connection counts as closed even if that attempt fails.
-/

namespace Cardroom

inductive Payload where
  | frame (f : Frame)
  | text (s : String)
  | ping (data : String)
  | pong (data : String)
  | close
  deriving DecidableEq

namespace Payload

def text? : Payload → Option String
  | .frame f => some f.text
  | .text s => some s
  | _ => none

def frame? : Payload → Option Frame
  | .frame f => some f
  | _ => none

end Payload

/-- What a sink does with one write: takes it after some milliseconds, refuses it with a reason,
reports that nobody is there, or never comes back. -/
inductive Reaction where
  | takes (delay : Nat)
  | refuses (reason : String)
  | gone
  | stalls
  deriving DecidableEq, Repr

namespace Reaction

def duration (timeout : Nat) : Reaction → Nat
  | .takes delay => min delay timeout
  | .stalls => timeout
  | _ => 0

/-- A write that takes just as long as it may succeeds. -/
def result (timeout : Nat) : Reaction → Except TransportError Unit
  | .takes delay => if delay ≤ timeout then .ok () else .error .timeout
  | .refuses reason => .error (.send reason)
  | .gone => .error .closed
  | .stalls => .error .timeout

end Reaction

structure Sink where
  upcoming : List Reaction
  lasting : Reaction
  deriving DecidableEq, Repr

namespace Sink

def steady (r : Reaction) : Sink := ⟨[], r⟩

def react : Sink → Reaction × Sink
  | ⟨[], r⟩ => (r, ⟨[], r⟩)
  | ⟨r :: rs, last⟩ => (r, ⟨rs, last⟩)

/-- A client that has gone does not come back. -/
def change (s : Sink) (r : Reaction) : Sink := if s.lasting = .gone then s else .steady r

end Sink

structure Attempt where
  payload : Payload
  result : Except TransportError Unit

namespace Attempt

def isDelivered (a : Attempt) : Bool :=
  match a.result with
  | .ok _ => true
  | .error _ => false

end Attempt

abbrev ConnId := Nat

structure Connection where
  user : UserId
  sink : Sink
  timeout : Nat
  closed : Bool
  attempts : List Attempt

namespace Connection

def fresh (user : UserId) (sink : Sink) (timeout : Nat) : Connection :=
  ⟨user, sink, timeout, false, []⟩

def receivedSince (c : Connection) (n : Nat) : List Payload :=
  (((c.attempts.take (c.attempts.length - n)).filter Attempt.isDelivered).map
    Attempt.payload).reverse

def received (c : Connection) : List Payload := c.receivedSince 0

def frames (c : Connection) : List Frame := c.received.filterMap Payload.frame?

def react (c : Connection) : Reaction × Connection :=
  let (r, sink) := c.sink.react
  (r, { c with sink := sink })

def record (c : Connection) (p : Payload) (r : Reaction) : Connection :=
  { c with attempts := ⟨p, r.result c.timeout⟩ :: c.attempts }

def attempt (c : Connection) (p : Payload) : Except TransportError Unit × Connection :=
  let (r, c) := c.react
  (r.result c.timeout, c.record p r)

def write (c : Connection) (p : Payload) : Except TransportError Unit × Connection :=
  if c.closed then (.error .closed, c) else c.attempt p

def markClosed (c : Connection) : Connection := { c with closed := true }

def close (c : Connection) : Connection :=
  if c.closed then c else (c.markClosed.attempt .close).2

end Connection

end Cardroom
