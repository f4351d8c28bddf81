import Cardroom.Http.Request
import Cardroom.Server.Clock

namespace Cardroom.Http

inductive Route where
  | health
  | socket (side : Side) (room : List UInt8)
  deriving DecidableEq, Repr

def socketRoute? (stem : String) (side : Side) (path : List Char) : Option Route :=
  if stem.toList.isPrefixOf path then
    let room := path.drop stem.length
    if room.isEmpty || room.contains '/' then none
    else some (.socket side (Text.Utf8.encode (String.ofList room)))
  else none

def Route.ofPath? (path : String) : Option Route :=
  if path = "/health" then some .health
  else
    (socketRoute? "/api/ws/room/" .lobby path.toList).orElse fun _ =>
      socketRoute? "/api/ws/blackjackwebsocket/" .table path.toList

inductive Body where
  | none
  | text (s : String)
  | json (j : Json)

structure Response where
  status : Nat
  body : Body

namespace Response

def empty (status : Nat) : Response := ⟨status, .none⟩

def unauthorized (e : AuthError) : Response := ⟨401, .text e.clientMessage⟩

def withoutBody (r : Response) : Response :=
  match r.body with
  | .text _ => { r with body := .text "" }
  | _ => { r with body := .none }

end Response

def isPart (part : List Char) : List Char → Bool
  | [] => part.isEmpty
  | c :: r => part.isPrefixOf (c :: r) || isPart part r

def lowerHeader? (r : Request) (name : String) : Option (List Char) :=
  ((r.header? name).bind Text.Utf8.text?).map fun value => value.toList.map Char.toLower

def handshakeFault? (r : Request) (upgradable : Bool) : Option Nat :=
  if r.method ≠ "GET" then some 405
  else if !(lowerHeader? r "connection").any (isPart "upgrade".toList)
      || lowerHeader? r "upgrade" ≠ some "websocket".toList
      || (r.header? "sec-websocket-key").isNone
      || lowerHeader? r "sec-websocket-version" ≠ some "13".toList then some 400
  else if upgradable then none
  else some 426

/-- What a socket request comes to. A room that is refused, but not for the token, opens a socket
that is dropped at once. -/
inductive Reply where
  | respond (r : Response)
  | attend (side : Side) (room : RoomCode) (user : UserId)
  | drop

/-- The answer that a client gets. A socket that is going to be dropped opens like any other. -/
def Reply.answer : Reply → Response
  | .respond r => r
  | .attend .. | .drop => .empty 101

variable {σ : Type} [RoomStore σ]

/-- Who asks for a socket has to be admitted to the room; an error other than in the token shows only
after the handshake. -/
def socketReply (s : Server σ) (r : Request) (upgradable : Bool) (side : Side) (room : String)
    (token : Option String) : Reply :=
  let admission := Door.letIn s.floor s.timeOfDay token room
  match admission with
  | .error (.auth e) => .respond (.unauthorized e)
  | _ =>
    match handshakeFault? r upgradable, admission with
    | some status, _ => .respond (.empty status)
    | none, .ok (user, room) => .attend side room.code user
    | none, .error _ => .drop

def healthReport (s : Server σ) : Json :=
  .record [("status", .ofText "healthy"), ("version", .ofText "0.1.0"), ("database", .bool true),
    ("tables", .ofNat s.floor.tables.size)]

def getReply (s : Server σ) (r : Request) (upgradable : Bool) : Route → Reply
  | .health => .respond ⟨200, .json (healthReport s)⟩
  | .socket side room =>
    match Text.Utf8.text? (Text.Percent.decode room), queryToken? r.query with
    | some room, some queryToken =>
      socketReply s r upgradable side room (token? (r.headerValues "authorization") queryToken)
    | _, _ => .respond (.empty 400)

def Reply.withoutBody : Reply → Reply
  | .respond r => .respond r.withoutBody
  | reply => reply

def reply (s : Server σ) (r : Request) (upgradable : Bool) : Reply :=
  if r.method = "OPTIONS" then .respond (.empty 200)
  else
    match Route.ofPath? r.path with
    | none => .respond (.empty 404)
    | some route =>
      if r.method = "GET" then getReply s r upgradable route
      else if r.method = "HEAD" then (getReply s r upgradable route).withoutBody
      else .respond (.empty 405)

inductive Opening where
  | refused (r : Response)
  | dropped
  | opened (client : Nat)

def openSocket (s : Server σ) (r : Request) : Opening × Server σ :=
  match reply s r true with
  | .respond response => (.refused response, s)
  | .drop => (.dropped, s)
  | .attend side room user => (.opened s.clients.length, (s.openClient side room user).settle)

def handshakeHeaders : List (String × List UInt8) :=
  [("connection", "upgrade"), ("upgrade", "websocket"), ("sec-websocket-version", "13"),
    ("sec-websocket-key", "dGhlIHNhbXBsZSBub25jZQ==")].map fun (name, value) =>
      (name, Text.Utf8.encode value)

end Cardroom.Http
