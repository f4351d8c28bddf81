import Cardroom.Room

namespace Cardroom

inductive TransportError where
  | closed
  | timeout
  | send (reason : String)
  deriving DecidableEq, Repr

def TransportError.message : TransportError → String
  | .closed => "Connection closed"
  | .timeout => "Write timed out"
  | .send reason => "Send failed: " ++ reason

inductive DatabaseFault where
  | poolTimedOut
  | poolClosed
  | rowNotFound
  | workerCrashed
  | protocol (detail : String)
  | columnNotFound (name : String)
  deriving DecidableEq, Repr

def DatabaseFault.message : DatabaseFault → String
  | .poolTimedOut => "pool timed out while waiting for an open connection"
  | .poolClosed => "attempted to acquire a connection on a closed pool"
  | .rowNotFound => "no rows returned by a query that expected to return at least one row"
  | .workerCrashed => "attempted to communicate with a crashed background worker"
  | .protocol detail => "encountered unexpected or invalid data: " ++ detail
  | .columnNotFound name => "no column found for name: " ++ name

inductive StoreError where
  | database (fault : DatabaseFault)
  | roomNotFound (room : RoomCode)
  | unavailable (reason : String)
  deriving DecidableEq

namespace StoreError

def message : StoreError → String
  | .database fault => "Database error: " ++ fault.message
  | .roomNotFound room => "Room not found: " ++ room.text
  | .unavailable reason => "Store unavailable: " ++ reason

/-- A pool that yields no connection makes the store unavailable; other faults keep their cause. -/
def ofDatabase (fault : DatabaseFault) : StoreError :=
  match fault with
  | .poolTimedOut | .poolClosed => .unavailable fault.message
  | _ => .database fault

end StoreError

inductive TokenFault where
  | malformed
  | badSignature
  | expired
  | audience
  | algorithm
  | missingExpiry
  | json
  | base64
  deriving DecidableEq, Repr

namespace TokenFault

def name : TokenFault → String
  | .malformed => "InvalidToken"
  | .badSignature => "InvalidSignature"
  | .expired => "ExpiredSignature"
  | .audience => "InvalidAudience"
  | .algorithm => "InvalidAlgorithm"
  | .missingExpiry => "MissingRequiredClaim"
  | .json => "Json"
  | .base64 => "Base64"

def describe? : TokenFault → Option String
  | .missingExpiry => some "Missing required claim: exp"
  | .json | .base64 => none
  | fault => some fault.name

end TokenFault

inductive AuthError where
  | missingToken
  | invalidToken (fault : TokenFault)
  | invalidUser (user : UserId)
  deriving DecidableEq, Repr

namespace AuthError

def message? : AuthError → Option String
  | .missingToken => some "Missing token"
  | .invalidToken fault => fault.describe?.map ("Invalid token: " ++ ·)
  | .invalidUser user => some s!"Token carries invalid user id {user}"

def clientMessage : AuthError → String
  | .missingToken => "Missing token"
  | _ => "Invalid token"

end AuthError

inductive RoomError where
  | auth (e : AuthError)
  | notFound (room : RoomCode)
  | notMember (room : RoomCode) (user : UserId)
  | validation (reason : String)
  | transport (e : TransportError)
  | store (e : StoreError)
  deriving DecidableEq

namespace RoomError

def message? : RoomError → Option String
  | .auth e => e.message?.map ("Authentication failed: " ++ ·)
  | .notFound room => some ("Room not found: " ++ room.text)
  | .notMember room user => some s!"User {user} is not a member of room {room.text}"
  | .validation reason => some ("Validation error: " ++ reason)
  | .transport e => some ("Transport error: " ++ e.message)
  | .store e => some ("Store error: " ++ e.message)

/-- What the client is told. A room it is not in looks like a room that is not there, and the
state of the store stays hidden. -/
def clientMessage : RoomError → String
  | .auth e => e.clientMessage
  | .notFound _ | .notMember _ _ => "Room not found"
  | .validation reason => "Validation error: " ++ reason
  | .transport e => "Transport error: " ++ e.message
  | .store _ => "Internal server error"

/-- Bad credentials are refused before the socket opens; in all other cases it opens and is closed
without a frame. -/
def closesSilently : RoomError → Bool
  | .auth _ => false
  | _ => true

def ofFault (fault : RoomCode.Fault) : RoomError := .validation fault.message

end RoomError

end Cardroom
