import Cardroom.Digest.Sha256
import Cardroom.Error
import Cardroom.Frame.Reading
import Cardroom.Json.Bytes
import Cardroom.Text.Base64Url

namespace Cardroom.AccessToken

def algorithms : List String :=
  ["HS256", "HS384", "HS512", "ES256", "ES384", "RS256", "RS384", "RS512", "PS256", "PS384",
    "PS512", "EdDSA"]

def algorithm : String := "HS256"

/-- How long after its expiry a token is still accepted, in seconds. -/
def leeway : Int := 60

def signature (secret : String) (signed : List Char) : List UInt8 :=
  Digest.hmacSha256 (Text.Utf8.encode secret) (Text.Utf8.encode (String.ofList signed))

def headerJson : Json := .record [("typ", .ofText "JWT"), ("alg", .ofText algorithm)]

def claimsJson (user : UserId) (expiry : Int) : Json :=
  .record [("user_id", .ofInt user), ("exp", .ofInt expiry)]

def encodePart (j : Json) : List Char := Text.Base64Url.encode (Text.Utf8.encode j.render)

def issue (secret : String) (user : UserId) (expiry : Int) : String :=
  let signed := encodePart headerJson ++ '.' :: encodePart (claimsJson user expiry)
  String.ofList (signed ++ '.' :: Text.Base64Url.encode (signature secret signed))

def splitLast? (separator : Char) : List Char → Option (List Char × List Char)
  | [] => none
  | c :: r =>
    match splitLast? separator r with
    | some (before, behind) => some (c :: before, behind)
    | none => if c = separator then some ([], r) else none

structure Parts where
  header : List Char
  claims : List Char
  signature : List Char

def Parts.ofToken? (token : String) : Option Parts := do
  let (signed, signature) ← splitLast? '.' token.toList
  let (header, claims) ← splitLast? '.' signed
  return ⟨header, claims, signature⟩

def Parts.signed (p : Parts) : List Char := p.header ++ '.' :: p.claims

def textFields : List String :=
  ["typ", "cty", "jku", "kid", "x5u", "x5t", "x5t#S256", "url", "nonce", "enc", "zip"]

def listFields : List String := ["x5c", "crit"]

def keyMembers? : String → Option (List String)
  | "EC" => some ["crv", "x", "y"]
  | "RSA" => some ["n", "e"]
  | "oct" => some ["k"]
  | "OKP" => some ["crv", "x"]
  | _ => none

def isTexts : Json → Bool
  | .array items => items.all fun j => j.text?.isSome
  | _ => false

def isKey : Json → Bool
  | .object members => ((do
      let fields ← Json.fields? members
      let names ← keyMembers? (← (← Json.once? "kty" fields).text?)
      return names.all fun name => ((Json.once? name fields).bind Json.text?).isSome).getD false)
  | _ => false

def isHeaderValue (name : String) (j : Json) : Bool :=
  if textFields.contains name then j.optionalText?.isSome
  else if listFields.contains name then j.isNull || isTexts j
  else if name = "jwk" then j.isNull || isKey j
  else j.text?.isSome

def knownFields : List String := "alg" :: "jwk" :: textFields ++ listFields

/-- The algorithm that a header names. A known field is given at most once; all others hold
texts. -/
def headerAlgorithm? : Json → Option String
  | .object members => do
    let fields ← Json.fields? members
    let name ← (← Json.once? "alg" fields).text?
    if algorithms.contains name
        && knownFields.all (fun known => (Json.named [known] fields).length ≤ 1)
        && fields.all (fun (name, j) => isHeaderValue name j) then some name
    else none
  | _ => none

structure Claims where
  user : UserId
  expiry : Int
  hasAudience : Bool
  deriving DecidableEq, Repr

def isReadableClaim : Json → Bool
  | .number _ => true
  | j => j.isStrict && j.depth < Json.depthLimit

/-- The start of validity is not looked at, but it has to be a single value. -/
def isSingleClaim : Json → Bool
  | .text q => q.text?.isSome
  | .array items => items.isEmpty
  | .object members => members.isEmpty
  | _ => true

def isAudience (j : Json) : Bool := j.text?.isSome || isTexts j

/-- The user is named by `user_id` or by `sub`, not by both; claims that are not known are
skipped unread. -/
def Claims.ofJson? : Json → Option Claims
  | .object members => do
    let fields ← Json.fields? members
    let user ← (← (← Json.atMostOnce? ["user_id", "sub"] fields)).int64?
    let expiry ← (← Json.once? "exp" fields).int64?
    let start ← Json.atMostOnce? ["nbf"] fields
    let issuer ← Json.atMostOnce? ["iss"] fields
    let audience ← Json.atMostOnce? ["aud"] fields
    if start.all isSingleClaim && issuer.all isReadableClaim && audience.all isReadableClaim then
      some ⟨user, expiry, audience.any isAudience⟩
    else none
  | _ => none

/-- A token that is meant for some audience is not meant for this server. -/
def Claims.check (c : Claims) (now : Int) : Except AuthError UserId :=
  if c.expiry < 0 then .error (.invalidToken .missingExpiry)
  else if c.expiry < now - leeway then .error (.invalidToken .expired)
  else if c.hasAudience then .error (.invalidToken .audience)
  else if c.user ≤ 0 then .error (.invalidUser c.user)
  else .ok c.user

def decodePart (part : List Char) : Except AuthError (List UInt8) :=
  match Text.Base64Url.decode? part with
  | some bytes => .ok bytes
  | none => .error (.invalidToken .base64)

def readPart (part : List Char) (read? : Json → Option α) : Except AuthError α := do
  let bytes ← decodePart part
  match (Json.parseBytes? bytes).bind read? with
  | some a => .ok a
  | none => .error (.invalidToken .json)

def verifyParts (secret : String) (now : Int) (p : Parts) : Except AuthError UserId := do
  let name ← readPart p.header headerAlgorithm?
  if name ≠ algorithm then .error (.invalidToken .algorithm)
  else
    let presented ← decodePart p.signature
    if presented ≠ signature secret p.signed then .error (.invalidToken .badSignature)
    else (← readPart p.claims Claims.ofJson?).check now

/-- The user that a token was issued for. The time is in seconds. -/
def verify (secret : String) (now : Int) (token : String) : Except AuthError UserId :=
  if token.isEmpty then .error .missingToken
  else
    match Parts.ofToken? token with
    | some p => verifyParts secret now p
    | none => .error (.invalidToken .malformed)

end Cardroom.AccessToken
