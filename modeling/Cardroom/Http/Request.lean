import Cardroom.Text.Percent

namespace Cardroom.Http

/-- The names of headers are in lower case; a header may come more than once. -/
structure Request where
  method : String
  path : String
  query : String
  headers : List (String × List UInt8)
  deriving Repr

namespace Request

/-- Splits the target of a request at its question mark. A fragment at its end is not part of it. -/
def ofTarget (method target : String) (headers : List (String × List UInt8)) : Request :=
  let cs := target.toList.takeWhile (· != '#')
  ⟨method, String.ofList (cs.takeWhile (· != '?')),
    String.ofList ((cs.dropWhile (· != '?')).drop 1),
    headers.map fun (name, value) => (name.toLower, value)⟩

def headerValues (r : Request) (name : String) : List (List UInt8) :=
  (r.headers.filter (·.1 = name)).map Prod.snd

def header? (r : Request) (name : String) : Option (List UInt8) := (r.headerValues name).head?

end Request

def headerText? (value : List UInt8) : Option (List Char) :=
  if value.all fun b => (0x20 ≤ b && b < 0x7F) || b == 0x09 then
    some (value.map fun b => Char.ofNat b.toNat)
  else none

def isBlank (c : Char) : Bool := c = ' ' || c = '\t'

def trim (cs : List Char) : List Char :=
  ((cs.dropWhile isBlank).reverse.dropWhile isBlank).reverse

/-- What follows the word `Bearer`, where that word is followed by a blank or nothing. -/
def bearer? : List Char → Option (List Char)
  | 'B' :: 'e' :: 'a' :: 'r' :: 'e' :: 'r' :: rest =>
    match rest with
    | [] => some []
    | c :: r => if c = ' ' then some (c :: r) else none
  | _ => none

def credentials? (authorization : List (List UInt8)) : Option (List Char) :=
  ((authorization.head?.bind headerText?).bind bearer?).map trim

/-- The token in a query; fails if there are two. -/
def queryToken? (query : String) : Option (Option String) :=
  match (Text.Percent.pairs (Text.Utf8.encode query)).filter (·.1 = "token") with
  | [] => some none
  | [(_, token)] => some (some token)
  | _ => none

def token? (authorization : List (List UInt8)) (queryToken : Option String) : Option String :=
  match credentials? authorization with
  | some [] => none
  | some cs => some (String.ofList cs)
  | none => queryToken

end Cardroom.Http
