import Cardroom.Json.Strict
import Cardroom.Text.Utf8

namespace Cardroom.Json

/-- Stands for bytes that spell nothing. The letter keeps a backslash or a surrogate before it from
becoming one escape with it, and outside strings it is no word. -/
def strayBytes : List Char := ['x', '\\', 'u', 'd', 'c', '0', '0']

def parseBytes? (bytes : List UInt8) : Option Json :=
  ofChars? ((Text.Utf8.decode bytes).flatMap fun
    | some c => [c]
    | none => strayBytes)

end Cardroom.Json
