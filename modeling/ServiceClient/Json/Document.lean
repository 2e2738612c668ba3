import ServiceClient.Json.Shape
import ServiceClient.Text.Blank

/-!
JSON documents in message bodies. A body that holds nothing but blanks reads as an empty object.
-/

namespace ServiceClient.Json

open Text (Octets)

def emptyObject : Octets := Text.encode "\x7b\x7d"

/-- The form feed is a blank here, though it is none between the parts of a text. -/
def documentText (body : Octets) : Octets :=
  if body.all Text.isAsciiBlank then emptyObject else body

def readDocument (body : Octets) : Except JsonFault Json :=
  parse (documentText body)

def Shape.readDocument (shape : Shape) (body : Octets) : Except JsonFault Json :=
  shape.parse (documentText body)

def writeDocument (j : Json) : Octets :=
  Text.encode j.text

end ServiceClient.Json
