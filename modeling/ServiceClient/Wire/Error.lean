/-!
Why a value could not be read from a document or written into one.
-/

namespace ServiceClient

inductive JsonFault where
  | data
  | syntaxError
  deriving DecidableEq, Repr

def JsonFault.message : JsonFault → String
  | .data => "unexpected shape"
  | .syntaxError => "malformed text"

inductive WireError where
  | missingValue (name : String)
  | invalidValue (value target : String)
  | malformed (reason : String)
  | write (reason : String)
  | json (fault : JsonFault)
  deriving DecidableEq, Repr

def WireError.message : WireError → String
  | .missingValue name => s!"missing required value: {name}"
  | .invalidValue value target => s!"invalid value '{value}' for {target}"
  | .malformed reason => s!"malformed document: {reason}"
  | .write reason => s!"failed to write document: {reason}"
  | .json fault => s!"json error: {fault.message}"

end ServiceClient
