import ServiceClient.Number.Integer
import ServiceClient.Text.Utf8
import ServiceClient.Wire.Error

/-!
What can be wrong with an XML document, from its markup up to the values in it.
-/

namespace ServiceClient.Xml

inductive MarkupFault where
  | unknownMarkup
  | unclosedInstruction
  | unclosedDeclaration
  | unclosedComment
  | unclosedDoctype
  | unclosedCData
  | unclosedTag
  | unclosedValue (quote : Char)
  | missingDoctypeName
  | unmatchedClose (name : String)
  | mismatchedClose (expected found : String)
  | unclosedReference
  deriving DecidableEq, Repr

def MarkupFault.message : MarkupFault → String
  | .unknownMarkup => "syntax error: unknown or missed symbol in markup"
  | .unclosedInstruction =>
    "syntax error: processing instruction not closed: `?>` not found before end of input"
  | .unclosedDeclaration =>
    "syntax error: XML declaration not closed: `?>` not found before end of input"
  | .unclosedComment => "syntax error: comment not closed: `-->` not found before end of input"
  | .unclosedDoctype => "syntax error: DOCTYPE not closed: `>` not found before end of input"
  | .unclosedCData => "syntax error: CDATA not closed: `]]>` not found before end of input"
  | .unclosedTag => "syntax error: tag not closed: `>` not found before end of input"
  | .unclosedValue q =>
    s!"syntax error: attribute value not closed: `{q}` not found before end of input"
  | .missingDoctypeName =>
    "ill-formed document: `<!DOCTYPE>` declaration does not contain a name of a document type"
  | .unmatchedClose name =>
    s!"ill-formed document: close tag `</{name}>` does not match any open tag"
  | .mismatchedClose expected found =>
    s!"ill-formed document: expected `</{expected}>`, but `</{found}>` was found"
  | .unclosedReference =>
    "ill-formed document: entity or character reference not closed: `;` not found before end of input"

/-- Positions count octets in the tag after its opening bracket. -/
inductive AttributeFault where
  | expectedEq (position : Nat)
  | expectedValue (position : Nat)
  | unquotedValue (position : Nat)
  | expectedQuote (position : Nat) (quote : Char)
  | duplicated (position first : Nat)
  deriving DecidableEq, Repr

def AttributeFault.message : AttributeFault → String
  | .expectedEq n => s!"position {n}: attribute key must be directly followed by `=` or space"
  | .expectedValue n => s!"position {n}: `=` must be followed by an attribute value"
  | .unquotedValue n => s!"position {n}: attribute value must be enclosed in `\"` or `'`"
  | .expectedQuote n q => s!"position {n}: missing closing quote `{q}` in attribute value"
  | .duplicated n first =>
    s!"position {n}: duplicated attribute, previous declaration at position {first}"

inductive CharacterFault where
  | unexpectedSign
  | number (fault : Number.IntegerFault)
  | notCodepoint (value : Nat)
  | null
  deriving DecidableEq, Repr

def CharacterFault.message : CharacterFault → String
  | .unexpectedSign => "unexpected number sign"
  | .number fault => fault.message
  | .notCodepoint n => s!"`{n}` is not a valid codepoint"
  | .null => "0x0 character is not permitted in XML"

/-- The faults of references inside an attribute value have an octet range of that value. -/
inductive EncodingFault where
  | octets (fault : Text.Utf8Fault)
  | characterData (fault : Text.Utf8Fault)
  | invalidReference (name : String)
  | unknownEntity (name : String)
  | unrecognizedEntity (start stop : Nat) (name : String)
  | unterminatedEntity (start stop : Nat)
  | character (fault : CharacterFault)
  deriving DecidableEq, Repr

def EncodingFault.message : EncodingFault → String
  | .octets fault => fault.message
  | .characterData fault => s!"cannot decode input using UTF-8: {fault.message}"
  | .invalidReference name => s!"invalid character reference &{name};"
  | .unknownEntity name => s!"unknown entity &{name};"
  | .unrecognizedEntity i j name => s!"at {i}..{j}: unrecognized entity `{name}`"
  | .unterminatedEntity i j =>
    s!"Error while escaping character at range {i}..{j}: Cannot find ';' after '&'"
  | .character fault => s!"invalid character reference: {fault.message}"

inductive StructureFault where
  | unclosedElement
  | multipleRoots
  | textOutsideRoot
  deriving DecidableEq, Repr

def StructureFault.message : StructureFault → String
  | .unclosedElement => "unclosed element at end of input"
  | .multipleRoots => "multiple root elements"
  | .textOutsideRoot => "text outside the root element"

end ServiceClient.Xml

namespace ServiceClient

inductive XmlError where
  | markup (fault : Xml.MarkupFault)
  | attribute (fault : Xml.AttributeFault)
  | encoding (fault : Xml.EncodingFault)
  | missingRoot
  | unexpectedRoot (expected found : String)
  | cyclicMove
  | malformed (fault : Xml.StructureFault)
  | value (error : WireError)
  deriving DecidableEq, Repr

namespace XmlError

def message : XmlError → String
  | .markup fault => s!"XML processing error: {fault.message}"
  | .attribute fault => s!"XML attribute error: {fault.message}"
  | .encoding fault => s!"XML encoding error: {fault.message}"
  | .missingRoot => "XML document has no root element"
  | .unexpectedRoot expected found => s!"unexpected root element '{found}', expected '{expected}'"
  | .cyclicMove => "cannot move node under itself or its descendant"
  | .malformed fault => s!"malformed XML document: {fault.message}"
  | .value error => error.message

/-- All that is not about a value makes the document malformed. -/
def toWireError : XmlError → WireError
  | .value error => error
  | error => .malformed error.message

end XmlError

end ServiceClient
