import ServiceClient.Json.Document
import ServiceClient.Pipeline.Binding
import ServiceClient.Xml.ValueJson

/-!
Reports of errors in the bodies of failures: a kind, by which the models of errors are found, and a
message.
-/

namespace ServiceClient.Pipeline

open Text (Octets)

structure ErrorReport where
  kind : Option String
  message : Option String
  deriving DecidableEq, Repr

namespace ErrorReport

def shape : Json.Shape :=
  .record false false [("__type", false, .nullable .string), ("message", false, .nullable .string)]

def ofJsonBody (body : Octets) : Except JsonFault ErrorReport :=
  if body.isEmpty then .ok ⟨none, none⟩
  else (shape.parse body).map fun j => ⟨(j.member "__type").string?, (j.member "message").string?⟩

def schema : Xml.Schema :=
  .record false
    [(⟨"error", .forElement "Error"⟩,
      .record false
        [(⟨"kind", .forElement "Code"⟩, .optional .string),
          (⟨"message", .forElement "Message"⟩, .optional .string)])]

def ofXmlBody (body : Octets) : Except WireError ErrorReport :=
  (Xml.readDocument "" schema body).map fun v =>
    let j := v.toJson.member "error"
    ⟨(j.member "kind").string?, (j.member "message").string?⟩

/-- The header names the kind where the body does not. -/
def kind? (r : ErrorReport) (parts : ResponseParts) : Option String :=
  r.kind <|> errorType? parts.headers

end ErrorReport

def ErrorBinding.ofReports (read : Octets → Except WireError ErrorReport)
    (models : String → Option ErrorModel) : ErrorBinding := fun parts octets => do
  let report ← read octets
  let kind := report.kind? parts
  pure (match kind.bind models with
    | some m => .modeled (m.error kind report.message)
    | none => .unknown ⟨kind, report.message⟩)

end ServiceClient.Pipeline
