import ServiceClient.Error

/-!
Host names with variables in braces. A brace that closes nothing is refused after the last variable
only; a name must not be empty or hold an opening brace.
-/

namespace ServiceClient

inductive EndpointError where
  | hostnameMissing
  | unresolvedVariable (name : String)
  | malformedTemplate (template : String)
  | invalidUrl (reason : String)
  deriving DecidableEq, Repr

namespace EndpointError

def message : EndpointError → String
  | .hostnameMissing => "endpoint hostname is missing from both call and default metadata"
  | .unresolvedVariable name => s!"host template variable '{name}' has no value"
  | .malformedTemplate template => s!"malformed host template '{template}'"
  | .invalidUrl reason => s!"invalid endpoint url: {reason}"

def toClientError (e : EndpointError) : ClientError := .endpointResolution e.message

end EndpointError

namespace Endpoint

inductive TemplateFault where
  | malformed
  | unresolved (name : String)
  deriving DecidableEq, Repr

def renderChars (lookup : String → Option String) (s : List Char) :
    Except TemplateFault (List Char) :=
  match hs : Text.splitFirst? (· == '{') s with
  | none => if '}' ∈ s then .error .malformed else .ok s
  | some (literal, after) =>
    match ha : Text.splitFirst? (· == '}') after with
    | none => .error .malformed
    | some (name, rest) =>
      have : rest.length < s.length := by
        obtain ⟨_, _, rfl⟩ := Text.append_of_splitFirst? hs
        obtain ⟨_, _, rfl⟩ := Text.append_of_splitFirst? ha
        simp; omega
      if name.isEmpty ∨ '{' ∈ name then .error .malformed
      else match lookup (String.ofList name) with
        | none => .error (.unresolved (String.ofList name))
        | some value =>
          match renderChars lookup rest with
          | .ok more => .ok (literal ++ value.toList ++ more)
          | .error e => .error e
  termination_by s.length

def renderTemplate (lookup : String → Option String) (template : String) :
    Except EndpointError String :=
  match renderChars lookup template.toList with
  | .ok host => .ok (String.ofList host)
  | .error .malformed => .error (.malformedTemplate template)
  | .error (.unresolved name) => .error (.unresolvedVariable name)

end Endpoint

end ServiceClient
