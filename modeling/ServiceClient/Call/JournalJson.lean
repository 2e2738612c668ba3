import ServiceClient.Call.ContextJson

/-!
What a journal shows: the way through the steps as short texts, signatures and log entries as
objects. Identifiers show as their numbers.
-/

namespace ServiceClient.Call

namespace Event

def trace? : Event → Option String
  | .removed id found => some s!"removed {id} {found}"
  | .entered id attempt => some (id ++ ">" ++ Nat.repr attempt)
  | .left id success => some (id ++ if success then "<ok" else "<err")
  | _ => none

def signatureJson? : Event → Option Json
  | .signed scheme params attempt =>
    some (.ofMembers (("scheme", .string scheme) ::
      ("attempt_header", .ofOption .ofOctets attempt) :: params.members))
  | _ => none

def logJson? : Event → Option Json
  | .requestLogged attempt method host path =>
    some (.ofMembers [("message", .string "request"), ("attempt", .ofNat attempt),
      ("method", .string method), ("host", .string host), ("path", .string path)])
  | .requestBodyLogged text =>
    some (.ofMembers [("message", .string "request body"), ("body", .string text)])
  | .responseLogged status =>
    some (.ofMembers [("message", .string "response"), ("status", .ofNat status)])
  | .responseBodyLogged text =>
    some (.ofMembers [("message", .string "response body"), ("body", .string text)])
  | _ => none

end Event

def identifierIn (j : Json) : List String :=
  (j.octets?.map Text.decodeLossy).toList.filter Identifier.isIdentifier

mutual

def identifiersIn : Json → List String
  | .string s => identifierIn (.string s)
  | .array items => identifiersAmong items
  | .object members => identifierIn (.object members) ++ identifiersInMembers members
  | _ => []

def identifiersAmong : List Json → List String
  | [] => []
  | j :: rest => identifiersIn j ++ identifiersAmong rest

def identifiersInMembers : List (String × Json) → List String
  | [] => []
  | (_, j) :: rest => identifiersIn j ++ identifiersInMembers rest

end

/-- Puts numbers for the identifiers in fields of this name, in order of appearance; `seen` are those
that have a number. -/
def nameIdentifiers (name : String) (seen : List String) :
    List Http.Header → List Http.Header × List String
  | [] => ([], seen)
  | h :: rest =>
    let text := Text.decodeLossy h.value
    let drawn := h.name == name && Identifier.isIdentifier text
    let known := if !drawn || seen.contains text then seen else seen ++ [text]
    let shown : Http.Header :=
      if drawn then { h with value := Text.encode ("<uuid-" ++ Nat.repr (known.idxOf text) ++ ">") }
      else h
    let (rest, known) := nameIdentifiers name known rest
    (shown :: rest, known)

end ServiceClient.Call
