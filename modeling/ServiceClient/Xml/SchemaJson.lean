import ServiceClient.Json.Plain
import ServiceClient.Xml.Schema

/-!
Schemas, nodes and trees in JSON. A node's info is a short string, with an at-sign in front of an
attribute's name, or an object if it has a namespace; a tree is the list of its nodes in document
order, each with its depth.
-/

namespace ServiceClient

def ScalarType.all : List ScalarType :=
  [.string, .boolean, .signed 8, .signed 16, .signed 32, .signed 64, .unsigned 8, .unsigned 16,
    .unsigned 32, .unsigned 64, .single, .double]

def ScalarType.ofName? (name : String) : Option ScalarType :=
  ScalarType.all.find? (·.name == name)

/-- Without a name, dates as in RFC 3339. -/
def Time.TimestampFormat.ofJson? : Json → Option Time.TimestampFormat
  | .null => some .dateTime
  | j => j.string?.bind fun name =>
    [TimestampFormat.epochSeconds, .dateTime, .httpDate].find? (·.name == name)

namespace Xml

def Namespace.ofJson? : Json → Option Namespace
  | .array [.string nsPrefix, .string uri] => some ⟨nsPrefix, uri⟩
  | _ => none

def Namespace.toJson (ns : Namespace) : Json :=
  .array [.string ns.nsPrefix, .string ns.uri]

def Location.ofJson : Json → Location
  | .string "attribute" => .attribute
  | .string "text" => .text
  | _ => .element

def NodeInfo.ofJson? : Json → Option NodeInfo
  | .string "#text" => some .forText
  | .string s =>
    match s.toList with
    | '@' :: name => some (.forAttribute (String.ofList name))
    | _ => some (.forElement s)
  | .object members => do
    let j := Json.object members
    let name ← (j.member "name").string?
    pure ⟨name, .ofJson (j.member "loc"), Namespace.ofJson? (j.member "ns")⟩
  | _ => none

def memberOfJson? (schema : Json → Option Schema) : Json → Option (Member × Schema)
  | .array [.string key, info, j] => do
    let info ← NodeInfo.ofJson? info
    pure (⟨key, info⟩, ← schema j)
  | _ => none

def schemaWithin : (height : Nat) → Json → Option Schema
  | 0, _ => none
  | height + 1, j => do
    let inner (key : String) : Option Schema := schemaWithin height (j.member key)
    let info (key : String) : Option NodeInfo := NodeInfo.ofJson? (j.member key)
    let format := Time.TimestampFormat.ofJson? (j.member "format")
    let flattened := (j.member "flattened").isTrue
    let list (optional : Bool) : Option Schema := do
      pure (.list optional (← inner "member") (← info "info") flattened)
    let map (optional : Bool) : Option Schema := do
      pure (.map optional (← inner "value") (← info "key_info") (← info "value_info") flattened)
    let record (optional : Bool) : Option Schema := do
      pure (.record optional
        (← (j.member "fields").items.mapM (memberOfJson? (schemaWithin height))))
    match ← (j.member "t").string? with
    | "opt" =>
      let of := j.member "of"
      let name ← of.string? <|> (of.member "t").string?
      pure (.optional (← ScalarType.ofName? name))
    | "timestamp" => format.map .timestamp
    | "opt_timestamp" => format.map .optionalTimestamp
    | "blob" => some .blob
    | "list" => list false
    | "opt_list" => list true
    | "map" => map false
    | "opt_map" => map true
    | "struct" => record false
    | "opt_struct" => record true
    | "take" => (inner "of").map .taken
    | "meta" => some .inspection
    | name => (ScalarType.ofName? name).map .scalar

def Schema.describedBy? (j : Json) : Option Schema :=
  schemaWithin (j.height + 1) j

def nodeJson (depth : Nat) (n : Node) : Json :=
  match n.info.location with
  | .element => .array [.string "E", .ofNat depth, .string n.info.name, .ofOption .string n.nsPrefix,
      .ofOption Namespace.toJson n.info.ns]
  | .attribute =>
    .array [.string "A", .ofNat depth, .string n.info.name, .ofOption .string n.content]
  | .text => .array [.string "T", .ofNat depth, .ofOption .string n.content]

mutual

def Tree.linesJson (depth : Nat) : Tree → List Json
  | .node _ value children => nodeJson depth value :: treesJson (depth + 1) children

def treesJson (depth : Nat) : List Tree → List Json
  | [] => []
  | t :: ts => t.linesJson depth ++ treesJson depth ts

end

mutual

def Tree.ids : Tree → List NodeId
  | .node id _ children => id :: idsAmong children

def idsAmong : List Tree → List NodeId
  | [] => []
  | t :: ts => t.ids ++ idsAmong ts

end

def Document.toJson (d : Document) : Json :=
  .array (d.rootTree.linesJson 0)

end Xml

end ServiceClient
